import Evidentrail.Corpus.Learning
import Evidentrail.Corpus.Sampling

/-!
# Feedback on evidence

The records an answer was given from are rated for its task. A group that was rated
useful in three answers and never rejected, and that a search does not find anyway, is
promoted for the task when it is asked for. What is promoted is kept as a version, whose
parent is the version it takes the place of, so that it can be taken back. A rejection
removes the group from what is promoted and from every version.
-/

namespace Evidentrail

open Rust OrderDual

inductive FeedbackVerdict where
  | useful
  | notUseful
deriving DecidableEq

/-- A row of `feedback_observations`. -/
structure FeedbackObservation where
  taskDigest : Digest
  nativeId : List UInt8
  resultNonce : Digest
  verdict : FeedbackVerdict

/-- The columns `PRIMARY KEY(task_digest, native_id, result_nonce)`. -/
def FeedbackObservation.key (row : FeedbackObservation) : Digest × List UInt8 × Digest :=
  (row.taskDigest, row.nativeId, row.resultNonce)

/-- A row of `feedback_promotions`. -/
structure FeedbackPromotion where
  taskDigest : Digest
  nativeId : List UInt8
deriving DecidableEq

/-- A row of `feedback_policy_versions`. -/
structure FeedbackPolicyVersion where
  taskDigest : Digest
  version : Nat
  parentVersion : Option Nat

/-- The columns `PRIMARY KEY(task_digest, version)`. -/
def FeedbackPolicyVersion.key (row : FeedbackPolicyVersion) : Digest × Nat :=
  (row.taskDigest, row.version)

/-- A row of `feedback_policy_members`. -/
structure FeedbackPolicyMember where
  taskDigest : Digest
  version : Nat
  nativeId : List UInt8
deriving DecidableEq

/-- A row of `feedback_policy_state`. -/
structure FeedbackPolicyState where
  taskDigest : Digest
  activeVersion : Nat

structure FeedbackStore where
  tables : Tables := {}
  observations : List FeedbackObservation := []
  promotions : List FeedbackPromotion := []
  versions : List FeedbackPolicyVersion := []
  members : List FeedbackPolicyMember := []
  states : List FeedbackPolicyState := []

structure FeedbackEvaluation where
  observations : Nat
  positiveGroups : Nat
  eligibleGroups : Nat
  promotedGroups : Nat
deriving DecidableEq

/-! ## Searching groups -/

def roleRank (role : String) : Nat :=
  if role = "critical" then 0 else if role = "error" then 1 else if role = "warning" then 2
  else if role = "change" then 3 else 4

namespace Tables

/-- The native ids of a group. -/
def idsOfGroup (t : Tables) (groupId : Nat) : List (List UInt8) :=
  (t.groupMembers.filter fun member => member.groupId = groupId).map GroupMember.nativeId

/-- `COUNT(*)` of the terms a group has among these. -/
def termCount (t : Tables) (digests : List Digest) (groupId : Nat) : Nat :=
  t.groupTerms.countP fun row => row.2 = groupId ∧ row.1 ∈ digests

/-- The columns of the `ORDER BY`. -/
def candidateRank (t : Tables) (digests : List Digest) (group : LogGroup) :
    Natᵒᵈ ×ₗ Nat ×ₗ (Int ×ₗ Nat)ᵒᵈ :=
  toLex (toDual (t.termCount digests group.groupId),
    toLex (roleRank group.key.role, toDual group.newest))

def candidateGroups (t : Tables) (digests : List Digest) : List LogGroup :=
  (t.logGroups.filter fun group => 0 < t.termCount digests group.groupId).insertionSort
    fun a b => t.candidateRank digests a ≤ t.candidateRank digests b

def searchCandidateGroups [Sha256] (t : Tables) (task : String) (limit : Nat) :
    Except CorpusError CandidateGroupPage :=
  if limit = 0 ∨ limit > 256 ∨ (Utf8.asBytes task).length > 8192 then .error .invalidPageBudget
  else if (searchTerms task 32).isEmpty then .ok ⟨[], t.logGroups.length, false⟩
  else
    let groups := ((t.candidateGroups (taskTermDigests task)).take (limit + 1)).map LogGroup.card
    .ok ⟨groups.take limit, t.logGroups.length, groups.length > limit⟩

end Tables

/-! ## Rated groups -/

/-- A row of the query over the ratings of one task. -/
structure RatedGroup where
  groupId : Nat
  /-- The least of the rated native ids. -/
  nativeId : List UInt8
  /-- The answers in which the group was useful. -/
  positives : Nat
  negatives : Nat

def ratedGroup (groupId : Nat) (rows : List FeedbackObservation) : Option RatedGroup :=
  (rows.map FeedbackObservation.nativeId).min?.map fun nativeId => {
    groupId, nativeId
    positives := ((rows.filter fun row => row.verdict = .useful).map
      FeedbackObservation.resultNonce).dedup.length
    negatives := rows.countP fun row => row.verdict = .notUseful }

/-- Useful three times, never rejected, and not found by the search. -/
def RatedGroup.isEligible (baseline : List Nat) (group : RatedGroup) : Bool :=
  group.positives ≥ 3 ∧ group.negatives = 0 ∧ group.groupId ∉ baseline

namespace FeedbackStore

/-- The ratings of one group for a task. -/
def ratings (s : FeedbackStore) (taskDigest : Digest) (groupId : Nat) :
    List FeedbackObservation :=
  s.observations.filter fun row =>
    row.taskDigest = taskDigest ∧ s.tables.memberGroup row.nativeId = some groupId

/-- The rows of the query. `GROUP BY` sorts them by group. -/
def ratedGroups (s : FeedbackStore) (taskDigest : Digest) : List RatedGroup :=
  let rated := s.observations.filter fun row => row.taskDigest = taskDigest
  let groupIds := (rated.filterMap fun row => s.tables.memberGroup row.nativeId).dedup
  (groupIds.insertionSort (· ≤ ·)).filterMap fun groupId =>
    ratedGroup groupId (s.ratings taskDigest groupId)

/-- The native ids promoted for a task. -/
def promotionsOf (s : FeedbackStore) (taskDigest : Digest) : List (List UInt8) :=
  (s.promotions.filter fun row => row.taskDigest = taskDigest).map FeedbackPromotion.nativeId

/-- The native ids of a version. -/
def membersOf (s : FeedbackStore) (taskDigest : Digest) (version : Nat) : List (List UInt8) :=
  (s.members.filter fun row => row.taskDigest = taskDigest ∧ row.version = version).map
    FeedbackPolicyMember.nativeId

/-- The row of `feedback_policy_state`. -/
def activeVersion (s : FeedbackStore) (taskDigest : Digest) : Option Nat :=
  (Table.find FeedbackPolicyState.taskDigest s.states taskDigest).map
    FeedbackPolicyState.activeVersion

/-! ## Rating -/

/-- `ON CONFLICT(task_digest,native_id,result_nonce)`. -/
def upsertObservation (observations : List FeedbackObservation) (row : FeedbackObservation) :
    List FeedbackObservation :=
  if (Table.find FeedbackObservation.key observations row.key).isSome then
    Table.update FeedbackObservation.key row.key
      (fun old => { old with verdict := row.verdict }) observations
  else observations ++ [row]

def observe (s : FeedbackStore) (row : FeedbackObservation) : FeedbackStore :=
  { s with observations := upsertObservation s.observations row }

/-- The two `DELETE`s after a rejection. -/
def reject (s : FeedbackStore) (taskDigest : Digest) (groupId : Nat) : FeedbackStore :=
  { s with
    promotions := s.promotions.filter fun row =>
      ¬(row.taskDigest = taskDigest ∧ row.nativeId ∈ s.tables.idsOfGroup groupId)
    members := s.members.filter fun row =>
      ¬(row.taskDigest = taskDigest ∧ row.nativeId ∈ s.tables.idsOfGroup groupId) }

section Hashing

variable [Sha256]

def recordFeedback (s : FeedbackStore) (task : String) (nativeId : List UInt8)
    (resultNonce : Digest) (verdict : FeedbackVerdict) : Except CorpusError FeedbackStore := do
  let digest ← feedbackTaskDigest task
  let group ← okOr .invalidPageBudget (s.tables.groupForRecord nativeId)
  let observed := s.observe ⟨digest, nativeId, resultNonce, verdict⟩
  .ok (if verdict = .notUseful then observed.reject digest group.groupId else observed)

def evaluateFeedback (s : FeedbackStore) (task : String) :
    Except CorpusError FeedbackEvaluation := do
  let digest ← feedbackTaskDigest task
  let baseline ← s.tables.searchCandidateGroups task 64
  let groups := s.ratedGroups digest
  .ok {
    observations := s.observations.countP fun row => row.taskDigest = digest
    positiveGroups := groups.countP fun group => group.positives > 0
    eligibleGroups := groups.countP
      (RatedGroup.isEligible (baseline.groups.map CorpusGroupCard.groupId))
    promotedGroups := (s.promotionsOf digest).length }

/-! ## Promoting -/

def insertVersion (s : FeedbackStore) (row : FeedbackPolicyVersion) :
    Except CorpusError FeedbackStore :=
  if (Table.find FeedbackPolicyVersion.key s.versions row.key).isSome then .error .storage
  else .ok { s with versions := s.versions ++ [row] }

def insertMembers (s : FeedbackStore) (taskDigest : Digest) (version : Nat)
    (nativeIds : List (List UInt8)) : Except CorpusError FeedbackStore := do
  let members ← okOr .storage
    (Table.insertAll s.members (nativeIds.map (FeedbackPolicyMember.mk taskDigest version)))
  .ok { s with members }

/-- The active version of a task. Promotions without one are those of a store that knew
no versions, and become the first. -/
def adoptLegacy (s : FeedbackStore) (taskDigest : Digest) :
    Except CorpusError (FeedbackStore × Option Nat) :=
  if (s.activeVersion taskDigest).isNone ∧ s.promotionsOf taskDigest ≠ [] then do
    let s ← s.insertVersion ⟨taskDigest, 1, none⟩
    let s ← s.insertMembers taskDigest 1 (s.promotionsOf taskDigest)
    .ok (s, some 1)
  else .ok (s, s.activeVersion taskDigest)

/-- `COALESCE(MAX(version),0)+1`, which is an `i64`. -/
def nextVersion (s : FeedbackStore) (taskDigest : Digest) : Except CorpusError Nat :=
  let versions := s.versions.filter fun row => row.taskDigest = taskDigest
  let last := (versions.map FeedbackPolicyVersion.version).foldl max 0
  if last ≥ i64Max then .error .storage else .ok (last + 1)

/-- The promotions of a task are deleted. -/
def clearPromotions (s : FeedbackStore) (taskDigest : Digest) : FeedbackStore :=
  { s with promotions := s.promotions.filter fun row => row.taskDigest ≠ taskDigest }

/-- `UPDATE feedback_policy_state`. -/
def updateState (states : List FeedbackPolicyState) (taskDigest : Digest) (version : Nat) :
    List FeedbackPolicyState :=
  Table.update FeedbackPolicyState.taskDigest taskDigest
    (fun row => { row with activeVersion := version }) states

/-- `ON CONFLICT(task_digest)`. -/
def upsertState (states : List FeedbackPolicyState) (row : FeedbackPolicyState) :
    List FeedbackPolicyState :=
  if (Table.find FeedbackPolicyState.taskDigest states row.taskDigest).isSome then
    updateState states row.taskDigest row.activeVersion
  else states ++ [row]

/-- What `promote_feedback` commits. -/
def promotion (s : FeedbackStore) (task : String) : Except CorpusError FeedbackStore := do
  let digest ← feedbackTaskDigest task
  let baseline ← s.tables.searchCandidateGroups task 64
  let eligible := (s.ratedGroups digest).filter
    (RatedGroup.isEligible (baseline.groups.map CorpusGroupCard.groupId))
  let (s, active) ← s.adoptLegacy digest
  let version ← s.nextVersion digest
  let s ← s.insertVersion ⟨digest, version, active⟩
  let nativeIds := (eligible.take 16).map RatedGroup.nativeId
  let s ← (s.clearPromotions digest).insertMembers digest version nativeIds
  .ok { s with
    promotions := Table.insertOrIgnoreAll s.promotions
      (nativeIds.map (FeedbackPromotion.mk digest))
    states := upsertState s.states ⟨digest, version⟩ }

/-- What `rollback_feedback` commits. -/
def rollback (s : FeedbackStore) (task : String) : Except CorpusError FeedbackStore := do
  let digest ← feedbackTaskDigest task
  let active ← okOr .invalidPageBudget (s.activeVersion digest)
  let row ← okOr .invalidPageBudget
    (Table.find FeedbackPolicyVersion.key s.versions (digest, active))
  let parent ← okOr .invalidPageBudget row.parentVersion
  let s := s.clearPromotions digest
  let promotions ← okOr .storage
    (Table.insertAll s.promotions ((s.membersOf digest parent).map (FeedbackPromotion.mk digest)))
  .ok { s with
    promotions
    states := updateState s.states digest parent }

/-- The evaluation that follows a commit, and the store. -/
def evaluated (s : FeedbackStore) (task : String) (committed : Except CorpusError FeedbackStore) :
    Except CorpusError FeedbackEvaluation × FeedbackStore :=
  match committed with
  | .error e => (.error e, s)
  | .ok s' => (s'.evaluateFeedback task, s')

def promoteFeedback (s : FeedbackStore) (task : String) :
    Except CorpusError FeedbackEvaluation × FeedbackStore :=
  s.evaluated task (s.promotion task)

def rollbackFeedback (s : FeedbackStore) (task : String) :
    Except CorpusError FeedbackEvaluation × FeedbackStore :=
  s.evaluated task (s.rollback task)

end Hashing

end FeedbackStore

/-! ## Calls -/

/-- A call with its arguments. -/
inductive FeedbackCall where
  | commitPage (fault : Option CorpusError) (records : List HistoryRecordV1)
  | recordFeedback (task : String) (nativeId : List UInt8) (resultNonce : Digest)
      (verdict : FeedbackVerdict)
  | promoteFeedback (task : String)
  | rollbackFeedback (task : String)

namespace FeedbackStore

variable [Sha256] [LogModel] [Rowids]

/-- The store after a call. A call that the database fails is one that is not made. -/
def step (s : FeedbackStore) : FeedbackCall → FeedbackStore
  | .commitPage fault records => { s with tables := (commitPageChecked fault s.tables records).2 }
  | .recordFeedback task nativeId resultNonce verdict =>
      (s.recordFeedback task nativeId resultNonce verdict).toOption.getD s
  | .promoteFeedback task => (s.promoteFeedback task).2
  | .rollbackFeedback task => (s.rollbackFeedback task).2

def runCalls (s : FeedbackStore) (calls : List FeedbackCall) : FeedbackStore :=
  calls.foldl step s

end FeedbackStore

end Evidentrail
