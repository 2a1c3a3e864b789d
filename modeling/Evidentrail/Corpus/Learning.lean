import Evidentrail.Corpus.Pages
import Evidentrail.Lib.Bytes

/-!
# Learning from labels

Records are labelled case by case, independently of the answers they are used
for. Labels of the development split lend a bonus to groups whose cases share a
term with the task. A route is registered with the fingerprint of the labels it
was trained on, and answers only as long as that is still the fingerprint.

The terms of a case stand in a table of their own, which the fingerprint does
not read. They are those of its task, and labels carry the digest of the task.
-/

namespace Evidentrail

open Rust Bytes

def parserIndexVersion : Nat := 6

def Digest.zero : Digest := ⟨List.replicate 32 0, List.length_replicate⟩

/-! ## Tasks -/

/-- The characters of Unicode's `White_Space`. -/
def isWhiteSpace (c : Char) : Bool :=
  (9 ≤ c.toNat && c.toNat ≤ 13) || c.toNat == 32 || c.toNat == 0x85 || c.toNat == 0xA0 ||
    c.toNat == 0x1680 || (0x2000 ≤ c.toNat && c.toNat ≤ 0x200A) || c.toNat == 0x2028 ||
    c.toNat == 0x2029 || c.toNat == 0x202F || c.toNat == 0x205F || c.toNat == 0x3000

/-- `trim`. -/
def trim (s : String) : String :=
  String.ofList ((s.toList.dropWhile isWhiteSpace).reverse.dropWhile isWhiteSpace).reverse

/-- What is hashed of a task. -/
def taskPreimage (task : String) : List UInt8 :=
  asciiBytes "evidentrail/feedback-task/v1" ++ [0] ++ Utf8.asBytes (trim task)

section Tasks

variable [Sha256]

def feedbackTaskDigest (task : String) : Except CorpusError Digest :=
  if trim task = "" ∨ (Utf8.asBytes task).length > 4096 then .error .invalidPageBudget
  else .ok (Sha256.digest (taskPreimage task))

/-- The digests of the terms of a task. -/
def taskTermDigests (task : String) : List Digest :=
  (searchTerms task 32).map fun term => Sha256.digest (Utf8.asBytes term)

end Tasks

/-! ## Tables -/

inductive LearningLabel where
  | relevant
  | irrelevant
deriving DecidableEq

inductive LearningSplit where
  | development
  | heldOut
deriving DecidableEq

/-- A case id, from 1 to 128 bytes. -/
structure CaseId where
  text : String
  nonempty : text ≠ ""
  length_le : (Utf8.asBytes text).length ≤ 128
deriving DecidableEq

def CaseId.ofString (text : String) : Option CaseId :=
  if h : text ≠ "" ∧ (Utf8.asBytes text).length ≤ 128 then some ⟨text, h.1, h.2⟩ else none

/-- A row of `independent_log_labels`. -/
structure IndependentLabel where
  caseId : CaseId
  taskDigest : Digest
  nativeId : Vec UInt8
  label : LearningLabel
  provenanceDigest : Digest
  split : LearningSplit
  parserVersion : Nat

/-- A row of `verified_case_outcomes`. -/
structure VerifiedCaseOutcome where
  caseId : CaseId
  taskDigest : Digest
  repaired : Bool
  verifierDigest : Digest

inductive RouteStatus where
  | shadow
  | active
  | retired
deriving DecidableEq

structure RouteVersion where
  version : Nat
  parentVersion : Option Nat
  selectorId : String
  modelId : String
  trainingDigest : Digest
  reportDigest : Digest
  heldOutPassed : Bool
  status : RouteStatus

structure LearningStore where
  tables : Tables := {}
  labels : List IndependentLabel := []
  labelTerms : List (CaseId × Digest) := []
  outcomes : List VerifiedCaseOutcome := []
  routes : List RouteVersion := []
  /-- The row of `retrieval_route_state`, once there is one. -/
  routeState : Option (Option Nat) := none

namespace Tables

def memberGroup (t : Tables) (nativeId : List UInt8) : Option Nat :=
  (Table.find GroupMember.nativeId t.groupMembers nativeId).map GroupMember.groupId

def groupForRecord (t : Tables) (nativeId : List UInt8) : Option LogGroup := do
  let groupId ← t.memberGroup nativeId
  Table.find LogGroup.groupId t.logGroups groupId

end Tables

namespace LearningStore

/-! ## Labels -/

def revokeLearningEvidence (s : LearningStore) (nativeId : Vec UInt8) : LearningStore :=
  let labels := s.labels.filter fun label => label.nativeId ≠ nativeId
  { s with
    labels
    labelTerms := s.labelTerms.filter fun row => row.1 ∈ labels.map IndependentLabel.caseId }

/-- `ON CONFLICT(case_id,native_id)`. -/
def upsertLabel (labels : List IndependentLabel) (row : IndependentLabel) :
    List IndependentLabel :=
  let key := fun label : IndependentLabel => (label.caseId, label.nativeId)
  if (Table.find key labels (key row)).isSome then
    Table.update key (key row) (fun old => { old with
      label := row.label
      provenanceDigest := row.provenanceDigest
      split := row.split
      parserVersion := row.parserVersion }) labels
  else labels ++ [row]

/-- `INSERT OR IGNORE` of the terms of one case. -/
def insertTerms (caseId : CaseId) (rows : List (CaseId × Digest)) (digests : List Digest) :
    List (CaseId × Digest) :=
  digests.foldl (fun rows digest =>
    if (caseId, digest) ∈ rows then rows else rows ++ [(caseId, digest)]) rows

/-- Whether the case has another task or another split already. -/
def conflicting (labels : List IndependentLabel) (caseId : CaseId) (taskDigest : Digest)
    (split : LearningSplit) : Bool :=
  match labels.find? fun row => row.caseId = caseId with
  | none => false
  | some row => row.taskDigest ≠ taskDigest || row.split ≠ split

section Hashing

variable [Sha256]

def recordIndependentLabel (s : LearningStore) (caseText task : String) (nativeId : Vec UInt8)
    (label : LearningLabel) (split : LearningSplit) (provenanceDigest : Digest) :
    Except CorpusError LearningStore := do
  let caseId ← okOr .invalidPageBudget (CaseId.ofString caseText)
  if trim task = "" ∨ (Utf8.asBytes task).length > 4096 ∨ provenanceDigest = .zero ∨
      (s.tables.groupForRecord nativeId.toList).isNone then .error .invalidPageBudget
  else do
    let taskDigest ← feedbackTaskDigest task
    if conflicting s.labels caseId taskDigest split then .error .invalidPageBudget
    else if ¬(s.labels.any fun row => row.caseId = caseId ∧ row.nativeId = nativeId) ∧
        s.labels.length ≥ 4096 then .error .invalidPageBudget
    else .ok { s with
      labels := upsertLabel s.labels
        ⟨caseId, taskDigest, nativeId, label, provenanceDigest, split, parserIndexVersion⟩
      labelTerms := insertTerms caseId (s.labelTerms.filter fun row => row.1 ≠ caseId)
        (taskTermDigests task) }

def recordVerifiedCaseOutcome (s : LearningStore) (caseText task : String) (repaired : Bool)
    (verifierDigest : Digest) : Except CorpusError LearningStore := do
  let caseId ← okOr .invalidPageBudget (CaseId.ofString caseText)
  if verifierDigest = .zero then .error .invalidPageBudget
  else do
    let taskDigest ← feedbackTaskDigest task
    let outcomes :=
      if (Table.find VerifiedCaseOutcome.caseId s.outcomes caseId).isSome then
        Table.update VerifiedCaseOutcome.caseId caseId
          (fun row => { row with repaired, verifierDigest }) s.outcomes
      else s.outcomes ++ [⟨caseId, taskDigest, repaired, verifierDigest⟩]
    .ok { s with outcomes }

/-! ## The fingerprint -/

/-- A row of the query, in `ORDER BY case_id, native_id`. -/
structure FingerprintRow where
  caseId : CaseId
  taskDigest : Digest
  nativeId : Vec UInt8
  label : LearningLabel
  provenanceDigest : Digest
  parserVersion : Nat
  groupDigest : Option Digest
  groupId : Option Nat

def fingerprintRow (t : Tables) (label : IndependentLabel) : FingerprintRow where
  caseId := label.caseId
  taskDigest := label.taskDigest
  nativeId := label.nativeId
  label := label.label
  provenanceDigest := label.provenanceDigest
  parserVersion := label.parserVersion
  groupDigest := (t.groupForRecord label.nativeId.toList).map fun group =>
    group.key.fingerprintDigest
  groupId := t.memberGroup label.nativeId.toList

def developmentLabels (s : LearningStore) : List IndependentLabel :=
  s.labels.filter fun label => label.split = .development

def fingerprintRows (s : LearningStore) : List FingerprintRow :=
  (s.developmentLabels.mergeSort fun a b =>
    toLex (Utf8.asBytes a.caseId.text, a.nativeId.toList) ≤
      toLex (Utf8.asBytes b.caseId.text, b.nativeId.toList)).map (fingerprintRow s.tables)

/-- A byte string behind its length. -/
def framed (bytes : List UInt8) : List UInt8 := beBytes 8 bytes.length ++ bytes

def LearningLabel.value : LearningLabel → Int
  | .relevant => 1
  | .irrelevant => -1

def FingerprintRow.bytes (row : FingerprintRow) : List UInt8 :=
  framed (Utf8.asBytes row.caseId.text) ++ framed row.taskDigest.bytes ++
    framed row.nativeId.toList ++ framed row.provenanceDigest.bytes ++
    framed ((row.groupDigest.map Digest.bytes).getD []) ++
    i64Be (LearningLabel.value row.label) ++ i64Be row.parserVersion ++
    i64Be ((row.groupId.map Int.ofNat).getD (-1))

def fingerprintPreimage (s : LearningStore) : List UInt8 :=
  asciiBytes "evidentrail/learning/source/v1" ++ [0] ++ i64Be parserIndexVersion ++
    s.fingerprintRows.flatMap FingerprintRow.bytes

def learningFingerprint (s : LearningStore) : Digest :=
  Sha256.digest s.fingerprintPreimage

/-! ## The bonus -/

/-- The rows of the query: groups of labelled records, with the case and the
label, whose case has one of the terms. -/
def bonusRows (s : LearningStore) (task : String) : List (Nat × CaseId × LearningLabel) :=
  let matching := s.developmentLabels.filter fun label =>
    label.parserVersion = parserIndexVersion &&
      s.labelTerms.any fun row => row.1 = label.caseId && (taskTermDigests task).contains row.2
  (matching.filterMap fun label => (s.tables.memberGroup label.nativeId.toList).map
    fun groupId => (groupId, label.caseId, label.label)).dedup

/-- The cases of one group with one label. -/
def bonusCases (rows : List (Nat × CaseId × LearningLabel)) (groupId : Nat)
    (label : LearningLabel) : List CaseId :=
  ((rows.filter fun row => row.1 = groupId ∧ row.2.2 = label).map fun row => row.2.1).dedup

/-- Two cases for a group and none against it. -/
def bonusOf (rows : List (Nat × CaseId × LearningLabel)) (card : CorpusGroupCard) :
    Option (Nat × Nat) :=
  let positive := bonusCases rows card.groupId .relevant
  let negative := bonusCases rows card.groupId .irrelevant
  if positive.length ≥ 2 ∧ negative.isEmpty then some (card.groupId, min positive.length 4)
  else none

def shadowGroupBonus (s : LearningStore) (task : String) (cards : List CorpusGroupCard) :
    List (Nat × Nat) :=
  if (searchTerms task 32).isEmpty then []
  else if (s.bonusRows task).length > 4096 then []
  else (cards.take 256).filterMap (bonusOf (s.bonusRows task))

/-! ## Routes -/

def inspectRoute (s : LearningStore) (version : Nat) : Option RouteVersion :=
  Table.find RouteVersion.version s.routes version

def activeRoute (s : LearningStore) : Option RouteVersion := do
  let version ← s.routeState.join
  let route ← s.inspectRoute version
  if route.trainingDigest ≠ s.learningFingerprint ∨ ¬route.heldOutPassed then none
  else some route

def registerShadowRoute (s : LearningStore) (selectorId modelId : String)
    (reportDigest : Digest) (heldOutPassed : Bool) : Except CorpusError (LearningStore × Nat) :=
  if selectorId = "" ∨ (Utf8.asBytes selectorId).length > 128 ∨ modelId = "" ∨
      (Utf8.asBytes modelId).length > 128 ∨ reportDigest = .zero then
    .error .invalidPageBudget
  else
    let version := (s.routes.map RouteVersion.version).foldl max 0 + 1
    .ok ({ s with routes := s.routes ++ [⟨version, s.activeRoute.map RouteVersion.version,
      selectorId, modelId, s.learningFingerprint, reportDigest, heldOutPassed, .shadow⟩] },
      version)

/-- `UPDATE ... SET status`. -/
def setStatus (routes : List RouteVersion) (version : Nat) (status : RouteStatus) :
    List RouteVersion :=
  Table.update RouteVersion.version version (fun route => { route with status }) routes

def promoteRoute (s : LearningStore) (version : Nat) : Except CorpusError LearningStore := do
  let route ← okOr .invalidPageBudget (s.inspectRoute version)
  if ¬route.heldOutPassed ∨ route.reportDigest = .zero ∨
      route.trainingDigest ≠ s.learningFingerprint ∨ route.status ≠ .shadow then
    .error .invalidPageBudget
  else if route.parentVersion ≠ s.activeRoute.map RouteVersion.version then
    .error .invalidPageBudget
  else .ok { s with
    routes := setStatus (s.routes.map fun route =>
      if route.status = .active then { route with status := .retired } else route) version .active
    routeState := some (some version) }

/-- Whether there is a parent that may not answer now. -/
def staleParent (s : LearningStore) (parent : Option Nat) : Bool :=
  match parent.bind s.inspectRoute with
  | none => false
  | some route => !route.heldOutPassed || route.trainingDigest ≠ s.learningFingerprint

def rollbackRoute (s : LearningStore) : Except CorpusError (LearningStore × Option Nat) := do
  let active ← okOr .invalidPageBudget s.activeRoute
  if s.staleParent active.parentVersion then .error .invalidPageBudget
  else
    let retired := setStatus s.routes active.version .retired
    .ok ({ s with
      routes := match active.parentVersion with
        | none => retired
        | some parent => setStatus retired parent .active
      routeState := s.routeState.map fun _ => active.parentVersion }, active.parentVersion)

end Hashing

end LearningStore

/-! ## Calls -/

/-- A call with its arguments. -/
inductive LearningCall where
  | recordIndependentLabel (caseText task : String) (nativeId : Vec UInt8)
      (label : LearningLabel) (split : LearningSplit) (provenanceDigest : Digest)
  | revokeLearningEvidence (nativeId : Vec UInt8)
  | recordVerifiedCaseOutcome (caseText task : String) (repaired : Bool)
      (verifierDigest : Digest)
  | registerShadowRoute (selectorId modelId : String) (reportDigest : Digest)
      (heldOutPassed : Bool)
  | promoteRoute (version : Nat)
  | rollbackRoute
  | commitPage (fault : Option CorpusError) (records : List HistoryRecordV1)

namespace LearningStore

variable [Sha256] [LogModel] [Rowids]

/-- The store after a call, or as it was if the call failed. A call that the
database fails is one that is not made. -/
def step (s : LearningStore) : LearningCall → LearningStore
  | .recordIndependentLabel caseText task nativeId label split provenanceDigest =>
      (s.recordIndependentLabel caseText task nativeId label split provenanceDigest).toOption.getD s
  | .revokeLearningEvidence nativeId => s.revokeLearningEvidence nativeId
  | .recordVerifiedCaseOutcome caseText task repaired verifierDigest =>
      (s.recordVerifiedCaseOutcome caseText task repaired verifierDigest).toOption.getD s
  | .registerShadowRoute selectorId modelId reportDigest heldOutPassed =>
      ((s.registerShadowRoute selectorId modelId reportDigest heldOutPassed).toOption.map
        Prod.fst).getD s
  | .promoteRoute version => (s.promoteRoute version).toOption.getD s
  | .rollbackRoute => (s.rollbackRoute.toOption.map Prod.fst).getD s
  | .commitPage fault records =>
      { s with tables := (commitPageChecked fault s.tables records).2 }

def runCalls (s : LearningStore) (calls : List LearningCall) : LearningStore :=
  calls.foldl step s

end LearningStore

end Evidentrail
