import Evidentrail.Core.Ledger
import Evidentrail.Lib.Layout
import Evidentrail.Lib.Search

/-!
# Evidence references

A reference names ledger targets and the relations a reader may follow from
them, inside one result and one lifetime. It is a description, not a
secret: the store still matches it against what it registered.
-/

namespace Evidentrail

open Rust Std Bytes Slice

def maxEvidenceReferenceTargets : Nat := 4096
def maxLogBriefEvidencePackets : Nat := 512

namespace EvidenceTargetRef

/-- The derived order: events before blocks, then the id bytes. -/
def rank : EvidenceTargetRef → List UInt8
  | .event id => 0 :: id.asBytes
  | .block id => 1 :: id.asBytes

theorem rank_injective : Function.Injective rank := by
  rintro (a | a) (b | b) h
  · exact congrArg _ (HashId.asBytes_inj (List.cons.inj h).2)
  · exact absurd (List.cons.inj h).1 (by decide)
  · exact absurd (List.cons.inj h).1 (by decide)
  · exact congrArg _ (HashId.asBytes_inj (List.cons.inj h).2)

instance : Ord EvidenceTargetRef := ⟨compareOn rank⟩

instance : TransOrd EvidenceTargetRef := inferInstanceAs (TransCmp (compareOn rank))

instance : LawfulEqOrd EvidenceTargetRef := lawfulEqCmp_compareOn rank_injective

end EvidenceTargetRef

namespace ExpansionRelationV1

/-- The declaration order, which `derive(Ord)` follows. -/
def rank : ExpansionRelationV1 → Nat
  | .exact => 0
  | .sameLaneBeforeAfter => 1
  | .globalBeforeAfter => 2
  | .patternMembers => 3
  | .sameAttestedTrace => 4
  | .aroundOnset => 5

theorem rank_injective : Function.Injective rank := by
  intro a b h
  cases a <;> cases b <;> first | rfl | cases h

instance : Ord ExpansionRelationV1 := ⟨compareOn rank⟩

instance : TransOrd ExpansionRelationV1 := inferInstanceAs (TransCmp (compareOn rank))

instance : LawfulEqOrd ExpansionRelationV1 := lawfulEqCmp_compareOn rank_injective

end ExpansionRelationV1

/-- Result-scoped, expiring capability description. -/
structure EvidenceReferenceV1 where
  id : EvidenceReferenceId
  resultId : ResultId
  targets : List EvidenceTargetRef
  allowedRelations : List ExpansionRelationV1
  issuedAt : UnixTimestampNanos
  expiresAt : UnixTimestampNanos
deriving DecidableEq

inductive EvidenceReferenceConstructionError where
  | emptyTargets
  | tooManyTargets
  | duplicateTarget
  | emptyRelations
  | duplicateRelation
  | exactRelationRequired
  | invalidLifetime
  | declaredIdMismatch
deriving DecidableEq

namespace EvidenceReferenceV1

/-- Targets keep their order; relations come back sorted. -/
def validateMaterial (targets : List EvidenceTargetRef) (relations : List ExpansionRelationV1)
    (issuedAt expiresAt : UnixTimestampNanos) :
    Except EvidenceReferenceConstructionError
      (List EvidenceTargetRef × List ExpansionRelationV1) :=
  if targets = [] then .error .emptyTargets
  else if targets.length > maxEvidenceReferenceTargets then .error .tooManyTargets
  else if (ExtTreeSet.ofList targets).size ≠ targets.length then .error .duplicateTarget
  else if relations = [] then .error .emptyRelations
  else
    let allowed := ExtTreeSet.ofList relations
    if allowed.size ≠ relations.length then .error .duplicateRelation
    else if ExpansionRelationV1.exact ∉ allowed then .error .exactRelationRequired
    else if issuedAt.get ≥ expiresAt.get then .error .invalidLifetime
    else .ok (targets, allowed.toList)

def issue [Sha256] (resultId : ResultId) (targets : List EvidenceTargetRef)
    (allowedRelations : List ExpansionRelationV1) (issuedAt expiresAt : UnixTimestampNanos) :
    Except EvidenceReferenceConstructionError EvidenceReferenceV1 :=
  match validateMaterial targets allowedRelations issuedAt expiresAt with
  | .error error => .error error
  | .ok (targets, allowedRelations) =>
      .ok ⟨evidenceReferenceId resultId targets allowedRelations issuedAt expiresAt, resultId,
        targets, allowedRelations, issuedAt, expiresAt⟩

inductive Unavailable where
  | unavailable
deriving DecidableEq

/-- Expiry, foreign result and disallowed relation look the same. -/
def authorize (r : EvidenceReferenceV1) (expectedResultId : ResultId)
    (relation : ExpansionRelationV1) (now : UnixTimestampNanos) : Except Unavailable Unit :=
  if r.resultId ≠ expectedResultId ∨ now.get < r.issuedAt.get ∨ now.get ≥ r.expiresAt.get ∨
      (binarySearchByKey (fun relation => relation) relation r.allowedRelations).toOption.isNone
  then .error .unavailable
  else .ok ()

end EvidenceReferenceV1

/-! ## References that were issued -/

namespace EvidenceReferenceV1

theorem validateMaterial_eq_ok {targets targets' : List EvidenceTargetRef}
    {relations relations' : List ExpansionRelationV1} {issuedAt expiresAt : UnixTimestampNanos} :
    validateMaterial targets relations issuedAt expiresAt = .ok (targets', relations') ↔
      (targets ≠ [] ∧ targets.length ≤ maxEvidenceReferenceTargets ∧
        (ExtTreeSet.ofList targets).size = targets.length ∧ relations ≠ [] ∧
        (ExtTreeSet.ofList relations).size = relations.length ∧
        ExpansionRelationV1.exact ∈ ExtTreeSet.ofList relations ∧
        issuedAt.get < expiresAt.get) ∧
      targets' = targets ∧ relations' = (ExtTreeSet.ofList relations).toList := by
  simp only [validateMaterial, ite_error_eq_ok, Except.ok.injEq, Prod.mk.injEq, gt_iff_lt,
    ge_iff_le, Nat.not_lt, not_not, Int.not_le, ne_eq]
  constructor
  · rintro ⟨h1, h2, h3, h4, h5, h6, h7, rfl, rfl⟩
    exact ⟨⟨h1, h2, h3, h4, h5, h6, h7⟩, rfl, rfl⟩
  · rintro ⟨⟨h1, h2, h3, h4, h5, h6, h7⟩, rfl, rfl⟩
    exact ⟨h1, h2, h3, h4, h5, h6, h7, rfl, rfl⟩

section Hashing

variable [Sha256]

/-- A reference as `issue` builds it. -/
def Issued (reference : EvidenceReferenceV1) : Prop :=
  ∃ targets relations,
    issue reference.resultId targets relations reference.issuedAt reference.expiresAt =
      .ok reference

theorem issue_eq_ok {resultId : ResultId} {targets : List EvidenceTargetRef}
    {relations : List ExpansionRelationV1} {issuedAt expiresAt : UnixTimestampNanos}
    {reference : EvidenceReferenceV1} :
    issue resultId targets relations issuedAt expiresAt = .ok reference ↔
      validateMaterial targets relations issuedAt expiresAt =
        .ok (reference.targets, reference.allowedRelations) ∧
      reference.id = evidenceReferenceId resultId reference.targets reference.allowedRelations
        issuedAt expiresAt ∧ reference.resultId = resultId ∧ reference.issuedAt = issuedAt ∧
      reference.expiresAt = expiresAt := by
  unfold issue
  constructor
  · intro h
    split at h
    · cases h
    · rename_i hvalid
      cases h
      exact ⟨hvalid, rfl, rfl, rfl, rfl⟩
  · rintro ⟨hvalid, hid, rfl, rfl, rfl⟩
    rw [hvalid]
    simp only [← hid]

/-- Issuing again what was issued changes nothing: its relations are in order
already. -/
theorem Issued.reissue {reference : EvidenceReferenceV1} (h : reference.Issued) :
    issue reference.resultId reference.targets reference.allowedRelations reference.issuedAt
      reference.expiresAt = .ok reference := by
  obtain ⟨targets, relations, h⟩ := h
  obtain ⟨hvalid, hid, _, _, _⟩ := issue_eq_ok.mp h
  obtain ⟨⟨hsome, hlen, hsize, hrelations, hcount, hexact, hlife⟩, htargets, hallowed⟩ :=
    validateMaterial_eq_ok.mp hvalid
  refine issue_eq_ok.mpr ⟨validateMaterial_eq_ok.mpr ⟨?_, rfl, ?_⟩, hid, rfl, rfl, rfl⟩
  · have hset : ExtTreeSet.ofList reference.allowedRelations = ExtTreeSet.ofList relations := by
      rw [hallowed, Slice.ofList_toList]
    rw [htargets, hset]
    refine ⟨hsome, hlen, hsize, ?_, ?_, hexact, hlife⟩
    · intro hnil
      have hmem := ExtTreeSet.mem_toList.mpr hexact
      rw [← hallowed, hnil] at hmem
      cases hmem
    · rw [hallowed, ExtTreeSet.length_toList]
  · rw [hallowed, Slice.ofList_toList]

def verifyDeclared (declaredId : EvidenceReferenceId) (resultId : ResultId)
    (targets : List EvidenceTargetRef) (relations : List ExpansionRelationV1)
    (issuedAt expiresAt : UnixTimestampNanos) :
    Except EvidenceReferenceConstructionError EvidenceReferenceV1 := do
  let reference ← issue resultId targets relations issuedAt expiresAt
  if reference.id ≠ declaredId then .error .declaredIdMismatch else .ok reference

theorem verifyDeclared_eq_ok {declaredId : EvidenceReferenceId} {resultId : ResultId}
    {targets : List EvidenceTargetRef} {relations : List ExpansionRelationV1}
    {issuedAt expiresAt : UnixTimestampNanos} {reference : EvidenceReferenceV1} :
    verifyDeclared declaredId resultId targets relations issuedAt expiresAt = .ok reference ↔
      issue resultId targets relations issuedAt expiresAt = .ok reference ∧
        reference.id = declaredId := by
  simp only [verifyDeclared, except_bind_eq_ok, ite_error_eq_ok, ne_eq, not_not, Except.ok.injEq]
  constructor
  · rintro ⟨_, hissue, hid, rfl⟩
    exact ⟨hissue, hid⟩
  · rintro ⟨hissue, hid⟩
    exact ⟨reference, hissue, hid, rfl⟩

theorem issued_of_issue {resultId : ResultId} {targets : List EvidenceTargetRef}
    {relations : List ExpansionRelationV1} {issuedAt expiresAt : UnixTimestampNanos}
    {reference : EvidenceReferenceV1}
    (h : issue resultId targets relations issuedAt expiresAt = .ok reference) :
    reference.Issued := by
  obtain ⟨_, _, hresult, hissued, hexpires⟩ := issue_eq_ok.mp h
  refine ⟨targets, relations, ?_⟩
  rw [hresult, hissued, hexpires]
  exact h

/-- The relations of an issued reference are in order. -/
theorem Issued.relations_sorted {reference : EvidenceReferenceV1} (h : reference.Issued) :
    StrictlySorted (fun relation => relation) reference.allowedRelations := by
  obtain ⟨targets, relations, hissue⟩ := h
  obtain ⟨_, _, hrelations⟩ := validateMaterial_eq_ok.mp (issue_eq_ok.mp hissue).1
  have hordered : (ExtTreeSet.ofList relations).toList.Pairwise
      fun relation relation' => compare relation relation' = .lt := ExtTreeSet.ordered_toList
  rw [hrelations]
  exact hordered

/-- The search in the relations of an issued reference is the membership test. -/
theorem Issued.search_isNone {reference : EvidenceReferenceV1} (h : reference.Issued)
    (relation : ExpansionRelationV1) :
    (binarySearchByKey (fun relation => relation) relation
      reference.allowedRelations).toOption.isNone = true ↔
        relation ∉ reference.allowedRelations := by
  cases hsearch : binarySearchByKey (fun relation => relation) relation
      reference.allowedRelations with
  | ok i =>
      have hfound := h.relations_sorted.binarySearchByKey_eq_ok.mp hsearch
      have hmem : relation ∈ reference.allowedRelations := hfound ▸ List.getElem_mem i.isLt
      exact ⟨nofun, fun hnot => absurd hmem hnot⟩
  | error i =>
      refine ⟨fun _ hmem => ?_, fun _ => rfl⟩
      obtain ⟨j, hj, hget⟩ := List.mem_iff_getElem.mp hmem
      have hok : binarySearchByKey (fun relation => relation) relation
          reference.allowedRelations = .ok ⟨j, hj⟩ :=
        h.relations_sorted.binarySearchByKey_eq_ok.mpr hget
      rw [hsearch] at hok
      cases hok

theorem Issued.authorize_eq_ok {reference : EvidenceReferenceV1} (h : reference.Issued)
    {resultId : ResultId} {relation : ExpansionRelationV1} {now : UnixTimestampNanos} :
    reference.authorize resultId relation now = .ok () ↔
      reference.resultId = resultId ∧ reference.issuedAt.get ≤ now.get ∧
        now.get < reference.expiresAt.get ∧ relation ∈ reference.allowedRelations := by
  simp only [authorize, ite_error_eq_ok, h.search_isNone, not_or, not_not, ge_iff_le, Int.not_lt,
    Int.not_le, ne_eq, and_true]

end Hashing

end EvidenceReferenceV1

end Evidentrail
