import Evidentrail.Schema.Envelope

/-!
# Acquisition outcomes and the acquisition receipt

Every acknowledged envelope gets exactly one outcome, persisted or
omitted. `AcquisitionReceipt.reconcile` joins the expected source
records with the assigned outcomes and refuses anything but a bijection;
`reconcile_eq_ok` is its specification on assignments that are already
in the expected order, the only ones the ledger builder produces.
-/

namespace Evidentrail

open Rust Std

/-- The byte basis an event is exact against. -/
inductive ExactnessBasis where
  | sourceExact
  | postPolicy (policyDigest : PolicyDigest)
      (transformationReceiptId : TransformationReceiptId)
deriving DecidableEq

def ExactnessBasis.code : ExactnessBasis → String
  | .sourceExact => "source_exact"
  | .postPolicy _ _ => "post_policy"

inductive AcquisitionOutcome where
  | persisted (eventId : EventId) (exactnessBasis : ExactnessBasis)
  | omittedByPolicy (policyDigest : PolicyDigest)
deriving DecidableEq

namespace AcquisitionOutcome

def code : AcquisitionOutcome → String
  | .persisted _ .sourceExact => "source_exact"
  | .persisted _ (.postPolicy _ _) => "post_policy"
  | .omittedByPolicy _ => "omitted_by_policy"

def persistedEventId : AcquisitionOutcome → Option EventId
  | .persisted eventId _ => some eventId
  | .omittedByPolicy _ => none

end AcquisitionOutcome

structure AcquisitionOutcomeAssignment where
  sourceRecordId : SourceRecordId
  outcome : AcquisitionOutcome
deriving DecidableEq

structure AcquisitionReceiptEntry where
  sourceRecordId : SourceRecordId
  outcome : AcquisitionOutcome
deriving DecidableEq

structure AcquisitionCounts where
  sourceExact : Nat := 0
  postPolicy : Nat := 0
  omittedByPolicy : Nat := 0
deriving DecidableEq

namespace AcquisitionCounts

def acknowledged (c : AcquisitionCounts) : Nat :=
  c.sourceExact + c.postPolicy + c.omittedByPolicy

def observe (c : AcquisitionCounts) : AcquisitionOutcome → AcquisitionCounts
  | .persisted _ .sourceExact => { c with sourceExact := c.sourceExact + 1 }
  | .persisted _ (.postPolicy _ _) => { c with postPolicy := c.postPolicy + 1 }
  | .omittedByPolicy _ => { c with omittedByPolicy := c.omittedByPolicy + 1 }

end AcquisitionCounts

inductive AcquisitionReceiptError where
  | duplicateExpectedSourceRecord (id : SourceRecordId)
  | unknownSourceRecord (id : SourceRecordId)
  | duplicateOutcomeAssignment (id : SourceRecordId)
  | missingOutcomeAssignments (ids : List SourceRecordId)
  | duplicatePersistedEvent (id : EventId)
deriving DecidableEq

def countEntries (entries : List AcquisitionReceiptEntry) : AcquisitionCounts :=
  entries.foldl (fun counts entry => counts.observe entry.outcome) {}

/-- Only `reconcile` builds receipts, and it derives the counts. -/
structure AcquisitionReceipt where
  retrievalId : RetrievalId
  entries : List AcquisitionReceiptEntry
  counts : AcquisitionCounts
  counts_eq : counts = countEntries entries
deriving DecidableEq

/-! ## Reconciliation -/

namespace AcquisitionReceipt

/-- First loop: the expected source records are distinct. -/
def expectedSet (seen : ExtTreeSet SourceRecordId) :
    List SourceRecordId → Except AcquisitionReceiptError (ExtTreeSet SourceRecordId)
  | [] => .ok seen
  | id :: rest =>
      if id ∈ seen then .error (.duplicateExpectedSourceRecord id)
      else expectedSet (seen.insert id) rest

/-- Second loop: collect outcomes by source record. -/
def outcomesBySource (expected : ExtTreeSet SourceRecordId)
    (outcomes : ExtTreeMap SourceRecordId AcquisitionOutcome)
    (persisted : ExtTreeSet EventId) :
    List AcquisitionOutcomeAssignment →
      Except AcquisitionReceiptError (ExtTreeMap SourceRecordId AcquisitionOutcome)
  | [] => .ok outcomes
  | a :: rest =>
      if a.sourceRecordId ∉ expected then
        .error (.unknownSourceRecord a.sourceRecordId)
      else if a.sourceRecordId ∈ outcomes then
        .error (.duplicateOutcomeAssignment a.sourceRecordId)
      else
        let outcomes' := outcomes.insert a.sourceRecordId a.outcome
        match a.outcome.persistedEventId with
        | some eventId =>
            if eventId ∈ persisted then .error (.duplicatePersistedEvent eventId)
            else outcomesBySource expected outcomes' (persisted.insert eventId) rest
        | none => outcomesBySource expected outcomes' persisted rest

/-- Third loop: take the outcomes out in the expected order. `none` is
the `expect` behind `remove`. -/
def takeEntries (outcomes : ExtTreeMap SourceRecordId AcquisitionOutcome) :
    List SourceRecordId → Option (List AcquisitionReceiptEntry)
  | [] => some []
  | id :: rest => do
      let outcome ← outcomes[id]?
      let entries ← takeEntries (outcomes.erase id) rest
      return ⟨id, outcome⟩ :: entries

theorem ext {a b : AcquisitionReceipt} (hid : a.retrievalId = b.retrievalId)
    (hentries : a.entries = b.entries) : a = b := by
  obtain ⟨r, e, c, hc⟩ := a
  obtain ⟨r', e', c', hc'⟩ := b
  cases hid
  cases hentries
  cases hc.trans hc'.symm
  rfl

/-- The receipt over reconciled entries. -/
def ofEntries (retrievalId : RetrievalId) (entries : List AcquisitionReceiptEntry) :
    AcquisitionReceipt :=
  ⟨retrievalId, entries, countEntries entries, rfl⟩

def reconcile (retrievalId : RetrievalId) (expected : List SourceRecordId)
    (assignments : List AcquisitionOutcomeAssignment) :
    Except (Fault AcquisitionReceiptError) AcquisitionReceipt := do
  let expectedSet ← (expectedSet ∅ expected).mapError .err
  let outcomes ← (outcomesBySource expectedSet ∅ ∅ assignments).mapError .err
  let missing := expected.filter fun id => id ∉ outcomes
  if missing ≠ [] then
    throw (.err (.missingOutcomeAssignments missing))
  match takeEntries outcomes expected with
  | some entries => return .ofEntries retrievalId entries
  | none => throw .panicked

/-! ### Its specification -/

theorem expectedSet_eq_ok (seen : ExtTreeSet SourceRecordId) :
    ∀ {ids : List SourceRecordId}, ids.Nodup → (∀ id ∈ ids, id ∉ seen) →
      ∃ set, expectedSet seen ids = .ok set ∧ ∀ id, id ∈ set ↔ id ∈ seen ∨ id ∈ ids
  | [], _, _ => ⟨seen, rfl, by simp⟩
  | id :: rest, hnd, hfresh => by
      obtain ⟨hid, hrest⟩ := List.nodup_cons.mp hnd
      have hnot : id ∉ seen := hfresh id (List.mem_cons_self ..)
      obtain ⟨set, hset, hmem⟩ := expectedSet_eq_ok (seen.insert id) hrest
        (fun k hk hin => by
          rcases mem_insert_set.mp hin with rfl | hin
          · exact hid hk
          · exact hfresh k (List.mem_cons_of_mem _ hk) hin)
      refine ⟨set, by rw [expectedSet, if_neg hnot, hset], fun k => ?_⟩
      rw [hmem, mem_insert_set, List.mem_cons]
      tauto

/-- One assignment of a fresh source record and a fresh event. -/
theorem outcomesBySource_cons {expected : ExtTreeSet SourceRecordId}
    {outcomes : ExtTreeMap SourceRecordId AcquisitionOutcome}
    {persisted : ExtTreeSet EventId} {a : AcquisitionOutcomeAssignment}
    (rest : List AcquisitionOutcomeAssignment) (hexp : a.sourceRecordId ∈ expected)
    (hfresh : a.sourceRecordId ∉ outcomes)
    (hevent : ∀ id, a.outcome.persistedEventId = some id → id ∉ persisted) :
    ∃ persisted' : ExtTreeSet EventId,
      (∀ id, id ∈ persisted' ↔ a.outcome.persistedEventId = some id ∨ id ∈ persisted) ∧
      outcomesBySource expected outcomes persisted (a :: rest) =
        outcomesBySource expected (outcomes.insert a.sourceRecordId a.outcome)
          persisted' rest := by
  rw [outcomesBySource, if_neg (not_not_intro hexp), if_neg hfresh]
  cases h : a.outcome.persistedEventId with
  | none => exact ⟨persisted, by simp, rfl⟩
  | some id =>
      refine ⟨persisted.insert id, fun k => ?_, ?_⟩
      · rw [mem_insert_set, Option.some.injEq]
      · simp only [if_neg (hevent id h)]

/-- The second loop on fresh, distinct assignments ends in the map that
adds them all. -/
theorem outcomesBySource_eq_ok (expected : ExtTreeSet SourceRecordId) :
    ∀ {assignments : List AcquisitionOutcomeAssignment}
      (outcomes : ExtTreeMap SourceRecordId AcquisitionOutcome)
      (persisted : ExtTreeSet EventId),
      (∀ a ∈ assignments, a.sourceRecordId ∈ expected) →
      (∀ a ∈ assignments, a.sourceRecordId ∉ outcomes) →
      (assignments.map (·.sourceRecordId)).Nodup →
      (assignments.filterMap (·.outcome.persistedEventId)).Nodup →
      (∀ id ∈ assignments.filterMap (·.outcome.persistedEventId), id ∉ persisted) →
      ∃ m, outcomesBySource expected outcomes persisted assignments = .ok m ∧
        (∀ a ∈ assignments, m[a.sourceRecordId]? = some a.outcome) ∧
        ∀ id, id ∉ assignments.map (·.sourceRecordId) → m[id]? = outcomes[id]?
  | [], outcomes, _, _, _, _, _, _ => ⟨outcomes, rfl, by simp, by simp⟩
  | a :: rest, outcomes, persisted, hexp, hfresh, hsrc, hev, hper => by
      obtain ⟨hhead, hsrc'⟩ := List.nodup_cons.mp hsrc
      have hnew : ∀ id, a.outcome.persistedEventId = some id → id ∉ persisted :=
        fun id hid => hper id (List.mem_filterMap.mpr ⟨a, List.mem_cons_self .., hid⟩)
      obtain ⟨persisted', hmem, hstep⟩ := outcomesBySource_cons rest
        (hexp a (List.mem_cons_self ..)) (hfresh a (List.mem_cons_self ..)) hnew
      have hev' : (rest.filterMap (·.outcome.persistedEventId)).Nodup := by
        rw [List.filterMap_cons] at hev
        split at hev
        · exact hev
        · exact (List.nodup_cons.mp hev).2
      obtain ⟨m, hm, hin, hout⟩ := outcomesBySource_eq_ok expected
        (outcomes.insert a.sourceRecordId a.outcome) persisted'
        (fun b hb => hexp b (List.mem_cons_of_mem _ hb))
        (fun b hb hbin => by
          rcases mem_insert.mp hbin with heq | hbin
          · exact hhead (List.mem_map.mpr ⟨b, hb, heq.symm⟩)
          · exact hfresh b (List.mem_cons_of_mem _ hb) hbin)
        hsrc' hev'
        (fun id hid hin => by
          rcases (hmem id).mp hin with heq | hin
          · rw [List.filterMap_cons, heq] at hev
            exact (List.nodup_cons.mp hev).1 hid
          · refine hper id ?_ hin
            rw [List.filterMap_cons]
            split
            · exact hid
            · exact List.mem_cons_of_mem _ hid)
      refine ⟨m, hstep.trans hm, ?_, ?_⟩
      · intro b hb
        rcases List.mem_cons.mp hb with rfl | hb
        · rw [hout _ hhead, getElem?_insert, if_pos rfl]
        · exact hin b hb
      · intro id hid
        rw [List.map_cons, List.mem_cons, not_or] at hid
        rw [hout id hid.2, getElem?_insert, if_neg (Ne.symm hid.1)]

/-- The third loop returns the outcomes the map holds, in order. -/
theorem takeEntries_eq_some : ∀ {assignments : List AcquisitionOutcomeAssignment}
    (outcomes : ExtTreeMap SourceRecordId AcquisitionOutcome),
    (assignments.map (·.sourceRecordId)).Nodup →
    (∀ a ∈ assignments, outcomes[a.sourceRecordId]? = some a.outcome) →
    takeEntries outcomes (assignments.map (·.sourceRecordId)) =
      some (assignments.map fun a => ⟨a.sourceRecordId, a.outcome⟩)
  | [], _, _, _ => rfl
  | a :: rest, outcomes, hnd, hval => by
      obtain ⟨hhead, hnd'⟩ := List.nodup_cons.mp hnd
      have htail := takeEntries_eq_some (outcomes.erase a.sourceRecordId)
        hnd' (fun b hb => by
          have hne : a.sourceRecordId ≠ b.sourceRecordId :=
            fun heq => hhead (List.mem_map.mpr ⟨b, hb, heq.symm⟩)
          rw [getElem?_erase, if_neg hne]
          exact hval b (List.mem_cons_of_mem _ hb))
      simp only [List.map_cons, takeEntries, hval a (List.mem_cons_self ..), htail,
        Option.bind_eq_bind, Option.bind_some, Option.pure_def]

/-- Assignments in expected order, of distinct records and distinct
events, reconcile to themselves. -/
theorem reconcile_eq_ok {retrievalId : RetrievalId}
    {assignments : List AcquisitionOutcomeAssignment}
    (hsrc : (assignments.map (·.sourceRecordId)).Nodup)
    (hev : (assignments.filterMap (·.outcome.persistedEventId)).Nodup) :
    reconcile retrievalId (assignments.map (·.sourceRecordId)) assignments =
      .ok (.ofEntries retrievalId
        (assignments.map fun a => ⟨a.sourceRecordId, a.outcome⟩)) := by
  obtain ⟨set, hset, hmem⟩ := expectedSet_eq_ok ∅ hsrc (by simp)
  obtain ⟨m, hm, hin, -⟩ := outcomesBySource_eq_ok set ∅ ∅
    (fun a ha => (hmem _).mpr (.inr (List.mem_map.mpr ⟨a, ha, rfl⟩)))
    (by simp) hsrc hev (by simp)
  have hmissing : (assignments.map (·.sourceRecordId)).filter (fun id => id ∉ m) = [] := by
    rw [List.filter_eq_nil_iff]
    intro id hid
    obtain ⟨a, ha, rfl⟩ := List.mem_map.mp hid
    have hsome : m[a.sourceRecordId]?.isSome = true := by rw [hin a ha]; rfl
    simpa using ExtTreeMap.isSome_getElem?_iff_mem.mp hsome
  have htake := takeEntries_eq_some m hsrc hin
  simp only [reconcile, hset, hm, Except.mapError, bind, Except.bind, hmissing, ne_eq,
    not_true_eq_false, if_false, htake]
  rfl

end AcquisitionReceipt

/-! ## Acknowledgement -/

/-- What the sink returns for one accepted envelope. -/
structure SinkAck where
  retrievalId : RetrievalId
  sourceRecordId : SourceRecordId
  acquisitionSequence : AcquisitionSequence
  authorizedByteCount : Nat
  outcome : AcquisitionOutcome
deriving DecidableEq

end Evidentrail
