import Mathlib.Logic.Function.Basic
import Evidentrail.Store.Directory
import Evidentrail.Store.Record

/-!
# What an authority promises

Seen from the repository, an authority is a map from results to their record
and key. `LawfulKeyAuthorityV2` says what each call does to that map. The two
shipped authorities differ in one place only: whether a reservation of a
publication generation is granted beside an earlier one (`Grants`).
-/

namespace Evidentrail

open Rust Std

/-! ## The laws -/

open KeyAuthorityV2

/-- A call that gives one result a new value and keeps the bookkeeping sound. -/
structure AuthorityStepV2 {A : Type}
    (stored : A → ResultId → Option (ResultAuthorityRecordV2 × ResultDekV1))
    (Sound : A → Prop) (a a' : A) (r : ResultId)
    (value : Option (ResultAuthorityRecordV2 × ResultDekV1)) : Prop where
  sound : Sound a'
  stored_eq : stored a' = Function.update (stored a) r value

/-- What the repository relies on. `stored` is the map it sees, `Sound` an
invariant of the implementation's own bookkeeping. -/
class LawfulKeyAuthorityV2 (A : Type) [KeyAuthorityV2 A] [Sha256] where
  stored : A → ResultId → Option (ResultAuthorityRecordV2 × ResultDekV1)
  Sound : A → Prop
  /-- Commitments that can be kept with a reservation. -/
  Admits : LifecycleDigestV1 → Prop
  /-- This operation is given a publication generation when it asks for one. -/
  Grants : A → ResultId → OperationIdV1 → Prop
  snapshot_eq {a : A} {r : ResultId} (hs : Sound a) :
    snapshot a r = okOr .notFound ((stored a r).map Prod.fst)
  resultKey_eq {a : A} {r : ResultId} (hs : Sound a) :
    resultKey a r = okOr .notFound ((stored a r).map Prod.snd)
  begin_ok {a a' : A} {entropy : EntropyV2} {r : ResultId} {created expires : Int}
    {operation : OperationIdV1} {digest : LifecycleDigestV1} {record : ResultAuthorityRecordV2}
    {transition : LifecycleTransitionV1} (hs : Sound a)
    (h : KeyAuthorityV2.begin a entropy r created expires operation digest =
      .ok (a', record, transition)) :
    (∃ key, stored a r = some (record, key) ∧ a' = a ∧ transition = .alreadyApplied ∧
      record.matchesBegin created expires operation digest) ∨
    (∃ key, stored a r = none ∧ transition = .applied ∧ record.state = .opened ∧
      AuthorityStepV2 stored Sound a a' r (some (record, key)))
  reserveNonceRange_ok {a a' : A} {r : ResultId} {operation : OperationIdV1}
    {digest : LifecycleDigestV1} {count : Nat} {reservation : NonceReservationV1} (hs : Sound a)
    (h : reserveNonceRange a r operation digest count = .ok (a', reservation)) :
    ∃ record key record', stored a r = some (record, key) ∧
      record'.withoutNonces = record.withoutNonces ∧
      AuthorityStepV2 stored Sound a a' r (some (record', key))
  completeNonceReservation_ok {a a' : A} {r : ResultId} {operation : OperationIdV1}
    {digest : LifecycleDigestV1} {transition : LifecycleTransitionV1} (hs : Sound a)
    (h : completeNonceReservation a r operation digest = .ok (a', transition)) :
    ∃ record key record', stored a r = some (record, key) ∧
      record'.withoutNonces = record.withoutNonces ∧
      record'.hasPendingNonceReservation = false ∧
      AuthorityStepV2 stored Sound a a' r (some (record', key))
  commitData_ok {a a' : A} {r : ResultId} {operation : OperationIdV1}
    {digest : LifecycleDigestV1} {buildContext : BuildContextDigestsV1}
    {transition : LifecycleTransitionV1} (hs : Sound a)
    (h : KeyAuthorityV2.commitData a r operation digest buildContext = .ok (a', transition)) :
    ∃ record key record', stored a r = some (record, key) ∧
      record.commitData operation digest buildContext = .ok (record', transition) ∧
      AuthorityStepV2 stored Sound a a' r (some (record', key))
  sealResult_ok {a a' : A} {r : ResultId} {operation : OperationIdV1}
    {commitments : SealCommitmentsV1} {transition : LifecycleTransitionV1} (hs : Sound a)
    (h : sealResult a r operation commitments = .ok (a', transition)) :
    ∃ record key record', stored a r = some (record, key) ∧
      record.seal operation commitments = .ok (record', transition) ∧
      AuthorityStepV2 stored Sound a a' r (some (record', key))
  publish_ok {a a' : A} {r : ResultId} {operation : OperationIdV1} {generation : Nat}
    {digest : LifecycleDigestV1} {transition : LifecycleTransitionV1} (hs : Sound a)
    (h : KeyAuthorityV2.publish a r operation generation digest = .ok (a', transition)) :
    ∃ record key record', stored a r = some (record, key) ∧
      record.publish operation generation digest = .ok (record', transition) ∧
      AuthorityStepV2 stored Sound a a' r (some (record', key))
  destroy_ok {a : A} (r : ResultId) (hs : Sound a) :
    ∃ a' outcome, KeyAuthorityV2.destroy a r = .ok (a', outcome) ∧
      AuthorityStepV2 stored Sound a a' r none
  reserveGeneration_ok {a a' : A} {r : ResultId} {operation : OperationIdV1}
    {digest : LifecycleDigestV1} {generation : Nat} (hs : Sound a)
    (hdigest : ∀ record key, stored a r = some (record, key) →
      digest = deriveRepositoryCommitment record.sealCommitments)
    (hadmits : Admits digest)
    (h : reservePublicationGeneration a r operation digest = .ok (a', generation)) :
    Sound a' ∧ stored a' = stored a ∧ Grants a' r operation
  grants_of_reservation {a a' : A} {r : ResultId} {operation : OperationIdV1}
    {digest : LifecycleDigestV1} {generation : Nat} (hs : Sound a)
    (h : reservePublicationGeneration a r operation digest = .ok (a', generation)) :
    Grants a r operation
  reservation_granted {a : A} {r : ResultId} {record : ResultAuthorityRecordV2}
    {key : ResultDekV1} {operation : OperationIdV1} {digest : LifecycleDigestV1}
    (hs : Sound a) (h : stored a r = some (record, key)) (hstate : record.state = .sealed)
    (hoperation : operation.isZero = false)
    (hdigest : digest = deriveRepositoryCommitment record.sealCommitments)
    (hgrants : Grants a r operation) :
    ∃ a' generation, reservePublicationGeneration a r operation digest = .ok (a', generation)
  /-- What was reserved for a sealed result publishes it. -/
  publication_follows {a a' : A} {r : ResultId} {record : ResultAuthorityRecordV2}
    {key : ResultDekV1} {operation : OperationIdV1} {digest : LifecycleDigestV1}
    {generation : Nat} (hs : Sound a) (h : stored a r = some (record, key))
    (hpending : record.hasPendingNonceReservation = false)
    (hdigest : digest = deriveRepositoryCommitment record.sealCommitments)
    (hadmits : Admits digest)
    (hreserve : reservePublicationGeneration a r operation digest = .ok (a', generation)) :
    ∃ a'', KeyAuthorityV2.publish a' r operation generation digest = .ok (a'', .applied)

/-! ## In process memory -/

namespace ProcessKeyAuthorityV2

instance : LawfulEqCmp (compareLex (compareOn Prod.fst) (compareOn Prod.snd) :
    ResultId × OperationIdV1 → ResultId × OperationIdV1 → Ordering) where
  eq_of_compare {x y} h := by
    obtain ⟨hfirst, hsecond⟩ := compareLex_eq_eq.mp h
    exact Prod.ext (LawfulEqOrd.eq_of_compare hfirst) (LawfulEqOrd.eq_of_compare hsecond)

def stored (a : ProcessKeyAuthorityV2) (r : ResultId) :
    Option (ResultAuthorityRecordV2 × ResultDekV1) :=
  a.entries[r]?.map fun entry => (entry.record, entry.resultDek)

variable {a a' : ProcessKeyAuthorityV2} {r : ResultId}

theorem stored_of_entry {entry : ProcessAuthorityEntryV2} (h : a.entries[r]? = some entry) :
    a.stored r = some (entry.record, entry.resultDek) := by
  rw [stored, h]
  rfl

theorem entry_of_stored {record : ResultAuthorityRecordV2} {key : ResultDekV1}
    (h : a.stored r = some (record, key)) :
    ∃ entry, a.entries[r]? = some entry ∧ entry.record = record ∧ entry.resultDek = key := by
  obtain ⟨entry, hentry, hpair⟩ := Option.map_eq_some_iff.mp h
  cases hpair
  exact ⟨entry, hentry, rfl, rfl⟩

theorem stored_setEntry (a : ProcessKeyAuthorityV2) (r : ResultId)
    (entry : ProcessAuthorityEntryV2) :
    (a.setEntry r entry).stored =
      Function.update a.stored r (some (entry.record, entry.resultDek)) := by
  funext r'
  by_cases hr : r = r'
  · subst hr
    simp [stored, setEntry]
  · simp [stored, setEntry, getElem?_insert, hr, Function.update_of_ne (Ne.symm hr)]

theorem mutateRecord_ok {R : Type} {mutation : ResultAuthorityRecordV2 →
      Except LifecycleRecordErrorV1 (ResultAuthorityRecordV2 × R)} {output : R}
    (h : a.mutateRecord r mutation = .ok (a', output)) :
    ∃ entry record, a.entries[r]? = some entry ∧
      mutation entry.record = .ok (record, output) ∧
      a' = a.setEntry r { entry with record } := by
  obtain ⟨entry, hentry, h⟩ := except_bind_eq_ok.mp h
  obtain ⟨⟨record, out⟩, hmutation, h⟩ := except_bind_eq_ok.mp h
  cases h
  exact ⟨entry, record, okOr_eq_ok.mp hentry, mapError_eq_ok.mp hmutation, rfl⟩

/-- A reservation adds at most itself to the bookkeeping. -/
theorem reserveGeneration_cases {operation : OperationIdV1} {digest : LifecycleDigestV1}
    {generation : Nat}
    (h : a.reservePublicationGeneration r operation digest = .ok (a', generation)) :
    (a' = a ∧ a.operations[(r, operation)]? = some (digest, generation)) ∨
    (∃ record key, a.stored r = some (record, key) ∧ record.state = .sealed ∧
      a.operations[(r, operation)]? = none ∧ checkedAdd a.highWater 1 = some generation ∧
      a' = { a with
        highWater := generation
        operations := a.operations.insert (r, operation) (digest, generation) }) := by
  unfold reservePublicationGeneration at h
  split at h
  · cases h
  · obtain ⟨record, hrecord, h⟩ := except_bind_eq_ok.mp h
    obtain ⟨entry, hentry, rfl⟩ := except_map_eq_ok.mp hrecord
    split at h
    · cases h
    · rename_i hstate
      push Not at hstate
      cases hknown : a.operations[(r, operation)]? with
      | some known =>
          rw [hknown] at h
          dsimp only at h
          split at h
          · rename_i hdigest
            cases h
            exact .inl ⟨rfl, by rw [← hdigest]⟩
          · cases h
      | none =>
          rw [hknown] at h
          obtain ⟨next, hnext, h⟩ := except_bind_eq_ok.mp h
          cases h
          exact .inr ⟨_, _, stored_of_entry (okOr_eq_ok.mp hentry), hstate, rfl,
            okOr_eq_ok.mp hnext, rfl⟩

/-- Only a sealed result is given a generation. -/
theorem reserveGeneration_sealed {operation : OperationIdV1} {digest : LifecycleDigestV1}
    {generation : Nat} {record : ResultAuthorityRecordV2} {key : ResultDekV1}
    (hstored : a.stored r = some (record, key))
    (h : a.reservePublicationGeneration r operation digest = .ok (a', generation)) :
    operation.isZero = false ∧ record.state = .sealed := by
  obtain ⟨entry, hentry, rfl, rfl⟩ := entry_of_stored hstored
  unfold reservePublicationGeneration at h
  split at h
  · cases h
  · rename_i hoperation
    rw [snapshot, ProcessKeyAuthorityV2.entry, hentry] at h
    obtain ⟨_, hrecord, h⟩ := except_bind_eq_ok.mp h
    cases hrecord
    split at h
    · cases h
    · rename_i hstate
      exact ⟨by simpa using hoperation, not_not.mp hstate⟩

variable [Sha256]

/-- Every kept reservation is of a sealed result and for its commitment. -/
def Sound (a : ProcessKeyAuthorityV2) : Prop :=
  ∀ (r : ResultId) (operation : OperationIdV1) (digest : LifecycleDigestV1) (generation : Nat),
    a.operations[(r, operation)]? = some (digest, generation) →
      0 < generation ∧ ∃ record key, a.stored r = some (record, key) ∧ 2 ≤ record.state.rank ∧
        digest = deriveRepositoryCommitment record.sealCommitments

/-- Reservations are kept side by side: only the counter can run out. -/
def Grants (a : ProcessKeyAuthorityV2) (r : ResultId) (operation : OperationIdV1) : Prop :=
  (a.operations[(r, operation)]?).isSome ∨ (checkedAdd a.highWater 1).isSome

/-- A change of one record keeps the bookkeeping sound when it keeps a sealed
record sealed under the same commitments. -/
theorem Sound.setEntry (hs : a.Sound) {old entry : ProcessAuthorityEntryV2}
    (hold : a.entries[r]? = some old)
    (hkept : old.record.KeepsSeal entry.record) :
    (a.setEntry r entry).Sound := by
  intro r' operation digest generation hreserved
  obtain ⟨hpos, record, key, hstored, hrank, hdigest⟩ :=
    hs r' operation digest generation hreserved
  refine ⟨hpos, ?_⟩
  rw [stored_setEntry]
  by_cases hr : r' = r
  · subst hr
    obtain ⟨_, hentry, rfl, rfl⟩ := entry_of_stored hstored
    rw [hold] at hentry
    cases hentry
    obtain ⟨hrank', hsame⟩ := hkept hrank
    exact ⟨_, _, Function.update_self .., hrank', by rw [hdigest, hsame]⟩
  · exact ⟨record, key, by rw [Function.update_of_ne hr, hstored], hrank, hdigest⟩

theorem step_setEntry (hs : a.Sound) {old entry : ProcessAuthorityEntryV2}
    (hold : a.entries[r]? = some old)
    (hkept : old.record.KeepsSeal entry.record) :
    AuthorityStepV2 stored Sound a (a.setEntry r entry) r
      (some (entry.record, entry.resultDek)) :=
  ⟨hs.setEntry hold hkept, stored_setEntry ..⟩

/-- What `mutate_record` does to the map, for a mutation that keeps sealed
records sealed. -/
theorem mutateRecord_step {R : Type} {mutation : ResultAuthorityRecordV2 →
      Except LifecycleRecordErrorV1 (ResultAuthorityRecordV2 × R)} {output : R} (hs : a.Sound)
    (hkept : ∀ record record' out, mutation record = .ok (record', out) →
      record.KeepsSeal record')
    (h : a.mutateRecord r mutation = .ok (a', output)) :
    ∃ record key record', a.stored r = some (record, key) ∧
      mutation record = .ok (record', output) ∧
      AuthorityStepV2 stored Sound a a' r (some (record', key)) := by
  obtain ⟨entry, record, hentry, hmutation, rfl⟩ := mutateRecord_ok h
  exact ⟨entry.record, entry.resultDek, record, stored_of_entry hentry, hmutation,
    step_setEntry hs hentry (hkept _ _ _ hmutation)⟩

theorem begin_cases {entropy : EntropyV2} {created expires : Int} {operation : OperationIdV1}
    {digest : LifecycleDigestV1} {record : ResultAuthorityRecordV2}
    {transition : LifecycleTransitionV1} (hs : a.Sound)
    (h : a.begin entropy r created expires operation digest = .ok (a', record, transition)) :
    (∃ key, a.stored r = some (record, key) ∧ a' = a ∧ transition = .alreadyApplied ∧
      record.matchesBegin created expires operation digest) ∨
    (∃ key, a.stored r = none ∧ transition = .applied ∧ record.state = .opened ∧
      AuthorityStepV2 stored Sound a a' r (some (record, key))) := by
  unfold begin at h
  cases hentry : a.entries[r]? with
  | some entry =>
      rw [hentry] at h
      obtain ⟨_, _, h⟩ := except_bind_eq_ok.mp h
      split at h
      · rename_i hmatches
        cases h
        exact .inl ⟨entry.resultDek, stored_of_entry hentry, rfl, rfl, hmatches⟩
      · cases h
  | none =>
      rw [hentry] at h
      dsimp only at h
      split at h
      · cases h
      · obtain ⟨⟨resultDek, nonceBase⟩, _, h⟩ := except_bind_eq_ok.mp h
        dsimp only at h
        split at h
        · cases h
        · obtain ⟨opened, hopened, h⟩ := except_bind_eq_ok.mp h
          cases h
          have hopen := ResultAuthorityRecordV2.newOpen_ok (mapError_eq_ok.mp hopened)
          have hnone : a.stored r = none := by rw [stored, hentry]; rfl
          refine .inr ⟨resultDek, hnone, rfl, hopen.1, ?_, stored_setEntry ..⟩
          -- no reservation is kept of a result without an entry
          intro r' operation' digest' generation' hreserved
          obtain ⟨hpos, sealed, key, hstored, hrank, hdigest⟩ := hs r' _ _ _ hreserved
          have hr : r' ≠ r := fun heq => by rw [heq, hnone] at hstored; cases hstored
          exact ⟨hpos, sealed, key, by rw [stored_setEntry, Function.update_of_ne hr, hstored],
            hrank, hdigest⟩

theorem reserveNonceRange_step {operation : OperationIdV1} {digest : LifecycleDigestV1}
    {count : Nat} {reservation : NonceReservationV1} (hs : a.Sound)
    (h : a.reserveNonceRange r operation digest count = .ok (a', reservation)) :
    ∃ record key record', a.stored r = some (record, key) ∧
      record'.withoutNonces = record.withoutNonces ∧
      AuthorityStepV2 stored Sound a a' r (some (record', key)) := by
  obtain ⟨entry, hentry, h⟩ := except_bind_eq_ok.mp h
  replace hentry := okOr_eq_ok.mp hentry
  cases hknown : entry.nonceOperations[operation]? with
  | some known =>
      rw [hknown] at h
      dsimp only at h
      split at h
      · cases h
        exact ⟨_, _, _, stored_of_entry hentry, rfl, hs,
          by rw [← stored_of_entry hentry, Function.update_eq_self]⟩
      · cases h
  | none =>
      rw [hknown] at h
      obtain ⟨⟨record, value⟩, hreserve, h⟩ := except_bind_eq_ok.mp h
      cases h
      have hsame := ResultAuthorityRecordV2.reservePendingNonceRange_withoutNonces
        (mapError_eq_ok.mp hreserve)
      exact ⟨_, _, _, stored_of_entry hentry, hsame,
        step_setEntry hs hentry (ResultAuthorityRecordV2.keepsSeal_of_withoutNonces hsame)⟩

theorem completeNonceReservation_step {operation : OperationIdV1} {digest : LifecycleDigestV1}
    {transition : LifecycleTransitionV1} (hs : a.Sound)
    (h : a.completeNonceReservation r operation digest = .ok (a', transition)) :
    ∃ record key record', a.stored r = some (record, key) ∧
      record'.withoutNonces = record.withoutNonces ∧
      record'.hasPendingNonceReservation = false ∧
      AuthorityStepV2 stored Sound a a' r (some (record', key)) := by
  obtain ⟨entry, hentry, h⟩ := except_bind_eq_ok.mp h
  cases hknown : entry.nonceOperations[operation]? with
  | none =>
      rw [hknown] at h
      cases h
  | some known =>
      rw [hknown] at h
      dsimp only at h
      split at h
      · cases h
      · obtain ⟨record, key, record', hstored, hcomplete, hstep⟩ := mutateRecord_step hs
          (fun _ _ _ hmutation => ResultAuthorityRecordV2.keepsSeal_of_withoutNonces
            (ResultAuthorityRecordV2.completePendingNonceRange_withoutNonces hmutation)) h
        exact ⟨record, key, record', hstored,
          ResultAuthorityRecordV2.completePendingNonceRange_withoutNonces hcomplete,
          (ResultAuthorityRecordV2.completePendingNonceRange_ok hcomplete).1, hstep⟩

theorem destroy_step (r : ResultId) (hs : a.Sound) :
    ∃ a' outcome, a.destroy r = .ok (a', outcome) ∧
      AuthorityStepV2 stored Sound a a' r none := by
  unfold destroy
  by_cases hmem : r ∈ a.entries
  · simp only [hmem, if_true]
    have hstored : ∀ r', (a.entries.erase r)[r']?.map
        (fun entry => (entry.record, entry.resultDek)) = Function.update a.stored r none r' := by
      intro r'
      by_cases hr : r = r'
      · subst hr
        simp
      · simp [getElem?_erase, hr, Function.update_of_ne (Ne.symm hr), stored]
    refine ⟨_, _, rfl, ?_, funext hstored⟩
    intro r' operation digest generation hreserved
    -- the reservations of the destroyed result went with it
    simp only [ExtTreeMap.getElem?_filter', Option.filter_eq_some_iff, decide_eq_true_eq]
      at hreserved
    obtain ⟨hreserved, hr⟩ := hreserved
    obtain ⟨hpos, record, key, hkept, hrank, hdigest⟩ := hs r' _ _ _ hreserved
    exact ⟨hpos, record, key,
      (hstored r').trans (by rw [Function.update_of_ne hr, hkept]), hrank, hdigest⟩
  · simp only [hmem, if_false]
    have hnone : a.stored r = none := by
      rw [stored, ExtTreeMap.getElem?_eq_none hmem]
      rfl
    exact ⟨_, _, rfl, hs, by rw [← hnone, Function.update_eq_self]⟩

theorem reserveGeneration_sound {operation : OperationIdV1} {digest : LifecycleDigestV1}
    {generation : Nat} (hs : a.Sound)
    (hdigest : ∀ record key, a.stored r = some (record, key) →
      digest = deriveRepositoryCommitment record.sealCommitments)
    (h : a.reservePublicationGeneration r operation digest = .ok (a', generation)) :
    a'.Sound ∧ a'.stored = a.stored ∧ 0 < generation := by
  rcases reserveGeneration_cases h with
    ⟨rfl, hknown⟩ | ⟨record, key, hstored, hstate, _, hnext, rfl⟩
  · exact ⟨hs, rfl, (hs _ _ _ _ hknown).1⟩
  · have hpos : 0 < generation := by
      rw [(checkedAdd_eq_some.mp hnext).2]
      omega
    refine ⟨?_, rfl, hpos⟩
    intro r' operation' digest' generation' hreserved
    simp only [ExtTreeMap.getElem?_insert, LawfulEqCmp.compare_eq_iff_eq, Prod.mk.injEq]
      at hreserved
    split at hreserved
    · rename_i hkey
      obtain ⟨rfl, rfl⟩ := hkey
      cases hreserved
      exact ⟨hpos, record, key, hstored, by rw [hstate]; decide, hdigest record key hstored⟩
    · exact hs r' _ _ _ hreserved

theorem reserveGeneration_granted {operation : OperationIdV1} {digest : LifecycleDigestV1}
    {record : ResultAuthorityRecordV2} {key : ResultDekV1} (hs : a.Sound)
    (hstored : a.stored r = some (record, key)) (hstate : record.state = .sealed)
    (hoperation : operation.isZero = false)
    (hdigest : digest = deriveRepositoryCommitment record.sealCommitments)
    (hgrants : a.Grants r operation) :
    ∃ a' generation,
      a.reservePublicationGeneration r operation digest = .ok (a', generation) := by
  obtain ⟨entry, hentry, rfl, rfl⟩ := entry_of_stored hstored
  have hsnapshot : a.snapshot r = .ok entry.record := by
    rw [snapshot, ProcessKeyAuthorityV2.entry, hentry]
    rfl
  unfold reservePublicationGeneration
  rw [hsnapshot, except_bind_ok]
  simp only [hoperation, hstate, ne_eq, not_true_eq_false, if_false, Bool.false_eq_true]
  cases hknown : a.operations[(r, operation)]? with
  | some known =>
      obtain ⟨_, record', key', hstored', _, hsame⟩ := hs _ _ _ _ hknown
      rw [hstored] at hstored'
      cases hstored'
      exact ⟨a, known.2, by simp [hsame, hdigest]⟩
  | none =>
      rcases hgrants with hknown' | hnext
      · rw [hknown] at hknown'
        cases hknown'
      · obtain ⟨next, hvalue⟩ := Option.isSome_iff_exists.mp hnext
        exact ⟨_, next, by rw [hvalue]; rfl⟩

instance : LawfulKeyAuthorityV2 ProcessKeyAuthorityV2 where
  stored := stored
  Sound := Sound
  Admits _ := True
  Grants := Grants
  snapshot_eq {a r} _ := by
    show ProcessKeyAuthorityV2.snapshot a r = _
    rw [snapshot, ProcessKeyAuthorityV2.entry, stored]
    cases a.entries[r]? <;> rfl
  resultKey_eq {a r} _ := by
    show (a.entry r).map ProcessAuthorityEntryV2.resultDek = _
    rw [ProcessKeyAuthorityV2.entry, stored]
    cases a.entries[r]? <;> rfl
  begin_ok := begin_cases
  reserveNonceRange_ok := reserveNonceRange_step
  completeNonceReservation_ok := completeNonceReservation_step
  commitData_ok hs h :=
    mutateRecord_step hs (fun _ _ _ => ResultAuthorityRecordV2.keepsSeal_commitData) h
  sealResult_ok hs h :=
    mutateRecord_step hs (fun _ _ _ => ResultAuthorityRecordV2.keepsSeal_seal) h
  publish_ok hs h :=
    mutateRecord_step hs (fun _ _ _ => ResultAuthorityRecordV2.keepsSeal_publish) h
  destroy_ok := destroy_step
  reserveGeneration_ok hs hdigest _ h := by
    obtain ⟨hsound, hstored, _⟩ := reserveGeneration_sound hs hdigest h
    refine ⟨hsound, hstored, .inl ?_⟩
    rcases reserveGeneration_cases h with ⟨rfl, hknown⟩ | ⟨_, _, _, _, _, _, rfl⟩
    · rw [hknown]
      rfl
    · simp
  grants_of_reservation _ h := by
    rcases reserveGeneration_cases h with ⟨_, hknown⟩ | ⟨_, _, _, _, _, hnext, _⟩
    · exact .inl (by rw [hknown]; rfl)
    · exact .inr (by rw [hnext]; rfl)
  reservation_granted := reserveGeneration_granted
  publication_follows {a a₁ r record key operation digest generation} hs hstored hpending
      hdigest _ hreserve := by
    have hcommitment : ∀ record' key', a.stored r = some (record', key') →
        digest = deriveRepositoryCommitment record'.sealCommitments := by
      intro record' key' hstored'
      rw [hstored] at hstored'
      cases hstored'
      exact hdigest
    obtain ⟨_, hkept, hpos⟩ := reserveGeneration_sound hs hcommitment hreserve
    obtain ⟨hoperation, hstate⟩ := reserveGeneration_sealed hstored hreserve
    obtain ⟨entry, hentry, rfl, rfl⟩ := entry_of_stored ((congrFun hkept r).trans hstored)
    obtain ⟨record', hpublish⟩ := ResultAuthorityRecordV2.publish_sealed digest
      hoperation hstate (Nat.pos_iff_ne_zero.mp hpos) hpending
    refine ⟨a₁.setEntry r { entry with record := record' }, ?_⟩
    show a₁.mutateRecord r _ = _
    rw [mutateRecord, ProcessKeyAuthorityV2.entry, hentry, okOr_some, except_bind_ok, hpublish]
    rfl

end ProcessKeyAuthorityV2

end Evidentrail
