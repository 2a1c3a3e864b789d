import Evidentrail.Store.AuthorityCalls
import Evidentrail.Store.Nonces
import Mathlib.Tactic.IntervalCases

/-!
# Runs of the process authority

What the process authority hands out over a whole run: nonce ranges of one
result that are the same or disjoint, publication generations that belong to
one operation of one result each. A reservation that is asked for again is
answered again, except by a result that has been published in the meantime:
there the state is checked before the reservation is looked up.
-/

namespace Evidentrail

open Rust Std

namespace ProcessKeyAuthorityV2

/-! ## What a call can change -/

/-- What a call that succeeds does to the authority. -/
inductive Change (a : ProcessKeyAuthorityV2) : AuthorityCallV2 → ProcessKeyAuthorityV2 → Prop
  | nothing {call : AuthorityCallV2} (hcall : ∀ r, call = .destroy r → a.entries[r]? = none) :
      Change a call a
  | opened {call : AuthorityCallV2} {r : ResultId} {record : ResultAuthorityRecordV2}
      {resultDek : ResultDekV1} (hnone : a.entries[r]? = none)
      (hcall : ∀ q, call ≠ .destroy q) :
      Change a call (a.setEntry r { record, resultDek })
  | reserved {r : ResultId} {operation : OperationIdV1} {digest : LifecycleDigestV1}
      {count : UInt64} {entry : ProcessAuthorityEntryV2} {record : ResultAuthorityRecordV2}
      {reservation : NonceReservationV1} (hentry : a.entries[r]? = some entry)
      (hnew : entry.nonceOperations[operation]? = none)
      (hreserve : entry.record.reservePendingNonceRange operation digest count.toNat =
        .ok (record, reservation)) :
      Change a (.reserveNonceRange r operation digest count) (a.setEntry r { entry with
        record
        nonceOperations :=
          entry.nonceOperations.insert operation (digest, count.toNat, reservation) })
  | moved {call : AuthorityCallV2} {r : ResultId} {entry : ProcessAuthorityEntryV2}
      {record : ResultAuthorityRecordV2} (hentry : a.entries[r]? = some entry)
      (hrank : entry.record.state.rank ≤ record.state.rank)
      (hhigh : record.nonceHighWater = entry.record.nonceHighWater)
      (hcall : ∀ q, call ≠ .destroy q) :
      Change a call (a.setEntry r { entry with record })
  | granted {r : ResultId} {operation : OperationIdV1} {digest : LifecycleDigestV1}
      {generation : Nat} {entry : ProcessAuthorityEntryV2}
      (hentry : a.entries[r]? = some entry) (hstate : entry.record.state = .sealed)
      (hnew : a.operations[(r, operation)]? = none)
      (hnext : generation = a.highWater + 1) :
      Change a (.reservePublicationGeneration r operation digest) { a with
        highWater := generation
        operations := a.operations.insert (r, operation) (digest, generation) }
  | removed {r : ResultId} : Change a (.destroy r) { a with
      entries := a.entries.erase r
      operations := a.operations.filter fun key _ => key.1 ≠ r }

variable {a a' : ProcessKeyAuthorityV2} {call : AuthorityCallV2} {out : AuthorityOutputV2}

theorem moved_of_mutateRecord {R : Type} {r : ResultId} {mutation : ResultAuthorityRecordV2 →
      Except LifecycleRecordErrorV1 (ResultAuthorityRecordV2 × R)} {output : R}
    (hmutation : ∀ record record' out, mutation record = .ok (record', out) →
      record.state.rank ≤ record'.state.rank ∧ record'.nonceHighWater = record.nonceHighWater)
    (hcall : ∀ q, call ≠ .destroy q) (h : a.mutateRecord r mutation = .ok (a', output)) :
    Change a call a' := by
  obtain ⟨entry, record, hentry, hrecord, rfl⟩ := mutateRecord_ok h
  obtain ⟨hrank, hhigh⟩ := hmutation _ _ _ hrecord
  exact .moved hentry hrank hhigh hcall

/-- A range is one that is remembered, or a new one that is remembered from
now on. -/
theorem reserveNonceRange_cases {r : ResultId} {operation : OperationIdV1}
    {digest : LifecycleDigestV1} {count : Nat} {reservation : NonceReservationV1}
    (h : a.reserveNonceRange r operation digest count = .ok (a', reservation)) :
    ∃ entry : ProcessAuthorityEntryV2, a.entries[r]? = some entry ∧
      ((entry.nonceOperations[operation]? = some (digest, count, reservation) ∧ a' = a) ∨
        (entry.nonceOperations[operation]? = none ∧ ∃ record,
          entry.record.reservePendingNonceRange operation digest count =
            .ok (record, reservation) ∧
          a' = a.setEntry r { entry with
            record
            nonceOperations :=
              entry.nonceOperations.insert operation (digest, count, reservation) })) := by
  obtain ⟨entry, hentry, h⟩ := except_bind_eq_ok.mp h
  refine ⟨entry, okOr_eq_ok.mp hentry, ?_⟩
  cases hknown : entry.nonceOperations[operation]? with
  | some known =>
      rw [hknown] at h
      dsimp only at h
      split at h
      · rename_i hsame
        cases h
        exact .inl ⟨by rw [← hsame.1, ← hsame.2], rfl⟩
      · cases h
  | none =>
      rw [hknown] at h
      obtain ⟨⟨record, value⟩, hreserve, h⟩ := except_bind_eq_ok.mp h
      cases h
      exact .inr ⟨rfl, record, mapError_eq_ok.mp hreserve, rfl⟩

theorem change_reserveNonceRange {r : ResultId} {operation : OperationIdV1}
    {digest : LifecycleDigestV1} {count : UInt64} {reservation : NonceReservationV1}
    (h : a.reserveNonceRange r operation digest count.toNat = .ok (a', reservation)) :
    Change a (.reserveNonceRange r operation digest count) a' := by
  obtain ⟨entry, hentry, ⟨_, rfl⟩ | ⟨hnew, record, hreserve, rfl⟩⟩ := reserveNonceRange_cases h
  · exact .nothing (by simp)
  · exact .reserved hentry hnew hreserve

theorem change_begin {entropy : EntropyV2} {r : ResultId} {created expires : Int}
    {operation : OperationIdV1} {digest : LifecycleDigestV1} {record : ResultAuthorityRecordV2}
    {transition : LifecycleTransitionV1}
    (hcall : ∀ q, call ≠ .destroy q)
    (h : a.begin entropy r created expires operation digest = .ok (a', record, transition)) :
    Change a call a' := by
  unfold begin at h
  cases hentry : a.entries[r]? with
  | some entry =>
      rw [hentry] at h
      obtain ⟨_, _, h⟩ := except_bind_eq_ok.mp h
      split at h
      · cases h
        exact .nothing fun q hq => absurd hq (hcall q)
      · cases h
  | none =>
      rw [hentry] at h
      dsimp only at h
      split at h
      · cases h
      · obtain ⟨⟨resultDek, nonceBase⟩, _, h⟩ := except_bind_eq_ok.mp h
        dsimp only at h
        split at h
        · cases h
        · obtain ⟨opened, _, h⟩ := except_bind_eq_ok.mp h
          cases h
          exact .opened hentry hcall

/-- Everything a call can change. -/
theorem change_of_apply [Sha256] (h : call.apply a = .ok (a', out)) : Change a call a' := by
  cases call with
  | begin entropy r created expires operation digest =>
      obtain ⟨⟨x, record, transition⟩, hcall, hout⟩ := except_map_eq_ok.mp h
      cases hout
      exact change_begin (by simp) hcall
  | reserveNonceRange r operation digest count =>
      obtain ⟨⟨x, reservation⟩, hcall, hout⟩ := except_map_eq_ok.mp h
      cases hout
      exact change_reserveNonceRange hcall
  | completeNonceReservation r operation digest =>
      obtain ⟨⟨x, transition⟩, hcall, hout⟩ := except_map_eq_ok.mp h
      cases hout
      obtain ⟨entry, _, hcall⟩ := except_bind_eq_ok.mp hcall
      split at hcall
      · cases hcall
      · split at hcall
        · cases hcall
        · refine moved_of_mutateRecord (fun record record' out hmutation => ?_) (by simp) hcall
          rcases (ResultAuthorityRecordV2.completePendingNonceRange_ok hmutation).2 with rfl | rfl
          · exact ⟨le_rfl, rfl⟩
          · exact ⟨le_rfl, rfl⟩
  | commitData r operation digest buildContext =>
      obtain ⟨⟨x, transition⟩, hcall, hout⟩ := except_map_eq_ok.mp h
      cases hout
      refine moved_of_mutateRecord (fun record record' out hmutation => ?_) (by simp) hcall
      rcases (ResultAuthorityRecordV2.commitData_ok hmutation).2 with ⟨_, rfl⟩ | ⟨hstate, _, rfl⟩
      · exact ⟨le_rfl, rfl⟩
      · exact ⟨by rw [hstate]; exact Nat.zero_le _, rfl⟩
  | sealResult r operation commitments =>
      obtain ⟨⟨x, transition⟩, hcall, hout⟩ := except_map_eq_ok.mp h
      cases hout
      refine moved_of_mutateRecord (fun record record' out hmutation => ?_) (by simp) hcall
      rcases (ResultAuthorityRecordV2.seal_ok hmutation).2 with ⟨_, rfl⟩ | ⟨hstate, rfl⟩
      · exact ⟨le_rfl, rfl⟩
      · exact ⟨by rw [hstate]; exact Nat.le_succ _, rfl⟩
  | reservePublicationGeneration r operation digest =>
      obtain ⟨⟨x, generation⟩, hcall, hout⟩ := except_map_eq_ok.mp h
      cases hout
      rcases reserveGeneration_cases hcall with
        ⟨rfl, _⟩ | ⟨_, _, hstored, hstate, hnew, hnext, rfl⟩
      · exact .nothing (by simp)
      · obtain ⟨entry, hentry, rfl, _⟩ := entry_of_stored hstored
        exact .granted hentry hstate hnew (checkedAdd_eq_some.mp hnext).2
  | publish r operation generation digest =>
      obtain ⟨⟨x, transition⟩, hcall, hout⟩ := except_map_eq_ok.mp h
      cases hout
      refine moved_of_mutateRecord (fun record record' out hmutation => ?_) (by simp) hcall
      rcases (ResultAuthorityRecordV2.publish_ok hmutation).2 with ⟨_, rfl⟩ | ⟨hstate, _, _, rfl⟩
      · exact ⟨le_rfl, rfl⟩
      · exact ⟨by rw [hstate]; exact Nat.le_succ _, rfl⟩
  | snapshot r =>
      obtain ⟨record, _, hout⟩ := except_map_eq_ok.mp h
      cases hout
      exact .nothing (by simp)
  | withResultKey r =>
      obtain ⟨key, _, hout⟩ := except_map_eq_ok.mp h
      cases hout
      exact .nothing (by simp)
  | destroy r =>
      obtain ⟨⟨x, outcome⟩, hcall, hout⟩ := except_map_eq_ok.mp h
      cases hout
      replace hcall : a.destroy r = .ok (x, outcome) := hcall
      unfold destroy at hcall
      split at hcall
      · cases hcall
        exact .removed
      · rename_i hmem
        cases hcall
        refine .nothing fun q hq => ?_
        cases hq
        exact ExtTreeMap.getElem?_eq_none hmem
  | list =>
      cases h
      exact .nothing (by simp)

/-! ## What survives a call -/

variable {r : ResultId} {operation : OperationIdV1}

theorem operations_insert {key key' : ResultId × OperationIdV1}
    {value : LifecycleDigestV1 × Nat} :
    (a.operations.insert key value)[key']? = if key = key' then some value
      else a.operations[key']? := by
  simp only [ExtTreeMap.getElem?_insert, LawfulEqCmp.compare_eq_iff_eq]

/-- A remembered nonce operation is forgotten with its result only, and the
result goes forwards. -/
theorem Change.recalls (h : Change a call a') (hcall : call ≠ .destroy r)
    {entry : ProcessAuthorityEntryV2} (hentry : a.entries[r]? = some entry) :
    ∃ entry' : ProcessAuthorityEntryV2, a'.entries[r]? = some entry' ∧
      entry.record.state.rank ≤ entry'.record.state.rank ∧
      entry.record.nonceHighWater ≤ entry'.record.nonceHighWater ∧
      ∀ (operation : OperationIdV1) (value : LifecycleDigestV1 × Nat × NonceReservationV1),
        entry.nonceOperations[operation]? = some value →
          entry'.nonceOperations[operation]? = some value := by
  have hself : ∃ entry' : ProcessAuthorityEntryV2, a.entries[r]? = some entry' ∧
      entry.record.state.rank ≤ entry'.record.state.rank ∧
      entry.record.nonceHighWater ≤ entry'.record.nonceHighWater ∧
      ∀ (operation : OperationIdV1) (value : LifecycleDigestV1 × Nat × NonceReservationV1),
        entry.nonceOperations[operation]? = some value →
          entry'.nonceOperations[operation]? = some value :=
    ⟨entry, hentry, le_rfl, le_rfl, fun _ _ => id⟩
  have hother : ∀ {q : ResultId} (value : ProcessAuthorityEntryV2), q ≠ r →
      (a.setEntry q value).entries[r]? = a.entries[r]? := by
    intro q value hq
    rw [setEntry, getElem?_insert, if_neg hq]
  have hset : ∀ (value : ProcessAuthorityEntryV2),
      (a.setEntry r value).entries[r]? = some value := by
    intro value
    rw [setEntry, getElem?_insert, if_pos rfl]
  cases h with
  | nothing _ => exact hself
  | @opened _ q _ _ hnone _ =>
      have hq : q ≠ r := fun h => by rw [h, hentry] at hnone; cases hnone
      rw [hother _ hq]
      exact hself
  | @reserved q operation digest count old record reservation hold hnew hreserve =>
      by_cases hq : q = r
      · subst hq
        cases hold.symm.trans hentry
        have hsame := ResultAuthorityRecordV2.reservePendingNonceRange_withoutNonces hreserve
        refine ⟨_, hset _, ?_, ?_, fun other value hvalue => ?_⟩
        · exact (congrArg ResultLifecycleStateV1.rank
            (ResultAuthorityRecordV2.state_of_withoutNonces hsame)).ge
        · rcases ResultAuthorityRecordV2.reservePendingNonceRange_ok hreserve with
            rfl | ⟨_, _, hnext, _⟩
          · exact le_rfl
          · have hvalue := (checkedAdd_eq_some.mp hnext).2
            dsimp only
            omega
        · have hne : operation ≠ other := fun h => by rw [h, hvalue] at hnew; cases hnew
          show (entry.nonceOperations.insert operation _)[other]? = _
          rw [getElem?_insert, if_neg hne]
          exact hvalue
      · rw [hother _ hq]
        exact hself
  | @moved _ q old record hold hrank hhigh _ =>
      by_cases hq : q = r
      · subst hq
        cases hold.symm.trans hentry
        exact ⟨_, hset _, hrank, hhigh.ge, fun _ _ => id⟩
      · rw [hother _ hq]
        exact hself
  | granted => exact hself
  | @removed q =>
      have hq : q ≠ r := fun h => hcall (by rw [h])
      refine ⟨entry, ?_, le_rfl, le_rfl, fun _ _ => id⟩
      rw [getElem?_erase, if_neg hq]
      exact hentry

/-- A reservation of a generation is forgotten with its result only. -/
theorem Change.operations (h : Change a call a') (hcall : call ≠ .destroy r)
    {value : LifecycleDigestV1 × Nat} (hvalue : a.operations[(r, operation)]? = some value) :
    a'.operations[(r, operation)]? = some value := by
  cases h with
  | nothing _ => exact hvalue
  | opened _ _ => exact hvalue
  | reserved _ _ _ => exact hvalue
  | moved _ _ _ _ => exact hvalue
  | @granted q other _ _ _ _ _ hnew _ =>
      have hne : (q, other) ≠ (r, operation) := fun h => by rw [h, hvalue] at hnew; cases hnew
      show (a.operations.insert (q, other) _)[(r, operation)]? = _
      rw [operations_insert, if_neg hne]
      exact hvalue
  | @removed q =>
      have hq : r ≠ q := fun h => hcall (by rw [h])
      show (a.operations.filter _)[(r, operation)]? = _
      rw [ExtTreeMap.getElem?_filter', hvalue]
      simp [hq]

theorem Change.highWater_le (h : Change a call a') : a.highWater ≤ a'.highWater := by
  cases h with
  | nothing _ => exact le_rfl
  | opened _ _ => exact le_rfl
  | reserved _ _ _ => exact le_rfl
  | moved _ _ _ _ => exact le_rfl
  | granted _ _ _ hnext =>
      dsimp only
      omega
  | removed => exact le_rfl

/-! ## The invariant -/

end ProcessKeyAuthorityV2

/-- Two ranges without a common counter. -/
def NonceReservationV1.Apart (x y : NonceReservationV1) : Prop :=
  x.firstCounter + x.count ≤ y.firstCounter ∨ y.firstCounter + y.count ≤ x.firstCounter

theorem NonceReservationV1.Apart.symm {x y : NonceReservationV1} (h : x.Apart y) : y.Apart x :=
  Or.symm h

/-- The ranges an entry remembers have no common counter. -/
def ProcessAuthorityEntryV2.Spread (entry : ProcessAuthorityEntryV2) : Prop :=
  ∀ (operation operation' : OperationIdV1)
    (value value' : LifecycleDigestV1 × Nat × NonceReservationV1),
    entry.nonceOperations[operation]? = some value →
    entry.nonceOperations[operation']? = some value' → operation ≠ operation' →
      value.2.2.Apart value'.2.2

namespace ProcessKeyAuthorityV2

/-- A range granted for a new operation lies above all the others. -/
theorem spread_insert {entry : ProcessAuthorityEntryV2} {operation : OperationIdV1}
    {digest : LifecycleDigestV1} {count : Nat} {record : ResultAuthorityRecordV2}
    {reservation : NonceReservationV1} (hregular : (entryAccount entry).Regular)
    (hspread : entry.Spread) (hnew : entry.nonceOperations[operation]? = none)
    (hreserve : entry.record.reservePendingNonceRange operation digest count =
      .ok (record, reservation)) :
    ({ entry with
      record
      nonceOperations := entry.nonceOperations.insert operation (digest, count, reservation) } :
      ProcessAuthorityEntryV2).Spread := by
  obtain ⟨_, _, _, hvalue, _⟩ :=
    AccountV2.reserved_fresh (free_of_new hregular hnew hreserve) hreserve
  have habove : ∀ (other : OperationIdV1)
      (value : LifecycleDigestV1 × Nat × NonceReservationV1),
      entry.nonceOperations[other]? = some value → value.2.2.Apart reservation := by
    intro other value hother
    obtain ⟨_, _, _, hcount, hend, _⟩ := hregular.ranges other value.1 value.2.1 value.2.2 hother
    refine .inl ?_
    rw [hvalue, hcount]
    exact hend
  intro first second value value' hfirst hsecond hne
  dsimp only at hfirst hsecond
  rw [getElem?_insert] at hfirst hsecond
  split at hfirst
  · split at hsecond
    · rename_i h h'
      exact absurd (h.symm.trans h') hne
    · cases hfirst
      exact (habove second value' hsecond).symm
  · split at hsecond
    · cases hsecond
      exact habove first value hfirst
    · exact hspread first second value value' hfirst hsecond hne

theorem operation_of_reserve {a a' : ProcessKeyAuthorityV2} {r : ResultId}
    {operation : OperationIdV1} {digest : LifecycleDigestV1} {generation : Nat}
    (h : a.reservePublicationGeneration r operation digest = .ok (a', generation)) :
    operation.isZero = false := by
  unfold reservePublicationGeneration at h
  split at h
  · cases h
  · rename_i hzero
    simpa using hzero

theorem reserve_of_held {a : ProcessKeyAuthorityV2} {r : ResultId} {operation : OperationIdV1}
    {digest : LifecycleDigestV1} {generation : Nat} {entry : ProcessAuthorityEntryV2}
    (hzero : operation.isZero = false)
    (hentry : a.entries[r]? = some entry) (hstate : entry.record.state = .sealed)
    (hheld : a.operations[(r, operation)]? = some (digest, generation)) :
    a.reservePublicationGeneration r operation digest = .ok (a, generation) := by
  rw [reservePublicationGeneration, if_neg (by simp [hzero]), snapshot, ProcessKeyAuthorityV2.entry,
    hentry, okOr_some]
  show (if entry.record.state ≠ .sealed then _ else _) = _
  rw [if_neg (by simp [hstate]), hheld]
  exact if_pos rfl

theorem reserve_of_published {a : ProcessKeyAuthorityV2} {r : ResultId}
    (operation : OperationIdV1) (digest : LifecycleDigestV1) {entry : ProcessAuthorityEntryV2}
    (hentry : a.entries[r]? = some entry) (hstate : entry.record.state = .published) :
    ∃ e, a.reservePublicationGeneration r operation digest = .error e := by
  unfold reservePublicationGeneration
  split
  · exact ⟨_, rfl⟩
  · refine ⟨.invalidTransition, ?_⟩
    rw [snapshot, ProcessKeyAuthorityV2.entry, hentry, okOr_some]
    show (if entry.record.state ≠ .sealed then _ else _) = _
    rw [if_pos (by simp [hstate])]

variable [Sha256] {a a' : ProcessKeyAuthorityV2} {call : AuthorityCallV2}
  {out : AuthorityOutputV2} {r : ResultId}

/-- What holds of the authority at every moment: accounts are regular, the
ranges of one result are apart, and a generation is at most the high water,
is held by one operation, and only while its result is sealed or published. -/
structure Orderly (a : ProcessKeyAuthorityV2) : Prop where
  regular : RepositoryV2.AllRegular a
  spread : ∀ (r : ResultId) (entry : ProcessAuthorityEntryV2),
    a.entries[r]? = some entry → entry.Spread
  bounded : ∀ (key : ResultId × OperationIdV1) (value : LifecycleDigestV1 × Nat),
    a.operations[key]? = some value → value.2 ≤ a.highWater
  distinct : ∀ (key key' : ResultId × OperationIdV1) (value value' : LifecycleDigestV1 × Nat),
    a.operations[key]? = some value → a.operations[key']? = some value' →
      value.2 = value'.2 → key = key'
  kept : ∀ (key : ResultId × OperationIdV1) (value : LifecycleDigestV1 × Nat),
    a.operations[key]? = some value → ∃ entry : ProcessAuthorityEntryV2,
      a.entries[key.1]? = some entry ∧ 2 ≤ entry.record.state.rank

theorem regular_of_apply (h : call.apply a = .ok (a', out))
    (hregular : RepositoryV2.AllRegular a) : RepositoryV2.AllRegular a' := by
  cases call with
  | begin entropy r created expires operation digest =>
      obtain ⟨⟨x, _⟩, hcall, hout⟩ := except_map_eq_ok.mp h
      cases hout
      exact RepositoryV2.allRegular_stable (.begin hcall) hregular
  | reserveNonceRange r operation digest count =>
      obtain ⟨⟨x, _⟩, hcall, hout⟩ := except_map_eq_ok.mp h
      cases hout
      exact RepositoryV2.allRegular_stable (.reserveNonceRange hcall) hregular
  | completeNonceReservation r operation digest =>
      obtain ⟨⟨x, _⟩, hcall, hout⟩ := except_map_eq_ok.mp h
      cases hout
      exact RepositoryV2.allRegular_stable (.completeNonceReservation hcall) hregular
  | commitData r operation digest buildContext =>
      obtain ⟨⟨x, _⟩, hcall, hout⟩ := except_map_eq_ok.mp h
      cases hout
      exact RepositoryV2.allRegular_stable (.commitData hcall) hregular
  | sealResult r operation commitments =>
      obtain ⟨⟨x, _⟩, hcall, hout⟩ := except_map_eq_ok.mp h
      cases hout
      exact RepositoryV2.allRegular_stable (.sealResult hcall) hregular
  | reservePublicationGeneration r operation digest =>
      obtain ⟨⟨x, _⟩, hcall, hout⟩ := except_map_eq_ok.mp h
      cases hout
      exact RepositoryV2.allRegular_stable (.reserveGeneration hcall) hregular
  | publish r operation generation digest =>
      obtain ⟨⟨x, _⟩, hcall, hout⟩ := except_map_eq_ok.mp h
      cases hout
      exact RepositoryV2.allRegular_stable (.publish hcall) hregular
  | snapshot r =>
      obtain ⟨_, _, hout⟩ := except_map_eq_ok.mp h
      cases hout
      exact hregular
  | withResultKey r =>
      obtain ⟨_, _, hout⟩ := except_map_eq_ok.mp h
      cases hout
      exact hregular
  | destroy r =>
      obtain ⟨⟨x, _⟩, hcall, hout⟩ := except_map_eq_ok.mp h
      cases hout
      exact RepositoryV2.allRegular_survives r hcall hregular
  | list =>
      cases h
      exact hregular

theorem entryAccount_regular (h : RepositoryV2.AllRegular a) {entry : ProcessAuthorityEntryV2}
    (hentry : a.entries[r]? = some entry) : (entryAccount entry).Regular := by
  refine h r (entryAccount entry) ?_
  show a.account r = _
  rw [account, hentry]
  rfl

theorem Change.spread (h : Change a call a') (ha : a.Orderly) {entry : ProcessAuthorityEntryV2}
    (hentry : a'.entries[r]? = some entry) : entry.Spread := by
  have hset : ∀ {q : ResultId} {value : ProcessAuthorityEntryV2},
      (a.setEntry q value).entries[r]? = some entry → value.Spread → entry.Spread := by
    intro q value hentry hvalue
    rw [setEntry, getElem?_insert] at hentry
    split at hentry
    · cases hentry
      exact hvalue
    · exact ha.spread r entry hentry
  cases h with
  | nothing _ => exact ha.spread r entry hentry
  | opened _ _ =>
      refine hset hentry fun operation operation' value value' hvalue _ _ => ?_
      simp at hvalue
  | reserved hold hnew hreserve =>
      exact hset hentry (spread_insert (entryAccount_regular ha.regular hold)
        (ha.spread _ _ hold) hnew hreserve)
  | moved hold _ _ _ =>
      have hspread := ha.spread _ _ hold
      exact hset hentry hspread
  | granted _ _ _ _ => exact ha.spread r entry hentry
  | removed =>
      dsimp only at hentry
      rw [getElem?_erase] at hentry
      split at hentry
      · cases hentry
      · exact ha.spread r entry hentry

/-- Where a generation that is held comes from. -/
theorem Change.held (h : Change a call a') (ha : a.Orderly) {key : ResultId × OperationIdV1}
    {value : LifecycleDigestV1 × Nat} (hvalue : a'.operations[key]? = some value) :
    (a.operations[key]? = some value ∧ call ≠ .destroy key.1) ∨
      (value.2 = a.highWater + 1 ∧ a'.highWater = a.highWater + 1 ∧
        call = .reservePublicationGeneration key.1 key.2 value.1 ∧
        ∃ entry : ProcessAuthorityEntryV2,
          a.entries[key.1]? = some entry ∧ entry.record.state = .sealed) := by
  cases h with
  | nothing hcall =>
      refine .inl ⟨hvalue, fun hdestroy => ?_⟩
      obtain ⟨entry, hentry, _⟩ := ha.kept key value hvalue
      rw [hcall _ hdestroy] at hentry
      cases hentry
  | opened _ hcall => exact .inl ⟨hvalue, hcall _⟩
  | reserved _ _ _ => exact .inl ⟨hvalue, by simp⟩
  | moved _ _ _ hcall => exact .inl ⟨hvalue, hcall _⟩
  | granted hentry hstate hnew hnext =>
      dsimp only at hvalue
      rw [operations_insert] at hvalue
      split at hvalue
      · rename_i hkey
        cases hvalue
        cases hkey
        exact .inr ⟨hnext, hnext, rfl, _, hentry, hstate⟩
      · exact .inl ⟨hvalue, by simp⟩
  | @removed q =>
      dsimp only at hvalue
      rw [ExtTreeMap.getElem?_filter'] at hvalue
      obtain ⟨hvalue, hq⟩ := Option.filter_eq_some_iff.mp hvalue
      refine .inl ⟨hvalue, fun hdestroy => ?_⟩
      cases hdestroy
      simp at hq

theorem orderly_of_apply (h : call.apply a = .ok (a', out)) (ha : a.Orderly) : a'.Orderly := by
  have hchange := change_of_apply h
  refine ⟨regular_of_apply h ha.regular, fun _ _ => hchange.spread ha, ?_, ?_, ?_⟩
  · intro key value hvalue
    rcases hchange.held ha hvalue with ⟨hold, _⟩ | ⟨hnext, hhigh, _⟩
    · exact (ha.bounded key value hold).trans hchange.highWater_le
    · omega
  · intro key key' value value' hvalue hvalue' hsame
    rcases hchange.held ha hvalue with ⟨hold, _⟩ | ⟨hnext, _, hcall, _⟩
    · rcases hchange.held ha hvalue' with ⟨hold', _⟩ | ⟨hnext', _⟩
      · exact ha.distinct key key' value value' hold hold' hsame
      · have hbound := ha.bounded key value hold
        omega
    · rcases hchange.held ha hvalue' with ⟨hold', _⟩ | ⟨_, _, hcall', _⟩
      · have hbound := ha.bounded key' value' hold'
        omega
      · rw [hcall] at hcall'
        injection hcall' with hresult hoperation _
        exact Prod.ext hresult hoperation
  · intro key value hvalue
    rcases hchange.held ha hvalue with ⟨hold, hcall⟩ | ⟨_, _, hcall, entry, hentry, hstate⟩
    · obtain ⟨entry, hentry, hrank⟩ := ha.kept key value hold
      obtain ⟨entry', hentry', hrank', _⟩ := hchange.recalls hcall hentry
      exact ⟨entry', hentry', hrank.trans hrank'⟩
    · have hrank : 2 ≤ entry.record.state.rank := by
        rw [hstate]
        exact le_rfl
      obtain ⟨entry', hentry', hrank', _⟩ := hchange.recalls (by simp [hcall]) hentry
      exact ⟨entry', hentry', hrank.trans hrank'⟩

theorem orderly_new {capacity : Nat} (h : new capacity = .ok a) : a.Orderly := by
  unfold new at h
  split at h
  · cases h
  · cases h
    refine ⟨fun r acc hacc => ?_, fun r entry hentry => ?_, fun key value hvalue => ?_,
      fun key key' value value' hvalue => ?_, fun key value hvalue => ?_⟩
    · cases hacc
    · simp at hentry
    · simp at hvalue
    · simp at hvalue
    · simp at hvalue

/-! ## Runs -/

def runCalls (a : ProcessKeyAuthorityV2) (calls : List AuthorityCallV2) :
    ProcessKeyAuthorityV2 :=
  calls.foldl (fun a call => (call.runInPlace a).2) a

theorem runCalls_append (before after : List AuthorityCallV2) :
    a.runCalls (before ++ after) = (a.runCalls before).runCalls after :=
  List.foldl_append

/-- What `call` returns after the calls `before`. -/
def returns (a : ProcessKeyAuthorityV2) (before : List AuthorityCallV2)
    (call : AuthorityCallV2) : Except KeyAuthorityErrorV2 AuthorityOutputV2 :=
  (call.runInPlace (a.runCalls before)).1

/-- A property that every successful call of a run keeps, the run keeps. -/
theorem runCalls_keeps {P : ProcessKeyAuthorityV2 → Prop} {calls : List AuthorityCallV2}
    (hP : ∀ (b b' : ProcessKeyAuthorityV2) (call : AuthorityCallV2) (out : AuthorityOutputV2),
      call ∈ calls → call.apply b = .ok (b', out) → P b → P b')
    (ha : P a) : P (a.runCalls calls) := by
  induction calls generalizing a with
  | nil => exact ha
  | cons call rest ih =>
      refine ih (fun b b' call' out hmem => hP b b' call' out (List.mem_cons_of_mem _ hmem)) ?_
      show P (call.runInPlace a).2
      rw [call.runInPlace_eq a]
      cases happly : call.apply a with
      | error e => exact ha
      | ok p => exact hP a p.1 call p.2 (List.mem_cons_self ..) happly ha

theorem apply_of_returns {before : List AuthorityCallV2}
    (h : a.returns before call = .ok out) :
    ∃ b, call.apply (a.runCalls before) = .ok (b, out) ∧ a.runCalls (before ++ [call]) = b := by
  rw [returns, call.runInPlace_eq] at h
  rw [runCalls_append]
  show ∃ b, _ ∧ (call.runInPlace (a.runCalls before)).2 = b
  rw [call.runInPlace_eq]
  cases happly : call.apply (a.runCalls before) with
  | error e =>
      rw [happly] at h
      cases h
  | ok p =>
      rw [happly] at h
      cases h
      exact ⟨p.1, rfl, rfl⟩

/-- A call that fails changes nothing. -/
theorem unchanged_of_error {before : List AuthorityCallV2} {e : KeyAuthorityErrorV2}
    (h : a.returns before call = .error e) :
    a.runCalls (before ++ [call]) = a.runCalls before := by
  rw [returns, call.runInPlace_eq] at h
  rw [runCalls_append]
  show (call.runInPlace (a.runCalls before)).2 = _
  rw [call.runInPlace_eq]
  cases happly : call.apply (a.runCalls before) with
  | error e => rfl
  | ok p =>
      rw [happly] at h
      cases h

theorem returns_of_apply {before : List AuthorityCallV2} {b : ProcessKeyAuthorityV2}
    (h : call.apply (a.runCalls before) = .ok (b, out)) : a.returns before call = .ok out := by
  rw [returns, call.runInPlace_eq, h]
  rfl

theorem orderly_runCalls {calls : List AuthorityCallV2} (ha : a.Orderly) :
    (a.runCalls calls).Orderly :=
  runCalls_keeps (fun _ _ _ _ _ happly => orderly_of_apply happly) ha

/-! ## Ranges along a run -/

/-- The result remembers that `operation` was given `value`, below its high
water. -/
def Recalls (a : ProcessKeyAuthorityV2) (r : ResultId) (operation : OperationIdV1)
    (value : LifecycleDigestV1 × Nat × NonceReservationV1) : Prop :=
  ∃ entry : ProcessAuthorityEntryV2, a.entries[r]? = some entry ∧
    entry.nonceOperations[operation]? = some value

theorem recalls_runCalls {calls : List AuthorityCallV2} {operation : OperationIdV1}
    {value : LifecycleDigestV1 × Nat × NonceReservationV1} (hcalls : .destroy r ∉ calls)
    (h : a.Recalls r operation value) : (a.runCalls calls).Recalls r operation value := by
  refine runCalls_keeps (P := (Recalls · r operation value))
    (fun b b' call out hmem happly hb => ?_) h
  obtain ⟨entry, hentry, hvalue⟩ := hb
  have hcall : call ≠ .destroy r := fun h => hcalls (h ▸ hmem)
  obtain ⟨entry', hentry', _, _, hkept⟩ := (change_of_apply happly).recalls hcall hentry
  exact ⟨entry', hentry', hkept operation value hvalue⟩

/-- A range that is returned is remembered. -/
theorem recalls_of_returns {before : List AuthorityCallV2} {operation : OperationIdV1}
    {digest : LifecycleDigestV1} {count : UInt64} {x : NonceReservationV1}
    (h : a.returns before (.reserveNonceRange r operation digest count) = .ok (.range x)) :
    (a.runCalls (before ++ [.reserveNonceRange r operation digest count])).Recalls r operation
      (digest, count.toNat, x) := by
  obtain ⟨b, happly, hrun⟩ := apply_of_returns h
  rw [hrun]
  obtain ⟨⟨b', x'⟩, hcall, hout⟩ := except_map_eq_ok.mp happly
  cases hout
  obtain ⟨entry, hentry, ⟨hknown, rfl⟩ | ⟨_, record, _, rfl⟩⟩ := reserveNonceRange_cases hcall
  · exact ⟨entry, hentry, hknown⟩
  · refine ⟨_, by rw [setEntry, getElem?_insert, if_pos rfl], ?_⟩
    show (entry.nonceOperations.insert operation _)[operation]? = _
    rw [getElem?_insert, if_pos rfl]

/-- Two ranges one result is given, with no end of the result in between. -/
theorem ranges_of_returns {before between : List AuthorityCallV2}
    {operation operation' : OperationIdV1} {digest digest' : LifecycleDigestV1}
    {count count' : UInt64} {x y : NonceReservationV1} (ha : a.Orderly)
    (hfirst : a.returns before (.reserveNonceRange r operation digest count) = .ok (.range x))
    (hbetween : .destroy r ∉ between)
    (hsecond : a.returns (before ++ .reserveNonceRange r operation digest count :: between)
      (.reserveNonceRange r operation' digest' count') = .ok (.range y)) :
    (operation = operation' ∧ digest = digest' ∧ count = count' ∧ x = y) ∨
      (operation ≠ operation' ∧ x.Apart y) := by
  -- after the second call the result remembers both
  have hrecalls : (a.runCalls (before ++ .reserveNonceRange r operation digest count ::
      between ++ [.reserveNonceRange r operation' digest' count'])).Recalls r operation
        (digest, count.toNat, x) := by
    rw [List.append_assoc, List.cons_append, List.append_cons, runCalls_append]
    exact recalls_runCalls (by simpa using hbetween) (recalls_of_returns hfirst)
  obtain ⟨entry, hentry, hknown⟩ := hrecalls
  obtain ⟨entry', hentry', hknown'⟩ := recalls_of_returns hsecond
  cases hentry.symm.trans hentry'
  by_cases hsame : operation = operation'
  · subst hsame
    have hvalue := hknown.symm.trans hknown'
    simp only [Option.some.injEq, Prod.mk.injEq] at hvalue
    exact .inl ⟨rfl, hvalue.1, UInt64.toNat_inj.mp hvalue.2.1, hvalue.2.2⟩
  · exact .inr ⟨hsame, (orderly_runCalls ha).spread r entry hentry _ _ _ _ hknown hknown' hsame⟩

/-- A range that was returned stays below the high water of its result. -/
theorem below_of_returns {before between : List AuthorityCallV2} {operation : OperationIdV1}
    {digest : LifecycleDigestV1} {count : UInt64} {x : NonceReservationV1} (ha : a.Orderly)
    (h : a.returns before (.reserveNonceRange r operation digest count) = .ok (.range x))
    (hbetween : .destroy r ∉ between) : ∃ entry : ProcessAuthorityEntryV2,
      (a.runCalls (before ++ .reserveNonceRange r operation digest count ::
        between)).entries[r]? = some entry ∧
      x.firstCounter + x.count ≤ entry.record.nonceHighWater := by
  have hrecalls : (a.runCalls (before ++ .reserveNonceRange r operation digest count ::
      between)).Recalls r operation (digest, count.toNat, x) := by
    rw [List.append_cons, runCalls_append]
    exact recalls_runCalls hbetween (recalls_of_returns h)
  obtain ⟨entry, hentry, hknown⟩ := hrecalls
  obtain ⟨_, _, _, hcount, hend, _⟩ :=
    (entryAccount_regular (orderly_runCalls ha).regular hentry).ranges _ _ _ _ hknown
  exact ⟨entry, hentry, by rw [hcount]; exact hend⟩

/-! ## Generations along a run -/

theorem destroy_returns (before : List AuthorityCallV2) (r : ResultId) :
    ∃ out, a.returns before (.destroy r) = .ok out := by
  rw [returns, AuthorityCallV2.runInPlace_eq]
  show ∃ out, (ProcessM.settle id _ (((a.runCalls before).destroy r).map _)).1 = .ok out
  unfold destroy
  split
  · exact ⟨_, rfl⟩
  · exact ⟨_, rfl⟩

theorem operations_runCalls {calls : List AuthorityCallV2} {operation : OperationIdV1}
    {value : LifecycleDigestV1 × Nat} (hcalls : .destroy r ∉ calls)
    (h : a.operations[(r, operation)]? = some value) :
    (a.runCalls calls).operations[(r, operation)]? = some value := by
  refine runCalls_keeps (P := fun b => b.operations[(r, operation)]? = some value)
    (fun b b' call out hmem happly hb => ?_) h
  have hcall : call ≠ .destroy r := fun h => hcalls (h ▸ hmem)
  exact (change_of_apply happly).operations hcall hb

/-- A generation that is returned is held. -/
theorem held_of_returns {before : List AuthorityCallV2} {operation : OperationIdV1}
    {digest : LifecycleDigestV1} {generation : Nat}
    (h : a.returns before (.reservePublicationGeneration r operation digest) =
      .ok (.generation generation)) :
    (a.runCalls (before ++ [.reservePublicationGeneration r operation
      digest])).operations[(r, operation)]? = some (digest, generation) := by
  obtain ⟨b, happly, hrun⟩ := apply_of_returns h
  rw [hrun]
  obtain ⟨⟨b', x'⟩, hcall, hout⟩ := except_map_eq_ok.mp happly
  cases hout
  rcases reserveGeneration_cases hcall with ⟨rfl, hknown⟩ | ⟨_, _, _, _, _, _, rfl⟩
  · exact hknown
  · show ((a.runCalls before).operations.insert _ _)[_]? = _
    rw [operations_insert, if_pos rfl]

/-- No other operation will hold this generation. -/
def Owns (a : ProcessKeyAuthorityV2) (key : ResultId × OperationIdV1) (generation : Nat) : Prop :=
  a.Orderly ∧ generation ≤ a.highWater ∧
    ∀ (key' : ResultId × OperationIdV1) (value : LifecycleDigestV1 × Nat),
      a.operations[key']? = some value → value.2 = generation → key' = key

theorem owns_runCalls {calls : List AuthorityCallV2} {key : ResultId × OperationIdV1}
    {generation : Nat} (h : a.Owns key generation) : (a.runCalls calls).Owns key generation := by
  refine runCalls_keeps (P := (Owns · key generation)) (fun b b' call out _ happly hb => ?_) h
  obtain ⟨horderly, hbound, howner⟩ := hb
  have hchange := change_of_apply happly
  refine ⟨orderly_of_apply happly horderly, hbound.trans hchange.highWater_le, ?_⟩
  intro key' value hvalue hsame
  rcases hchange.held horderly hvalue with ⟨hold, _⟩ | ⟨hnext, _⟩
  · exact howner key' value hold hsame
  · omega

theorem owns_of_returns {before : List AuthorityCallV2} {operation : OperationIdV1}
    {digest : LifecycleDigestV1} {generation : Nat} (ha : a.Orderly)
    (h : a.returns before (.reservePublicationGeneration r operation digest) =
      .ok (.generation generation)) (after : List AuthorityCallV2) :
    (a.runCalls (before ++ .reservePublicationGeneration r operation digest :: after)).Owns
      (r, operation) generation := by
  have hheld := held_of_returns h
  have horderly : (a.runCalls (before ++
      [.reservePublicationGeneration r operation digest])).Orderly := orderly_runCalls ha
  rw [List.append_cons, runCalls_append]
  refine owns_runCalls ⟨horderly, horderly.bounded _ _ hheld, fun key' value hvalue hsame => ?_⟩
  exact horderly.distinct _ _ _ _ hvalue hheld hsame

/-- A generation that is held was returned, and its result has not ended
since. -/
theorem granted_of_held {calls : List AuthorityCallV2} {operation : OperationIdV1}
    {digest : LifecycleDigestV1} {generation : Nat} (ha : a.Orderly)
    (hempty : a.operations[(r, operation)]? = none)
    (h : (a.runCalls calls).operations[(r, operation)]? = some (digest, generation)) :
    ∃ before after, calls =
        before ++ .reservePublicationGeneration r operation digest :: after ∧
      .destroy r ∉ after ∧
      a.returns before (.reservePublicationGeneration r operation digest) =
        .ok (.generation generation) := by
  induction calls using List.reverseRecOn with
  | nil =>
      rw [show a.runCalls [] = a from rfl, hempty] at h
      cases h
  | append_singleton calls call ih =>
      have hstep : (a.runCalls calls).operations[(r, operation)]? = some (digest, generation) →
          call ≠ .destroy r → ∃ before after, calls ++ [call] =
            before ++ .reservePublicationGeneration r operation digest :: after ∧
          .destroy r ∉ after ∧
          a.returns before (.reservePublicationGeneration r operation digest) =
            .ok (.generation generation) := by
        intro hheld hcall
        obtain ⟨before, after, rfl, hafter, hreturns⟩ := ih hheld
        refine ⟨before, after ++ [call], by simp, ?_, hreturns⟩
        simp only [List.mem_append, List.mem_singleton, not_or]
        exact ⟨hafter, Ne.symm hcall⟩
      cases hreturns : a.returns calls call with
      | error e =>
          rw [unchanged_of_error hreturns] at h
          refine hstep h fun hdestroy => ?_
          subst hdestroy
          obtain ⟨out, hout⟩ := destroy_returns (a := a) calls r
          rw [hreturns] at hout
          cases hout
      | ok out =>
          obtain ⟨b, happly, hrun⟩ := apply_of_returns hreturns
          rw [hrun] at h
          rcases (change_of_apply happly).held (orderly_runCalls ha) h with
            ⟨hold, hcall⟩ | ⟨_, _, rfl, _⟩
          · exact hstep hold hcall
          · refine ⟨calls, [], rfl, by simp, ?_⟩
            obtain ⟨⟨b', generation'⟩, _, hout⟩ := except_map_eq_ok.mp happly
            cases hout
            have hheld := held_of_returns hreturns
            rw [hrun, h] at hheld
            cases hheld
            exact hreturns

/-! ## What is unique over a run -/

/-- What is reserved over a run is reserved once. A range of a result is
given to one operation, for one digest and count, and lies below the high
water for as long as the result exists; a generation is given to one
operation of one result, above all generations before it, and asked for
again it is given again; a call that fails changes nothing. -/
structure Unique (a : ProcessKeyAuthorityV2) (calls : List AuthorityCallV2) : Prop where
  ranges : ∀ (r : ResultId) (operation operation' : OperationIdV1)
    (digest digest' : LifecycleDigestV1) (count count' : UInt64) (x y : NonceReservationV1)
    (before between after : List AuthorityCallV2),
    calls = before ++ .reserveNonceRange r operation digest count :: between ++
      .reserveNonceRange r operation' digest' count' :: after →
    .destroy r ∉ between →
    a.returns before (.reserveNonceRange r operation digest count) = .ok (.range x) →
    a.returns (before ++ .reserveNonceRange r operation digest count :: between)
      (.reserveNonceRange r operation' digest' count') = .ok (.range y) →
      (operation = operation' ∧ digest = digest' ∧ count = count' ∧ x = y) ∨
        (operation ≠ operation' ∧ x.Apart y)
  below : ∀ (r : ResultId) (operation : OperationIdV1) (digest : LifecycleDigestV1)
    (count : UInt64) (x : NonceReservationV1) (before between after : List AuthorityCallV2),
    calls = before ++ .reserveNonceRange r operation digest count :: between ++ after →
    .destroy r ∉ between →
    a.returns before (.reserveNonceRange r operation digest count) = .ok (.range x) →
      ∃ entry : ProcessAuthorityEntryV2,
        (a.runCalls (before ++ .reserveNonceRange r operation digest count ::
          between)).entries[r]? = some entry ∧
        x.firstCounter + x.count ≤ entry.record.nonceHighWater
  owners : ∀ (r r' : ResultId) (operation operation' : OperationIdV1)
    (digest digest' : LifecycleDigestV1) (generation : Nat)
    (before between after : List AuthorityCallV2),
    calls = before ++ .reservePublicationGeneration r operation digest :: between ++
      .reservePublicationGeneration r' operation' digest' :: after →
    a.returns before (.reservePublicationGeneration r operation digest) =
      .ok (.generation generation) →
    a.returns (before ++ .reservePublicationGeneration r operation digest :: between)
      (.reservePublicationGeneration r' operation' digest') = .ok (.generation generation) →
      r = r' ∧ operation = operation'
  grows : ∀ (r r' : ResultId) (operation operation' : OperationIdV1)
    (digest digest' : LifecycleDigestV1) (generation generation' : Nat)
    (before between after : List AuthorityCallV2),
    calls = before ++ .reservePublicationGeneration r operation digest :: between ++
      .reservePublicationGeneration r' operation' digest' :: after →
    a.returns before (.reservePublicationGeneration r operation digest) =
      .ok (.generation generation) →
    a.returns (before ++ .reservePublicationGeneration r operation digest :: between)
      (.reservePublicationGeneration r' operation' digest') = .ok (.generation generation') →
      generation < generation' ∨ ∃ earlier later,
        before ++ .reservePublicationGeneration r operation digest :: between =
          earlier ++ .reservePublicationGeneration r' operation' digest' :: later ∧
        a.returns earlier (.reservePublicationGeneration r' operation' digest') =
          .ok (.generation generation')
  retried : ∀ (r : ResultId) (operation : OperationIdV1) (digest : LifecycleDigestV1)
    (generation : Nat) (before between after : List AuthorityCallV2),
    calls = before ++ .reservePublicationGeneration r operation digest :: between ++
      .reservePublicationGeneration r operation digest :: after →
    .destroy r ∉ between →
    a.returns before (.reservePublicationGeneration r operation digest) =
      .ok (.generation generation) →
    a.returns (before ++ .reservePublicationGeneration r operation digest :: between)
      (.reservePublicationGeneration r operation digest) = .ok (.generation generation)
  failed : ∀ (call : AuthorityCallV2) (e : KeyAuthorityErrorV2)
    (before after : List AuthorityCallV2), calls = before ++ call :: after →
    a.returns before call = .error e → a.runCalls (before ++ [call]) = a.runCalls before

/-- A generation is asked for again after its result has been published. -/
def Late (a : ProcessKeyAuthorityV2) (call : AuthorityCallV2) : Prop :=
  ∃ r operation digest generation, ∃ entry : ProcessAuthorityEntryV2,
    call = .reservePublicationGeneration r operation digest ∧
      a.operations[(r, operation)]? = some (digest, generation) ∧
      a.entries[r]? = some entry ∧ entry.record.state = .published

theorem grows_of_returns {before between : List AuthorityCallV2} {r r' : ResultId}
    {operation operation' : OperationIdV1} {digest digest' : LifecycleDigestV1}
    {generation generation' : Nat} (ha : a.Orderly) (hempty : a.operations = ∅)
    (hfirst : a.returns before (.reservePublicationGeneration r operation digest) =
      .ok (.generation generation))
    (hsecond : a.returns (before ++ .reservePublicationGeneration r operation digest :: between)
      (.reservePublicationGeneration r' operation' digest') = .ok (.generation generation')) :
    generation < generation' ∨ ∃ earlier later,
      before ++ .reservePublicationGeneration r operation digest :: between =
        earlier ++ .reservePublicationGeneration r' operation' digest' :: later ∧
      a.returns earlier (.reservePublicationGeneration r' operation' digest') =
        .ok (.generation generation') := by
  obtain ⟨_, hbound, _⟩ := owns_of_returns ha hfirst between
  obtain ⟨b, happly, _⟩ := apply_of_returns hsecond
  obtain ⟨⟨b', x'⟩, hcall, hout⟩ := except_map_eq_ok.mp happly
  cases hout
  rcases reserveGeneration_cases hcall with ⟨_, hheld⟩ | ⟨_, _, _, _, _, hnext, _⟩
  · obtain ⟨earlier, later, hcalls, _, hreturns⟩ :=
      granted_of_held ha (by simp [hempty]) hheld
    exact .inr ⟨earlier, later, hcalls, hreturns⟩
  · have hvalue := (checkedAdd_eq_some.mp hnext).2
    exact .inl (by omega)

theorem owners_of_returns {before between : List AuthorityCallV2} {r r' : ResultId}
    {operation operation' : OperationIdV1} {digest digest' : LifecycleDigestV1}
    {generation : Nat} (ha : a.Orderly)
    (hfirst : a.returns before (.reservePublicationGeneration r operation digest) =
      .ok (.generation generation))
    (hsecond : a.returns (before ++ .reservePublicationGeneration r operation digest :: between)
      (.reservePublicationGeneration r' operation' digest') = .ok (.generation generation)) :
    r = r' ∧ operation = operation' := by
  have hheld := held_of_returns hsecond
  rw [List.append_assoc, List.cons_append] at hheld
  obtain ⟨_, _, howner⟩ := owns_of_returns ha hfirst
    (between ++ [.reservePublicationGeneration r' operation' digest'])
  have hsame := howner _ _ hheld rfl
  exact ⟨(congrArg Prod.fst hsame).symm, (congrArg Prod.snd hsame).symm⟩

/-- Asked for again, a generation is given again, unless that is late. -/
theorem retried_of_returns {before between : List AuthorityCallV2} {operation : OperationIdV1}
    {digest : LifecycleDigestV1} {generation : Nat} (ha : a.Orderly)
    (hbetween : .destroy r ∉ between)
    (hfirst : a.returns before (.reservePublicationGeneration r operation digest) =
      .ok (.generation generation))
    (hlate : ¬ (a.runCalls (before ++ .reservePublicationGeneration r operation digest ::
      between)).Late (.reservePublicationGeneration r operation digest)) :
    a.returns (before ++ .reservePublicationGeneration r operation digest :: between)
      (.reservePublicationGeneration r operation digest) = .ok (.generation generation) := by
  have hheld := operations_runCalls hbetween (held_of_returns hfirst)
  rw [← runCalls_append, ← List.append_cons] at hheld
  obtain ⟨entry, hentry, hrank⟩ := (orderly_runCalls ha).kept _ _ hheld
  have hstate : entry.record.state = .sealed := by
    cases hstate : entry.record.state with
    | opened =>
        rw [hstate] at hrank
        exact absurd hrank (by decide)
    | dataCommitted =>
        rw [hstate] at hrank
        exact absurd hrank (by decide)
    | «sealed» => rfl
    | published =>
        exact (hlate ⟨r, operation, digest, generation, entry, rfl, hheld, hentry, hstate⟩).elim
  obtain ⟨b, happly, _⟩ := apply_of_returns hfirst
  obtain ⟨_, hcall, _⟩ := except_map_eq_ok.mp happly
  have hagain := reserve_of_held (operation_of_reserve hcall) hentry hstate hheld
  refine returns_of_apply (b := a.runCalls (before ++
    .reservePublicationGeneration r operation digest :: between)) ?_
  show (reservePublicationGeneration _ r operation digest).map _ = _
  rw [hagain]
  rfl

theorem returns_of_late {before : List AuthorityCallV2} (h : (a.runCalls before).Late call) :
    ∃ e, a.returns before call = .error e := by
  obtain ⟨r, operation, digest, generation, entry, rfl, _, hentry, hstate⟩ := h
  obtain ⟨e, herror⟩ := reserve_of_published operation digest hentry hstate
  rw [returns, AuthorityCallV2.runInPlace_eq]
  refine ⟨e, ?_⟩
  show (ProcessM.settle id _ ((reservePublicationGeneration _ r operation digest).map _)).1 = _
  rw [herror]
  rfl

/-- Over every run from a new authority: what is reserved is reserved once,
exactly when no generation is asked for again after its result has been
published. -/
theorem unique_iff_never_late {capacity : Nat} (hnew : new capacity = .ok a)
    (calls : List AuthorityCallV2) :
    a.Unique calls ↔ ∀ (before : List AuthorityCallV2) (call : AuthorityCallV2)
      (after : List AuthorityCallV2), calls = before ++ call :: after →
        ¬ (a.runCalls before).Late call := by
  have ha := orderly_new hnew
  have hempty : a.operations = ∅ := by
    unfold new at hnew
    split at hnew
    · cases hnew
    · cases hnew
      rfl
  constructor
  · intro hunique before call after hcalls hlate
    obtain ⟨e, herror⟩ := returns_of_late hlate
    obtain ⟨r, operation, digest, generation, entry, rfl, hheld, _, _⟩ := hlate
    -- what is held was returned before, so the property speaks of this call
    obtain ⟨earlier, between, rfl, hbetween, hreturns⟩ :=
      granted_of_held ha (by simp [hempty]) hheld
    have hagain := hunique.retried r operation digest generation earlier between after hcalls
      hbetween hreturns
    rw [hagain] at herror
    cases herror
  · intro hnever
    refine ⟨?_, ?_, ?_, ?_, ?_, ?_⟩
    · intro r operation operation' digest digest' count count' x y before between after _
        hbetween hfirst hsecond
      exact ranges_of_returns ha hfirst hbetween hsecond
    · intro r operation digest count x before between after _ hbetween hfirst
      exact below_of_returns ha hfirst hbetween
    · intro r r' operation operation' digest digest' generation before between after _ hfirst
        hsecond
      exact owners_of_returns ha hfirst hsecond
    · intro r r' operation operation' digest digest' generation generation' before between after
        _ hfirst hsecond
      exact grows_of_returns ha hempty hfirst hsecond
    · intro r operation digest generation before between after hcalls hbetween hfirst
      exact retried_of_returns ha hbetween hfirst (hnever _ _ after hcalls)
    · intro call e before after _ herror
      exact unchanged_of_error herror

end ProcessKeyAuthorityV2

namespace ProcessKeyAuthorityV2

/-- The calls that bring one result to its seal. -/
def untilSealed : List AuthorityCallV2 :=
  [.begin (some (.repeated 3, .repeated 7)) (.repeated 9) 100 200 (.repeated 1) (.repeated 10),
    .reserveNonceRange (.repeated 9) (.repeated 2) (.repeated 12) 4,
    .completeNonceReservation (.repeated 9) (.repeated 2) (.repeated 12),
    .commitData (.repeated 9) (.repeated 3) (.repeated 11)
      ⟨.repeated 1, .repeated 2, .repeated 3, .repeated 4, .repeated 5⟩,
    .sealResult (.repeated 9) (.repeated 4)
      ⟨.repeated 20, .repeated 21, .repeated 22, .repeated 23, .repeated 24⟩]

/-- The reservation is repeated before the publication, and granted. -/
theorem unique_whole_life :
    letI := fips180
    let reserve := .reservePublicationGeneration (.repeated 9) (.repeated 5) (.repeated 30)
    ∃ a, new 1 = .ok a ∧ a.returns (untilSealed ++ [reserve]) reserve = .ok (.generation 1) ∧
      a.Unique (untilSealed ++ [reserve, reserve,
        .publish (.repeated 9) (.repeated 5) 1 (.repeated 30), .destroy (.repeated 9)]) := by
  let := fips180
  refine ⟨_, rfl, by decide +kernel, (unique_iff_never_late (show new 1 = .ok _ from rfl) _).mpr ?_⟩
  intro before call after hcalls hlate
  obtain ⟨r, operation, digest, generation, entry, rfl, _, hentry, hstate⟩ := hlate
  have hcall := congrArg (·[before.length]?) hcalls
  have hbefore := congrArg (List.take before.length) hcalls
  have hlength := congrArg List.length hcalls
  simp only [List.getElem?_append_right le_rfl, Nat.sub_self, List.getElem?_cons_zero] at hcall
  simp only [List.take_left'] at hbefore
  simp only [List.length_append, List.length_cons] at hlength
  have hlt : before.length < 9 := by
    simp [untilSealed] at hlength
    omega
  -- a generation is asked for at the sixth and at the seventh call
  generalize before.length = i at hcall hbefore hlt
  have hi : i = 5 ∨ i = 6 := by
    interval_cases i <;> simp [untilSealed] at hcall ⊢
  have hsealed : ((({ capacity := 1 } : ProcessKeyAuthorityV2).runCalls before).entries[r]?.map
      (·.record.state)) = some .sealed := by
    rcases hi with rfl | rfl
    · cases hcall
      subst hbefore
      decide +kernel
    · cases hcall
      subst hbefore
      decide +kernel
  rw [hentry, Option.map_some, hstate] at hsealed
  cases hsealed

/-- The result is sealed, its generation is reserved and it is published. The
same reservation is then refused. -/
theorem retry_after_publication_refused :
    letI := fips180
    let reserve := .reservePublicationGeneration (.repeated 9) (.repeated 5) (.repeated 30)
    let publish := .publish (.repeated 9) (.repeated 5) 1 (.repeated 30)
    ∃ a, new 1 = .ok a ∧ a.returns untilSealed reserve = .ok (.generation 1) ∧
      a.returns (untilSealed ++ [reserve, publish]) reserve = .error .invalidTransition ∧
      ¬a.Unique (untilSealed ++ [reserve, publish, reserve]) := by
  let := fips180
  refine ⟨_, rfl, by decide +kernel, by decide +kernel, fun h => ?_⟩
  have hagain := h.retried (.repeated 9) (.repeated 5) (.repeated 30) 1 untilSealed
    [.publish (.repeated 9) (.repeated 5) 1 (.repeated 30)] [] rfl (by simp)
    (by decide +kernel)
  exact absurd hagain (by decide +kernel)

end ProcessKeyAuthorityV2

end Evidentrail
