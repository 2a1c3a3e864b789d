import Evidentrail.Store.Account

/-!
# The accounts of the two authorities

The process authority keeps a map of all its reservations. The keychain keeps
the last one in the entry, and an entry that does not decode is no account.
-/

namespace Evidentrail

open Rust Std

/-! ## In process memory -/

namespace ProcessKeyAuthorityV2

def entryAccount (entry : ProcessAuthorityEntryV2) : AccountV2 :=
  ⟨entry.record, entry.resultDek, fun operation => entry.nonceOperations[operation]?⟩

def account (a : ProcessKeyAuthorityV2) (r : ResultId) : Option AccountV2 :=
  a.entries[r]?.map entryAccount

variable {a a' : ProcessKeyAuthorityV2} {q r : ResultId} {acc : AccountV2}

theorem account_setEntry (a : ProcessKeyAuthorityV2) (q r : ResultId)
    (entry : ProcessAuthorityEntryV2) :
    (a.setEntry r entry).account q = if r = q then some (entryAccount entry) else a.account q := by
  unfold account setEntry
  rw [getElem?_insert]
  split <;> rfl

theorem account_setEntry_self (a : ProcessKeyAuthorityV2) (r : ResultId)
    (entry : ProcessAuthorityEntryV2) :
    (a.setEntry r entry).account r = some (entryAccount entry) := by
  rw [account_setEntry, if_pos rfl]

theorem account_setEntry_of_ne (entry : ProcessAuthorityEntryV2) (h : q ≠ r) :
    (a.setEntry r entry).account q = a.account q := by
  rw [account_setEntry, if_neg (Ne.symm h)]

theorem entry_of_account (h : a.account r = some acc) :
    ∃ entry, a.entries[r]? = some entry ∧ entryAccount entry = acc :=
  Option.map_eq_some_iff.mp h

theorem setEntry_same {entry : ProcessAuthorityEntryV2} (h : a.entries[r]? = some entry) :
    a.setEntry r entry = a := by
  have hentries : a.entries.insert r entry = a.entries := by
    refine ExtTreeMap.ext_getElem? fun q => ?_
    rw [getElem?_insert]
    split
    · rename_i hq
      rw [← hq, h]
    · rfl
  unfold setEntry
  rw [hentries]

theorem setEntry_setEntry (entry entry' : ProcessAuthorityEntryV2) :
    (a.setEntry r entry).setEntry r entry' = a.setEntry r entry' := by
  have hentries : (a.entries.insert r entry).insert r entry' = a.entries.insert r entry' := by
    refine ExtTreeMap.ext_getElem? fun q => ?_
    rw [getElem?_insert, getElem?_insert, getElem?_insert]
    split
    · rfl
    · rfl
  unfold setEntry
  rw [hentries]

/-- What `mutate_record` does to the account. -/
theorem mutates_mutateRecord {R : Type} (h : a.account r = some acc)
    (mutation : ResultAuthorityRecordV2 →
      Except LifecycleRecordErrorV1 (ResultAuthorityRecordV2 × R)) :
    Mutates account r acc (a.mutateRecord r mutation) (mutation acc.record) := by
  obtain ⟨entry, hentry, rfl⟩ := entry_of_account h
  have hrecord : (entryAccount entry).record = entry.record := rfl
  unfold Mutates mutateRecord ProcessKeyAuthorityV2.entry
  rw [hrecord, hentry, okOr_some, except_bind_ok]
  cases hmutation : mutation entry.record with
  | ok pair => exact ⟨_, rfl, account_setEntry_self ..⟩
  | error error => rfl

theorem mutateRecord_other {R : Type} {mutation : ResultAuthorityRecordV2 →
      Except LifecycleRecordErrorV1 (ResultAuthorityRecordV2 × R)} {output : R} (hq : q ≠ r)
    (h : a.mutateRecord r mutation = .ok (a', output)) : a'.account q = a.account q := by
  obtain ⟨entry, record, _, _, rfl⟩ := mutateRecord_ok h
  exact account_setEntry_of_ne _ hq

/-- The account after a mutation that succeeded. -/
theorem mutateRecord_account {R : Type} {mutation : ResultAuthorityRecordV2 →
      Except LifecycleRecordErrorV1 (ResultAuthorityRecordV2 × R)} {output : R}
    (h : a.mutateRecord r mutation = .ok (a', output)) :
    ∃ acc record, a.account r = some acc ∧ mutation acc.record = .ok (record, output) ∧
      a'.account r = some (acc.withRecord record) := by
  obtain ⟨entry, record, hentry, hmutation, rfl⟩ := mutateRecord_ok h
  refine ⟨entryAccount entry, record, by rw [account, hentry]; rfl, hmutation, ?_⟩
  exact account_setEntry_self ..

/-- What is pending is remembered, so a new operation is granted only when
nothing is. -/
theorem free_of_new {entry : ProcessAuthorityEntryV2} {operation : OperationIdV1}
    {digest : LifecycleDigestV1} {count : Nat} {record : ResultAuthorityRecordV2}
    {reservation : NonceReservationV1} (hregular : (entryAccount entry).Regular)
    (hnew : entry.nonceOperations[operation]? = none)
    (hreserve : entry.record.reservePendingNonceRange operation digest count =
      .ok (record, reservation)) : entry.record.hasPendingNonceReservation = false := by
  by_contra hpending
  replace hpending : entry.record.hasPendingNonceReservation = true := by simpa using hpending
  have hsome := hregular.pending hpending
  replace hsome : entry.nonceOperations[entry.record.pendingNonceOperation]? = some _ := hsome
  unfold ResultAuthorityRecordV2.reservePendingNonceRange at hreserve
  rw [show (!entry.record.pendingNonceOperation.isZero) = true from hpending] at hreserve
  split at hreserve
  · cases hreserve
  · rw [if_pos rfl] at hreserve
    split at hreserve
    · rename_i hsame
      rw [hsame.1, hnew] at hsome
      cases hsome
    · cases hreserve

theorem reserve_account {operation : OperationIdV1} {digest : LifecycleDigestV1} {count : Nat}
    {reservation : NonceReservationV1} (h : a.account r = some acc) (hregular : acc.Regular)
    (hcall : a.reserveNonceRange r operation digest count = .ok (a', reservation)) :
    ∃ acc', a'.account r = some acc' ∧
      acc.Reserves operation digest count reservation acc' := by
  have hacc := h
  obtain ⟨entry, hentry, rfl⟩ := entry_of_account h
  obtain ⟨found, hfound, hcall⟩ := except_bind_eq_ok.mp hcall
  cases (okOr_eq_ok.mp hfound).symm.trans hentry
  cases hknown : entry.nonceOperations[operation]? with
  | some known =>
      obtain ⟨digest', count', known'⟩ := known
      rw [hknown] at hcall
      dsimp only at hcall
      split at hcall
      · rename_i hsame
        cases hcall
        refine ⟨_, hacc, .again ?_⟩
        show entry.nonceOperations[operation]? = _
        rw [hknown, hsame.1, hsame.2]
      · cases hcall
  | none =>
      rw [hknown] at hcall
      obtain ⟨⟨record, value⟩, hreserve, hcall⟩ := except_bind_eq_ok.mp hcall
      cases hcall
      replace hreserve := mapError_eq_ok.mp hreserve
      refine ⟨_, account_setEntry_self .., .fresh ?_ hreserve (by simp) ?_⟩
      · exact free_of_new hregular hknown hreserve
      · intro other hother
        refine .inl ?_
        show (entry.nonceOperations.insert operation _)[other]? = entry.nonceOperations[other]?
        rw [getElem?_insert, if_neg (Ne.symm hother)]

theorem complete_eq {entry : ProcessAuthorityEntryV2} (hentry : a.entries[r]? = some entry)
    {operation : OperationIdV1} {digest : LifecycleDigestV1}
    (hrecalled : (entryAccount entry).Recalls operation digest) :
    a.completeNonceReservation r operation digest =
      a.mutateRecord r (·.completePendingNonceRange operation digest) := by
  obtain ⟨count, reservation, hknown⟩ := hrecalled
  replace hknown : entry.nonceOperations[operation]? = some (digest, count, reservation) :=
    hknown
  rw [completeNonceReservation, ProcessKeyAuthorityV2.entry, hentry, okOr_some, except_bind_ok,
    hknown]
  simp

theorem account_of_entries (h : a'.entries = a.entries) (q : ResultId) :
    a'.account q = a.account q := by
  unfold account
  rw [h]

theorem destroy_account {outcome : AuthorityDestroyOutcomeV2}
    (h : a.destroy r = .ok (a', outcome)) :
    a'.account r = none ∧ ∀ q, q ≠ r → a'.account q = a.account q := by
  unfold destroy at h
  split at h
  · cases h
    refine ⟨by simp [account], fun q hq => ?_⟩
    unfold account
    rw [getElem?_erase, if_neg (Ne.symm hq)]
  · rename_i hmem
    cases h
    refine ⟨?_, fun _ _ => rfl⟩
    unfold account
    rw [ExtTreeMap.getElem?_eq_none hmem]
    rfl

theorem reserveGeneration_account {operation : OperationIdV1} {digest : LifecycleDigestV1}
    {generation : Nat} (h : a.reservePublicationGeneration r operation digest =
      .ok (a', generation)) (q : ResultId) : a'.account q = a.account q := by
  rcases reserveGeneration_cases h with ⟨rfl, _⟩ | ⟨_, _, _, _, _, _, rfl⟩
  · rfl
  · exact account_of_entries rfl q

theorem begin_account {entropy : EntropyV2} {created expires : Int} {operation : OperationIdV1}
    {digest : LifecycleDigestV1} {record : ResultAuthorityRecordV2}
    {transition : LifecycleTransitionV1}
    (h : a.begin entropy r created expires operation digest = .ok (a', record, transition)) :
    (∃ acc, a.account r = some acc ∧ acc.record = record ∧ a' = a ∧
      transition = .alreadyApplied ∧
      record.matchesBegin created expires operation digest = true) ∨
    (a.account r = none ∧ transition = .applied ∧
      (∀ q, q ≠ r → a'.account q = a.account q) ∧ ∃ nonceBase resultDek,
      ResultAuthorityRecordV2.newOpen r created expires nonceBase operation digest = .ok record ∧
      a'.account r = some ⟨record, resultDek, fun _ => none⟩) := by
  unfold begin at h
  cases hentry : a.entries[r]? with
  | some entry =>
      rw [hentry] at h
      obtain ⟨_, _, h⟩ := except_bind_eq_ok.mp h
      split at h
      · rename_i hmatches
        cases h
        exact .inl ⟨entryAccount entry, by rw [account, hentry]; rfl, rfl, rfl, rfl, hmatches⟩
      · cases h
  | none =>
      rw [hentry] at h
      dsimp only at h
      split at h
      · cases h
      · obtain ⟨⟨resultDek, nonceBase⟩, _, h⟩ := except_bind_eq_ok.mp h
        dsimp only at h
        split at h
        · cases h
        · obtain ⟨opened, hopened, h⟩ := except_bind_eq_ok.mp h
          cases h
          refine .inr ⟨by rw [account, hentry]; rfl, rfl,
            fun q hq => account_setEntry_of_ne _ hq, nonceBase, resultDek,
            mapError_eq_ok.mp hopened, ?_⟩
          rw [account_setEntry_self]
          unfold entryAccount
          simp

variable [Sha256]

theorem account_step (h : AuthorityOpV2 r a a')
    (hregular : ∀ acc, a.account r = some acc → acc.Regular) :
    AccountV2.Step (a.account r) (a'.account r) := by
  cases h with
  | begin h =>
      rcases begin_account h with ⟨_, _, _, rfl, _⟩ | ⟨hnone, _, _, _, _, hopen, hnew⟩
      · exact .same _
      · rw [hnone, hnew]
        exact .opened hopen
  | reserveNonceRange h =>
      cases hacc : a.account r with
      | none =>
          obtain ⟨entry, hentry, _⟩ := except_bind_eq_ok.mp h
          rw [account, okOr_eq_ok.mp hentry] at hacc
          cases hacc
      | some acc =>
          obtain ⟨acc', hacc', hreserves⟩ := reserve_account hacc (hregular acc hacc) h
          rw [hacc']
          exact .reserve hreserves
  | completeNonceReservation h =>
      obtain ⟨entry, _, h⟩ := except_bind_eq_ok.mp h
      split at h
      · cases h
      · split at h
        · cases h
        · obtain ⟨acc, record, hacc, hmutation, hacc'⟩ := mutateRecord_account h
          rw [hacc, hacc']
          exact .complete hmutation
  | commitData h =>
      obtain ⟨acc, record, hacc, hmutation, hacc'⟩ := mutateRecord_account h
      rw [hacc, hacc']
      exact .commitData hmutation
  | sealResult h =>
      obtain ⟨acc, record, hacc, hmutation, hacc'⟩ := mutateRecord_account h
      rw [hacc, hacc']
      exact .sealResult hmutation
  | reserveGeneration h =>
      rw [reserveGeneration_account h r]
      exact .same _
  | publish h =>
      obtain ⟨acc, record, hacc, hmutation, hacc'⟩ := mutateRecord_account h
      rw [hacc, hacc']
      exact .publish hmutation

theorem account_other (h : AuthorityOpV2 r a a') (hq : q ≠ r) : a'.account q = a.account q := by
  cases h with
  | begin h =>
      rcases begin_account h with ⟨_, _, _, rfl, _⟩ | ⟨_, _, hkept, _⟩
      · rfl
      · exact hkept q hq
  | reserveNonceRange h =>
      obtain ⟨entry, _, h⟩ := except_bind_eq_ok.mp h
      split at h
      · split at h
        · cases h
          rfl
        · cases h
      · obtain ⟨_, _, h⟩ := except_bind_eq_ok.mp h
        cases h
        exact account_setEntry_of_ne _ hq
  | completeNonceReservation h =>
      obtain ⟨entry, _, h⟩ := except_bind_eq_ok.mp h
      split at h
      · cases h
      · split at h
        · cases h
        · exact mutateRecord_other hq h
  | commitData h => exact mutateRecord_other hq h
  | sealResult h => exact mutateRecord_other hq h
  | reserveGeneration h => exact reserveGeneration_account h q
  | publish h => exact mutateRecord_other hq h

instance : AccountableV2 ProcessKeyAuthorityV2 where
  account := account
  snapshot_eq_ok {a r record} := by
    show (okOr KeyAuthorityErrorV2.notFound a.entries[r]?).map ProcessAuthorityEntryV2.record =
      .ok record ↔ _
    unfold account
    cases a.entries[r]? with
    | none => simp [okOr, Except.map]
    | some entry => simp [okOr, Except.map, entryAccount]
  resultKey_account {a r acc} h := by
    obtain ⟨entry, hentry, rfl⟩ := entry_of_account h
    show (okOr KeyAuthorityErrorV2.notFound a.entries[r]?).map ProcessAuthorityEntryV2.resultDek = _
    rw [hentry]
    rfl
  step_other := account_other
  step := account_step
  destroy_account := destroy_account
  begin_ok h := by
    rcases begin_account h with h | ⟨hnone, hnew, _, h⟩
    · exact .inl h
    · exact .inr ⟨hnone, hnew, h⟩
  begin_again {a r acc} entropy created expires operation digest h hregular hmatches := by
    obtain ⟨entry, hentry, rfl⟩ := entry_of_account h
    show ProcessKeyAuthorityV2.begin a entropy r created expires operation digest = _
    have hcanonical : entry.record.validateCanonical = .ok () := hregular.canonical
    have hmatches : entry.record.matchesBegin created expires operation digest = true := hmatches
    rw [ProcessKeyAuthorityV2.begin, hentry]
    simp only [hcanonical, hmatches, if_true]
    rfl
  reserve_ok := reserve_account
  reserve_recalled {a r acc operation digest count reservation} h _ hrecalled := by
    obtain ⟨entry, hentry, rfl⟩ := entry_of_account h
    show ProcessKeyAuthorityV2.reserveNonceRange a r operation digest count = _
    have hknown : entry.nonceOperations[operation]? = some (digest, count, reservation) :=
      hrecalled
    rw [ProcessKeyAuthorityV2.reserveNonceRange, ProcessKeyAuthorityV2.entry, hentry, okOr_some,
      except_bind_ok, hknown]
    simp
  reserve_fresh {a r acc operation digest count} h hrecalled _ := by
    obtain ⟨entry, hentry, rfl⟩ := entry_of_account h
    show (ProcessKeyAuthorityV2.reserveNonceRange a r operation digest count).map _ = _
    have hknown : entry.nonceOperations[operation]? = none := hrecalled
    rw [ProcessKeyAuthorityV2.reserveNonceRange, ProcessKeyAuthorityV2.entry, hentry, okOr_some,
      except_bind_ok, hknown]
    dsimp only [entryAccount]
    cases entry.record.reservePendingNonceRange operation digest count <;> rfl
  complete_recalled {a r acc operation digest} h hrecalled := by
    have hmutates := mutates_mutateRecord h (·.completePendingNonceRange operation digest)
    obtain ⟨entry, hentry, rfl⟩ := entry_of_account h
    show Mutates account r _ (a.completeNonceReservation r operation digest) _
    rw [complete_eq hentry hrecalled]
    exact hmutates
  complete_idle {a r acc operation digest} h hrecalled hfree := by
    obtain ⟨entry, hentry, rfl⟩ := entry_of_account h
    show a.completeNonceReservation r operation digest = _
    have hidle : entry.record.completePendingNonceRange operation digest =
        .ok (entry.record, .alreadyApplied) :=
      ResultAuthorityRecordV2.completePendingNonceRange_idle hfree
    rw [complete_eq hentry hrecalled, mutateRecord, ProcessKeyAuthorityV2.entry, hentry,
      okOr_some, except_bind_ok, hidle]
    show Except.ok (a.setEntry r entry, _) = _
    rw [setEntry_same hentry]
  complete_unrecalled {a r acc operation digest} h _ hrecalled := by
    obtain ⟨entry, hentry, rfl⟩ := entry_of_account h
    show a.completeNonceReservation r operation digest = _
    rw [completeNonceReservation, ProcessKeyAuthorityV2.entry, hentry, okOr_some, except_bind_ok]
    cases hknown : entry.nonceOperations[operation]? with
    | none => rfl
    | some known =>
        obtain ⟨digest', count, reservation⟩ := known
        have hne : digest' ≠ digest := fun heq =>
          hrecalled ⟨count, reservation, by rw [← heq]; exact hknown⟩
        exact if_pos hne
  commitData_account operation digest buildContext h := mutates_mutateRecord h _
  seal_account operation commitments h :=
    mutates_mutateRecord h fun record => record.seal operation commitments

end ProcessKeyAuthorityV2

/-! ## In the keychain -/

namespace MacOsKeychainAuthorityV2

/-- The last reservation is all that is remembered. -/
def entryAccount (entry : KeychainEntryV2) : AccountV2 :=
  ⟨entry.record, entry.resultDek, fun operation =>
    if entry.lastNonceOperation.isZero = false ∧ entry.lastNonceOperation = operation then
      some (entry.lastNonceDigest, entry.lastNonceCount,
        ⟨entry.record.nonceBase, entry.lastNonceFirst, entry.lastNonceCount⟩)
    else none⟩

def account (a : MacOsKeychainAuthorityV2) (r : ResultId) : Option AccountV2 :=
  match a.getEntry r with
  | .ok entry => some (entryAccount entry)
  | .error _ => none

/-- An entry that `get_entry` accepts for this result. -/
def Readable (entry : KeychainEntryV2) (r : ResultId) : Prop :=
  entry.decodes = true ∧ entry.record.resultId = r

instance (entry : KeychainEntryV2) (r : ResultId) : Decidable (Readable entry r) :=
  inferInstanceAs (Decidable (_ ∧ _))

variable {a a' : MacOsKeychainAuthorityV2} {q r : ResultId} {acc : AccountV2}
  {entry : KeychainEntryV2}

theorem getEntry_eq_ok :
    a.getEntry r = .ok entry ↔ a.entries[r]? = some entry ∧ Readable entry r := by
  unfold getEntry
  rw [except_bind_eq_ok]
  constructor
  · rintro ⟨found, hfound, h⟩
    split at h
    · rename_i hreadable
      cases h
      exact ⟨okOr_eq_ok.mp hfound, hreadable⟩
    · cases h
  · rintro ⟨hentry, hreadable⟩
    exact ⟨entry, okOr_eq_ok.mpr hentry, if_pos hreadable⟩

theorem account_eq_some : a.account r = some acc ↔
    ∃ entry, a.entries[r]? = some entry ∧ Readable entry r ∧ entryAccount entry = acc := by
  unfold account
  cases h : a.getEntry r with
  | ok entry =>
      obtain ⟨hentry, hreadable⟩ := getEntry_eq_ok.mp h
      constructor
      · intro hacc
        cases hacc
        exact ⟨entry, hentry, hreadable, rfl⟩
      · rintro ⟨entry', hentry', _, rfl⟩
        cases hentry.symm.trans hentry'
        rfl
  | error error =>
      constructor
      · intro hacc
        cases hacc
      · rintro ⟨entry, hentry, hreadable, _⟩
        rw [getEntry_eq_ok.mpr ⟨hentry, hreadable⟩] at h
        cases h

theorem account_congr (h : a'.entries[r]? = a.entries[r]?) : a'.account r = a.account r := by
  unfold account getEntry
  rw [h]

theorem account_setEntry_of_ne (entry : KeychainEntryV2) (h : q ≠ r) :
    (a.setEntry r entry).account q = a.account q :=
  account_congr (by rw [setEntry, getElem?_insert, if_neg (Ne.symm h)])

theorem account_setEntry_self (a : MacOsKeychainAuthorityV2) (h : Readable entry r) :
    (a.setEntry r entry).account r = some (entryAccount entry) :=
  account_eq_some.mpr ⟨entry, by rw [setEntry, getElem?_insert, if_pos rfl], h, rfl⟩

/-- An entry that was changed may have become unreadable. -/
theorem account_setEntry_cases (a : MacOsKeychainAuthorityV2) (r : ResultId)
    (entry : KeychainEntryV2) : (a.setEntry r entry).account r = some (entryAccount entry) ∨
      (a.setEntry r entry).account r = none := by
  by_cases h : Readable entry r
  · exact .inl (account_setEntry_self a h)
  · refine .inr (Option.eq_none_iff_forall_ne_some.mpr fun acc hacc => ?_)
    obtain ⟨entry', hentry', hreadable, _⟩ := account_eq_some.mp hacc
    rw [setEntry, getElem?_insert, if_pos rfl] at hentry'
    cases hentry'
    exact h hreadable

theorem setEntry_same (h : a.entries[r]? = some entry) : a.setEntry r entry = a := by
  have hentries : a.entries.insert r entry = a.entries := by
    refine ExtTreeMap.ext_getElem? fun q => ?_
    rw [getElem?_insert]
    split
    · rename_i hq
      rw [← hq, h]
    · rfl
  unfold setEntry
  rw [hentries]

theorem readable_withRecord {record : ResultAuthorityRecordV2} (h : Readable entry r)
    (hcanonical : record.validateCanonical = .ok ())
    (hid : record.resultId = entry.record.resultId) :
    Readable { entry with record } r := by
  obtain ⟨_, hrest⟩ := KeychainEntryV2.decodes_iff.mp h.1
  exact ⟨KeychainEntryV2.decodes_iff.mpr ⟨hcanonical, hrest⟩, hid.trans h.2⟩

theorem entryAccount_withRecord {record : ResultAuthorityRecordV2}
    (hbase : record.nonceBase = entry.record.nonceBase) :
    entryAccount { entry with record } = (entryAccount entry).withRecord record := by
  unfold entryAccount AccountV2.withRecord
  simp only [hbase]

/-- A transition of the record that keeps what an entry needs. -/
structure KeepsEntry {R : Type} (mutation : ResultAuthorityRecordV2 →
    Except LifecycleRecordErrorV1 (ResultAuthorityRecordV2 × R)) : Prop where
  canonical : ∀ record record' out, mutation record = .ok (record', out) →
    record.validateCanonical = .ok () → record'.validateCanonical = .ok ()
  resultId : ∀ record record' out, mutation record = .ok (record', out) →
    record'.resultId = record.resultId
  nonceBase : ∀ record record' out, mutation record = .ok (record', out) →
    record'.nonceBase = record.nonceBase

section Mutations

variable {R : Type} {mutation : ResultAuthorityRecordV2 →
    Except LifecycleRecordErrorV1 (ResultAuthorityRecordV2 × R)}

theorem setRecord_account (hkeeps : KeepsEntry mutation) (hreadable : Readable entry r)
    {record : ResultAuthorityRecordV2} {output : R}
    (h : mutation entry.record = .ok (record, output)) :
    (a.setEntry r { entry with record }).account r =
      some ((entryAccount entry).withRecord record) := by
  rw [← entryAccount_withRecord (hkeeps.nonceBase _ _ _ h)]
  exact account_setEntry_self a (readable_withRecord hreadable
    (hkeeps.canonical _ _ _ h (KeychainEntryV2.decodes_iff.mp hreadable.1).1)
    (hkeeps.resultId _ _ _ h))

theorem mutates_mutateRecord (hkeeps : KeepsEntry mutation) (h : a.account r = some acc) :
    Mutates account r acc (a.mutateRecord r mutation) (mutation acc.record) := by
  obtain ⟨entry, hentry, hreadable, rfl⟩ := account_eq_some.mp h
  have hrecord : (entryAccount entry).record = entry.record := rfl
  unfold Mutates mutateRecord mutateEntry
  rw [hrecord, getEntry_eq_ok.mpr ⟨hentry, hreadable⟩, except_bind_ok]
  dsimp only
  cases hmutation : mutation entry.record with
  | ok pair => exact ⟨_, rfl, setRecord_account hkeeps hreadable hmutation⟩
  | error error => rfl

/-- The account after a mutation of the entry that succeeded. -/
theorem mutateEntry_account {mutation : KeychainEntryV2 →
      Except KeyAuthorityErrorV2 (KeychainEntryV2 × R)} {output : R}
    (h : a.mutateEntry r mutation = .ok (a', output)) :
    ∃ entry entry', a.entries[r]? = some entry ∧ Readable entry r ∧
      a.account r = some (entryAccount entry) ∧ mutation entry = .ok (entry', output) ∧
      a' = a.setEntry r entry' := by
  obtain ⟨entry, hentry, h⟩ := except_bind_eq_ok.mp h
  obtain ⟨⟨entry', out⟩, hmutation, h⟩ := except_bind_eq_ok.mp h
  cases h
  obtain ⟨hfound, hreadable⟩ := getEntry_eq_ok.mp hentry
  exact ⟨entry, entry', hfound, hreadable, account_eq_some.mpr ⟨entry, hfound, hreadable, rfl⟩,
    hmutation, rfl⟩

theorem mutateRecord_account (hkeeps : KeepsEntry mutation) {output : R}
    (h : a.mutateRecord r mutation = .ok (a', output)) :
    ∃ acc record, a.account r = some acc ∧ mutation acc.record = .ok (record, output) ∧
      a'.account r = some (acc.withRecord record) := by
  obtain ⟨entry, entry', hentry, hreadable, hacc, hmutation, rfl⟩ := mutateEntry_account h
  obtain ⟨⟨record, out⟩, hmutation, hout⟩ := except_bind_eq_ok.mp hmutation
  cases hout
  replace hmutation := mapError_eq_ok.mp hmutation
  exact ⟨_, record, hacc, hmutation, setRecord_account hkeeps hreadable hmutation⟩

end Mutations

theorem keepsEntry_complete (operation : OperationIdV1) (digest : LifecycleDigestV1) :
    KeepsEntry (ResultAuthorityRecordV2.completePendingNonceRange · operation digest) where
  canonical _ _ _ h hr := ResultAuthorityRecordV2.canonical_complete hr h
  resultId _ _ _ h := ResultAuthorityRecordV2.resultId_of_withoutNonces
    (ResultAuthorityRecordV2.completePendingNonceRange_withoutNonces h)
  nonceBase _ _ _ h := by
    rcases (ResultAuthorityRecordV2.completePendingNonceRange_ok h).2 with rfl | rfl <;> rfl

theorem keepsEntry_commitData [Sha256] (operation : OperationIdV1) (digest : LifecycleDigestV1)
    (buildContext : BuildContextDigestsV1) :
    KeepsEntry (ResultAuthorityRecordV2.commitData · operation digest buildContext) where
  canonical _ _ _ h hr := ResultAuthorityRecordV2.canonical_commitData hr h
  resultId _ _ _ h := ResultAuthorityRecordV2.resultId_commitData h
  nonceBase _ _ _ h := by
    rcases (ResultAuthorityRecordV2.commitData_ok h).2 with ⟨_, rfl⟩ | ⟨_, _, rfl⟩ <;> rfl

theorem keepsEntry_seal (operation : OperationIdV1) (commitments : SealCommitmentsV1) :
    KeepsEntry fun record => record.seal operation commitments where
  canonical _ _ _ h hr := ResultAuthorityRecordV2.canonical_seal hr h
  resultId _ _ _ h := ResultAuthorityRecordV2.resultId_seal h
  nonceBase _ _ _ h := by
    rcases (ResultAuthorityRecordV2.seal_ok h).2 with ⟨_, rfl⟩ | ⟨_, rfl⟩ <;> rfl

theorem keepsEntry_publish (operation : OperationIdV1) (generation : Nat)
    (digest : LifecycleDigestV1) :
    KeepsEntry (ResultAuthorityRecordV2.publish · operation generation digest) where
  canonical _ _ _ h hr := ResultAuthorityRecordV2.canonical_publish hr h
  resultId _ _ _ h := ResultAuthorityRecordV2.resultId_publish h
  nonceBase _ _ _ h := by
    rcases (ResultAuthorityRecordV2.publish_ok h).2 with ⟨_, rfl⟩ | ⟨_, _, _, rfl⟩ <;> rfl

theorem reserve_account {operation : OperationIdV1} {digest : LifecycleDigestV1} {count : Nat}
    {reservation : NonceReservationV1} (h : a.account r = some acc) (hregular : acc.Regular)
    (hcall : a.reserveNonceRange r operation digest count = .ok (a', reservation)) :
    ∃ acc', a'.account r = some acc' ∧
      acc.Reserves operation digest count reservation acc' := by
  obtain ⟨entry, entry', hentry, hreadable, hacc, hmutation, rfl⟩ := mutateEntry_account hcall
  cases hacc.symm.trans h
  split at hmutation
  · rename_i hlast
    obtain ⟨value, hvalue, hout⟩ := except_map_eq_ok.mp hmutation
    cases hout
    refine ⟨_, account_setEntry_self a hreadable, .again ?_⟩
    replace hvalue := mapError_eq_ok.mp hvalue
    unfold NonceReservationV1.new at hvalue
    split at hvalue
    · cases hvalue
    · cases hvalue
      show (if _ then _ else _) = _
      rw [if_pos ⟨by simpa using hlast.1, hlast.2.1⟩, hlast.2.2.1, hlast.2.2.2]
  · split at hmutation
    · cases hmutation
    · rename_i hunpending
      obtain ⟨⟨record, value⟩, hreserve, hout⟩ := except_bind_eq_ok.mp hmutation
      cases hout
      replace hreserve := mapError_eq_ok.mp hreserve
      have hfree : entry.record.hasPendingNonceReservation = false := by
        by_contra hpending
        replace hpending : entry.record.hasPendingNonceReservation = true := by simpa using hpending
        have hsome := hregular.pending hpending
        unfold entryAccount at hsome
        dsimp only at hsome
        split at hsome
        · rename_i hlast
          exact hunpending ⟨by simpa using hlast.1, hpending⟩
        · cases hsome
      have hreadable' : Readable { entry with
          record, lastNonceOperation := operation, lastNonceDigest := digest
          lastNonceFirst := reservation.firstCounter, lastNonceCount := count } r := by
        obtain ⟨hcanonical, hdek, _, hpublication⟩ :=
          KeychainEntryV2.decodes_iff.mp hreadable.1
        obtain ⟨hoperation, hcount, _⟩ := AccountV2.reserved_fresh hfree hreserve
        refine ⟨KeychainEntryV2.decodes_iff.mpr
          ⟨ResultAuthorityRecordV2.canonical_reserve hcanonical hreserve, hdek, ?_,
            hpublication⟩, ?_⟩
        · simp [KeychainEntryV2.nonceDecodes, hoperation, hcount]
        · exact (ResultAuthorityRecordV2.resultId_of_withoutNonces
            (ResultAuthorityRecordV2.reservePendingNonceRange_withoutNonces hreserve)).trans
            hreadable.2
      refine ⟨_, account_setEntry_self a hreadable', .fresh hfree hreserve ?_ ?_⟩
      · obtain ⟨hoperation, _, _, rfl, rfl⟩ := AccountV2.reserved_fresh hfree hreserve
        exact if_pos ⟨hoperation, rfl⟩
      · intro other hother
        exact .inr (if_neg fun h => hother h.2.symm)

theorem begin_account {entropy : EntropyV2} {created expires : Int} {operation : OperationIdV1}
    {digest : LifecycleDigestV1} {record : ResultAuthorityRecordV2}
    {transition : LifecycleTransitionV1}
    (h : a.begin entropy r created expires operation digest = .ok (a', record, transition)) :
    (∃ acc, a.account r = some acc ∧ acc.record = record ∧ a' = a ∧
      transition = .alreadyApplied ∧
      record.matchesBegin created expires operation digest = true) ∨
    (a.account r = none ∧ transition = .applied ∧
      (∀ q, q ≠ r → a'.account q = a.account q) ∧ ∃ nonceBase resultDek,
      ResultAuthorityRecordV2.newOpen r created expires nonceBase operation digest = .ok record ∧
      a'.account r = some ⟨record, resultDek, fun _ => none⟩) := by
  unfold begin at h
  cases hentry : a.getEntry r with
  | ok entry =>
      rw [hentry] at h
      dsimp only at h
      split at h
      · rename_i hmatches
        cases h
        refine .inl ⟨entryAccount entry, ?_, rfl, rfl, rfl, hmatches⟩
        rw [account, hentry]
      · cases h
  | error error =>
      rw [hentry] at h
      cases error with
      | notFound =>
          obtain ⟨entries, _, h⟩ := except_bind_eq_ok.mp h
          split at h
          · cases h
          · obtain ⟨⟨resultDek, nonceBase⟩, _, h⟩ := except_bind_eq_ok.mp h
            dsimp only at h
            split at h
            · cases h
            · rename_i hdek
              obtain ⟨opened, hopened, h⟩ := except_bind_eq_ok.mp h
              cases h
              replace hopened := mapError_eq_ok.mp hopened
              obtain ⟨_, hid, hcanonical⟩ := ResultAuthorityRecordV2.newOpen_ok hopened
              have hreadable : Readable { record, resultDek } r := by
                refine ⟨KeychainEntryV2.decodes_iff.mpr
                  ⟨hcanonical, by simpa using hdek, ?_, ?_⟩, hid⟩
                · simp [KeychainEntryV2.nonceDecodes, FixedBytes.isZero_zero]
                · simp [KeychainEntryV2.publicationDecodes, FixedBytes.isZero_zero]
              refine .inr ⟨by rw [account, hentry], rfl,
                fun q hq => account_setEntry_of_ne _ hq, nonceBase, resultDek, hopened, ?_⟩
              rw [account_setEntry_self a hreadable]
              unfold entryAccount
              simp [FixedBytes.isZero_zero]
      | _ => cases h

/-- The record and the last nonce operation stay, unless the entry becomes
unreadable. -/
theorem reserveGeneration_account {operation : OperationIdV1} {digest : LifecycleDigestV1}
    {generation : Nat}
    (h : a.reservePublicationGeneration r operation digest = .ok (a', generation)) :
    (a'.account r = a.account r ∨ a'.account r = none) ∧
      ∀ q, q ≠ r → a'.account q = a.account q := by
  unfold reservePublicationGeneration at h
  split at h
  · cases h
  · obtain ⟨entry, hentry, h⟩ := except_bind_eq_ok.mp h
    split at h
    · cases h
    · split at h
      · split at h
        · split at h <;> cases h <;> exact ⟨.inl (account_congr rfl), fun _ _ => account_congr rfl⟩
        · cases h
      · obtain ⟨entries, _, h⟩ := except_bind_eq_ok.mp h
        obtain ⟨next, _, h⟩ := except_bind_eq_ok.mp h
        cases h
        refine ⟨?_, fun q hq => account_setEntry_of_ne _ hq⟩
        rcases account_setEntry_cases a r { entry with
            publicationOperation := operation, publicationDigest := digest
            publicationGeneration := generation } with hsome | hnone
        · refine .inl (hsome.trans ?_)
          rw [account, hentry]
          rfl
        · exact .inr hnone

theorem destroy_account {outcome : AuthorityDestroyOutcomeV2}
    (h : a.destroy r = .ok (a', outcome)) :
    a'.account r = none ∧ ∀ q, q ≠ r → a'.account q = a.account q := by
  unfold destroy at h
  split at h
  · cases h
    refine ⟨by simp [account, getEntry, okOr, Bind.bind, Except.bind], fun q hq => ?_⟩
    exact account_congr (by rw [getElem?_erase, if_neg (Ne.symm hq)])
  · rename_i hmem
    cases h
    refine ⟨?_, fun _ _ => rfl⟩
    simp [account, getEntry, ExtTreeMap.getElem?_eq_none hmem, okOr, Bind.bind, Except.bind]

theorem complete_eq (hentry : a.getEntry r = .ok entry) {operation : OperationIdV1}
    {digest : LifecycleDigestV1} (hrecalled : (entryAccount entry).Recalls operation digest) :
    a.completeNonceReservation r operation digest =
      a.mutateRecord r (·.completePendingNonceRange operation digest) := by
  obtain ⟨count, reservation, hknown⟩ := hrecalled
  unfold entryAccount at hknown
  dsimp only at hknown
  split at hknown
  · rename_i hlast
    cases hknown
    unfold completeNonceReservation mutateRecord mutateEntry
    rw [hentry, except_bind_ok, except_bind_ok]
    dsimp only
    rw [if_neg]
    rintro (h | h)
    · exact h hlast.2
    · exact h rfl
  · cases hknown

/-- `reserve_nonce_range` on a readable entry. -/
theorem reserveNonceRange_eq (hentry : a.getEntry r = .ok entry) (operation : OperationIdV1)
    (digest : LifecycleDigestV1) (count : Nat) :
    a.reserveNonceRange r operation digest count =
      if !entry.lastNonceOperation.isZero ∧ entry.lastNonceOperation = operation ∧
          entry.lastNonceDigest = digest ∧ entry.lastNonceCount = count then
        ((NonceReservationV1.new entry.record.nonceBase entry.lastNonceFirst count).mapError
          .ofLifecycle).map fun reservation => (a.setEntry r entry, reservation)
      else if !entry.lastNonceOperation.isZero ∧ entry.record.hasPendingNonceReservation then
        .error .operationConflict
      else ((entry.record.reservePendingNonceRange operation digest count).mapError
        .ofLifecycle).map fun pair => (a.setEntry r { entry with
          record := pair.1, lastNonceOperation := operation, lastNonceDigest := digest
          lastNonceFirst := pair.2.firstCounter, lastNonceCount := count }, pair.2) := by
  unfold reserveNonceRange mutateEntry
  rw [hentry, except_bind_ok]
  dsimp only
  split
  · cases NonceReservationV1.new entry.record.nonceBase entry.lastNonceFirst count <;> rfl
  · split
    · rfl
    · cases entry.record.reservePendingNonceRange operation digest count <;> rfl

variable [Sha256]

theorem account_step (h : AuthorityOpV2 r a a')
    (hregular : ∀ acc, a.account r = some acc → acc.Regular) :
    AccountV2.Step (a.account r) (a'.account r) := by
  cases h with
  | begin h =>
      rcases begin_account h with ⟨_, _, _, rfl, _⟩ | ⟨hnone, _, _, _, _, hopen, hnew⟩
      · exact .same _
      · rw [hnone, hnew]
        exact .opened hopen
  | reserveNonceRange h =>
      obtain ⟨entry, _, _, _, hacc, _⟩ := mutateEntry_account h
      obtain ⟨acc', hacc', hreserves⟩ := reserve_account hacc (hregular _ hacc) h
      rw [hacc, hacc']
      exact .reserve hreserves
  | completeNonceReservation h =>
      obtain ⟨entry, entry', hentry, hreadable, hacc, hmutation, rfl⟩ := mutateEntry_account h
      split at hmutation
      · cases hmutation
      · obtain ⟨⟨record, out⟩, hcomplete, hout⟩ := except_bind_eq_ok.mp hmutation
        cases hout
        replace hcomplete := mapError_eq_ok.mp hcomplete
        rw [hacc, setRecord_account (keepsEntry_complete _ _) hreadable hcomplete]
        exact .complete hcomplete
  | commitData h =>
      obtain ⟨acc, record, hacc, hmutation, hacc'⟩ :=
        mutateRecord_account (keepsEntry_commitData _ _ _) h
      rw [hacc, hacc']
      exact .commitData hmutation
  | sealResult h =>
      obtain ⟨acc, record, hacc, hmutation, hacc'⟩ :=
        mutateRecord_account (keepsEntry_seal _ _) h
      rw [hacc, hacc']
      exact .sealResult hmutation
  | reserveGeneration h =>
      rcases (reserveGeneration_account h).1 with hsame | hnone
      · rw [hsame]
        exact .same _
      · rw [hnone]
        exact .gone _
  | publish h =>
      obtain ⟨entry, entry', hentry, hreadable, hacc, hmutation, rfl⟩ := mutateEntry_account h
      split at hmutation
      · cases hmutation
      · obtain ⟨⟨record, out⟩, hpublish, hout⟩ := except_bind_eq_ok.mp hmutation
        cases hout
        replace hpublish := mapError_eq_ok.mp hpublish
        rw [hacc, setRecord_account (keepsEntry_publish _ _ _) hreadable hpublish]
        exact .publish hpublish

theorem account_other (h : AuthorityOpV2 r a a') (hq : q ≠ r) : a'.account q = a.account q := by
  have hentry : ∀ {R : Type} {mutation : KeychainEntryV2 →
      Except KeyAuthorityErrorV2 (KeychainEntryV2 × R)} {output : R},
      a.mutateEntry r mutation = .ok (a', output) → a'.account q = a.account q := by
    intro R mutation output h
    obtain ⟨_, _, _, _, _, _, rfl⟩ := mutateEntry_account h
    exact account_setEntry_of_ne _ hq
  cases h with
  | begin h =>
      rcases begin_account h with ⟨_, _, _, rfl, _⟩ | ⟨_, _, hkept, _⟩
      · rfl
      · exact hkept q hq
  | reserveNonceRange h => exact hentry h
  | completeNonceReservation h => exact hentry h
  | commitData h => exact hentry h
  | sealResult h => exact hentry h
  | reserveGeneration h => exact (reserveGeneration_account h).2 q hq
  | publish h => exact hentry h

instance : AccountableV2 MacOsKeychainAuthorityV2 where
  account := account
  snapshot_eq_ok {a r record} := by
    show (a.getEntry r).map KeychainEntryV2.record = .ok record ↔ _
    unfold account
    cases a.getEntry r with
    | ok entry => simp [Except.map, entryAccount]
    | error error => simp [Except.map]
  resultKey_account {a r acc} h := by
    obtain ⟨entry, hentry, hreadable, rfl⟩ := account_eq_some.mp h
    show (a.getEntry r).map KeychainEntryV2.resultDek = _
    rw [getEntry_eq_ok.mpr ⟨hentry, hreadable⟩]
    rfl
  step_other := account_other
  step := account_step
  destroy_account := destroy_account
  begin_ok h := by
    rcases begin_account h with h | ⟨hnone, hnew, _, h⟩
    · exact .inl h
    · exact .inr ⟨hnone, hnew, h⟩
  begin_again {a r acc} entropy created expires operation digest h _ hmatches := by
    obtain ⟨entry, hentry, hreadable, rfl⟩ := account_eq_some.mp h
    show MacOsKeychainAuthorityV2.begin a entropy r created expires operation digest = _
    rw [MacOsKeychainAuthorityV2.begin, getEntry_eq_ok.mpr ⟨hentry, hreadable⟩]
    exact if_pos hmatches
  reserve_ok := reserve_account
  reserve_recalled {a r acc operation digest count reservation} h hregular hrecalled := by
    obtain ⟨entry, hentry, hreadable, rfl⟩ := account_eq_some.mp h
    obtain ⟨_, hpos, _, _, hbelow, hhigh⟩ := hregular.ranges _ _ _ _ hrecalled
    obtain ⟨hheader, _⟩ := ResultAuthorityRecordV2.validateCanonical_eq_ok.mp hregular.canonical
    unfold entryAccount at hrecalled
    dsimp only at hrecalled
    split at hrecalled
    · rename_i hlast
      cases hrecalled
      have hbase : entry.record.nonceBase.isZero = false := by
        have := fun hzero => hheader (.inr (.inr (.inl hzero)))
        simpa [entryAccount] using this
      have hfits : checkedAdd entry.lastNonceFirst entry.lastNonceCount ≠ none := by
        rw [checkedAdd_of_lt (Nat.lt_of_le_of_lt hbelow hhigh)]
        simp
      show MacOsKeychainAuthorityV2.reserveNonceRange a r _ _ _ = _
      rw [reserveNonceRange_eq (getEntry_eq_ok.mpr ⟨hentry, hreadable⟩),
        if_pos ⟨by simp [hlast.1], hlast.2, rfl, rfl⟩, setEntry_same hentry]
      rw [NonceReservationV1.new, if_neg]
      · rfl
      · rintro (h | h | h)
        · rw [hbase] at h
          cases h
        · exact Nat.ne_of_gt hpos h
        · exact hfits h
    · cases hrecalled
  reserve_fresh {a r acc operation digest count} h hrecalled hfree := by
    obtain ⟨entry, hentry, hreadable, rfl⟩ := account_eq_some.mp h
    show (MacOsKeychainAuthorityV2.reserveNonceRange a r operation digest count).map _ = _
    have hunknown : ¬(entry.lastNonceOperation.isZero = false ∧
        entry.lastNonceOperation = operation) := by
      intro hlast
      unfold entryAccount at hrecalled
      dsimp only at hrecalled
      rw [if_pos hlast] at hrecalled
      cases hrecalled
    replace hfree : entry.record.hasPendingNonceReservation = false := hfree
    rw [reserveNonceRange_eq (getEntry_eq_ok.mpr ⟨hentry, hreadable⟩),
      if_neg fun h => hunknown ⟨by simpa using h.1, h.2.1⟩, if_neg fun h => by
        rw [hfree] at h
        exact Bool.false_ne_true h.2]
    show _ = (((entryAccount entry).record.reservePendingNonceRange operation digest
      count).mapError KeyAuthorityErrorV2.ofLifecycle).map Prod.snd
    dsimp only [entryAccount]
    cases entry.record.reservePendingNonceRange operation digest count <;> rfl
  complete_recalled {a r acc operation digest} h hrecalled := by
    have hmutates := mutates_mutateRecord (keepsEntry_complete operation digest) h
    obtain ⟨entry, hentry, hreadable, rfl⟩ := account_eq_some.mp h
    show Mutates account r _ (a.completeNonceReservation r operation digest) _
    rw [complete_eq (getEntry_eq_ok.mpr ⟨hentry, hreadable⟩) hrecalled]
    exact hmutates
  complete_idle {a r acc operation digest} h hrecalled hfree := by
    obtain ⟨entry, hentry, hreadable, rfl⟩ := account_eq_some.mp h
    show a.completeNonceReservation r operation digest = _
    have hidle : entry.record.completePendingNonceRange operation digest =
        .ok (entry.record, .alreadyApplied) :=
      ResultAuthorityRecordV2.completePendingNonceRange_idle hfree
    have hfound := getEntry_eq_ok.mpr ⟨hentry, hreadable⟩
    rw [complete_eq hfound hrecalled, mutateRecord, mutateEntry, hfound, except_bind_ok]
    dsimp only
    rw [hidle]
    show Except.ok (a.setEntry r entry, _) = _
    rw [setEntry_same hentry]
  complete_unrecalled {a r acc operation digest} h hoperation hrecalled := by
    obtain ⟨entry, hentry, hreadable, rfl⟩ := account_eq_some.mp h
    show a.completeNonceReservation r operation digest = _
    unfold completeNonceReservation mutateEntry
    rw [getEntry_eq_ok.mpr ⟨hentry, hreadable⟩, except_bind_ok]
    dsimp only
    rw [if_pos]
    · rfl
    · by_contra hlast
      push Not at hlast
      refine hrecalled ⟨entry.lastNonceCount,
        ⟨entry.record.nonceBase, entry.lastNonceFirst, entry.lastNonceCount⟩, ?_⟩
      unfold entryAccount
      dsimp only
      rw [if_pos ⟨by rw [hlast.1]; exact hoperation, hlast.1⟩, hlast.2]
  commitData_account operation digest buildContext h :=
    mutates_mutateRecord (keepsEntry_commitData operation digest buildContext) h
  seal_account operation commitments h :=
    mutates_mutateRecord (keepsEntry_seal operation commitments) h

end MacOsKeychainAuthorityV2

end Evidentrail
