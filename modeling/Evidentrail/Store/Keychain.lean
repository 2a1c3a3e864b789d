import Evidentrail.Store.Laws

/-!
# The keychain authority keeps the laws

Every value it stores decodes again, so that reads never fail. An entry has
room for one reserved generation: a second operation is refused until the
result is gone.
-/

namespace Evidentrail

open Rust Std KeyAuthorityV2

namespace KeychainEntryV2

variable {e : KeychainEntryV2}

def nonceDecodes (e : KeychainEntryV2) : Bool :=
  (e.lastNonceOperation.isZero && e.lastNonceDigest.isZero && e.lastNonceFirst == 0 &&
      e.lastNonceCount == 0) ||
    (!e.lastNonceOperation.isZero && decide (0 < e.lastNonceCount))

def publicationDecodes (e : KeychainEntryV2) : Bool :=
  (e.publicationOperation.isZero && e.publicationDigest.isZero &&
      e.publicationGeneration == 0) ||
    (!e.publicationOperation.isZero && !e.publicationDigest.isZero &&
      decide (0 < e.publicationGeneration))

theorem decodes_iff : e.decodes = true ↔
    e.record.validateCanonical = .ok () ∧ e.resultDek.isZero = false ∧
      e.nonceDecodes = true ∧ e.publicationDecodes = true := by
  show (e.record.validateCanonical.isOk && !e.resultDek.isZero && e.nonceDecodes &&
    e.publicationDecodes) = true ↔ _
  have hok : e.record.validateCanonical.isOk = true ↔
      e.record.validateCanonical = .ok () := by
    cases e.record.validateCanonical <;> simp [Except.isOk, Except.toBool]
  simp only [Bool.and_eq_true, Bool.not_eq_eq_eq_not, Bool.not_true, hok, and_assoc]

theorem generation_pos (h : e.publicationDecodes = true)
    (hoperation : e.publicationOperation.isZero = false) : 0 < e.publicationGeneration := by
  simp only [publicationDecodes, hoperation, Bool.false_and, Bool.false_or, Bool.not_false,
    Bool.true_and, Bool.and_eq_true, decide_eq_true_eq] at h
  exact h.2

/-- An entry as the authority writes it: it decodes, it is the value of its
own result, and its reservation is of a sealed result and for its
commitment. -/
structure Sound [Sha256] (e : KeychainEntryV2) (r : ResultId) : Prop where
  decodes : e.decodes = true
  resultId : e.record.resultId = r
  reservation : e.publicationOperation.isZero = false →
    2 ≤ e.record.state.rank ∧
      e.publicationDigest = deriveRepositoryCommitment e.record.sealCommitments

/-- A canonical change of the record keeps the entry sound. -/
theorem Sound.withRecord [Sha256] {r : ResultId} {record : ResultAuthorityRecordV2}
    (h : e.Sound r) (hcanonical : record.validateCanonical = .ok ())
    (hid : record.resultId = e.record.resultId) (hkept : e.record.KeepsSeal record) :
    ({ e with record } : KeychainEntryV2).Sound r := by
  obtain ⟨_, hdek, hnonce, hpublication⟩ := decodes_iff.mp h.decodes
  refine ⟨decodes_iff.mpr ⟨hcanonical, hdek, hnonce, hpublication⟩, hid.trans h.resultId, ?_⟩
  intro hoperation
  obtain ⟨hrank, hdigest⟩ := h.reservation hoperation
  obtain ⟨hrank', hsame⟩ := hkept hrank
  exact ⟨hrank', by rw [hsame]; exact hdigest⟩

end KeychainEntryV2

namespace MacOsKeychainAuthorityV2

def stored (a : MacOsKeychainAuthorityV2) (r : ResultId) :
    Option (ResultAuthorityRecordV2 × ResultDekV1) :=
  a.entries[r]?.map fun entry => (entry.record, entry.resultDek)

/-- The highest generation among all entries and the counter, plus one. -/
def nextGeneration (a : MacOsKeychainAuthorityV2) : Option Nat :=
  checkedAdd ((a.entries.toList.map Prod.snd).foldl (fun highWater candidate =>
    max (max highWater candidate.record.publicationGeneration)
      candidate.publicationGeneration) a.readPublicationHighWater) 1

/-- An entry holds one reservation: it is this operation's, or there is none
and a generation is left. -/
def Grants (a : MacOsKeychainAuthorityV2) (r : ResultId) (operation : OperationIdV1) : Prop :=
  ∀ entry, a.entries[r]? = some entry → entry.publicationOperation = operation ∨
    (entry.publicationOperation.isZero = true ∧ a.nextGeneration.isSome)

variable {a a' : MacOsKeychainAuthorityV2} {r : ResultId}

theorem stored_of_entry {entry : KeychainEntryV2} (h : a.entries[r]? = some entry) :
    a.stored r = some (entry.record, entry.resultDek) := by
  rw [stored, h]
  rfl

theorem entry_of_stored {record : ResultAuthorityRecordV2} {key : ResultDekV1}
    (h : a.stored r = some (record, key)) :
    ∃ entry, a.entries[r]? = some entry ∧ entry.record = record ∧ entry.resultDek = key := by
  obtain ⟨entry, hentry, hpair⟩ := Option.map_eq_some_iff.mp h
  cases hpair
  exact ⟨entry, hentry, rfl, rfl⟩

theorem stored_setEntry (a : MacOsKeychainAuthorityV2) (r : ResultId)
    (entry : KeychainEntryV2) :
    (a.setEntry r entry).stored =
      Function.update a.stored r (some (entry.record, entry.resultDek)) := by
  funext r'
  by_cases hr : r = r'
  · subst hr
    simp [stored, setEntry]
  · simp [stored, setEntry, getElem?_insert, hr, Function.update_of_ne (Ne.symm hr)]

theorem getEntry_ok {entry : KeychainEntryV2} (h : a.getEntry r = .ok entry) :
    a.entries[r]? = some entry := by
  obtain ⟨found, hfound, h⟩ := except_bind_eq_ok.mp h
  split at h
  · cases h
    exact okOr_eq_ok.mp hfound
  · cases h

theorem mutateEntry_ok {R : Type} {mutation : KeychainEntryV2 →
      Except KeyAuthorityErrorV2 (KeychainEntryV2 × R)} {output : R}
    (h : a.mutateEntry r mutation = .ok (a', output)) :
    ∃ entry entry', a.entries[r]? = some entry ∧ mutation entry = .ok (entry', output) ∧
      a' = a.setEntry r entry' := by
  obtain ⟨entry, hentry, h⟩ := except_bind_eq_ok.mp h
  obtain ⟨⟨entry', out⟩, hmutation, h⟩ := except_bind_eq_ok.mp h
  cases h
  exact ⟨entry, entry', getEntry_ok hentry, hmutation, rfl⟩

theorem searchEntries_of_decodes (h : ∀ (r : ResultId) (entry : KeychainEntryV2),
      a.entries[r]? = some entry → entry.decodes = true) :
    a.searchEntries = .ok (a.entries.toList.map Prod.snd) := by
  have hall : ∀ pair ∈ a.entries.toList, pair.2.decodes = true := by
    intro pair hpair
    exact h pair.1 pair.2 (ExtTreeMap.mem_toList_iff_getElem?_eq_some.mp hpair)
  rw [searchEntries]
  generalize a.entries.toList = pairs at hall
  induction pairs with
  | nil => rfl
  | cons pair rest ih =>
      rw [List.mapM_cons, if_pos (hall pair (List.mem_cons_self ..)), except_bind_ok,
        ih fun p hp => hall p (List.mem_cons_of_mem _ hp)]
      rfl

variable [Sha256]

def Sound (a : MacOsKeychainAuthorityV2) : Prop :=
  ∀ (r : ResultId) (entry : KeychainEntryV2), a.entries[r]? = some entry → entry.Sound r

theorem getEntry_eq (hs : a.Sound) : a.getEntry r = okOr .notFound a.entries[r]? := by
  rw [getEntry]
  cases hentry : a.entries[r]? with
  | none => rfl
  | some entry =>
      have hsound := hs r entry hentry
      rw [okOr_some, except_bind_ok, if_pos ⟨hsound.decodes, hsound.resultId⟩]

theorem searchEntries_eq (hs : a.Sound) :
    a.searchEntries = .ok (a.entries.toList.map Prod.snd) :=
  searchEntries_of_decodes fun r entry hentry => (hs r entry hentry).decodes

theorem step_setEntry (hs : a.Sound) {entry : KeychainEntryV2} (hentry : entry.Sound r) :
    AuthorityStepV2 stored Sound a (a.setEntry r entry) r
      (some (entry.record, entry.resultDek)) := by
  refine ⟨?_, stored_setEntry ..⟩
  intro r' entry' hentry'
  simp only [setEntry, getElem?_insert] at hentry'
  split at hentry'
  · rename_i hr
    subst hr
    cases hentry'
    exact hentry
  · exact hs r' entry' hentry'

/-- A canonical change of the record of an entry. -/
theorem step_record (hs : a.Sound) {entry : KeychainEntryV2}
    {record : ResultAuthorityRecordV2} (hentry : a.entries[r]? = some entry)
    (hcanonical : record.validateCanonical = .ok ())
    (hid : record.resultId = entry.record.resultId) (hkept : entry.record.KeepsSeal record) :
    AuthorityStepV2 stored Sound a (a.setEntry r { entry with record }) r
      (some (record, entry.resultDek)) :=
  step_setEntry hs ((hs r entry hentry).withRecord hcanonical hid hkept)

/-- What `mutate_record` does to the map, for a mutation that keeps records
canonical and sealed records sealed. -/
theorem mutateRecord_step {R : Type} {mutation : ResultAuthorityRecordV2 →
      Except LifecycleRecordErrorV1 (ResultAuthorityRecordV2 × R)} {output : R} (hs : a.Sound)
    (hkept : ∀ record record' out, mutation record = .ok (record', out) →
      record.validateCanonical = .ok () → record'.validateCanonical = .ok () ∧
        record'.resultId = record.resultId ∧ record.KeepsSeal record')
    (h : a.mutateRecord r mutation = .ok (a', output)) :
    ∃ record key record', a.stored r = some (record, key) ∧
      mutation record = .ok (record', output) ∧
      AuthorityStepV2 stored Sound a a' r (some (record', key)) := by
  obtain ⟨entry, entry', hentry, hmutation, rfl⟩ := mutateEntry_ok h
  obtain ⟨⟨record, out⟩, hmutation, hout⟩ := except_bind_eq_ok.mp hmutation
  cases hout
  replace hmutation := mapError_eq_ok.mp hmutation
  obtain ⟨hcanonical, hid, hseal⟩ := hkept _ _ _ hmutation
    (KeychainEntryV2.decodes_iff.mp (hs r entry hentry).decodes).1
  exact ⟨entry.record, entry.resultDek, record, stored_of_entry hentry, hmutation,
    step_record hs hentry hcanonical hid hseal⟩

theorem begin_cases {entropy : EntropyV2} {created expires : Int} {operation : OperationIdV1}
    {digest : LifecycleDigestV1} {record : ResultAuthorityRecordV2}
    {transition : LifecycleTransitionV1} (hs : a.Sound)
    (h : a.begin entropy r created expires operation digest = .ok (a', record, transition)) :
    (∃ key, a.stored r = some (record, key) ∧ a' = a ∧ transition = .alreadyApplied ∧
      record.matchesBegin created expires operation digest) ∨
    (∃ key, a.stored r = none ∧ transition = .applied ∧ record.state = .opened ∧
      AuthorityStepV2 stored Sound a a' r (some (record, key))) := by
  unfold begin at h
  rw [getEntry_eq hs] at h
  cases hentry : a.entries[r]? with
  | some entry =>
      rw [hentry, okOr_some] at h
      dsimp only at h
      split at h
      · rename_i hmatches
        cases h
        exact .inl ⟨entry.resultDek, stored_of_entry hentry, rfl, rfl, hmatches⟩
      · cases h
  | none =>
      rw [hentry, searchEntries_eq hs] at h
      dsimp only [okOr] at h
      rw [except_bind_ok] at h
      split at h
      · cases h
      · obtain ⟨⟨resultDek, nonceBase⟩, _, h⟩ := except_bind_eq_ok.mp h
        dsimp only at h
        split at h
        · cases h
        · rename_i hdek
          obtain ⟨opened, hopened, h⟩ := except_bind_eq_ok.mp h
          cases h
          obtain ⟨hopen, hid, hcanonical⟩ :=
            ResultAuthorityRecordV2.newOpen_ok (mapError_eq_ok.mp hopened)
          have hnone : a.stored r = none := by rw [stored, hentry]; rfl
          refine .inr ⟨resultDek, hnone, rfl, hopen, step_setEntry hs
            ⟨KeychainEntryV2.decodes_iff.mpr ⟨hcanonical, by simpa using hdek, ?_, ?_⟩, hid,
              ?_⟩⟩
          · simp [KeychainEntryV2.nonceDecodes, FixedBytes.isZero_zero]
          · simp [KeychainEntryV2.publicationDecodes, FixedBytes.isZero_zero]
          · simp [FixedBytes.isZero_zero]

theorem reserveNonceRange_step {operation : OperationIdV1} {digest : LifecycleDigestV1}
    {count : Nat} {reservation : NonceReservationV1} (hs : a.Sound)
    (h : a.reserveNonceRange r operation digest count = .ok (a', reservation)) :
    ∃ record key record', a.stored r = some (record, key) ∧
      record'.withoutNonces = record.withoutNonces ∧
      AuthorityStepV2 stored Sound a a' r (some (record', key)) := by
  obtain ⟨entry, entry', hentry, hmutation, rfl⟩ := mutateEntry_ok h
  have hsound := hs r entry hentry
  obtain ⟨hcanonical, hdek, hnonce, hpublication⟩ :=
    KeychainEntryV2.decodes_iff.mp hsound.decodes
  split at hmutation
  · obtain ⟨_, _, hsame⟩ := except_map_eq_ok.mp hmutation
    cases hsame
    exact ⟨_, _, _, stored_of_entry hentry, rfl,
      step_setEntry hs hsound⟩
  · split at hmutation
    · cases hmutation
    · obtain ⟨⟨record, value⟩, hreserve, hout⟩ := except_bind_eq_ok.mp hmutation
      cases hout
      replace hreserve := mapError_eq_ok.mp hreserve
      have hsame := ResultAuthorityRecordV2.reservePendingNonceRange_withoutNonces hreserve
      have hvalid : operation.isZero = false ∧ 0 < count := by
        unfold ResultAuthorityRecordV2.reservePendingNonceRange at hreserve
        split at hreserve
        · cases hreserve
        · rename_i hvalid
          push Not at hvalid
          exact ⟨by simpa using hvalid.1, Nat.pos_of_ne_zero hvalid.2⟩
      have hrecord := hsound.withRecord (ResultAuthorityRecordV2.canonical_reserve hcanonical
        hreserve) (ResultAuthorityRecordV2.resultId_of_withoutNonces hsame)
        (ResultAuthorityRecordV2.keepsSeal_of_withoutNonces hsame)
      refine ⟨_, _, _, stored_of_entry hentry, hsame, step_setEntry hs
        ⟨KeychainEntryV2.decodes_iff.mpr ⟨?_, hdek, ?_, hpublication⟩, hrecord.resultId,
          hrecord.reservation⟩⟩
      · exact ResultAuthorityRecordV2.canonical_reserve hcanonical hreserve
      · simp [KeychainEntryV2.nonceDecodes, hvalid]

theorem completeNonceReservation_step {operation : OperationIdV1} {digest : LifecycleDigestV1}
    {transition : LifecycleTransitionV1} (hs : a.Sound)
    (h : a.completeNonceReservation r operation digest = .ok (a', transition)) :
    ∃ record key record', a.stored r = some (record, key) ∧
      record'.withoutNonces = record.withoutNonces ∧
      record'.hasPendingNonceReservation = false ∧
      AuthorityStepV2 stored Sound a a' r (some (record', key)) := by
  obtain ⟨entry, entry', hentry, hmutation, rfl⟩ := mutateEntry_ok h
  split at hmutation
  · cases hmutation
  · obtain ⟨⟨record, out⟩, hcomplete, hout⟩ := except_bind_eq_ok.mp hmutation
    cases hout
    replace hcomplete := mapError_eq_ok.mp hcomplete
    have hsame := ResultAuthorityRecordV2.completePendingNonceRange_withoutNonces hcomplete
    exact ⟨_, _, _, stored_of_entry hentry, hsame,
      (ResultAuthorityRecordV2.completePendingNonceRange_ok hcomplete).1,
      step_record hs hentry (ResultAuthorityRecordV2.canonical_complete
        (KeychainEntryV2.decodes_iff.mp (hs r entry hentry).decodes).1 hcomplete)
        (ResultAuthorityRecordV2.resultId_of_withoutNonces hsame)
        (ResultAuthorityRecordV2.keepsSeal_of_withoutNonces hsame)⟩

theorem publish_step {operation : OperationIdV1} {generation : Nat}
    {digest : LifecycleDigestV1} {transition : LifecycleTransitionV1} (hs : a.Sound)
    (h : a.publish r operation generation digest = .ok (a', transition)) :
    ∃ record key record', a.stored r = some (record, key) ∧
      record.publish operation generation digest = .ok (record', transition) ∧
      AuthorityStepV2 stored Sound a a' r (some (record', key)) := by
  obtain ⟨entry, entry', hentry, hmutation, rfl⟩ := mutateEntry_ok h
  split at hmutation
  · cases hmutation
  · obtain ⟨⟨record, out⟩, hpublish, hout⟩ := except_bind_eq_ok.mp hmutation
    cases hout
    replace hpublish := mapError_eq_ok.mp hpublish
    exact ⟨_, _, _, stored_of_entry hentry, hpublish,
      step_record hs hentry (ResultAuthorityRecordV2.canonical_publish
        (KeychainEntryV2.decodes_iff.mp (hs r entry hentry).decodes).1 hpublish)
        (ResultAuthorityRecordV2.resultId_publish hpublish)
        (ResultAuthorityRecordV2.keepsSeal_publish hpublish)⟩

theorem destroy_step (r : ResultId) (hs : a.Sound) :
    ∃ a' outcome, a.destroy r = .ok (a', outcome) ∧
      AuthorityStepV2 stored Sound a a' r none := by
  unfold destroy
  by_cases hmem : r ∈ a.entries
  · simp only [hmem, if_true]
    have hkept : ∀ (r' : ResultId) (entry : KeychainEntryV2),
        (a.entries.erase r)[r']? = some entry → a.entries[r']? = some entry := by
      intro r' entry hentry
      rw [getElem?_erase] at hentry
      split at hentry
      · cases hentry
      · exact hentry
    refine ⟨_, _, rfl, ?_, ?_⟩
    · exact fun r' entry hentry => hs r' entry (hkept r' entry hentry)
    · funext r'
      by_cases hr : r = r'
      · subst hr
        simp [stored]
      · simp [getElem?_erase, hr, Function.update_of_ne (Ne.symm hr), stored]
  · simp only [hmem, if_false]
    have hnone : a.stored r = none := by
      rw [stored, ExtTreeMap.getElem?_eq_none hmem]
      rfl
    exact ⟨_, _, rfl, hs, by rw [← hnone, Function.update_eq_self]⟩

/-- A reservation is the entry's own, or fills an entry that had none. -/
theorem reserveGeneration_cases {operation : OperationIdV1} {digest : LifecycleDigestV1}
    {generation : Nat} (hs : a.Sound)
    (h : a.reservePublicationGeneration r operation digest = .ok (a', generation)) :
    ∃ entry, a.entries[r]? = some entry ∧ entry.record.state = .sealed ∧
      operation.isZero = false ∧
      ((entry.publicationOperation = operation ∧ entry.publicationDigest = digest ∧
          entry.publicationGeneration = generation ∧ a'.entries = a.entries) ∨
        (entry.publicationOperation.isZero = true ∧ a.nextGeneration = some generation ∧
          a'.entries = a.entries.insert r { entry with
            publicationOperation := operation, publicationDigest := digest
            publicationGeneration := generation })) := by
  unfold reservePublicationGeneration at h
  split at h
  · cases h
  · rename_i hoperation
    obtain ⟨entry, hentry, h⟩ := except_bind_eq_ok.mp h
    split at h
    · cases h
    · rename_i hstate
      push Not at hstate
      refine ⟨entry, getEntry_ok hentry, hstate, by simpa using hoperation, ?_⟩
      split at h
      · split at h
        · rename_i hsame
          split at h <;> cases h <;> exact .inl ⟨hsame.1, hsame.2, rfl, rfl⟩
        · cases h
      · rename_i hzero
        rw [searchEntries_eq hs, except_bind_ok] at h
        obtain ⟨next, hnext, h⟩ := except_bind_eq_ok.mp h
        cases h
        exact .inr ⟨by simpa using hzero, okOr_eq_ok.mp hnext, rfl⟩

theorem reserveGeneration_sound {operation : OperationIdV1} {digest : LifecycleDigestV1}
    {generation : Nat} (hs : a.Sound)
    (hdigest : ∀ record key, a.stored r = some (record, key) →
      digest = deriveRepositoryCommitment record.sealCommitments)
    (hnonzero : digest.isZero = false)
    (h : a.reservePublicationGeneration r operation digest = .ok (a', generation)) :
    a'.Sound ∧ a'.stored = a.stored ∧
      (∃ entry, a'.entries[r]? = some entry ∧ entry.publicationOperation = operation ∧
        entry.publicationDigest = digest ∧ entry.publicationGeneration = generation) := by
  obtain ⟨entry, hentry, hstate, hoperation, ⟨hop, hdg, hgen, hsame⟩ | ⟨hzero, hnext, hset⟩⟩ :=
    reserveGeneration_cases hs h
  · refine ⟨?_, ?_, ⟨entry, by rw [hsame, hentry], hop, hdg, hgen⟩⟩
    · intro r' entry' hentry'
      rw [hsame] at hentry'
      exact hs r' entry' hentry'
    · funext r'
      rw [stored, stored, hsame]
  · have hsound := hs r entry hentry
    have hpos : 0 < generation := by
      rw [(checkedAdd_eq_some.mp hnext).2]
      omega
    obtain ⟨hcanonical, hdek, hnonce, _⟩ := KeychainEntryV2.decodes_iff.mp hsound.decodes
    refine ⟨?_, ?_, ⟨{ entry with
      publicationOperation := operation, publicationDigest := digest
      publicationGeneration := generation }, by rw [hset]; simp, rfl, rfl, rfl⟩⟩
    · intro r' entry' hentry'
      rw [hset, getElem?_insert] at hentry'
      split at hentry'
      · rename_i hr
        subst hr
        cases hentry'
        refine ⟨KeychainEntryV2.decodes_iff.mpr ⟨hcanonical, hdek, hnonce, ?_⟩,
          hsound.resultId, fun _ => ⟨?_, hdigest entry.record entry.resultDek
            (stored_of_entry hentry)⟩⟩
        · simp [KeychainEntryV2.publicationDecodes, hoperation, hnonzero, hpos]
        · show 2 ≤ entry.record.state.rank
          rw [hstate]
          decide
      · exact hs r' entry' hentry'
    · funext r'
      rw [stored, stored, hset, getElem?_insert]
      split
      · rename_i hr
        subst hr
        rw [hentry]
        rfl
      · rfl

theorem reserveGeneration_granted {operation : OperationIdV1} {digest : LifecycleDigestV1}
    {record : ResultAuthorityRecordV2} {key : ResultDekV1} (hs : a.Sound)
    (hstored : a.stored r = some (record, key)) (hstate : record.state = .sealed)
    (hoperation : operation.isZero = false)
    (hdigest : digest = deriveRepositoryCommitment record.sealCommitments)
    (hgrants : a.Grants r operation) :
    ∃ a' generation,
      a.reservePublicationGeneration r operation digest = .ok (a', generation) := by
  obtain ⟨entry, hentry, rfl, rfl⟩ := entry_of_stored hstored
  unfold reservePublicationGeneration
  rw [getEntry_eq hs, hentry, okOr_some, except_bind_ok, searchEntries_eq hs]
  simp only [hoperation, hstate, ne_eq, not_true_eq_false, if_false, Bool.false_eq_true]
  rcases hgrants entry hentry with hmine | ⟨hzero, hnext⟩
  · have hnonzero : entry.publicationOperation.isZero = false := by rw [hmine]; exact hoperation
    have hsame := (hs r entry hentry).reservation hnonzero
    rw [if_pos (by simpa using hnonzero), if_pos ⟨hmine, by rw [hsame.2, hdigest]⟩]
    split
    · exact ⟨_, _, rfl⟩
    · exact ⟨_, _, rfl⟩
  · obtain ⟨next, hvalue⟩ := Option.isSome_iff_exists.mp hnext
    unfold nextGeneration at hvalue
    simp only [hzero, Bool.not_true, Bool.false_eq_true, if_false, except_bind_ok, hvalue,
      okOr_some]
    exact ⟨_, _, rfl⟩

instance : LawfulKeyAuthorityV2 MacOsKeychainAuthorityV2 where
  stored := stored
  Sound := Sound
  Admits digest := digest.isZero = false
  Grants := Grants
  snapshot_eq {a r} hs := by
    show (a.getEntry r).map KeychainEntryV2.record = _
    rw [getEntry_eq hs, stored]
    cases a.entries[r]? <;> rfl
  resultKey_eq {a r} hs := by
    show (a.getEntry r).map KeychainEntryV2.resultDek = _
    rw [getEntry_eq hs, stored]
    cases a.entries[r]? <;> rfl
  begin_ok := begin_cases
  reserveNonceRange_ok := reserveNonceRange_step
  completeNonceReservation_ok := completeNonceReservation_step
  commitData_ok hs h := mutateRecord_step hs (fun _ _ _ hmutation hcanonical =>
    ⟨ResultAuthorityRecordV2.canonical_commitData hcanonical hmutation,
      ResultAuthorityRecordV2.resultId_commitData hmutation,
      ResultAuthorityRecordV2.keepsSeal_commitData hmutation⟩) h
  sealResult_ok hs h := mutateRecord_step hs (fun _ _ _ hmutation hcanonical =>
    ⟨ResultAuthorityRecordV2.canonical_seal hcanonical hmutation,
      ResultAuthorityRecordV2.resultId_seal hmutation,
      ResultAuthorityRecordV2.keepsSeal_seal hmutation⟩) h
  publish_ok := publish_step
  destroy_ok := destroy_step
  reserveGeneration_ok hs hdigest hadmits h := by
    obtain ⟨hsound, hstored, ⟨entry, hentry, hop, _⟩⟩ :=
      reserveGeneration_sound hs hdigest hadmits h
    refine ⟨hsound, hstored, ?_⟩
    intro entry' hentry'
    rw [hentry] at hentry'
    cases hentry'
    exact .inl hop
  grants_of_reservation hs h entry hentry := by
    obtain ⟨entry', hentry', _, _, hmine | ⟨hzero, hnext, _⟩⟩ := reserveGeneration_cases hs h
    · rw [hentry] at hentry'
      cases hentry'
      exact .inl hmine.1
    · rw [hentry] at hentry'
      cases hentry'
      exact .inr ⟨hzero, by rw [hnext]; rfl⟩
  reservation_granted := reserveGeneration_granted
  publication_follows {a a₁ r record key operation digest generation} hs hstored hpending
      hdigest hadmits hreserve := by
    have hcommitment : ∀ record' key', a.stored r = some (record', key') →
        digest = deriveRepositoryCommitment record'.sealCommitments := by
      intro record' key' hstored'
      rw [hstored] at hstored'
      cases hstored'
      exact hdigest
    obtain ⟨before, hbefore, hstate, hoperation, _⟩ := reserveGeneration_cases hs hreserve
    obtain ⟨hsound, hkept, ⟨entry, hentry, hop, hdg, hgen⟩⟩ :=
      reserveGeneration_sound hs hcommitment hadmits hreserve
    cases (stored_of_entry hbefore).symm.trans hstored
    have hsame := (stored_of_entry hentry).symm.trans ((congrFun hkept r).trans hstored)
    have hrecord : entry.record = before.record := congrArg Prod.fst (Option.some.inj hsame)
    have hpos : generation ≠ 0 := by
      have := KeychainEntryV2.generation_pos
        (KeychainEntryV2.decodes_iff.mp (hsound r entry hentry).decodes).2.2.2
        (by rw [hop]; exact hoperation)
      omega
    obtain ⟨record', hpublish⟩ := ResultAuthorityRecordV2.publish_sealed digest hoperation
      hstate hpos hpending
    rw [← hrecord] at hpublish
    refine ⟨a₁.setEntry r { entry with record := record' }, ?_⟩
    show a₁.mutateEntry r _ = _
    rw [mutateEntry, getEntry_eq hsound, hentry, okOr_some, except_bind_ok]
    simp only [hop, hdg, hgen, hpublish, ne_eq, not_true_eq_false, or_self, if_false]
    rfl

end MacOsKeychainAuthorityV2

end Evidentrail
