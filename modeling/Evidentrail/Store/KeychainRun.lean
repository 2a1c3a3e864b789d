import Evidentrail.Store.Accounts
import Evidentrail.Store.KeychainCuts

/-!
# Runs of the keychain authority

The keychain over a run of calls, each cut wherever one likes. Every entry
that is stored is read back, as long as no commitment that is reserved is
zero; and no generation is returned for two results.
-/

namespace Evidentrail

open Rust Std Attempt

namespace KeychainEntryV2

/-- An entry that is read back, for its own result. -/
structure Whole (e : KeychainEntryV2) (r : ResultId) : Prop where
  fits : e.Fits
  decodes : e.decodes = true
  resultId : e.record.resultId = r

/-- The reserved publication has not changed. -/
structure SameSlot (e e' : KeychainEntryV2) : Prop where
  operation : e'.publicationOperation = e.publicationOperation
  digest : e'.publicationDigest = e.publicationDigest
  generation : e'.publicationGeneration = e.publicationGeneration

variable {e e' : KeychainEntryV2} {r : ResultId}

theorem Whole.withRecord {record : ResultAuthorityRecordV2} (h : e.Whole r)
    (hfits : record.Fits) (hcanonical : record.validateCanonical = .ok ())
    (hid : record.resultId = e.record.resultId) :
    ({ e with record } : KeychainEntryV2).Whole r := by
  obtain ⟨_, hrest⟩ := decodes_iff.mp h.decodes
  exact ⟨⟨hfits, h.fits.lastNonceFirst, h.fits.lastNonceCount, h.fits.publicationGeneration⟩,
    decodes_iff.mpr ⟨hcanonical, hrest⟩, hid.trans h.resultId⟩

theorem Whole.canonical (h : e.Whole r) : e.record.validateCanonical = .ok () :=
  (decodes_iff.mp h.decodes).1

/-- The arguments and the counter of a range that is granted. -/
theorem reserved_first {record record' : ResultAuthorityRecordV2} {operation : OperationIdV1}
    {digest : LifecycleDigestV1} {count : Nat} {reservation : NonceReservationV1}
    (h : record.reservePendingNonceRange operation digest count = .ok (record', reservation))
    (hfits : record.Fits) :
    operation.isZero = false ∧ 0 < count ∧ reservation.firstCounter < 2 ^ 64 := by
  cases hpending : record.hasPendingNonceReservation with
  | false =>
      obtain ⟨hoperation, hcount, _, rfl, _⟩ := AccountV2.reserved_fresh hpending h
      exact ⟨hoperation, hcount, hfits.nonceHighWater⟩
  | true =>
      unfold ResultAuthorityRecordV2.reservePendingNonceRange at h
      split at h
      · cases h
      · rename_i hvalid
        push Not at hvalid
        rw [if_pos (show (!record.pendingNonceOperation.isZero) = true from hpending)] at h
        split at h
        · obtain ⟨value, hvalue, h⟩ := except_map_eq_ok.mp h
          cases h
          unfold NonceReservationV1.new at hvalue
          split at hvalue
          · cases hvalue
          · cases hvalue
            exact ⟨by simpa using hvalid.1, Nat.pos_of_ne_zero hvalid.2, hfits.pendingNonceFirst⟩
        · cases h

/-- A change of one entry that keeps it whole and keeps its slot. -/
def Keeps {R : Type} (mutation : KeychainEntryV2 →
    Except KeyAuthorityErrorV2 (KeychainEntryV2 × R)) : Prop :=
  ∀ (e e' : KeychainEntryV2) (output : R) (r : ResultId), mutation e = .ok (e', output) →
    e.SameSlot e' ∧ (e.Whole r → e'.Whole r)

theorem keeps_onRecord {R : Type} {mutation : ResultAuthorityRecordV2 →
      Except LifecycleRecordErrorV1 (ResultAuthorityRecordV2 × R)}
    (hmutation : ∀ record record' output, mutation record = .ok (record', output) →
      (record.Fits → record'.Fits) ∧
      (record.validateCanonical = .ok () → record'.validateCanonical = .ok ()) ∧
      record'.resultId = record.resultId) : Keeps (onRecord mutation) := by
  intro e e' output r h
  obtain ⟨⟨record, out⟩, hrecord, h⟩ := except_bind_eq_ok.mp h
  cases h
  obtain ⟨hfits, hcanonical, hid⟩ := hmutation _ _ _ (mapError_eq_ok.mp hrecord)
  exact ⟨⟨rfl, rfl, rfl⟩, fun hwhole => hwhole.withRecord (hfits hwhole.fits.record)
    (hcanonical hwhole.canonical) hid⟩

section Changes

variable [Sha256]

theorem keeps_commitData (operation : OperationIdV1) (digest : LifecycleDigestV1)
    (buildContext : BuildContextDigestsV1) :
    Keeps (onRecord (·.commitData operation digest buildContext)) := by
  refine keeps_onRecord fun record record' transition h => ⟨fun hfits => ?_, fun hcanonical =>
    ResultAuthorityRecordV2.canonical_commitData hcanonical h,
    ResultAuthorityRecordV2.resultId_commitData h⟩
  have happly : (RecordCallV2.commitData operation digest buildContext).apply record =
      .ok record' := by rw [RecordCallV2.apply, h]; rfl
  exact (RecordCallV2.apply_grows happly).2.2 hfits

theorem keeps_seal (operation : OperationIdV1) (commitments : SealCommitmentsV1) :
    Keeps (onRecord fun record => record.seal operation commitments) := by
  refine keeps_onRecord fun record record' transition h => ⟨fun hfits => ?_, fun hcanonical =>
    ResultAuthorityRecordV2.canonical_seal hcanonical h,
    ResultAuthorityRecordV2.resultId_seal h⟩
  have happly : (RecordCallV2.sealRecord operation commitments).apply record =
      .ok record' := by rw [RecordCallV2.apply, h]; rfl
  exact (RecordCallV2.apply_grows happly).2.2 hfits

theorem keeps_complete (operation : OperationIdV1) (digest : LifecycleDigestV1) :
    Keeps (completeNonceReservation operation digest) := by
  intro e e' output r h
  unfold completeNonceReservation at h
  split at h
  · cases h
  · refine keeps_onRecord (fun record record' transition h => ⟨fun hfits => ?_, fun hcanonical =>
      ResultAuthorityRecordV2.canonical_complete hcanonical h,
      ResultAuthorityRecordV2.resultId_of_withoutNonces
        (ResultAuthorityRecordV2.completePendingNonceRange_withoutNonces h)⟩) e e' output r h
    have happly : (RecordCallV2.completePendingNonceRange operation digest).apply record =
        .ok record' := by rw [RecordCallV2.apply, h]; rfl
    exact (RecordCallV2.apply_grows happly).2.2 hfits

theorem keeps_publish (operation : OperationIdV1) (generation : UInt64)
    (digest : LifecycleDigestV1) : Keeps (publish operation generation.toNat digest) := by
  intro e e' output r h
  unfold publish at h
  split at h
  · cases h
  · refine keeps_onRecord (fun record record' transition h => ⟨fun hfits => ?_, fun hcanonical =>
      ResultAuthorityRecordV2.canonical_publish hcanonical h,
      ResultAuthorityRecordV2.resultId_publish h⟩) e e' output r h
    have happly : (RecordCallV2.publish operation generation digest).apply record =
        .ok record' := by rw [RecordCallV2.apply, h]; rfl
    exact (RecordCallV2.apply_grows happly).2.2 hfits

theorem keeps_reserve (operation : OperationIdV1) (digest : LifecycleDigestV1) (count : UInt64) :
    Keeps (reserveNonceRange operation digest count.toNat) := by
  intro e e' output r h
  unfold reserveNonceRange at h
  split at h
  · obtain ⟨reservation, _, h⟩ := except_map_eq_ok.mp h
    cases h
    exact ⟨⟨rfl, rfl, rfl⟩, id⟩
  · split at h
    · cases h
    · obtain ⟨⟨record, reservation⟩, hreserve, h⟩ := except_bind_eq_ok.mp h
      cases h
      replace hreserve := mapError_eq_ok.mp hreserve
      refine ⟨⟨rfl, rfl, rfl⟩, fun hwhole => ?_⟩
      have happly : (RecordCallV2.reservePendingNonceRange operation digest count).apply
          e.record = .ok record := by rw [RecordCallV2.apply, hreserve]; rfl
      have hfits := (RecordCallV2.apply_grows happly).2.2 hwhole.fits.record
      have hrecord := hwhole.withRecord hfits
        (ResultAuthorityRecordV2.canonical_reserve hwhole.canonical hreserve)
        (ResultAuthorityRecordV2.resultId_of_withoutNonces
          (ResultAuthorityRecordV2.reservePendingNonceRange_withoutNonces hreserve))
      obtain ⟨hoperation, hcount, hfirst⟩ := reserved_first hreserve hwhole.fits.record
      obtain ⟨hcanonical, hdek, _, hpublication⟩ := decodes_iff.mp hrecord.decodes
      refine ⟨⟨hfits, hfirst, count.toNat_lt, hwhole.fits.publicationGeneration⟩,
        decodes_iff.mpr ⟨hcanonical, hdek, ?_, hpublication⟩, hrecord.resultId⟩
      simp [nonceDecodes, hoperation, hcount]

end Changes

end KeychainEntryV2

namespace MacOsKeychainAuthorityV2

/-! ## What a call can change -/

/-- What a call that succeeds does to the keychain. -/
inductive Change (k : MacOsKeychainAuthorityV2) :
    AuthorityCallV2 → MacOsKeychainAuthorityV2 → Prop
  | nothing {call : AuthorityCallV2} : Change k call k
  | opened {call : AuthorityCallV2} {r : ResultId} {entry : KeychainEntryV2}
      (hnone : k.entries[r]? = none) (hwhole : entry.Whole r)
      (hslot : entry.publicationOperation.isZero = true) : Change k call (k.setEntry r entry)
  | rewritten {call : AuthorityCallV2} {r : ResultId} {entry entry' : KeychainEntryV2}
      (hentry : k.entries[r]? = some entry) (hslot : entry.SameSlot entry')
      (hwhole : entry.Whole r → entry'.Whole r) : Change k call (k.setEntry r entry')
  | granted {r : ResultId} {operation : OperationIdV1} {digest : LifecycleDigestV1}
      {generation : Nat} {entry : KeychainEntryV2} (hentry : k.entries[r]? = some entry)
      (hoperation : operation.isZero = false) (hlt : generation < u64Bound)
      (habove : k.readPublicationHighWater < generation)
      (hall : ∀ (q : ResultId) (other : KeychainEntryV2), k.entries[q]? = some other →
        other.publicationGeneration < generation) :
      Change k (.reservePublicationGeneration r operation digest) { k.setEntry r { entry with
        publicationOperation := operation
        publicationDigest := digest
        publicationGeneration := generation } with publicationHighWater := some generation }
  | caughtUp {call : AuthorityCallV2} {generation : Nat}
      (hbehind : k.readPublicationHighWater < generation) :
      Change k call { k with publicationHighWater := some generation }
  | removed {call : AuthorityCallV2} {r : ResultId} :
      Change k call { k with entries := k.entries.erase r }

variable {k k' : MacOsKeychainAuthorityV2} {call : AuthorityCallV2} {out : AuthorityOutputV2}
  {r : ResultId}

theorem change_mutateEntry {R : Type} {mutation : KeychainEntryV2 →
      Except KeyAuthorityErrorV2 (KeychainEntryV2 × R)} {output : R}
    (hkeeps : KeychainEntryV2.Keeps mutation) (h : k.mutateEntry r mutation = .ok (k', output)) :
    Change k call k' := by
  obtain ⟨entry, entry', hentry, hmutation, rfl⟩ := mutateEntry_ok h
  obtain ⟨hslot, hwhole⟩ := hkeeps entry entry' output r hmutation
  exact .rewritten hentry hslot hwhole

theorem change_begin {entropy : EntropyV2} {created expires : Int64}
    {operation : OperationIdV1} {digest : LifecycleDigestV1}
    {output : ResultAuthorityRecordV2 × LifecycleTransitionV1}
    (h : k.begin entropy r created.toInt expires.toInt operation digest = .ok (k', output)) :
    Change k call k' := by
  unfold begin at h
  cases hfound : k.getEntry r with
  | ok entry =>
      rw [hfound] at h
      dsimp only at h
      split at h
      · cases h
        exact .nothing
      · cases h
  | error e =>
      rw [hfound] at h
      cases e with
      | notFound =>
          obtain ⟨entries, _, h⟩ := except_bind_eq_ok.mp h
          split at h
          · cases h
          · obtain ⟨⟨resultDek, nonceBase⟩, _, h⟩ := except_bind_eq_ok.mp h
            dsimp only at h
            split at h
            · cases h
            · rename_i hdek
              obtain ⟨record, hopened, h⟩ := except_bind_eq_ok.mp h
              cases h
              replace hopened := mapError_eq_ok.mp hopened
              obtain ⟨_, hid, hcanonical⟩ := ResultAuthorityRecordV2.newOpen_ok hopened
              have hnone : k.entries[r]? = none := by
                cases hentry : k.entries[r]? with
                | none => rfl
                | some entry =>
                    rw [getEntry, hentry, okOr_some, except_bind_ok] at hfound
                    split at hfound <;> cases hfound
              refine .opened hnone ⟨⟨ResultAuthorityRecordV2.newOpen_fits hopened,
                Nat.two_pow_pos 64, Nat.two_pow_pos 64, Nat.two_pow_pos 64⟩,
                KeychainEntryV2.decodes_iff.mpr ⟨hcanonical, by simpa using hdek, ?_, ?_⟩,
                hid⟩ FixedBytes.isZero_zero
              · simp [KeychainEntryV2.nonceDecodes, FixedBytes.isZero_zero]
              · simp [KeychainEntryV2.publicationDecodes, FixedBytes.isZero_zero]
      | _ => cases h

/-- The search sees every entry, and the next generation is above them all. -/
theorem observed_ge (highWater : Nat) (entries : List KeychainEntryV2) :
    highWater ≤ entries.foldl (fun highWater candidate =>
        max (max highWater candidate.record.publicationGeneration)
          candidate.publicationGeneration) highWater ∧
      ∀ entry ∈ entries, entry.publicationGeneration ≤ entries.foldl
        (fun highWater candidate => max (max highWater candidate.record.publicationGeneration)
          candidate.publicationGeneration) highWater := by
  induction entries generalizing highWater with
  | nil => exact ⟨le_rfl, by simp⟩
  | cons entry rest ih =>
      obtain ⟨hstart, hrest⟩ := ih (max (max highWater entry.record.publicationGeneration)
        entry.publicationGeneration)
      rw [List.foldl_cons]
      refine ⟨by omega, fun other hother => ?_⟩
      rcases List.mem_cons.mp hother with rfl | hother
      · omega
      · exact hrest other hother

/-- A search that succeeds returns every entry. -/
theorem searchEntries_ok {entries : List KeychainEntryV2} (h : k.searchEntries = .ok entries) :
    entries = k.entries.toList.map Prod.snd := by
  unfold searchEntries at h
  generalize k.entries.toList = pairs at h
  induction pairs generalizing entries with
  | nil =>
      cases h
      rfl
  | cons pair rest ih =>
      rw [List.mapM_cons] at h
      obtain ⟨first, hfirst, h⟩ := except_bind_eq_ok.mp h
      obtain ⟨others, hothers, h⟩ := except_bind_eq_ok.mp h
      cases h
      split at hfirst
      · cases hfirst
        rw [ih hothers]
        rfl
      · cases hfirst

theorem change_reserve {operation : OperationIdV1} {digest : LifecycleDigestV1}
    {generation : Nat}
    (h : k.reservePublicationGeneration r operation digest = .ok (k', generation)) :
    Change k (.reservePublicationGeneration r operation digest) k' ∧
      generation ≤ k'.readPublicationHighWater ∧ ∃ entry : KeychainEntryV2,
        k'.entries[r]? = some entry ∧ entry.publicationOperation.isZero = false ∧
        entry.publicationGeneration = generation := by
  unfold reservePublicationGeneration at h
  split at h
  · cases h
  · rename_i hzero
    obtain ⟨entry, hfound, h⟩ := except_bind_eq_ok.mp h
    have hentry := getEntry_ok hfound
    split at h
    · cases h
    · split at h
      · rename_i hslot
        split at h
        · split at h
          · rename_i hbehind
            cases h
            exact ⟨.caughtUp hbehind, le_rfl, entry, hentry, by simpa using hslot, rfl⟩
          · rename_i hahead
            cases h
            exact ⟨.nothing, Nat.le_of_not_lt hahead, entry, hentry, by simpa using hslot, rfl⟩
        · cases h
      · obtain ⟨entries, hsearch, h⟩ := except_bind_eq_ok.mp h
        obtain ⟨next, hnext, h⟩ := except_bind_eq_ok.mp h
        cases h
        obtain ⟨hlt, hvalue⟩ := checkedAdd_eq_some.mp (okOr_eq_ok.mp hnext)
        obtain ⟨hstart, hall⟩ := observed_ge k.readPublicationHighWater entries
        refine ⟨.granted hentry (by simpa using hzero) (by omega) (by omega) ?_, le_rfl,
          { entry with
            publicationOperation := operation
            publicationDigest := digest
            publicationGeneration := generation }, ?_, by simpa using hzero, rfl⟩
        swap
        · show (k.entries.insert r _)[r]? = _
          rw [getElem?_insert, if_pos rfl]
        intro q other hother
        have hmem : other ∈ entries := by
          rw [searchEntries_ok hsearch]
          exact List.mem_map.mpr ⟨(q, other),
            ExtTreeMap.mem_toList_iff_getElem?_eq_some.mpr hother, rfl⟩
        have hle := hall other hmem
        omega

/-- Everything a call can change. -/
theorem change_of_apply [Sha256] (h : call.apply k = .ok (k', out)) : Change k call k' := by
  cases call with
  | begin entropy r created expires operation digest =>
      obtain ⟨⟨x, _⟩, hcall, hout⟩ := except_map_eq_ok.mp h
      cases hout
      exact change_begin hcall
  | reserveNonceRange r operation digest count =>
      obtain ⟨⟨x, _⟩, hcall, hout⟩ := except_map_eq_ok.mp h
      cases hout
      exact change_mutateEntry (KeychainEntryV2.keeps_reserve operation digest count) hcall
  | completeNonceReservation r operation digest =>
      obtain ⟨⟨x, _⟩, hcall, hout⟩ := except_map_eq_ok.mp h
      cases hout
      exact change_mutateEntry (KeychainEntryV2.keeps_complete operation digest) hcall
  | commitData r operation digest buildContext =>
      obtain ⟨⟨x, _⟩, hcall, hout⟩ := except_map_eq_ok.mp h
      cases hout
      exact change_mutateEntry (KeychainEntryV2.keeps_commitData operation digest buildContext)
        hcall
  | sealResult r operation commitments =>
      obtain ⟨⟨x, _⟩, hcall, hout⟩ := except_map_eq_ok.mp h
      cases hout
      exact change_mutateEntry (KeychainEntryV2.keeps_seal operation commitments) hcall
  | reservePublicationGeneration r operation digest =>
      obtain ⟨⟨x, _⟩, hcall, hout⟩ := except_map_eq_ok.mp h
      cases hout
      exact (change_reserve hcall).1
  | publish r operation generation digest =>
      obtain ⟨⟨x, _⟩, hcall, hout⟩ := except_map_eq_ok.mp h
      cases hout
      exact change_mutateEntry (KeychainEntryV2.keeps_publish operation generation digest) hcall
  | snapshot r =>
      obtain ⟨_, _, hout⟩ := except_map_eq_ok.mp h
      cases hout
      exact .nothing
  | withResultKey r =>
      obtain ⟨_, _, hout⟩ := except_map_eq_ok.mp h
      cases hout
      exact .nothing
  | destroy r =>
      obtain ⟨⟨x, outcome⟩, hcall, hout⟩ := except_map_eq_ok.mp h
      cases hout
      replace hcall : k.destroy r = .ok (x, outcome) := hcall
      unfold destroy at hcall
      split at hcall
      · cases hcall
        exact .removed
      · cases hcall
        exact .nothing
  | list =>
      obtain ⟨_, _, hout⟩ := except_map_eq_ok.mp h
      cases hout
      exact .nothing

/-! ## Entries are read back -/

/-- Every entry is read back. -/
def AllWhole (k : MacOsKeychainAuthorityV2) : Prop :=
  ∀ (r : ResultId) (entry : KeychainEntryV2), k.entries[r]? = some entry → entry.Whole r

/-- A reservation for a commitment of zeros. -/
def reservesZero : AuthorityCallV2 → Bool
  | .reservePublicationGeneration _ _ digest => digest.isZero
  | _ => false

theorem allWhole_setEntry {entry : KeychainEntryV2} (hk : k.AllWhole) (hentry : entry.Whole r) :
    (k.setEntry r entry).AllWhole := by
  intro q other hother
  rw [setEntry, getElem?_insert] at hother
  split at hother
  · rename_i hq
    cases hother
    rw [← hq]
    exact hentry
  · exact hk q other hother

theorem Change.allWhole (h : Change k call k') (hcall : reservesZero call = false)
    (hk : k.AllWhole) : k'.AllWhole := by
  cases h with
  | nothing => exact hk
  | opened _ hwhole _ => exact allWhole_setEntry hk hwhole
  | rewritten hentry _ hwhole => exact allWhole_setEntry hk (hwhole (hk _ _ hentry))
  | @granted r operation digest generation entry hentry hoperation hlt habove hall =>
      have hwhole := hk _ _ hentry
      obtain ⟨hcanonical, hdek, hnonce, _⟩ := KeychainEntryV2.decodes_iff.mp hwhole.decodes
      refine allWhole_setEntry (k := k) hk ⟨⟨hwhole.fits.record, hwhole.fits.lastNonceFirst,
        hwhole.fits.lastNonceCount, hlt⟩, KeychainEntryV2.decodes_iff.mpr
          ⟨hcanonical, hdek, hnonce, ?_⟩, hwhole.resultId⟩
      have hdigest : digest.isZero = false := hcall
      have hpos : 0 < generation := by omega
      simp [KeychainEntryV2.publicationDecodes, hoperation, hdigest, hpos]
  | caughtUp _ => exact hk
  | removed =>
      intro q other hother
      dsimp only at hother
      rw [getElem?_erase] at hother
      split at hother
      · cases hother
      · exact hk q other hother

/-! ## Generations have one owner -/

/-- A publication that is reserved in an entry. -/
def Holds (k : MacOsKeychainAuthorityV2) (r : ResultId) (generation : Nat) : Prop :=
  ∃ entry : KeychainEntryV2, k.entries[r]? = some entry ∧
    entry.publicationOperation.isZero = false ∧ entry.publicationGeneration = generation

def Distinct (k : MacOsKeychainAuthorityV2) : Prop :=
  ∀ (r r' : ResultId) (generation : Nat), k.Holds r generation → k.Holds r' generation → r = r'

/-- No other result will hold this generation. -/
structure Owns (k : MacOsKeychainAuthorityV2) (r : ResultId) (generation : Nat) : Prop where
  bounded : generation ≤ k.readPublicationHighWater
  owner : ∀ q : ResultId, k.Holds q generation → q = r

theorem holds_setEntry {entry : KeychainEntryV2} {q : ResultId} {generation : Nat}
    (h : (k.setEntry r entry).Holds q generation) :
    (q = r ∧ entry.publicationOperation.isZero = false ∧
      entry.publicationGeneration = generation) ∨ k.Holds q generation := by
  obtain ⟨other, hother, hslot⟩ := h
  rw [setEntry, getElem?_insert] at hother
  split at hother
  · rename_i hq
    cases hother
    exact .inl ⟨hq.symm, hslot⟩
  · exact .inr ⟨other, hother, hslot⟩

/-- Where a reserved generation comes from. -/
theorem Change.holds (h : Change k call k') {q : ResultId} {generation : Nat}
    (hq : k'.Holds q generation) :
    k.Holds q generation ∨ (k.readPublicationHighWater < generation ∧
      (∀ r', ¬ k.Holds r' generation) ∧ ∀ r', k'.Holds r' generation → r' = q) := by
  cases h with
  | nothing => exact .inl hq
  | opened _ _ hslot =>
      rcases holds_setEntry hq with ⟨_, hnonzero, _⟩ | hold
      · rw [hslot] at hnonzero
        cases hnonzero
      · exact .inl hold
  | rewritten hentry hslot _ =>
      rcases holds_setEntry hq with ⟨rfl, hnonzero, hgeneration⟩ | hold
      · refine .inl ⟨_, hentry, ?_, ?_⟩
        · rw [← hslot.operation]
          exact hnonzero
        · rw [← hslot.generation]
          exact hgeneration
      · exact .inl hold
  | @granted r operation digest value entry hentry hoperation hlt habove hall =>
      have hnone : ∀ r', ¬ k.Holds r' value := by
        rintro r' ⟨other, hother, _, rfl⟩
        exact absurd (hall r' other hother) (Nat.lt_irrefl _)
      have hset : ∀ {q : ResultId} {generation : Nat},
          ({ k.setEntry r { entry with
            publicationOperation := operation
            publicationDigest := digest
            publicationGeneration := value } with publicationHighWater := some value } :
            MacOsKeychainAuthorityV2).Holds q generation →
          (q = r ∧ value = generation) ∨ k.Holds q generation := by
        intro q generation hq
        rcases holds_setEntry (k := k) hq with ⟨hr, _, hvalue⟩ | hold
        · exact .inl ⟨hr, hvalue⟩
        · exact .inr hold
      rcases hset hq with ⟨rfl, rfl⟩ | hold
      · refine .inr ⟨habove, hnone, fun r' hr' => ?_⟩
        rcases hset hr' with ⟨hr, _⟩ | hold
        · exact hr
        · exact absurd hold (hnone r')
      · exact .inl hold
  | caughtUp _ => exact .inl hq
  | removed =>
      obtain ⟨other, hother, hslot⟩ := hq
      dsimp only at hother
      rw [getElem?_erase] at hother
      split at hother
      · cases hother
      · exact .inl ⟨other, hother, hslot⟩

theorem Change.highWater_le (h : Change k call k') :
    k.readPublicationHighWater ≤ k'.readPublicationHighWater := by
  cases h with
  | nothing => exact le_rfl
  | opened _ _ _ => exact le_rfl
  | rewritten _ _ _ => exact le_rfl
  | granted _ _ _ habove _ => exact habove.le
  | caughtUp hbehind => exact hbehind.le
  | removed => exact le_rfl

theorem Change.distinct (h : Change k call k') (hk : k.Distinct) : k'.Distinct := by
  intro r r' generation hr hr'
  rcases h.holds hr with hold | ⟨_, _, howner⟩
  · rcases h.holds hr' with hold' | ⟨_, hnone, _⟩
    · exact hk r r' generation hold hold'
    · exact absurd hold (hnone r)
  · exact (howner r' hr').symm

theorem Change.owns (h : Change k call k') {generation : Nat} (hk : k.Owns r generation) :
    k'.Owns r generation := by
  refine ⟨hk.bounded.trans h.highWater_le, fun q hq => ?_⟩
  rcases h.holds hq with hold | ⟨habove, _⟩
  · exact hk.owner q hold
  · exact absurd (hk.bounded.trans_lt habove) (Nat.lt_irrefl _)

/-! ## Runs with cuts -/

/-- A call, and after how many calls of the keychain it is cut. -/
structure CutCallV2 where
  call : AuthorityCallV2
  left : Nat

variable [Sha256]

def runCuts (k : MacOsKeychainAuthorityV2) (calls : List CutCallV2) : MacOsKeychainAuthorityV2 :=
  calls.foldl (fun k step => (step.call.runKeychain ⟨k, step.left⟩).2.keychain) k

theorem runCuts_append (before after : List CutCallV2) :
    k.runCuts (before ++ after) = (k.runCuts before).runCuts after :=
  List.foldl_append

/-- What the last call returns. -/
def cutReturns (k : MacOsKeychainAuthorityV2) (before : List CutCallV2) (step : CutCallV2) :
    Except KeychainStopV2 AuthorityOutputV2 :=
  (step.call.runKeychain ⟨k.runCuts before, step.left⟩).1

/-- A property that survives every successful call, and every one that stops
before the high water is written, holds after any run. -/
theorem runCuts_keeps {P : MacOsKeychainAuthorityV2 → Prop} {calls : List CutCallV2}
    (hP : ∀ (k k' : MacOsKeychainAuthorityV2) (step : CutCallV2) (out : AuthorityOutputV2),
      step ∈ calls → step.call.apply k = .ok (k', out) → P k →
        P k' ∧ P { k' with publicationHighWater := k.publicationHighWater })
    (hk : P k) : P (k.runCuts calls) := by
  induction calls generalizing k with
  | nil => exact hk
  | cons step rest ih =>
      refine ih (fun k k' step' out hmem => hP k k' step' out (List.mem_cons_of_mem _ hmem)) ?_
      have hends := step.call.ends k step.left
      show P (step.call.runKeychain ⟨k, step.left⟩).2.keychain
      unfold Returns at hends
      cases hresult : (step.call.runKeychain ⟨k, step.left⟩).1 with
      | ok out =>
          rw [hresult] at hends
          exact (hP k _ step out (List.mem_cons_self ..) hends hk).1
      | error e =>
          rw [hresult] at hends
          cases e with
          | refused e =>
              rw [hends.2]
              exact hk
          | cut =>
              obtain ⟨_, hsame | ⟨k', out, happly, hhalf⟩⟩ := hends
              · rw [hsame]
                exact hk
              · rw [hhalf]
                exact (hP k k' step out (List.mem_cons_self ..) happly hk).2

theorem allWhole_runCuts {calls : List CutCallV2} (hk : k.AllWhole)
    (hcalls : ∀ step ∈ calls, reservesZero step.call = false) : (k.runCuts calls).AllWhole := by
  refine runCuts_keeps (fun k k' step out hmem happly hk => ?_) hk
  have hk' := (change_of_apply happly).allWhole (hcalls step hmem) hk
  exact ⟨hk', hk'⟩

theorem distinct_runCuts {calls : List CutCallV2} (hk : k.Distinct) :
    (k.runCuts calls).Distinct := by
  refine runCuts_keeps (fun k k' step out _ happly hk => ?_) hk
  have hk' := (change_of_apply happly).distinct hk
  exact ⟨hk', hk'⟩

theorem owns_runCuts {calls : List CutCallV2} {generation : Nat} (hk : k.Owns r generation) :
    (k.runCuts calls).Owns r generation := by
  refine runCuts_keeps (P := (Owns · r generation)) (fun k k' step out _ happly hk => ?_) hk
  have hk' := (change_of_apply happly).owns hk
  exact ⟨hk', hk.bounded, hk'.owner⟩

/-- How a call that returned has ended. -/
theorem apply_of_cutReturns {before : List CutCallV2} {step : CutCallV2} {out : AuthorityOutputV2}
    (h : k.cutReturns before step = .ok out) :
    step.call.apply (k.runCuts before) = .ok (k.runCuts (before ++ [step]), out) := by
  have hends := step.call.ends (k.runCuts before) step.left
  unfold Returns at hends
  rw [show (step.call.runKeychain ⟨k.runCuts before, step.left⟩).1 = .ok out from h] at hends
  rw [runCuts_append]
  exact hends

/-- A generation that is returned is not returned for another result. -/
theorem owner_of_returns {before between : List CutCallV2} {r r' : ResultId}
    {operation operation' : OperationIdV1} {digest digest' : LifecycleDigestV1}
    {left left' generation : Nat} (hk : k.Distinct)
    (hfirst : k.cutReturns before ⟨.reservePublicationGeneration r operation digest, left⟩ =
      .ok (.generation generation))
    (hsecond : k.cutReturns (before ++
        ⟨.reservePublicationGeneration r operation digest, left⟩ :: between)
      ⟨.reservePublicationGeneration r' operation' digest', left'⟩ =
        .ok (.generation generation)) : r = r' := by
  have hheld : ∀ {calls : List CutCallV2} {q : ResultId} {operation : OperationIdV1}
      {digest : LifecycleDigestV1} {left : Nat},
      k.cutReturns calls ⟨.reservePublicationGeneration q operation digest, left⟩ =
        .ok (.generation generation) →
      generation ≤ (k.runCuts (calls ++
          [⟨.reservePublicationGeneration q operation digest, left⟩])).readPublicationHighWater ∧
        (k.runCuts (calls ++
          [⟨.reservePublicationGeneration q operation digest, left⟩])).Holds q generation := by
    intro calls q operation digest left h
    obtain ⟨⟨x, value⟩, hcall, hout⟩ := except_map_eq_ok.mp (apply_of_cutReturns h)
    cases hout
    obtain ⟨_, hbound, hholds⟩ := change_reserve hcall
    exact ⟨hbound, hholds⟩
  obtain ⟨hbound, hholds⟩ := hheld hfirst
  have howns : (k.runCuts (before ++
      [⟨.reservePublicationGeneration r operation digest, left⟩])).Owns r generation :=
    ⟨hbound, fun q hq => distinct_runCuts hk q r generation hq hholds⟩
  have hlater := (hheld hsecond).2
  rw [List.append_assoc, List.cons_append, List.append_cons, runCuts_append] at hlater
  exact ((owns_runCuts howns).owner r' hlater).symm

end MacOsKeychainAuthorityV2

end Evidentrail
