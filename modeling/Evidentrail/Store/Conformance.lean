import Evidentrail.Store.KeychainRun
import Evidentrail.Store.ProcessRun

/-!
# The two authorities side by side

The keychain remembers the last nonce reservation and one publication of a
result, the process authority all of them. As long as nothing else is asked
for again, every call succeeds on both or on neither, and both hold the same
records.
-/

namespace Evidentrail

open Rust Std

/-! ## Entries that track each other -/

/-- The range that ends at the high water is the last one that was given. -/
def ProcessAuthorityEntryV2.Newest (entry : ProcessAuthorityEntryV2)
    (reservation : NonceReservationV1) : Prop :=
  reservation.firstCounter + reservation.count = entry.record.nonceHighWater

/-- The keychain holds the last nonce reservation, if there was one. -/
def KeychainEntryV2.TracksNonces (e : KeychainEntryV2) (entry : ProcessAuthorityEntryV2) : Prop :=
  (e.lastNonceOperation.isZero = true ∧
      ∀ operation : OperationIdV1, entry.nonceOperations[operation]? = none) ∨
    (e.lastNonceOperation.isZero = false ∧
      entry.nonceOperations[e.lastNonceOperation]? = some (e.lastNonceDigest, e.lastNonceCount,
        ⟨entry.record.nonceBase, e.lastNonceFirst, e.lastNonceCount⟩) ∧
      e.lastNonceFirst + e.lastNonceCount = entry.record.nonceHighWater)

/-- What the keychain holds for a result, against the process authority. -/
structure KeychainEntryV2.Tracks (e : KeychainEntryV2) (a : ProcessKeyAuthorityV2)
    (r : ResultId) (entry : ProcessAuthorityEntryV2) : Prop where
  record : e.record = entry.record
  resultDek : e.resultDek = entry.resultDek
  nonces : e.TracksNonces entry
  slot : ∀ operation : OperationIdV1, a.operations[(r, operation)]? =
    if e.publicationOperation.isZero = false ∧ e.publicationOperation = operation then
      some (e.publicationDigest, e.publicationGeneration) else none
  published : entry.record.state = .published →
    e.publicationOperation = entry.record.publishOperation ∧
      e.publicationDigest = entry.record.repositoryCommitment ∧
      e.publicationGeneration = entry.record.publicationGeneration
  reserved : e.publicationGeneration ≤ a.highWater
  recorded : entry.record.publicationGeneration ≤ a.highWater

/-- The keychain against the process authority. -/
structure MacOsKeychainAuthorityV2.Tracks (k : MacOsKeychainAuthorityV2)
    (a : ProcessKeyAuthorityV2) : Prop where
  capacity : k.capacity = a.capacity
  room : a.entries.size ≤ a.capacity
  highWater : k.readPublicationHighWater = a.highWater
  entries : ∀ (r : ResultId) (entry : ProcessAuthorityEntryV2), a.entries[r]? = some entry →
    ∃ e, k.entries[r]? = some e ∧ e.Tracks a r entry
  absent : ∀ r : ResultId, a.entries[r]? = none → k.entries[r]? = none

/-- Both authorities in a state they can reach together. -/
structure MacOsKeychainAuthorityV2.Mirrors [Sha256] (k : MacOsKeychainAuthorityV2)
    (a : ProcessKeyAuthorityV2) : Prop where
  tracks : k.Tracks a
  orderly : a.Orderly
  whole : k.AllWhole

/-- Both calls succeed, and the keychain still tracks the process authority;
or both fail. -/
def BothTrack {α β : Type} : Except KeyAuthorityErrorV2 (ProcessKeyAuthorityV2 × α) →
    Except KeyAuthorityErrorV2 (MacOsKeychainAuthorityV2 × β) → Prop
  | .ok (a, _), .ok (k, _) => k.Tracks a
  | .error _, .error _ => True
  | _, _ => False

theorem bothTrack_map {α β γ δ : Type}
    {x : Except KeyAuthorityErrorV2 (ProcessKeyAuthorityV2 × α)}
    {y : Except KeyAuthorityErrorV2 (MacOsKeychainAuthorityV2 × β)} {f : α → γ} {g : β → δ}
    (h : BothTrack x y) :
    BothTrack (x.map fun p => (p.1, f p.2)) (y.map fun p => (p.1, g p.2)) := by
  cases x with
  | error e =>
      cases y with
      | error e' => trivial
      | ok q => exact h.elim
  | ok p =>
      cases y with
      | error e' => exact h.elim
      | ok q => exact h

namespace MacOsKeychainAuthorityV2

variable {k : MacOsKeychainAuthorityV2} {a : ProcessKeyAuthorityV2} {r : ResultId}
  {entry : ProcessAuthorityEntryV2} {e : KeychainEntryV2}

theorem getEntry_of_whole (h : k.AllWhole) (hentry : k.entries[r]? = some e) :
    k.getEntry r = .ok e :=
  getEntry_eq_ok.mpr ⟨hentry, (h r e hentry).decodes, (h r e hentry).resultId⟩

theorem getEntry_absent (h : k.entries[r]? = none) : k.getEntry r = .error .notFound := by
  rw [getEntry, h]
  rfl

theorem searchEntries_of_whole (h : k.AllWhole) :
    k.searchEntries = .ok (k.entries.toList.map Prod.snd) :=
  searchEntries_of_decodes fun r e he => (h r e he).decodes

/-- The two authorities have entries for the same results. -/
theorem Tracks.size (h : k.Tracks a) : k.entries.size = a.entries.size := by
  have hkeys : k.entries.map (fun _ _ => ()) = a.entries.map (fun _ _ => ()) := by
    refine ExtTreeMap.ext_getElem? fun r => ?_
    rw [ExtTreeMap.getElem?_map, ExtTreeMap.getElem?_map]
    cases hentry : a.entries[r]? with
    | none =>
        rw [h.absent r hentry]
        rfl
    | some entry =>
        obtain ⟨e, he, _⟩ := h.entries r entry hentry
        rw [he]
        rfl
  rw [← ExtTreeMap.size_map (f := fun (_ : ResultId) (_ : KeychainEntryV2) => ()), hkeys,
    ExtTreeMap.size_map]

/-- A change of one entry on both sides. -/
theorem Tracks.setEntry (h : k.Tracks a) (hentry : e.Tracks a r entry)
    (hroom : (a.setEntry r entry).entries.size ≤ a.capacity) :
    (k.setEntry r e).Tracks (a.setEntry r entry) := by
  refine ⟨h.capacity, hroom, h.highWater, ?_, ?_⟩
  · intro q other hother
    rw [ProcessKeyAuthorityV2.setEntry, getElem?_insert] at hother
    rw [MacOsKeychainAuthorityV2.setEntry, getElem?_insert]
    split at hother
    · rename_i hq
      cases hother
      subst hq
      exact ⟨e, if_pos rfl, hentry.record, hentry.resultDek, hentry.nonces, hentry.slot,
        hentry.published, hentry.reserved, hentry.recorded⟩
    · rename_i hq
      obtain ⟨e', he', htracks⟩ := h.entries q other hother
      rw [if_neg hq]
      exact ⟨e', he', htracks.record, htracks.resultDek, htracks.nonces, htracks.slot,
        htracks.published, htracks.reserved, htracks.recorded⟩
  · intro q hq
    rw [ProcessKeyAuthorityV2.setEntry, getElem?_insert] at hq
    rw [MacOsKeychainAuthorityV2.setEntry, getElem?_insert]
    split at hq
    · cases hq
    · rename_i hne
      rw [if_neg hne]
      exact h.absent q hq

/-- Rewriting an entry that is there leaves as much room as before. -/
theorem room_setEntry (h : k.Tracks a) {old : ProcessAuthorityEntryV2}
    (hold : a.entries[r]? = some old) :
    (a.setEntry r entry).entries.size ≤ a.capacity := by
  have hmem : r ∈ a.entries := ExtTreeMap.mem_iff_isSome_getElem?.mpr (by rw [hold]; rfl)
  show (a.entries.insert r entry).size ≤ a.capacity
  rw [ExtTreeMap.size_insert, if_pos (ExtTreeMap.contains_iff_mem.mpr hmem)]
  exact h.room

/-! ## Calls on both sides -/

/-- A transition of the record that leaves nonces alone, and publishes nothing
new. -/
theorem tracks_mutateRecord {R : Type} {mutation : ResultAuthorityRecordV2 →
      Except LifecycleRecordErrorV1 (ResultAuthorityRecordV2 × R)} (h : k.Tracks a)
    (hwhole : k.AllWhole)
    (hmutation : ∀ (entry : ProcessAuthorityEntryV2) (e : KeychainEntryV2)
      (record : ResultAuthorityRecordV2) (output : R), k.entries[r]? = some e →
      e.Tracks a r entry → mutation entry.record = .ok (record, output) →
        KeychainEntryV2.Tracks { e with record } a r { entry with record }) :
    BothTrack (a.mutateRecord r mutation) (k.mutateRecord r mutation) := by
  unfold ProcessKeyAuthorityV2.mutateRecord ProcessKeyAuthorityV2.entry mutateRecord mutateEntry
  cases hentry : a.entries[r]? with
  | none =>
      rw [getEntry_absent (h.absent r hentry)]
      trivial
  | some entry =>
      obtain ⟨e, he, htracks⟩ := h.entries r entry hentry
      rw [getEntry_of_whole hwhole he, okOr_some, except_bind_ok, except_bind_ok]
      dsimp only
      rw [htracks.record]
      cases hrecord : mutation entry.record with
      | error error => trivial
      | ok p =>
          exact h.setEntry (hmutation entry e p.1 p.2 he htracks hrecord)
            (room_setEntry h hentry)

variable {operation : OperationIdV1} {digest : LifecycleDigestV1}

/-- The record of an entry changes, and neither its nonces nor its
publication. -/
theorem tracks_withRecord {record : ResultAuthorityRecordV2} (h : e.Tracks a r entry)
    (hbase : record.nonceBase = entry.record.nonceBase)
    (hhigh : record.nonceHighWater = entry.record.nonceHighWater)
    (hgeneration : record.publicationGeneration ≤ a.highWater)
    (hpublished : record.state = .published →
      e.publicationOperation = record.publishOperation ∧
        e.publicationDigest = record.repositoryCommitment ∧
        e.publicationGeneration = record.publicationGeneration) :
    KeychainEntryV2.Tracks { e with record } a r { entry with record } := by
  refine ⟨rfl, h.resultDek, ?_, h.slot, hpublished, h.reserved, hgeneration⟩
  rcases h.nonces with hnone | ⟨hzero, hlast, hend⟩
  · exact .inl hnone
  · refine .inr ⟨hzero, ?_, hend.trans hhigh.symm⟩
    show entry.nonceOperations[e.lastNonceOperation]? = some (_, _, ⟨record.nonceBase, _, _⟩)
    rw [hbase]
    exact hlast

theorem tracks_commitData [Sha256] {buildContext : BuildContextDigestsV1} (h : k.Tracks a)
    (hwhole : k.AllWhole) :
    BothTrack (a.mutateRecord r (·.commitData operation digest buildContext))
      (k.mutateRecord r (·.commitData operation digest buildContext)) := by
  refine tracks_mutateRecord h hwhole fun entry e record output _ htracks hrecord => ?_
  rcases (ResultAuthorityRecordV2.commitData_ok hrecord).2 with ⟨_, rfl⟩ | ⟨_, _, rfl⟩
  · exact tracks_withRecord htracks rfl rfl htracks.recorded htracks.published
  · exact tracks_withRecord htracks rfl rfl htracks.recorded (fun hstate => by cases hstate)

theorem tracks_seal {commitments : SealCommitmentsV1} (h : k.Tracks a) (hwhole : k.AllWhole) :
    BothTrack (a.mutateRecord r fun record => record.seal operation commitments)
      (k.mutateRecord r fun record => record.seal operation commitments) := by
  refine tracks_mutateRecord h hwhole fun entry e record output _ htracks hrecord => ?_
  rcases (ResultAuthorityRecordV2.seal_ok hrecord).2 with ⟨_, rfl⟩ | ⟨_, rfl⟩
  · exact tracks_withRecord htracks rfl rfl htracks.recorded htracks.published
  · exact tracks_withRecord htracks rfl rfl htracks.recorded (fun hstate => by cases hstate)

/-- A new entry on both sides. -/
theorem tracks_opened [Sha256] {created expires : Int} {nonceBase : ResultNoncePrefixV1}
    {record : ResultAuthorityRecordV2} {resultDek : ResultDekV1} (h : k.Mirrors a)
    (hnone : a.entries[r]? = none)
    (hopen : ResultAuthorityRecordV2.newOpen r created expires nonceBase operation digest =
      .ok record) :
    KeychainEntryV2.Tracks { record, resultDek } a r { record, resultDek } := by
  have hfresh : record.state = .opened ∧ record.publicationGeneration = 0 := by
    unfold ResultAuthorityRecordV2.newOpen at hopen
    split at hopen
    · cases hopen
    · split at hopen
      · cases hopen
      · split at hopen
        · cases hopen
        · cases hopen
          exact ⟨rfl, rfl⟩
  refine ⟨rfl, rfl, .inl ⟨FixedBytes.isZero_zero, by simp⟩, fun other => ?_, fun hstate => ?_,
    Nat.zero_le _, hfresh.2.le.trans (Nat.zero_le _)⟩
  · rw [if_neg (by simp [FixedBytes.isZero_zero])]
    cases hheld : a.operations[(r, other)]? with
    | none => rfl
    | some value =>
        obtain ⟨entry, hentry, _⟩ := h.orderly.kept _ _ hheld
        rw [hnone] at hentry
        cases hentry
  · replace hstate : record.state = .published := hstate
    rw [hfresh.1] at hstate
    cases hstate

theorem tracks_begin {entropy : EntropyV2} {created expires : Int} [Sha256] (h : k.Mirrors a) :
    BothTrack (a.begin entropy r created expires operation digest)
      (k.begin entropy r created expires operation digest) := by
  unfold ProcessKeyAuthorityV2.begin begin
  cases hentry : a.entries[r]? with
  | some entry =>
      obtain ⟨e, he, htracks⟩ := h.tracks.entries r entry hentry
      have hcanonical : entry.record.validateCanonical = .ok () := by
        rw [← htracks.record]
        exact (h.whole r e he).canonical
      rw [getEntry_of_whole h.whole he]
      dsimp only
      rw [hcanonical, htracks.record]
      show BothTrack (if _ then _ else _) _
      split
      · exact h.tracks
      · trivial
  | none =>
      rw [getEntry_absent (h.tracks.absent r hentry)]
      dsimp only
      rw [searchEntries_of_whole h.whole, except_bind_ok, List.length_map,
        ExtTreeMap.length_toList, h.tracks.size, h.tracks.capacity]
      by_cases hfull : a.entries.size = a.capacity
      · rw [if_pos hfull, if_pos hfull.ge]
        trivial
      · have hroom := h.tracks.room
        rw [if_neg hfull, if_neg (by omega)]
        cases okOr KeyAuthorityErrorV2.entropyUnavailable entropy with
        | error error => trivial
        | ok drawn =>
            simp only [except_bind_ok]
            split
            · trivial
            · cases hopen : ResultAuthorityRecordV2.newOpen r created expires drawn.2 operation
                digest with
              | error error => trivial
              | ok record =>
                  refine h.tracks.setEntry (tracks_opened h hentry hopen) ?_
                  have hnew : (a.entries.insert r { record, resultDek := drawn.1 }).size ≤
                    a.entries.size + 1 := ExtTreeMap.size_insert_le
                  show (a.entries.insert r _).size ≤ a.capacity
                  omega

/-- Two operations cannot both hold the newest range. -/
theorem last_of_newest {value : LifecycleDigestV1 × Nat × NonceReservationV1}
    (hspread : entry.Spread) (hregular : (ProcessKeyAuthorityV2.entryAccount entry).Regular)
    (htracks : e.TracksNonces entry) (hvalue : entry.nonceOperations[operation]? = some value)
    (hnewest : entry.Newest value.2.2) : e.lastNonceOperation = operation ∧
      e.lastNonceOperation.isZero = false ∧ value = (e.lastNonceDigest, e.lastNonceCount,
        ⟨entry.record.nonceBase, e.lastNonceFirst, e.lastNonceCount⟩) := by
  rcases htracks with ⟨_, hnone⟩ | ⟨hzero, hlast, hend⟩
  · rw [hnone operation] at hvalue
    cases hvalue
  · have hsame : e.lastNonceOperation = operation := by
      by_contra hne
      have hapart := hspread _ _ _ _ hlast hvalue hne
      obtain ⟨_, hpos, _, hcount, _, _⟩ :=
        hregular.ranges operation value.1 value.2.1 value.2.2 hvalue
      obtain ⟨_, hpos', _⟩ := hregular.ranges _ _ _ _ hlast
      unfold ProcessAuthorityEntryV2.Newest at hnewest
      rcases hapart with hle | hle
      · dsimp only at hle
        omega
      · dsimp only at hle
        omega
    subst hsame
    rw [hlast] at hvalue
    exact ⟨rfl, hzero, (Option.some.inj hvalue).symm⟩

theorem tracks_complete [Sha256] (h : k.Mirrors a)
    (hzero : operation.isZero = true → digest.isZero = true →
      ∀ entry ∈ a.entries[r]?, entry.nonceOperations.isEmpty = false)
    (hlast : ∀ entry ∈ a.entries[r]?, ∀ value ∈ entry.nonceOperations[operation]?,
      value.1 = digest →
        entry.Newest value.2.2 ∨
          (entry.record.completePendingNonceRange operation digest).isOk = false) :
    BothTrack (a.completeNonceReservation r operation digest)
      (k.completeNonceReservation r operation digest) := by
  cases hentry : a.entries[r]? with
  | none =>
      rw [ProcessKeyAuthorityV2.completeNonceReservation, ProcessKeyAuthorityV2.entry, hentry,
        completeNonceReservation, mutateEntry, getEntry_absent (h.tracks.absent r hentry)]
      trivial
  | some entry =>
      obtain ⟨e, he, htracks⟩ := h.tracks.entries r entry hentry
      have hregular := ProcessKeyAuthorityV2.entryAccount_regular h.orderly.regular hentry
      by_cases hrefused : e.lastNonceOperation ≠ operation ∨ e.lastNonceDigest ≠ digest
      · -- the keychain refuses: what the other side knows of the operation is older
        have hkeychain : k.completeNonceReservation r operation digest =
            .error .operationConflict := by
          rw [completeNonceReservation, mutateEntry, getEntry_of_whole h.whole he, except_bind_ok]
          dsimp only
          rw [if_pos hrefused]
          rfl
        rw [hkeychain, ProcessKeyAuthorityV2.completeNonceReservation,
          ProcessKeyAuthorityV2.entry, hentry, okOr_some, except_bind_ok]
        cases hvalue : entry.nonceOperations[operation]? with
        | none => trivial
        | some value =>
            obtain ⟨known, count, reservation⟩ := value
            dsimp only
            split
            · trivial
            · rename_i hknown
              push Not at hknown
              obtain hnewest | hnone := hlast entry hentry _ hvalue hknown
              · obtain ⟨hoperation, _, hsame⟩ := last_of_newest
                  (h.orderly.spread r entry hentry) hregular htracks.nonces hvalue hnewest
                rcases hrefused with hne | hne
                · exact absurd hoperation hne
                · simp only [Prod.mk.injEq] at hsame
                  exact absurd (hsame.1.symm.trans hknown) hne
              · rw [ProcessKeyAuthorityV2.mutateRecord, ProcessKeyAuthorityV2.entry, hentry,
                  okOr_some, except_bind_ok]
                cases hcomplete : entry.record.completePendingNonceRange operation digest with
                | error error => trivial
                | ok p =>
                    rw [hcomplete] at hnone
                    cases hnone
      · push Not at hrefused
        obtain ⟨rfl, rfl⟩ := hrefused
        -- the same reservation is the last one on both sides
        have hkeychain : k.completeNonceReservation r e.lastNonceOperation e.lastNonceDigest =
            k.mutateRecord r
              (·.completePendingNonceRange e.lastNonceOperation e.lastNonceDigest) := by
          rw [completeNonceReservation, mutateRecord, mutateEntry, mutateEntry,
            getEntry_of_whole h.whole he, except_bind_ok, except_bind_ok]
          simp
        have hprocess : a.completeNonceReservation r e.lastNonceOperation e.lastNonceDigest =
            a.mutateRecord r
              (·.completePendingNonceRange e.lastNonceOperation e.lastNonceDigest) := by
          refine ProcessKeyAuthorityV2.complete_eq hentry ?_
          rcases htracks.nonces with ⟨hnonce, hnever⟩ | ⟨_, hknown, _⟩
          · have hdecodes := (KeychainEntryV2.decodes_iff.mp (h.whole r e he).decodes).2.2.1
            simp only [KeychainEntryV2.nonceDecodes, hnonce, Bool.true_and, Bool.not_true,
              Bool.false_and, Bool.or_false, Bool.and_eq_true] at hdecodes
            have hsome := hzero hnonce hdecodes.1.1 entry hentry
            rw [ExtTreeMap.isEmpty_eq_false_iff] at hsome
            exact absurd (ExtTreeMap.ext_getElem? fun other => by rw [hnever other]; simp) hsome
          · exact ⟨_, _, hknown⟩
        rw [hkeychain, hprocess]
        refine tracks_mutateRecord h.tracks h.whole
          fun entry' e' record output _ htracks' hrecord => ?_
        rcases (ResultAuthorityRecordV2.completePendingNonceRange_ok hrecord).2 with rfl | rfl
        · exact tracks_withRecord htracks' rfl rfl htracks'.recorded htracks'.published
        · exact tracks_withRecord htracks' rfl rfl htracks'.recorded htracks'.published

/-- The last range is a range. -/
theorem last_range (hcanonical : entry.record.validateCanonical = .ok ())
    (hregular : (ProcessKeyAuthorityV2.entryAccount entry).Regular)
    (hlast : entry.nonceOperations[e.lastNonceOperation]? = some (e.lastNonceDigest,
      e.lastNonceCount, ⟨entry.record.nonceBase, e.lastNonceFirst, e.lastNonceCount⟩)) :
    NonceReservationV1.new entry.record.nonceBase e.lastNonceFirst e.lastNonceCount =
      .ok ⟨entry.record.nonceBase, e.lastNonceFirst, e.lastNonceCount⟩ := by
  obtain ⟨_, hpos, _, _, hend, hlt⟩ := hregular.ranges _ _ _ _ hlast
  have hbase : entry.record.nonceBase.isZero = false := by
    unfold ResultAuthorityRecordV2.validateCanonical at hcanonical
    split at hcanonical
    · cases hcanonical
    · rename_i hheader
      push Not at hheader
      simpa using hheader.2.2.1
  have hnext : checkedAdd e.lastNonceFirst e.lastNonceCount ≠ none := by
    have hlt' : e.lastNonceFirst + e.lastNonceCount < u64Bound := hend.trans_lt hlt
    rw [checkedAdd_eq_some.mpr ⟨hlt', rfl⟩]
    exact Option.some_ne_none _
  rw [NonceReservationV1.new, if_neg]
  simp [hbase, hnext, hpos.ne']

theorem tracks_reserveNonce [Sha256] {count : Nat} (h : k.Mirrors a)
    (hlast : ∀ entry ∈ a.entries[r]?, ∀ value ∈ entry.nonceOperations[operation]?,
        if value.1 = digest ∧ value.2.1 = count then entry.Newest value.2.2
        else entry.record.hasPendingNonceReservation = true ∨
          (entry.record.reservePendingNonceRange operation digest count).isOk = false) :
    BothTrack (a.reserveNonceRange r operation digest count)
      (k.reserveNonceRange r operation digest count) := by
  cases hentry : a.entries[r]? with
  | none =>
      rw [ProcessKeyAuthorityV2.reserveNonceRange, ProcessKeyAuthorityV2.entry, hentry,
        reserveNonceRange, mutateEntry, getEntry_absent (h.tracks.absent r hentry)]
      trivial
  | some entry =>
      obtain ⟨e, he, htracks⟩ := h.tracks.entries r entry hentry
      have hregular := ProcessKeyAuthorityV2.entryAccount_regular h.orderly.regular hentry
      have hcanonical : entry.record.validateCanonical = .ok () := by
        rw [← htracks.record]
        exact (h.whole r e he).canonical
      rw [ProcessKeyAuthorityV2.reserveNonceRange, ProcessKeyAuthorityV2.entry, hentry, okOr_some,
        except_bind_ok, reserveNonceRange, mutateEntry, getEntry_of_whole h.whole he,
        except_bind_ok]
      cases hvalue : entry.nonceOperations[operation]? with
      | some value =>
          have hsupported := hlast entry hentry value hvalue
          by_cases hmatch : value.1 = digest ∧ value.2.1 = count
          case neg =>
            -- another reservation under the operation of this one: both refuse it
            rw [if_neg hmatch] at hsupported
            obtain ⟨known, length, reservation⟩ := value
            have hlastOther : ¬ ((!e.lastNonceOperation.isZero) = true ∧
                e.lastNonceOperation = operation ∧ e.lastNonceDigest = digest ∧
                e.lastNonceCount = count) := by
              rintro ⟨hzero, rfl, rfl, rfl⟩
              rcases htracks.nonces with ⟨hzero', _⟩ | ⟨_, hknown, _⟩
              · simp [hzero'] at hzero
              · cases hvalue.symm.trans hknown
                exact hmatch ⟨rfl, rfl⟩
            dsimp only
            rw [if_neg hmatch, if_neg hlastOther, htracks.record]
            rcases hsupported with hpending | hnone
            · have hzero : e.lastNonceOperation.isZero = false := by
                rcases htracks.nonces with ⟨_, hnever⟩ | ⟨hzero, _⟩
                · rw [hnever operation] at hvalue
                  cases hvalue
                · exact hzero
              rw [if_pos ⟨by simp [hzero], hpending⟩]
              trivial
            · split
              · trivial
              · cases hreserve : entry.record.reservePendingNonceRange operation digest count with
                | error error => trivial
                | ok p =>
                    rw [hreserve] at hnone
                    cases hnone
          rw [if_pos hmatch] at hsupported
          obtain ⟨hdigest, hcount⟩ := hmatch
          obtain ⟨hoperation, hzero, hsame⟩ := last_of_newest (h.orderly.spread r entry hentry)
            hregular htracks.nonces hvalue hsupported
          subst hoperation
          subst hsame
          dsimp only at hdigest hcount
          subst hdigest
          subst hcount
          dsimp only
          rw [if_pos ⟨rfl, rfl⟩, if_pos ⟨by simp [hzero], rfl, rfl, rfl⟩, htracks.record,
            last_range hcanonical hregular hvalue]
          show (k.setEntry r e).Tracks a
          rw [setEntry_same he]
          exact h.tracks
      | none =>
          have hother : ¬ ((!e.lastNonceOperation.isZero) = true ∧
              e.lastNonceOperation = operation ∧ e.lastNonceDigest = digest ∧
              e.lastNonceCount = count) := by
            rintro ⟨hzero, rfl, _, _⟩
            rcases htracks.nonces with ⟨hzero', _⟩ | ⟨_, hknown, _⟩
            · simp [hzero'] at hzero
            · rw [hvalue] at hknown
              cases hknown
          dsimp only
          rw [if_neg hother, htracks.record]
          cases hreserve : entry.record.reservePendingNonceRange operation digest count with
          | error error =>
              split
              · trivial
              · trivial
          | ok p =>
              obtain ⟨record, reservation⟩ := p
              have hfree := ProcessKeyAuthorityV2.free_of_new hregular hvalue hreserve
              obtain ⟨hoperation, _, _, hrange, hrecord⟩ :=
                AccountV2.reserved_fresh hfree hreserve
              rw [if_neg (by simp [hfree])]
              refine h.tracks.setEntry ?_ (room_setEntry h.tracks hentry)
              subst hrange
              subst hrecord
              refine ⟨rfl, htracks.resultDek, .inr ⟨hoperation, ?_, rfl⟩, htracks.slot,
                htracks.published, htracks.reserved, htracks.recorded⟩
              show (entry.nonceOperations.insert operation _)[operation]? = _
              rw [getElem?_insert, if_pos rfl]

theorem tracks_publish [Sha256] {generation : Nat} (h : k.Mirrors a)
    (hreserved : ∀ entry ∈ a.entries[r]?, entry.record.state = .sealed →
        (entry.record.publish operation generation digest).isOk = true →
          a.operations[(r, operation)]? = some (digest, generation)) :
    BothTrack (a.mutateRecord r (·.publish operation generation digest))
      (k.publish r operation generation digest) := by
  cases hentry : a.entries[r]? with
  | none =>
      rw [ProcessKeyAuthorityV2.mutateRecord, ProcessKeyAuthorityV2.entry, hentry,
        publish, mutateEntry, getEntry_absent (h.tracks.absent r hentry)]
      trivial
  | some entry =>
      obtain ⟨e, he, htracks⟩ := h.tracks.entries r entry hentry
      by_cases hother : e.publicationOperation ≠ operation ∨ e.publicationDigest ≠ digest ∨
          e.publicationGeneration ≠ generation
      · have hkeychain : k.publish r operation generation digest = .error .operationConflict := by
          rw [publish, mutateEntry, getEntry_of_whole h.whole he, except_bind_ok]
          dsimp only
          rw [if_pos hother]
          rfl
        have hrefused : ∃ error, entry.record.publish operation generation digest =
            .error error := by
          cases hstate : entry.record.state with
          | «sealed» =>
              cases hpublish : entry.record.publish operation generation digest with
              | error error => exact ⟨error, rfl⟩
              | ok p =>
                  have hheld := hreserved entry hentry hstate (by rw [hpublish]; rfl)
                  rw [htracks.slot operation] at hheld
                  split at hheld
                  · rename_i hslot
                    cases hheld
                    rcases hother with hne | hne | hne
                    · exact absurd hslot.2 hne
                    · exact absurd rfl hne
                    · exact absurd rfl hne
                  · cases hheld
          | published =>
              obtain ⟨hoperation, hdigest, hgeneration⟩ := htracks.published hstate
              rw [hoperation, hdigest, hgeneration] at hother
              unfold ResultAuthorityRecordV2.publish
              split
              · exact ⟨_, rfl⟩
              · rw [if_neg]
                · exact ⟨_, rfl⟩
                · rintro ⟨h₁, h₂, h₃⟩
                  rcases hother with hne | hne | hne
                  · exact hne h₁
                  · exact hne h₃
                  · exact hne h₂
          | _ =>
              unfold ResultAuthorityRecordV2.publish
              split
              · exact ⟨_, rfl⟩
              · rw [if_neg (by simp [hstate]), if_pos (by simp [hstate])]
                exact ⟨_, rfl⟩
        obtain ⟨error, hrefused⟩ := hrefused
        rw [hkeychain, ProcessKeyAuthorityV2.mutateRecord, ProcessKeyAuthorityV2.entry, hentry,
          okOr_some, except_bind_ok, hrefused]
        trivial
      · push Not at hother
        obtain ⟨rfl, rfl, rfl⟩ := hother
        have hkeychain : k.publish r e.publicationOperation e.publicationGeneration
            e.publicationDigest = k.mutateRecord r (·.publish e.publicationOperation
              e.publicationGeneration e.publicationDigest) := by
          rw [publish, mutateRecord, mutateEntry, mutateEntry, getEntry_of_whole h.whole he,
            except_bind_ok, except_bind_ok]
          simp
        rw [hkeychain]
        refine tracks_mutateRecord h.tracks h.whole
          fun entry' e' record output he' htracks' hrecord => ?_
        cases he.symm.trans he'
        rcases (ResultAuthorityRecordV2.publish_ok hrecord).2 with ⟨_, rfl⟩ | ⟨_, _, _, rfl⟩
        · exact tracks_withRecord htracks' rfl rfl htracks'.recorded htracks'.published
        · exact tracks_withRecord htracks' rfl rfl htracks'.reserved fun _ => ⟨rfl, rfl, rfl⟩

/-- The search of the keychain finds the high water of the process. -/
theorem observed_eq [Sha256] (h : k.Mirrors a) :
    (k.entries.toList.map Prod.snd).foldl (fun highWater candidate =>
      max (max highWater candidate.record.publicationGeneration)
        candidate.publicationGeneration) k.readPublicationHighWater = a.highWater := by
  have hall : ∀ e ∈ k.entries.toList.map Prod.snd,
      e.record.publicationGeneration ≤ a.highWater ∧ e.publicationGeneration ≤ a.highWater := by
    intro e he
    obtain ⟨⟨q, other⟩, hpair, rfl⟩ := List.mem_map.mp he
    replace hpair : k.entries[q]? = some other :=
      ExtTreeMap.mem_toList_iff_getElem?_eq_some.mp hpair
    cases hentry : a.entries[q]? with
    | none =>
        rw [h.tracks.absent q hentry] at hpair
        cases hpair
    | some entry =>
        obtain ⟨e, he, htracks⟩ := h.tracks.entries q entry hentry
        cases hpair.symm.trans he
        exact ⟨by rw [htracks.record]; exact htracks.recorded, htracks.reserved⟩
  rw [h.tracks.highWater]
  generalize k.entries.toList.map Prod.snd = entries at hall
  induction entries with
  | nil => rfl
  | cons e rest ih =>
      obtain ⟨hrecord, hslot⟩ := hall e (List.mem_cons_self ..)
      rw [List.foldl_cons, show max (max a.highWater e.record.publicationGeneration)
        e.publicationGeneration = a.highWater by omega]
      exact ih fun e he => hall e (List.mem_cons_of_mem _ he)

/-- A generation is granted on both sides. -/
theorem Tracks.grant (h : k.Tracks a) {generation : Nat} (hentry : a.entries[r]? = some entry)
    (htracks : e.Tracks a r entry) (hoperation : operation.isZero = false)
    (hfree : e.publicationOperation.isZero = true) (hstate : entry.record.state = .sealed)
    (hnext : generation = a.highWater + 1) :
    MacOsKeychainAuthorityV2.Tracks { k.setEntry r { e with
        publicationOperation := operation
        publicationDigest := digest
        publicationGeneration := generation } with publicationHighWater := some generation }
      { a with
        highWater := generation
        operations := a.operations.insert (r, operation) (digest, generation) } := by
  refine ⟨h.capacity, h.room, rfl, ?_, ?_⟩
  · intro q other hother
    dsimp only at hother
    show ∃ e', (k.entries.insert r _)[q]? = some e' ∧ _
    rw [getElem?_insert]
    split
    · rename_i hq
      subst hq
      cases hentry.symm.trans hother
      refine ⟨_, rfl, htracks.record, htracks.resultDek, htracks.nonces, fun operation' => ?_,
        fun hpublished => ?_, le_rfl, ?_⟩
      · show (a.operations.insert (r, operation) _)[(r, operation')]? = _
        rw [ProcessKeyAuthorityV2.operations_insert]
        by_cases hsame : operation = operation'
        · rw [if_pos (by rw [hsame]), if_pos ⟨hoperation, hsame⟩]
        · rw [if_neg (by simpa using hsame), if_neg (fun h => hsame h.2), htracks.slot,
            if_neg (by simp [hfree])]
      · rw [hstate] at hpublished
        cases hpublished
      · have hle := htracks.recorded
        dsimp only
        omega
    · rename_i hq
      obtain ⟨e', he', htracks'⟩ := h.entries q other hother
      have hreserved := htracks'.reserved
      have hrecorded := htracks'.recorded
      refine ⟨e', he', htracks'.record, htracks'.resultDek, htracks'.nonces, fun operation' => ?_,
        htracks'.published, by dsimp only; omega, by dsimp only; omega⟩
      show (a.operations.insert (r, operation) _)[(q, operation')]? = _
      rw [ProcessKeyAuthorityV2.operations_insert, if_neg (by simp [hq])]
      exact htracks'.slot operation'
  · intro q hq
    show (k.entries.insert r _)[q]? = none
    rw [getElem?_insert, if_neg]
    · exact h.absent q hq
    · rintro rfl
      rw [hentry] at hq
      cases hq

/-- The process authority grants every operation a generation of its own. -/
theorem exists_granted {generation : Nat} (hentry : a.entries[r]? = some entry)
    (hstate : entry.record.state = .sealed) (hzero : operation.isZero = false)
    (hnone : a.operations[(r, operation)]? = none)
    (hnext : checkedAdd a.highWater 1 = some generation) :
    ∃ p, a.reservePublicationGeneration r operation digest = .ok p := by
  rw [ProcessKeyAuthorityV2.reservePublicationGeneration, if_neg (by simp [hzero]),
    ProcessKeyAuthorityV2.snapshot, ProcessKeyAuthorityV2.entry, hentry, okOr_some]
  simp only [Except.map, except_bind_ok]
  rw [if_neg (by simp [hstate]), hnone]
  simp only [hnext, okOr_some, except_bind_ok]
  exact ⟨_, rfl⟩

theorem tracks_reserveGeneration [Sha256] (h : k.Mirrors a)
    (hfirst : a.operations[(r, operation)]? = none →
      (a.reservePublicationGeneration r operation digest).isOk = true →
        ∀ key ∈ a.operations.keys, key.1 ≠ r) :
    BothTrack (a.reservePublicationGeneration r operation digest)
      (k.reservePublicationGeneration r operation digest) := by
  unfold ProcessKeyAuthorityV2.reservePublicationGeneration reservePublicationGeneration
  split
  · trivial
  · rename_i hzero
    rw [ProcessKeyAuthorityV2.snapshot, ProcessKeyAuthorityV2.entry]
    cases hentry : a.entries[r]? with
    | none =>
        rw [getEntry_absent (h.tracks.absent r hentry)]
        trivial
    | some entry =>
        obtain ⟨e, he, htracks⟩ := h.tracks.entries r entry hentry
        have hsame : e.record.state = entry.record.state := by rw [htracks.record]
        rw [getEntry_of_whole h.whole he, okOr_some, except_bind_ok, hsame]
        simp only [Except.map, except_bind_ok]
        by_cases hstate : entry.record.state = .sealed
        · rw [if_neg (by simp [hstate]), if_neg (by simp [hstate])]
          cases hslot : e.publicationOperation.isZero with
          | false =>
              have hheld := htracks.slot e.publicationOperation
              rw [if_pos ⟨hslot, rfl⟩] at hheld
              by_cases hsame : e.publicationOperation = operation
              case neg =>
                -- another operation holds the generation of the result
                have hnone : a.operations[(r, operation)]? = none := by
                  rw [htracks.slot operation, if_neg fun hboth => hsame hboth.2]
                simp only [Bool.not_false, if_true, hsame, false_and, if_false, hnone]
                cases hnext : checkedAdd a.highWater 1 with
                | none => trivial
                | some generation =>
                    obtain ⟨p, hp⟩ :=
                      exists_granted hentry hstate (by simpa using hzero) hnone hnext
                    refine absurd rfl (hfirst hnone (by rw [hp]; rfl)
                      (r, e.publicationOperation) (ExtTreeMap.mem_keys.mpr ?_))
                    rw [ExtTreeMap.mem_iff_isSome_getElem?, hheld]
                    rfl
              subst hsame
              rw [hheld]
              have hnot : ¬ k.readPublicationHighWater < e.publicationGeneration := by
                rw [h.tracks.highWater]
                exact Nat.not_lt.mpr htracks.reserved
              simp only [Bool.not_false, if_true, true_and, if_neg hnot]
              split
              · exact h.tracks
              · trivial
          | true =>
              rw [htracks.slot operation, if_neg (by simp [hslot]),
                searchEntries_of_whole h.whole]
              simp only [Bool.not_true, Bool.false_eq_true, if_false, except_bind_ok,
                observed_eq h]
              cases hnext : checkedAdd a.highWater 1 with
              | none => trivial
              | some generation =>
                  exact h.tracks.grant hentry htracks (by simpa using hzero) hslot hstate
                    (checkedAdd_eq_some.mp hnext).2
        · rw [if_pos hstate, if_pos hstate]
          trivial

theorem tracks_destroy [Sha256] (h : k.Mirrors a) : BothTrack (a.destroy r) (k.destroy r) := by
  have hmem : r ∈ k.entries ↔ r ∈ a.entries := by
    rw [ExtTreeMap.mem_iff_isSome_getElem?, ExtTreeMap.mem_iff_isSome_getElem?]
    cases hentry : a.entries[r]? with
    | none =>
        rw [h.tracks.absent r hentry]
        simp
    | some entry =>
        obtain ⟨e, he, _⟩ := h.tracks.entries r entry hentry
        rw [he]
        simp
  unfold ProcessKeyAuthorityV2.destroy destroy
  by_cases hin : r ∈ a.entries
  · rw [if_pos hin, if_pos (hmem.mpr hin)]
    refine ⟨h.tracks.capacity, ?_, h.tracks.highWater, ?_, ?_⟩
    · show (a.entries.erase r).size ≤ a.capacity
      exact ExtTreeMap.size_erase_le.trans h.tracks.room
    · intro q other hother
      dsimp only at hother
      rw [getElem?_erase] at hother
      split at hother
      · cases hother
      · rename_i hq
        obtain ⟨e, he, htracks⟩ := h.tracks.entries q other hother
        refine ⟨e, ?_, htracks.record, htracks.resultDek, htracks.nonces, fun operation => ?_,
          htracks.published, htracks.reserved, htracks.recorded⟩
        · show (k.entries.erase r)[q]? = _
          rw [getElem?_erase, if_neg hq]
          exact he
        · show (a.operations.filter _)[(q, operation)]? = _
          rw [ExtTreeMap.getElem?_filter', htracks.slot operation]
          have hkept : decide (q ≠ r) = true := by simpa using Ne.symm hq
          split
          · simp [Option.filter, hkept]
          · rfl
    · intro q hq
      dsimp only at hq
      show (k.entries.erase r)[q]? = none
      rw [getElem?_erase] at hq ⊢
      split
      · rfl
      · rename_i hne
        rw [if_neg hne] at hq
        exact h.tracks.absent q hq
  · rw [if_neg hin, if_neg (fun hk => hin (hmem.mp hk))]
    exact h.tracks

/-! ## Runs on both sides -/

/-- What the two slots of the keychain are enough for. A nonce operation that was
reserved is asked for again as the last one, or in a way that is refused anyhow;
a result is granted one generation, for a commitment that is not zero; and what
would publish a sealed result is what was reserved for it. -/
def Supports [Sha256] (a : ProcessKeyAuthorityV2) : AuthorityCallV2 → Prop
  | .reserveNonceRange r operation digest count =>
      ∀ entry ∈ a.entries[r]?, ∀ value ∈ entry.nonceOperations[operation]?,
        if value.1 = digest ∧ value.2.1 = count.toNat then entry.Newest value.2.2
        else entry.record.hasPendingNonceReservation = true ∨
          (entry.record.reservePendingNonceRange operation digest count.toNat).isOk = false
  | .completeNonceReservation r operation digest =>
      (operation.isZero = true → digest.isZero = true →
        ∀ entry ∈ a.entries[r]?, entry.nonceOperations.isEmpty = false) ∧
      ∀ entry ∈ a.entries[r]?, ∀ value ∈ entry.nonceOperations[operation]?, value.1 = digest →
        entry.Newest value.2.2 ∨
          (entry.record.completePendingNonceRange operation digest).isOk = false
  | .reservePublicationGeneration r operation digest =>
      a.operations[(r, operation)]? = none →
        (a.reservePublicationGeneration r operation digest).isOk = true →
          digest.isZero = false ∧ ∀ key ∈ a.operations.keys, key.1 ≠ r
  | .publish r operation generation digest =>
      ∀ entry ∈ a.entries[r]?, entry.record.state = .sealed →
        (entry.record.publish operation generation.toNat digest).isOk = true →
          a.operations[(r, operation)]? = some (digest, generation.toNat)
  | _ => True

variable [Sha256]

theorem bothTrack_apply {call : AuthorityCallV2} (h : k.Mirrors a) (hcall : Supports a call) :
    BothTrack (call.apply a) (call.apply k) := by
  cases call with
  | begin entropy r created expires operation digest =>
      exact bothTrack_map (f := fun p => AuthorityOutputV2.begun p.1 p.2)
        (g := fun p => AuthorityOutputV2.begun p.1 p.2) (tracks_begin h)
  | reserveNonceRange r operation digest count =>
      exact bothTrack_map (tracks_reserveNonce h hcall)
  | completeNonceReservation r operation digest =>
      exact bothTrack_map (tracks_complete h hcall.1 hcall.2)
  | commitData r operation digest buildContext =>
      exact bothTrack_map (tracks_commitData h.tracks h.whole)
  | sealResult r operation commitments => exact bothTrack_map (tracks_seal h.tracks h.whole)
  | reservePublicationGeneration r operation digest =>
      exact bothTrack_map (tracks_reserveGeneration h fun hnone hok => (hcall hnone hok).2)
  | publish r operation generation digest => exact bothTrack_map (tracks_publish h hcall)
  | snapshot r =>
      show BothTrack ((ProcessKeyAuthorityV2.snapshot a r).map _)
        (((k.getEntry r).map KeychainEntryV2.record).map _)
      rw [ProcessKeyAuthorityV2.snapshot, ProcessKeyAuthorityV2.entry]
      cases hentry : a.entries[r]? with
      | none =>
          rw [getEntry_absent (h.tracks.absent r hentry)]
          trivial
      | some entry =>
          obtain ⟨e, he, _⟩ := h.tracks.entries r entry hentry
          rw [getEntry_of_whole h.whole he]
          exact h.tracks
  | withResultKey r =>
      show BothTrack (((a.entry r).map ProcessAuthorityEntryV2.resultDek).map _)
        (((k.getEntry r).map KeychainEntryV2.resultDek).map _)
      rw [ProcessKeyAuthorityV2.entry]
      cases hentry : a.entries[r]? with
      | none =>
          rw [getEntry_absent (h.tracks.absent r hentry)]
          trivial
      | some entry =>
          obtain ⟨e, he, _⟩ := h.tracks.entries r entry hentry
          rw [getEntry_of_whole h.whole he]
          exact h.tracks
  | destroy r => exact bothTrack_map (tracks_destroy h)
  | list =>
      show BothTrack (Except.ok (a, _)) ((k.searchEntries.map _).map _)
      rw [searchEntries_of_whole h.whole]
      exact h.tracks

/-- What a generation is granted for is not zero, at the first time or again. -/
theorem nonzero_of_granted {call : AuthorityCallV2} (h : k.Mirrors a) (hcall : Supports a call)
    {p : ProcessKeyAuthorityV2 × AuthorityOutputV2} (hp : call.apply a = .ok p) :
    reservesZero call = false := by
  cases call with
  | reservePublicationGeneration r operation digest =>
      obtain ⟨q, hq, _⟩ := except_map_eq_ok.mp hp
      cases hheld : a.operations[(r, operation)]? with
      | none =>
          replace hq : a.reservePublicationGeneration r operation digest = .ok q := hq
          exact (hcall hheld (by rw [hq]; rfl)).1
      | some value =>
          obtain ⟨entry, hentry, _⟩ := h.orderly.kept _ _ hheld
          obtain ⟨e, he, htracks⟩ := h.tracks.entries r entry hentry
          have hdecodes := (KeychainEntryV2.decodes_iff.mp (h.whole r e he).decodes).2.2.2
          rw [htracks.slot operation] at hheld
          split at hheld
          · rename_i hslot
            have hdigest : e.publicationDigest = digest := by
              replace hq : a.reservePublicationGeneration r operation digest = .ok q := hq
              rw [ProcessKeyAuthorityV2.reservePublicationGeneration] at hq
              split at hq
              · cases hq
              obtain ⟨record, _, hq⟩ := except_bind_eq_ok.mp hq
              split at hq
              · cases hq
              rw [htracks.slot operation, if_pos hslot] at hq
              dsimp only at hq
              split at hq
              · assumption
              · cases hq
            simp only [KeychainEntryV2.publicationDecodes, hslot.1, Bool.false_and, Bool.false_or,
              Bool.not_false, Bool.true_and, Bool.and_eq_true, Bool.not_eq_true', hdigest]
              at hdecodes
            exact hdecodes.1
          · cases hheld
  | _ => rfl

/-- One call that is not cut. -/
theorem mirrors_step {step : CutCallV2} (h : k.Mirrors a) (hleft : 5 ≤ step.left)
    (hcall : Supports a step.call) :
    (step.call.runKeychain ⟨k, step.left⟩).2.keychain.Mirrors (step.call.runInPlace a).2 ∧
      (step.call.runInPlace a).1.isOk =
        (step.call.runKeychain ⟨k, step.left⟩).1.isOk := by
  have hboth := bothTrack_apply h hcall
  have hends := step.call.ends k step.left
  unfold Attempt.Returns at hends
  rw [step.call.runInPlace_eq]
  cases hresult : (step.call.runKeychain ⟨k, step.left⟩).1 with
  | ok out =>
      rw [hresult] at hends
      replace hends : step.call.apply k = .ok (_, out) := hends
      cases hprocess : step.call.apply a with
      | error error =>
          rw [hprocess, hends] at hboth
          exact hboth.elim
      | ok p =>
          rw [hprocess, hends] at hboth
          exact ⟨⟨hboth, ProcessKeyAuthorityV2.orderly_of_apply hprocess h.orderly,
            (change_of_apply hends).allWhole (nonzero_of_granted h hcall hprocess) h.whole⟩, rfl⟩
  | error stop =>
      rw [hresult] at hends
      cases stop with
      | cut => exact absurd hends.1 (Nat.not_lt.mpr hleft)
      | refused error =>
          cases hprocess : step.call.apply a with
          | ok p =>
              rw [hprocess, hends.1] at hboth
              exact hboth.elim
          | error error' =>
              rw [hends.2]
              exact ⟨h, rfl⟩

/-- The slots are enough for every call of a run, in the state in which the
process authority meets it. -/
def SupportsAll : ProcessKeyAuthorityV2 → List CutCallV2 → Prop
  | _, [] => True
  | a, step :: rest => Supports a step.call ∧ SupportsAll (step.call.runInPlace a).2 rest

theorem SupportsAll.of_append {before rest : List CutCallV2}
    (h : SupportsAll a (before ++ rest)) : SupportsAll a before := by
  induction before generalizing a with
  | nil => trivial
  | cons step before ih => exact ⟨h.1, ih h.2⟩

theorem SupportsAll.last {before : List CutCallV2} {step : CutCallV2}
    (h : SupportsAll a (before ++ [step])) :
    Supports (a.runCalls (before.map (·.call))) step.call := by
  induction before generalizing a with
  | nil => exact h.1
  | cons first before ih => exact ih h.2

theorem mirrors_run {steps : List CutCallV2} (h : k.Mirrors a)
    (hleft : ∀ step ∈ steps, 5 ≤ step.left) (hcalls : SupportsAll a steps) :
    (k.runCuts steps).Mirrors (a.runCalls (steps.map (·.call))) := by
  induction steps generalizing k a with
  | nil => exact h
  | cons step rest ih =>
      exact ih (mirrors_step h (hleft step (List.mem_cons_self ..)) hcalls.1).1
        (fun s hs => hleft s (List.mem_cons_of_mem _ hs)) hcalls.2

/-- The guard of the keychain: what was not reserved does not publish. -/
theorem publish_unreserved {generation : UInt64} {left : Nat} (h : k.Mirrors a) (hleft : 5 ≤ left)
    (hreserved : a.operations[(r, operation)]? ≠ some (digest, generation.toNat)) :
    (∃ error, (AuthorityCallV2.runKeychain (.publish r operation generation digest) ⟨k, left⟩).1 =
      .error (.refused error)) ∧
    (AuthorityCallV2.runKeychain (.publish r operation generation digest)
      ⟨k, left⟩).2.keychain = k := by
  have hrefused : ∃ error, k.publish r operation generation.toNat digest = .error error := by
    rw [publish, mutateEntry]
    cases hentry : a.entries[r]? with
    | none =>
        rw [getEntry_absent (h.tracks.absent r hentry)]
        exact ⟨_, rfl⟩
    | some entry =>
        obtain ⟨e, he, htracks⟩ := h.tracks.entries r entry hentry
        rw [getEntry_of_whole h.whole he, except_bind_ok]
        dsimp only
        split
        · exact ⟨_, rfl⟩
        · rename_i hother
          push Not at hother
          obtain ⟨rfl, rfl, hgeneration⟩ := hother
          -- only an empty slot is not a reservation, and it publishes nothing
          have hzero : e.publicationOperation.isZero = true := by
            by_contra hslot
            rw [Bool.not_eq_true] at hslot
            refine hreserved ?_
            rw [htracks.slot e.publicationOperation, if_pos ⟨hslot, rfl⟩, hgeneration]
          rw [ResultAuthorityRecordV2.publish, if_pos hzero]
          exact ⟨_, rfl⟩
  obtain ⟨error, hrefused⟩ := hrefused
  have happly : (AuthorityCallV2.publish r operation generation digest).apply k = .error error := by
    show (k.publish r operation generation.toNat digest).map _ = _
    rw [hrefused]
    rfl
  have hends := (AuthorityCallV2.publish r operation generation digest).ends k left
  unfold Attempt.Returns at hends
  cases hresult : (AuthorityCallV2.runKeychain (.publish r operation generation digest)
      ⟨k, left⟩).1 with
  | ok out =>
      rw [hresult] at hends
      replace hends : (AuthorityCallV2.publish r operation generation digest).apply k =
        .ok (_, out) := hends
      rw [happly] at hends
      cases hends
  | error stop =>
      rw [hresult] at hends
      cases stop with
      | cut => exact absurd hends.1 (Nat.not_lt.mpr hleft)
      | refused error' => exact ⟨⟨error', rfl⟩, hends.2⟩

theorem Mirrors.records (h : k.Mirrors a) (r : ResultId) :
    k.entries[r]?.map KeychainEntryV2.record =
      a.entries[r]?.map ProcessAuthorityEntryV2.record := by
  cases hentry : a.entries[r]? with
  | none =>
      rw [h.tracks.absent r hentry]
      rfl
  | some entry =>
      obtain ⟨e, he, htracks⟩ := h.tracks.entries r entry hentry
      rw [he]
      exact congrArg some htracks.record

theorem mirrors_new {capacity : Nat} (hk : new capacity = .ok k)
    (ha : ProcessKeyAuthorityV2.new capacity = .ok a) : k.Mirrors a := by
  have horderly := ProcessKeyAuthorityV2.orderly_new ha
  unfold new at hk
  unfold ProcessKeyAuthorityV2.new at ha
  split at hk
  · cases hk
  · rename_i hcapacity
    rw [if_neg hcapacity] at ha
    cases hk
    cases ha
    refine ⟨⟨rfl, ?_, rfl, fun r entry hentry => ?_, fun r _ => ?_⟩, horderly,
      fun r entry hentry => ?_⟩
    · simp
    · simp at hentry
    · simp
    · simp at hentry

/-- The keychain authority over every run. Wherever its calls are cut, an
entry that is stored is read back, as long as no commitment that is reserved
is zero, and no generation is returned for two results. Where its slots are
enough for what it is asked, every call succeeds or fails as on the process
authority, and the records are the same; and what would publish a sealed result
without its reservation is refused, and changes nothing. -/
theorem keychain_conforms {capacity : Nat} (hk : new capacity = .ok k)
    (ha : ProcessKeyAuthorityV2.new capacity = .ok a) :
    (∀ steps : List CutCallV2, (∀ step ∈ steps, reservesZero step.call = false) →
      ∀ (r : ResultId) (e : KeychainEntryV2), (k.runCuts steps).entries[r]? = some e →
        KeychainEntryV2.decodeUnbound e.encode = .ok e) ∧
    (∀ (steps before between rest : List CutCallV2) (r r' : ResultId)
      (operation operation' : OperationIdV1) (digest digest' : LifecycleDigestV1)
      (left left' generation : Nat),
      steps = before ++ ⟨.reservePublicationGeneration r operation digest, left⟩ ::
        between ++ ⟨.reservePublicationGeneration r' operation' digest', left'⟩ :: rest →
      k.cutReturns before ⟨.reservePublicationGeneration r operation digest, left⟩ =
        .ok (.generation generation) →
      k.cutReturns (before ++ ⟨.reservePublicationGeneration r operation digest, left⟩ ::
        between) ⟨.reservePublicationGeneration r' operation' digest', left'⟩ =
          .ok (.generation generation) → r = r') ∧
    (∀ (before : List CutCallV2) (step : CutCallV2), (∀ s ∈ before ++ [step], 5 ≤ s.left) →
      SupportsAll a (before ++ [step]) →
        (a.returns (before.map (·.call)) step.call).isOk = (k.cutReturns before step).isOk ∧
        ∀ r : ResultId,
          (k.runCuts (before ++ [step])).entries[r]?.map KeychainEntryV2.record =
            (a.runCalls ((before ++ [step]).map (·.call))).entries[r]?.map
              ProcessAuthorityEntryV2.record) ∧
    ∀ before : List CutCallV2, (∀ s ∈ before, 5 ≤ s.left) → SupportsAll a before →
      ∀ (r : ResultId) (operation : OperationIdV1) (generation : UInt64)
        (digest : LifecycleDigestV1) (left : Nat), 5 ≤ left →
        (a.runCalls (before.map (·.call))).operations[(r, operation)]? ≠
          some (digest, generation.toNat) →
        (k.cutReturns before ⟨.publish r operation generation digest, left⟩).isOk = false ∧
        k.runCuts (before ++ [⟨.publish r operation generation digest, left⟩]) =
          k.runCuts before := by
  have hmirrors := mirrors_new hk ha
  have hempty : ∀ r : ResultId, k.entries[r]? = none := by
    intro r
    unfold new at hk
    split at hk
    · cases hk
    · cases hk
      simp
  refine ⟨fun steps hsteps r e he => ?_, ?_, fun before step hleft hcalls => ?_,
    fun before hleft hcalls r operation generation digest left huncut hreserved => ?_⟩
  · have hwhole := allWhole_runCuts hmirrors.whole hsteps r e he
    exact (KeychainEntryV2.decodeUnbound_encode_iff hwhole.fits).mpr hwhole.decodes
  · intro steps before between rest r r' operation operation' digest digest' left left' generation
      _ hfirst hsecond
    refine owner_of_returns ?_ hfirst hsecond
    rintro q q' value ⟨entry, hentry, _⟩ _
    rw [hempty q] at hentry
    cases hentry
  · obtain ⟨hbefore, hstep⟩ := List.forall_mem_append.mp hleft
    obtain ⟨hafter, hok⟩ := mirrors_step (mirrors_run hmirrors hbefore hcalls.of_append)
      (hstep step (List.mem_singleton_self _)) hcalls.last
    refine ⟨hok, fun r => ?_⟩
    rw [runCuts_append, List.map_append, ProcessKeyAuthorityV2.runCalls_append]
    exact hafter.records r
  · obtain ⟨⟨error, hrefused⟩, hsame⟩ := publish_unreserved (mirrors_run hmirrors hleft hcalls)
      huncut hreserved
    refine ⟨?_, ?_⟩
    · rw [cutReturns, hrefused]
      rfl
    · rw [runCuts_append]
      exact hsame

end MacOsKeychainAuthorityV2

namespace MacOsKeychainAuthorityV2

instance (entry : ProcessAuthorityEntryV2) (reservation : NonceReservationV1) :
    Decidable (entry.Newest reservation) :=
  inferInstanceAs (Decidable (_ = _))

instance decidableSupports [Sha256] (a : ProcessKeyAuthorityV2) (call : AuthorityCallV2) :
    Decidable (Supports a call) := by
  cases call <;> dsimp only [Supports] <;> infer_instance

instance decidableSupportsAll [Sha256] : (a : ProcessKeyAuthorityV2) →
    (steps : List CutCallV2) → Decidable (SupportsAll a steps)
  | _, [] => isTrue trivial
  | a, step :: rest =>
      @instDecidableAnd _ _ (decidableSupports a step.call)
        (decidableSupportsAll (step.call.runInPlace a).2 rest)

/-- A result from its beginning to its seal, with repeated and refused
reservations on the way. -/
def sealedLife (r : ResultId) (operation : OperationIdV1) : List AuthorityCallV2 :=
  [.begin (some (.repeated 3, .repeated 7)) r 100 200 (.repeated 1) (.repeated 10),
    .reserveNonceRange r operation (.repeated 12) 4,
    .reserveNonceRange r operation (.repeated 12) 4,
    .reserveNonceRange r operation (.repeated 12) 5,
    .completeNonceReservation r operation (.repeated 12),
    .completeNonceReservation r operation (.repeated 12),
    .commitData r (.repeated 3) (.repeated 11)
      ⟨.repeated 1, .repeated 2, .repeated 3, .repeated 4, .repeated 5⟩,
    .sealResult r (.repeated 4)
      ⟨.repeated 20, .repeated 21, .repeated 22, .repeated 23, .repeated 24⟩]

def firstGeneration : AuthorityCallV2 :=
  .reservePublicationGeneration (.repeated 9) (.repeated 5) (.repeated 30)

def secondGeneration : AuthorityCallV2 :=
  .reservePublicationGeneration (.repeated 8) (.repeated 5) (.repeated 30)

/-- Two results, and a generation for the first of them, asked for twice. -/
def twoSealed : List CutCallV2 :=
  (sealedLife (.repeated 9) (.repeated 2) ++ sealedLife (.repeated 8) (.repeated 6) ++
    [firstGeneration, firstGeneration]).map (⟨·, 5⟩)

/-- Both results are sealed on both sides. The first one is published with its
generation, and the other one is not: it has none, and is given another one, also
when the reservation of the first was cut and had to be repeated. -/
theorem keychain_conforms_two_results :
    letI := fips180
    let publish (r : ResultId) : AuthorityCallV2 := .publish r (.repeated 5) 1 (.repeated 30)
    ∃ k a, new 2 = .ok k ∧ ProcessKeyAuthorityV2.new 2 = .ok a ∧
      (∀ (r : ResultId) (e : KeychainEntryV2), (k.runCuts twoSealed).entries[r]? = some e →
        KeychainEntryV2.decodeUnbound e.encode = .ok e) ∧
      k.cutReturns (twoSealed.take 16 ++ [⟨firstGeneration, 4⟩]) ⟨firstGeneration, 5⟩ =
        .ok (.generation 1) ∧
      k.cutReturns (twoSealed.take 16 ++ [⟨firstGeneration, 4⟩] ++ [⟨firstGeneration, 5⟩])
        ⟨secondGeneration, 5⟩ ≠ .ok (.generation 1) ∧
      (a.returns (twoSealed.map (·.call)) (publish (.repeated 9))).isOk = true ∧
      (k.cutReturns twoSealed ⟨publish (.repeated 9), 5⟩).isOk = true ∧
      (k.cutReturns twoSealed ⟨publish (.repeated 8), 5⟩).isOk = false := by
  rw [fips180_eq]
  let := fips180Evaluated
  refine ⟨_, _, rfl, rfl, ?_⟩
  obtain ⟨hread, howner, hsame, hrefused⟩ := keychain_conforms (show new 2 = .ok _ from rfl)
    (show ProcessKeyAuthorityV2.new 2 = .ok _ from rfl)
  have hfirst : MacOsKeychainAuthorityV2.cutReturns { capacity := 2 }
      (twoSealed.take 16 ++ [⟨firstGeneration, 4⟩]) ⟨firstGeneration, 5⟩ =
        .ok (.generation 1) := by
    decide +kernel
  have hpublished : (ProcessKeyAuthorityV2.returns { capacity := 2 } (twoSealed.map (·.call))
      (.publish (.repeated 9) (.repeated 5) 1 (.repeated 30))).isOk = true := by
    decide +kernel
  have hleft : ∀ step ∈ twoSealed, 5 ≤ step.left := by
    intro step hstep
    obtain ⟨_, _, rfl⟩ := List.mem_map.mp hstep
    exact le_rfl
  refine ⟨hread twoSealed (by decide), hfirst, fun hsecond => ?_, hpublished, ?_, ?_⟩
  · have howned := howner _ _ [] [] _ _ _ _ _ _ _ _ _ rfl hfirst hsecond
    exact absurd howned (by decide)
  · rw [← (hsame twoSealed ⟨.publish (.repeated 9) (.repeated 5) 1 (.repeated 30), 5⟩
      (List.forall_mem_append.mpr ⟨hleft, by simp⟩) (by decide +kernel)).1]
    exact hpublished
  · exact (hrefused twoSealed hleft (by decide +kernel) _ _ _ _ _ le_rfl (by decide +kernel)).1

/-- A sealed result is published with a generation that was never reserved:
the process authority accepts it, the keychain refuses it. -/
theorem unreserved_publication_differs :
    letI := fips180
    let calls := ProcessKeyAuthorityV2.untilSealed
    let publish := .publish (.repeated 9) (.repeated 5) 1 (.repeated 30)
    ∃ k a, new 1 = .ok k ∧ ProcessKeyAuthorityV2.new 1 = .ok a ∧
      (a.returns calls publish).isOk = true ∧
      k.cutReturns (calls.map (⟨·, 5⟩)) ⟨publish, 5⟩ = .error (.refused .operationConflict) := by
  let := fips180
  exact ⟨_, _, rfl, rfl, by decide +kernel, by decide +kernel⟩

end MacOsKeychainAuthorityV2

end Evidentrail
