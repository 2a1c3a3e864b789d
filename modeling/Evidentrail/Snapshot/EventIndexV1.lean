import Evidentrail.Snapshot.ExpansionEntry

/-!
# The event expansion index

The entries of an index stand in the order of their events. The constructor and
the decoder check each of them against the catalog and, in a second pass in the
order of segments and frames, that two frames of one segment leave room for the
frames between them. From the two passes follow that the decoder accepts what
the constructor builds and nothing else (`EventExpansionIndexV1.canonical`) and
that the locators are safe to read at (`EventExpansionIndexV1.locators_safe`).
-/

namespace Evidentrail

open Rust Std Encoding Bytes Slice

namespace Snapshot

/-! ## The checks of an index -/

/-- The key that the second pass goes by. -/
structure FrameKeyV1 where
  segmentSequence : UInt64
  frameSequence : UInt32
deriving DecidableEq

namespace FrameKeyV1

def rank (key : FrameKeyV1) : List Nat := [key.segmentSequence.toNat, key.frameSequence.toNat]

theorem rank_injective : Function.Injective rank := by
  rintro ⟨segment, frame⟩ ⟨segment', frame'⟩ h
  simp only [rank, List.cons.injEq, and_true] at h
  rw [UInt64.toNat_inj.mp h.1, UInt32.toNat_inj.mp h.2]

instance : Ord FrameKeyV1 := ⟨compareOn rank⟩

instance : TransOrd FrameKeyV1 := inferInstanceAs (TransCmp (compareOn rank))

instance : LawfulEqOrd FrameKeyV1 := lawfulEqCmp_compareOn rank_injective

/-- Segments first, and the frames of one segment in their order. -/
theorem compare_eq_lt {key key' : FrameKeyV1} :
    compare key key' = .lt ↔ key.segmentSequence.toNat < key'.segmentSequence.toNat ∨
      key.segmentSequence.toNat = key'.segmentSequence.toNat ∧
        key.frameSequence.toNat < key'.frameSequence.toNat := by
  show List.compareLex compare key.rank key'.rank = .lt ↔ _
  simp only [rank, List.compareLex_cons_cons, List.compareLex_nil_nil, Ordering.then_eq_lt,
    Nat.compare_eq_lt, Nat.compare_eq_eq, reduceCtorEq, and_false, or_false]

end FrameKeyV1

namespace EventExpansionIndexEntryV1

def frameKey (entry : EventExpansionIndexEntryV1) : FrameKeyV1 :=
  ⟨entry.frameLocator.segmentSequence, entry.frameLocator.segmentFrameSequence⟩

/-- The bytes of the frame, from the first to behind the last. -/
def frameRange (entry : EventExpansionIndexEntryV1) : UInt64 × UInt64 :=
  (entry.frameLocator.frameOffset, entry.frameLocator.frameEnd)

end EventExpansionIndexEntryV1

/-- The first loop of `validate_canonical_entries`. -/
def assignFrames (catalog : SegmentCatalogV1) :
    Option EventId → ExtTreeMap FrameKeyV1 (UInt64 × UInt64) → List EventExpansionIndexEntryV1 →
      Except EventExpansionIndexErrorV1 (ExtTreeMap FrameKeyV1 (UInt64 × UInt64))
  | _, frames, [] => .ok frames
  | prior, frames, entry :: rest => do
      entry.validateAgainst catalog
      if prior = some entry.eventId then .error .duplicateEventId
      else if entry.frameKey ∈ frames then .error .duplicateFrameAssignment
      else
        assignFrames catalog (some entry.eventId)
          (frames.insert entry.frameKey entry.frameRange) rest

/-- The second loop: the frames that are left out between two frames of one
segment need room. -/
def checkGaps : Option (FrameKeyV1 × UInt64) → List (FrameKeyV1 × UInt64 × UInt64) →
    Except EventExpansionIndexErrorV1 Unit
  | _, [] => .ok ()
  | none, (key, _, frameEnd) :: rest => checkGaps (some (key, frameEnd)) rest
  | some (prior, priorEnd), (key, frameOffset, frameEnd) :: rest =>
      if prior.segmentSequence = key.segmentSequence then do
        let difference ← okOr .duplicateFrameAssignment
          (checkedSub key.frameSequence.toNat prior.frameSequence.toNat)
        let omittedFrames ← okOr .duplicateFrameAssignment (checkedSub difference 1)
        let minimumGap ← okOr .arithmeticOverflow (checkedMul omittedFrames minEncodedFrameBytesV1)
        let minimumOffset ← okOr .arithmeticOverflow (checkedAdd priorEnd.toNat minimumGap)
        if frameOffset.toNat < minimumOffset then .error .frameLocatorOverlap
        else checkGaps (some (key, frameEnd)) rest
      else checkGaps (some (key, frameEnd)) rest

def validateCanonicalEntries (catalog : SegmentCatalogV1)
    (entries : List EventExpansionIndexEntryV1) : Except EventExpansionIndexErrorV1 Unit := do
  let frames ← assignFrames catalog none ∅ entries
  checkGaps none frames.toList

/-- What the two passes leave of two frames of one segment. -/
def Apart (prior next : FrameKeyV1 × UInt64 × UInt64) : Prop :=
  prior.1.segmentSequence = next.1.segmentSequence →
    prior.2.2.toNat + (next.1.frameSequence.toNat - prior.1.frameSequence.toNat - 1) * 108 ≤
      next.2.1.toNat

/-- A frame that starts so far before its end. -/
def Wide (frame : FrameKeyV1 × UInt64 × UInt64) : Prop :=
  frame.2.1.toNat + 108 ≤ frame.2.2.toNat

theorem checkGaps_some_eq_ok {prior : FrameKeyV1 × UInt64 × UInt64}
    {frames : List (FrameKeyV1 × UInt64 × UInt64)}
    (h : checkGaps (some (prior.1, prior.2.2)) frames = .ok ()) :
    (prior :: frames).IsChain Apart := by
  induction frames generalizing prior with
  | nil => exact .singleton _
  | cons next rest ih =>
      rw [checkGaps] at h
      split at h
      · simp only [except_bind_eq_ok, okOr_eq_ok, ite_error_eq_ok, checkedAdd_eq_some,
          checkedMul_eq_some, checkedSub_eq_some, Nat.not_lt] at h
        obtain ⟨_, ⟨_, rfl⟩, _, ⟨_, rfl⟩, _, ⟨_, rfl⟩, _, ⟨_, rfl⟩, hgap, hrest⟩ := h
        exact .cons_cons (fun _ => hgap) (ih hrest)
      · rename_i hother
        exact .cons_cons (fun hsame => absurd hsame hother) (ih h)

theorem checkGaps_eq_ok {frames : List (FrameKeyV1 × UInt64 × UInt64)}
    (h : checkGaps none frames = .ok ()) : frames.IsChain Apart := by
  cases frames with
  | nil => exact .nil
  | cons frame rest => exact checkGaps_some_eq_ok h

/-- In the order of their keys all frames of a segment are apart, not only
neighbours. -/
theorem pairwise_apart {frames : List (FrameKeyV1 × UInt64 × UInt64)}
    (hchain : frames.IsChain Apart)
    (hsorted : frames.Pairwise fun a b => compare a.1 b.1 = .lt) (hwide : ∀ f ∈ frames, Wide f) :
    frames.Pairwise Apart := by
  let Before (a b : FrameKeyV1 × UInt64 × UInt64) : Prop :=
    compare a.1 b.1 = .lt ∧ Apart a b ∧ Wide b
  have htrans : IsTrans _ Before := by
    refine ⟨fun a b c ⟨hab, hapartAB, hwideB⟩ ⟨hbc, hapartBC, hwideC⟩ =>
      ⟨TransCmp.lt_trans hab hbc, fun hsame => ?_, hwideC⟩⟩
    have hfirst : a.1.segmentSequence = b.1.segmentSequence := by
      have hends := congrArg UInt64.toNat hsame
      rw [FrameKeyV1.compare_eq_lt] at hab hbc
      exact UInt64.toNat_inj.mp (by omega)
    have hsecond : b.1.segmentSequence = c.1.segmentSequence := hfirst.symm.trans hsame
    have hgapAB := hapartAB hfirst
    have hgapBC := hapartBC hsecond
    rw [FrameKeyV1.compare_eq_lt, hfirst] at hab
    rw [FrameKeyV1.compare_eq_lt, hsecond] at hbc
    unfold Wide at hwideB
    omega
  have hbefore : frames.IsChain Before := by
    have hpairs := hsorted.isChain
    induction frames with
    | nil => exact .nil
    | cons a rest ih =>
        cases rest with
        | nil => exact .singleton a
        | cons b rest =>
            rw [List.isChain_cons_cons] at hchain hpairs ⊢
            obtain ⟨_, hlater⟩ := List.forall_mem_cons.mp hwide
            exact ⟨⟨hpairs.1, hchain.1, hlater b (List.mem_cons_self ..)⟩,
              ih hchain.2 hsorted.of_cons hlater hpairs.2⟩
  exact (List.isChain_iff_pairwise.mp hbefore).imp fun hab => hab.2.1

/-- The first pass accepts entries that the catalog bears out, no two of them
neighbours of one event, and no two of one frame. -/
theorem assignFrames_eq_ok {catalog : SegmentCatalogV1} {entries : List EventExpansionIndexEntryV1}
    {prior : Option EventId} {frames assigned : ExtTreeMap FrameKeyV1 (UInt64 × UInt64)} :
    assignFrames catalog prior frames entries = .ok assigned ↔
      (∀ entry ∈ entries, entry.validateAgainst catalog = .ok ()) ∧
      (prior.toList ++ entries.map EventExpansionIndexEntryV1.eventId).IsChain (· ≠ ·) ∧
      (entries.map EventExpansionIndexEntryV1.frameKey).Nodup ∧
      (∀ entry ∈ entries, entry.frameKey ∉ frames) ∧
      assigned = entries.foldl (fun frames entry =>
        frames.insert entry.frameKey entry.frameRange) frames := by
  induction entries generalizing prior frames with
  | nil => cases prior <;> simp [assignFrames, eq_comm]
  | cons entry rest ih =>
      simp only [assignFrames, except_bind_eq_ok, ite_error_eq_ok, ih, List.forall_mem_cons,
        List.map_cons, isChain_toList_append, List.nodup_cons, List.foldl_cons, Option.toList_some,
        List.singleton_append]
      constructor
      · rintro ⟨_, hvalid, hfresh, hkey, hrest, hchain, hnodup, hothers, hassigned⟩
        refine ⟨⟨hvalid, hrest⟩, ⟨?_, hchain⟩, ⟨?_, hnodup⟩, ⟨hkey, ?_⟩, hassigned⟩
        · rintro p hp rfl
          exact hfresh hp
        · intro hmem
          obtain ⟨other, hother, heq⟩ := List.mem_map.mp hmem
          exact hothers other hother (mem_insert.mpr (.inl heq.symm))
        · exact fun other hother hmem => hothers other hother (mem_insert.mpr (.inr hmem))
      · rintro ⟨⟨hvalid, hrest⟩, ⟨hprior, hchain⟩, ⟨hnew, hnodup⟩, ⟨hkey, hothers⟩, hassigned⟩
        refine ⟨(), hvalid, fun hsame => hprior _ hsame rfl, hkey, hrest, hchain, hnodup, ?_,
          hassigned⟩
        intro other hother hmem
        rcases mem_insert.mp hmem with heq | hmem
        · exact hnew (heq ▸ List.mem_map_of_mem hother)
        · exact hothers other hother hmem

/-- The entries of the map that the first pass builds. -/
theorem getElem?_foldl_insert {entries : List EventExpansionIndexEntryV1}
    {frames : ExtTreeMap FrameKeyV1 (UInt64 × UInt64)}
    (hnodup : (entries.map EventExpansionIndexEntryV1.frameKey).Nodup)
    (hfresh : ∀ entry ∈ entries, entry.frameKey ∉ frames) {key : FrameKeyV1}
    {range : UInt64 × UInt64} :
    (entries.foldl (fun frames entry => frames.insert entry.frameKey entry.frameRange)
        frames)[key]? = some range ↔
      frames[key]? = some range ∨
        ∃ entry ∈ entries, entry.frameKey = key ∧ entry.frameRange = range := by
  induction entries generalizing frames with
  | nil => simp
  | cons entry rest ih =>
      obtain ⟨hnew, hnodup⟩ := List.nodup_cons.mp hnodup
      obtain ⟨hkey, hfresh⟩ := List.forall_mem_cons.mp hfresh
      rw [List.foldl_cons, ih hnodup, getElem?_insert]
      · by_cases hsame : entry.frameKey = key
        · have hnone : frames[key]? = none := ExtTreeMap.getElem?_eq_none (hsame ▸ hkey)
          simp [hsame, hnone]
        · simp [hsame]
      · intro other hother hmem
        rcases mem_insert.mp hmem with heq | hmem
        · exact hnew (heq ▸ List.mem_map_of_mem hother)
        · exact hfresh other hother hmem

/-- What the two passes accept. -/
structure CanonicalEntries (catalog : SegmentCatalogV1)
    (entries : List EventExpansionIndexEntryV1) : Prop where
  valid : ∀ entry ∈ entries, entry.validateAgainst catalog = .ok ()
  frames : (entries.map EventExpansionIndexEntryV1.frameKey).Nodup
  apart : ∀ prior ∈ entries, ∀ next ∈ entries,
    prior.frameKey.segmentSequence = next.frameKey.segmentSequence →
    prior.frameKey.frameSequence < next.frameKey.frameSequence →
      prior.frameLocator.frameEnd.toNat + (next.frameKey.frameSequence.toNat -
        prior.frameKey.frameSequence.toNat - 1) * 108 ≤ next.frameLocator.frameOffset.toNat

theorem validateCanonicalEntries_eq_ok {catalog : SegmentCatalogV1}
    {entries : List EventExpansionIndexEntryV1}
    (h : validateCanonicalEntries catalog entries = .ok ()) : CanonicalEntries catalog entries := by
  obtain ⟨assigned, hassigned, hgaps⟩ := except_bind_eq_ok.mp h
  obtain ⟨hvalid, _, hnodup, hfresh, rfl⟩ := assignFrames_eq_ok.mp hassigned
  have hmem : ∀ {key range}, (key, range) ∈ (entries.foldl (fun frames entry =>
      frames.insert entry.frameKey entry.frameRange)
        (∅ : ExtTreeMap FrameKeyV1 (UInt64 × UInt64))).toList ↔
      ∃ entry ∈ entries, entry.frameKey = key ∧ entry.frameRange = range := by
    intro key range
    rw [ExtTreeMap.mem_toList_iff_getElem?_eq_some, getElem?_foldl_insert hnodup hfresh]
    simp
  have hwide : ∀ f ∈ (entries.foldl (fun frames entry =>
      frames.insert entry.frameKey entry.frameRange)
        (∅ : ExtTreeMap FrameKeyV1 (UInt64 × UInt64))).toList, Wide f := by
    rintro ⟨key, range⟩ hin
    obtain ⟨entry, _, rfl, rfl⟩ := hmem.mp hin
    have hbounds := entry.frameLocator.bounds.1
    show entry.frameLocator.frameOffset.toNat + 108 ≤ entry.frameLocator.frameEnd.toNat
    rw [entry.frameLocator.toNat_frameEnd]
    omega
  have hpairwise := pairwise_apart (checkGaps_eq_ok hgaps) ExtTreeMap.ordered_keys_toList hwide
  refine ⟨hvalid, hnodup, fun prior hprior next hnext hsegment hframe => ?_⟩
  have hlt : compare prior.frameKey next.frameKey = .lt := FrameKeyV1.compare_eq_lt.mpr
    (.inr ⟨congrArg UInt64.toNat hsegment, UInt32.lt_iff_toNat_lt.mp hframe⟩)
  have happart : Apart (prior.frameKey, prior.frameRange) (next.frameKey, next.frameRange) :=
    rel_of_pairwise Prod.fst hpairwise ExtTreeMap.ordered_keys_toList
      (hmem.mpr ⟨prior, hprior, rfl, rfl⟩) (hmem.mpr ⟨next, hnext, rfl, rfl⟩) hlt
  exact happart hsegment

/-! ## The index -/

/-- `validate_declared_entry_count`. -/
def validateEntryCount (catalog : SegmentCatalogV1) (entryCount : Nat) :
    Except EventExpansionIndexErrorV1 Unit :=
  if entryCount > maxEventExpansionIndexEntriesV1 then .error .entryCountCap
  else if entryCount > catalog.totals.frameCount.toNat then .error .entryCountExceedsCatalogFrames
  else .ok ()

/-- The loop of `from_validated`. -/
def sumIndexedBytes : UInt64 × UInt64 → List EventExpansionIndexEntryV1 →
    Except EventExpansionIndexErrorV1 (UInt64 × UInt64)
  | totals, [] => .ok totals
  | (frameBytes, authorizedBytes), entry :: rest => do
      let frameBytes ← okOr .arithmeticOverflow
        (checkedAdd frameBytes.toNat entry.frameLocator.frameEncodedLength.toNat)
      let authorizedBytes ← okOr .arithmeticOverflow
        (checkedAdd authorizedBytes.toNat entry.authorizedBytes.length.toNat)
      sumIndexedBytes (.ofNat frameBytes, .ofNat authorizedBytes) rest

structure EventExpansionIndexV1 where
  entries : List EventExpansionIndexEntryV1
  catalogSegmentCount : UInt64
  catalogFrameCount : UInt64
  catalogChainRoot : FrameCommitmentV1
  catalogDigest : FixedBytes 32
  totalIndexedFrameBytes : UInt64
  totalAuthorizedBytes : UInt64
deriving DecidableEq

/-- The loop of `decode`: records in the order of their event ids. -/
def decodeEntries (catalog : SegmentCatalogV1) :
    Option EventId → List (List UInt8) →
      Except EventExpansionIndexErrorV1 (List EventExpansionIndexEntryV1)
  | _, [] => .ok []
  | prior, record :: rest => do
      let entry ← EventExpansionIndexEntryV1.decode catalog record
      if prior = some entry.eventId then .error .duplicateEventId
      else if ∃ p ∈ prior, compare entry.eventId p = .lt then .error .noncanonicalEventOrder
      else do
        let entries ← decodeEntries catalog (some entry.eventId) rest
        .ok (entry :: entries)

/-- Behind the two checks of the loop the event stands behind the prior one. -/
theorem inOrder_iff {prior : Option EventId} {eventId : EventId} :
    (¬prior = some eventId ∧ ¬∃ p ∈ prior, compare eventId p = .lt) ↔
      ∀ p ∈ prior, compare p eventId = .lt := by
  cases prior with
  | none => simp
  | some p =>
      simp only [Option.some.injEq, Option.mem_def, exists_eq_left', forall_eq']
      rw [OrientedOrd.eq_swap (a := eventId)]
      constructor
      · rintro ⟨hne, hnot⟩
        cases hcompare : compare p eventId with
        | lt => rfl
        | eq => exact absurd (LawfulEqOrd.eq_of_compare hcompare) hne
        | gt => exact absurd (by rw [hcompare]; rfl) hnot
      · intro hlt
        rw [hlt]
        refine ⟨?_, nofun⟩
        rintro rfl
        rw [ReflOrd.compare_self] at hlt
        cases hlt

theorem decodeEntries_eq_ok {catalog : SegmentCatalogV1} {records : List (List UInt8)}
    {prior : Option EventId} {entries : List EventExpansionIndexEntryV1} :
    decodeEntries catalog prior records = .ok entries ↔
      records.mapM (EventExpansionIndexEntryV1.decode catalog) = .ok entries ∧
        (prior.toList ++ entries.map EventExpansionIndexEntryV1.eventId).IsChain
          fun a b => compare a b = .lt := by
  induction records generalizing prior entries with
  | nil =>
      rw [decodeEntries, List.mapM_nil]
      constructor
      · intro h
        cases h
        exact ⟨rfl, by cases prior <;> simp⟩
      · exact And.left
  | cons record rest ih =>
      simp only [decodeEntries, except_bind_eq_ok, ite_error_eq_ok, ih, List.mapM_cons,
        Except.ok.injEq, pure, Except.pure]
      constructor
      · rintro ⟨entry, hentry, hnew, hbehind, others, ⟨hothers, hchain⟩, rfl⟩
        refine ⟨⟨entry, hentry, others, hothers, rfl⟩, ?_⟩
        rw [List.map_cons, isChain_toList_append]
        exact ⟨inOrder_iff.mp ⟨hnew, hbehind⟩, hchain⟩
      · rintro ⟨⟨entry, hentry, others, hothers, rfl⟩, hchain⟩
        rw [List.map_cons, isChain_toList_append] at hchain
        obtain ⟨hnew, hbehind⟩ := inOrder_iff.mpr hchain.1
        exact ⟨entry, hentry, hnew, hbehind, others, ⟨hothers, hchain.2⟩, rfl⟩

namespace EventExpansionIndexV1

def entryCount (index : EventExpansionIndexV1) : UInt64 := .ofNat index.entries.length

def header (index : EventExpansionIndexV1) : List (List UInt8) :=
  [asciiBytes "EVREIX01", u16Be 1, u16Be 1, u16Be 1, u16Be (.ofNat eventExpansionIndexEntryBytesV1),
    u16Be 0, zeros 6, u64Be index.entryCount, u64Be index.catalogSegmentCount,
    u64Be index.catalogFrameCount, u64Be index.totalIndexedFrameBytes,
    u64Be index.totalAuthorizedBytes, index.catalogChainRoot.asBytes, index.catalogDigest.asBytes,
    zeros 16]

def encode (index : EventExpansionIndexV1) : List UInt8 :=
  index.header.flatten ++ index.entries.flatMap EventExpansionIndexEntryV1.encode

section Plain

variable {entries : List EventExpansionIndexEntryV1} {catalog : SegmentCatalogV1}
  {index : EventExpansionIndexV1}

@[simp] theorem length_magic : (asciiBytes "EVREIX01").length = 8 := by decide

theorem length_header (index : EventExpansionIndexV1) : index.header.flatten.length = 144 := by
  simp [header]

theorem length_encode (index : EventExpansionIndexV1) :
    index.encode.length = 144 + index.entries.length * 160 := by
  rw [encode, List.length_append, length_header,
    length_flatMap_encode EventExpansionIndexEntryV1.length_encode]

theorem laid_header {bytes : List UInt8} (hlength : 144 ≤ bytes.length)
    (hsmall : index.entries.length ≤ 104856) :
    Laid bytes 0 index.header ↔
      slice bytes 0 8 = asciiBytes "EVREIX01" ∧ readU16 bytes 8 = 1 ∧ readU16 bytes 10 = 1 ∧
      readU16 bytes 12 = 1 ∧ (readU16 bytes 14).toNat = eventExpansionIndexEntryBytesV1 ∧
      readU16 bytes 16 = 0 ∧ allZero (slice bytes 18 6) = true ∧
      (readU64 bytes 24).toNat = index.entries.length ∧
      readU64 bytes 32 = index.catalogSegmentCount ∧ readU64 bytes 40 = index.catalogFrameCount ∧
      readU64 bytes 48 = index.totalIndexedFrameBytes ∧
      readU64 bytes 56 = index.totalAuthorizedBytes ∧ readArray bytes 64 = index.catalogChainRoot ∧
      readArray bytes 96 = index.catalogDigest ∧ allZero (slice bytes 128 16) = true := by
  have hcount : index.entryCount.toNat = index.entries.length := by
    rw [entryCount, UInt64.toNat_ofNat']
    omega
  have hwidth : (UInt16.ofNat eventExpansionIndexEntryBytesV1).toNat =
      eventExpansionIndexEntryBytesV1 := rfl
  simp only [header, Laid, length_magic, length_u16Be, length_u64Be, length_zeros,
    FixedBytes.length_asBytes, Nat.reduceAdd]
  rw [slice_eq_u16Be (by omega), slice_eq_u16Be (by omega), slice_eq_u16Be (by omega),
    slice_eq_u16Be (by omega), slice_eq_u16Be (by omega), slice_eq_zeros (by omega),
    slice_eq_u64Be (by omega), slice_eq_u64Be (by omega), slice_eq_u64Be (by omega),
    slice_eq_u64Be (by omega), slice_eq_u64Be (by omega), slice_eq_asBytes (by omega),
    slice_eq_asBytes (by omega), slice_eq_zeros (by omega), and_true,
    ← UInt16.toNat_inj (b := .ofNat _), hwidth, ← UInt64.toNat_inj (b := index.entryCount), hcount]

/-- The totals are the sums. -/
theorem sumIndexedBytes_eq_ok {totals sums : UInt64 × UInt64}
    (h : sumIndexedBytes totals entries = .ok sums) :
    sums.1.toNat = totals.1.toNat +
        (entries.map fun entry => entry.frameLocator.frameEncodedLength.toNat).sum ∧
      sums.2.toNat = totals.2.toNat +
        (entries.map fun entry => entry.authorizedBytes.length.toNat).sum := by
  induction entries generalizing totals with
  | nil =>
      cases h
      simp
  | cons entry rest ih =>
      simp only [sumIndexedBytes, except_bind_eq_ok, okOr_eq_ok, checkedAdd_eq_some] at h
      obtain ⟨_, ⟨hframe, rfl⟩, _, ⟨hauthorized, rfl⟩, h⟩ := h
      obtain ⟨hfirst, hsecond⟩ := ih h
      rw [UInt64.toNat_ofNat', Nat.mod_eq_of_lt hframe] at hfirst
      rw [UInt64.toNat_ofNat', Nat.mod_eq_of_lt hauthorized] at hsecond
      rw [hfirst, hsecond, List.map_cons, List.map_cons, List.sum_cons, List.sum_cons,
        Nat.add_assoc, Nat.add_assoc]
      exact ⟨rfl, rfl⟩

theorem isChain_compare_iff :
    (entries.map EventExpansionIndexEntryV1.eventId).IsChain (fun a b => compare a b = .lt) ↔
      StrictlySorted EventExpansionIndexEntryV1.eventId entries := by
  have htrans : IsTrans EventId fun a b => compare a b = .lt := ⟨fun _ _ _ => TransCmp.lt_trans⟩
  rw [List.isChain_iff_pairwise, List.pairwise_map, StrictlySorted]

/-- Entries in order of which no two neighbours are of one event. -/
theorem strictlySorted_of_validated (h : validateCanonicalEntries catalog
    (sortByKey EventExpansionIndexEntryV1.eventId entries) = .ok ()) :
    StrictlySorted EventExpansionIndexEntryV1.eventId
      (sortByKey EventExpansionIndexEntryV1.eventId entries) := by
  obtain ⟨_, hassigned, _⟩ := except_bind_eq_ok.mp h
  obtain ⟨_, hdistinct, _⟩ := assignFrames_eq_ok.mp hassigned
  have hsorted := (pairwise_sortByKey EventExpansionIndexEntryV1.eventId entries).isChain
  rw [Option.toList_none, List.nil_append, List.isChain_map, List.isChain_iff_getElem] at hdistinct
  rw [List.isChain_iff_getElem] at hsorted
  rw [← isChain_compare_iff, List.isChain_map, List.isChain_iff_getElem]
  intro i hi
  rcases Ordering.isLE_iff_eq_lt_or_eq_eq.mp (hsorted i hi) with hlt | heq
  · exact hlt
  · exact absurd (LawfulEqOrd.eq_of_compare heq) (hdistinct i hi)

end Plain

end EventExpansionIndexV1

section Sha

variable [Sha256]

/-- `derive_segment_catalog_digest_v1`. -/
def deriveSegmentCatalogDigest (catalog : SegmentCatalogV1) : FixedBytes 32 :=
  lifecycleDigest catalog.encode

namespace EventExpansionIndexV1

def fromValidated (catalog : SegmentCatalogV1) (entries : List EventExpansionIndexEntryV1) :
    Except EventExpansionIndexErrorV1 EventExpansionIndexV1 := do
  let (totalIndexedFrameBytes, totalAuthorizedBytes) ← sumIndexedBytes (0, 0) entries
  .ok {
    entries
    catalogSegmentCount := .ofNat catalog.entries.length
    catalogFrameCount := catalog.totals.frameCount
    catalogChainRoot := catalog.finalChainRoot
    catalogDigest := deriveSegmentCatalogDigest catalog
    totalIndexedFrameBytes, totalAuthorizedBytes }

def new (catalog : SegmentCatalogV1) (entries : List EventExpansionIndexEntryV1) :
    Except EventExpansionIndexErrorV1 EventExpansionIndexV1 := do
  validateEntryCount catalog entries.length
  let entries := sortByKey EventExpansionIndexEntryV1.eventId entries
  validateCanonicalEntries catalog entries
  fromValidated catalog entries

/-- The length that is expected cannot overflow behind the check of the count. -/
def decode (catalog : SegmentCatalogV1) (encoded : List UInt8) :
    Except EventExpansionIndexErrorV1 EventExpansionIndexV1 :=
  if encoded.length < eventExpansionIndexHeaderBytesV1 then .error .invalidEncodedLength
  else if slice encoded 0 8 ≠ asciiBytes "EVREIX01" then .error .invalidMagic
  else if readU16 encoded 8 ≠ 1 then .error .unsupportedVersion
  else if readU16 encoded 10 ≠ 1 then .error .unsupportedSchema
  else if readU16 encoded 12 ≠ 1 then .error .unsupportedIndexObjectKind
  else if (readU16 encoded 14).toNat ≠ eventExpansionIndexEntryBytesV1 then
    .error .invalidEntryWidth
  else if readU16 encoded 16 ≠ 0 then .error .nonzeroFlags
  else if allZero (slice encoded 18 6) = false ∨ allZero (slice encoded 128 16) = false then
    .error .nonzeroReserved
  else do
    let entryCount := (readU64 encoded 24).toNat
    validateEntryCount catalog entryCount
    let expectedLength :=
      eventExpansionIndexHeaderBytesV1 + entryCount * eventExpansionIndexEntryBytesV1
    if expectedLength > maxEncodedEventExpansionIndexBytesV1 ∨ encoded.length ≠ expectedLength then
      .error .invalidEncodedLength
    else if readU64 encoded 32 ≠ .ofNat catalog.entries.length then
      .error .catalogSegmentCountMismatch
    else if readU64 encoded 40 ≠ catalog.totals.frameCount then .error .catalogFrameCountMismatch
    else if readArray encoded 64 ≠ catalog.finalChainRoot then .error .catalogChainRootMismatch
    else if readArray encoded 96 ≠ deriveSegmentCatalogDigest catalog then
      .error .catalogDigestMismatch
    else do
      let entries ← decodeEntries catalog none (chunks eventExpansionIndexEntryBytesV1 entryCount
        (encoded.drop eventExpansionIndexHeaderBytesV1))
      validateCanonicalEntries catalog entries
      let index ← fromValidated catalog entries
      if readU64 encoded 48 ≠ index.totalIndexedFrameBytes then .error .totalFrameBytesMismatch
      else if readU64 encoded 56 ≠ index.totalAuthorizedBytes then
        .error .totalAuthorizedBytesMismatch
      else .ok index

/-- The indexes that are built against a catalog. -/
structure AcceptedBy (catalog : SegmentCatalogV1) (index : EventExpansionIndexV1) : Prop where
  count : validateEntryCount catalog index.entries.length = .ok ()
  sorted : StrictlySorted EventExpansionIndexEntryV1.eventId index.entries
  validated : validateCanonicalEntries catalog index.entries = .ok ()
  built : fromValidated catalog index.entries = .ok index

variable {catalog : SegmentCatalogV1} {entries : List EventExpansionIndexEntryV1}
  {index : EventExpansionIndexV1}

theorem fromValidated_eq_ok (h : fromValidated catalog entries = .ok index) :
    index.entries = entries ∧ index.catalogSegmentCount = .ofNat catalog.entries.length ∧
      index.catalogFrameCount = catalog.totals.frameCount ∧
      index.catalogChainRoot = catalog.finalChainRoot ∧
      index.catalogDigest = deriveSegmentCatalogDigest catalog := by
  obtain ⟨_, _, h⟩ := except_bind_eq_ok.mp h
  cases h
  exact ⟨rfl, rfl, rfl, rfl, rfl⟩

/-- The constructor sorts, and accepts what is sorted as it is. -/
theorem new_eq_ok : new catalog entries = .ok index ↔
    sortByKey EventExpansionIndexEntryV1.eventId entries = index.entries ∧
      AcceptedBy catalog index := by
  simp only [new, except_bind_eq_ok]
  constructor
  · rintro ⟨_, hcount, _, hvalidated, hbuilt⟩
    have hentries := (fromValidated_eq_ok hbuilt).1
    have hsorted := strictlySorted_of_validated hvalidated
    rw [← hentries] at hvalidated hbuilt hsorted
    refine ⟨hentries.symm, ?_, hsorted, hvalidated, hbuilt⟩
    rw [hentries, length_sortByKey]
    exact hcount
  · rintro ⟨hentries, hcount, _, hvalidated, hbuilt⟩
    rw [hentries]
    rw [← hentries, length_sortByKey] at hcount
    exact ⟨(), hcount, (), hvalidated, hbuilt⟩

theorem AcceptedBy.caps (h : AcceptedBy catalog index) :
    index.entries.length ≤ 104856 ∧ index.entries.length ≤ catalog.totals.frameCount.toNat := by
  have hcount := h.count
  simp only [validateEntryCount, ite_error_eq_ok, Nat.not_lt, gt_iff_lt, and_true] at hcount
  exact hcount

theorem canonical : Canonical encode (decode catalog) (AcceptedBy catalog) := by
  intro bytes index
  have hparts : ∀ {index : EventExpansionIndexV1}, bytes.length = 144 + index.entries.length * 160 →
      (index.encode = bytes ∧ (∀ entry ∈ index.entries, entry.validateAgainst catalog = .ok ()) ↔
        Laid bytes 0 index.header ∧ (chunks 160 index.entries.length (bytes.drop 144)).mapM
          (EventExpansionIndexEntryV1.decode catalog) = .ok index.entries) := by
    intro index hlength
    have hiff := @eq_header_records_iff _ _ _ _ _ _
      (EventExpansionIndexEntryV1.canonical catalog).on EventExpansionIndexEntryV1.length_encode
      _ _ _ (length_header index) _ hlength index.entries
    rw [← hiff, encode]
    tauto
  simp only [decode, ite_error_eq_ok, except_bind_eq_ok, not_not, not_or, Nat.not_lt, gt_iff_lt,
    Bool.not_eq_false, Except.ok.injEq, decodeEntries_eq_ok]
  constructor
  · rintro ⟨hlong, hmagic, hversion, hschema, hkind, hwidth, hflags, ⟨hone, htwo⟩, _, hcount,
      ⟨_, hlength⟩, hsegments, hframes, hroot, hdigest, entries, ⟨hrecords, hchain⟩, _, hvalidated,
      index, hbuilt, hframeBytes, hauthorized, rfl⟩
    obtain ⟨hentries, hsegmentCount, hframeCount, hchainRoot, hcatalogDigest⟩ :=
      fromValidated_eq_ok hbuilt
    have hentryCount := length_of_mapM_chunks hrecords
    rw [← hentries] at hrecords hchain hvalidated hbuilt hentryCount
    rw [← hentryCount] at hcount hlength hrecords
    have haccepted : AcceptedBy catalog index :=
      ⟨hcount, isChain_compare_iff.mp hchain, hvalidated, hbuilt⟩
    refine ⟨((hparts hlength).mpr ⟨?_, hrecords⟩).1, haccepted⟩
    rw [laid_header hlong haccepted.caps.1, hsegmentCount, hframeCount, hchainRoot, hcatalogDigest]
    exact ⟨hmagic, hversion, hschema, hkind, hwidth, hflags, hone, hentryCount.symm, hsegments,
      hframes, hframeBytes, hauthorized, hroot, hdigest, htwo⟩
  · rintro ⟨hencode, haccepted⟩
    have hlength := length_encode index
    rw [hencode] at hlength
    obtain ⟨hlaid, hrecords⟩ := (hparts hlength).mp
      ⟨hencode, (validateCanonicalEntries_eq_ok haccepted.validated).valid⟩
    have hlong : 144 ≤ bytes.length := by omega
    obtain ⟨hmagic, hversion, hschema, hkind, hwidth, hflags, hone, hentryCount, hsegments, hframes,
      hframeBytes, hauthorized, hroot, hdigest, htwo⟩ :=
        (laid_header hlong haccepted.caps.1).mp hlaid
    obtain ⟨_, hsegmentCount, hframeCount, hchainRoot, hcatalogDigest⟩ :=
      fromValidated_eq_ok haccepted.built
    have hcap := haccepted.caps.1
    rw [hentryCount]
    refine ⟨hlong, hmagic, hversion, hschema, hkind, hwidth, hflags, ⟨hone, htwo⟩, (),
      haccepted.count, ⟨?_, hlength⟩, hsegments.trans hsegmentCount, hframes.trans hframeCount,
      hroot.trans hchainRoot, hdigest.trans hcatalogDigest, index.entries,
      ⟨hrecords, isChain_compare_iff.mpr haccepted.sorted⟩, (), haccepted.validated, index,
      haccepted.built, hframeBytes, hauthorized, rfl⟩
    simp only [eventExpansionIndexHeaderBytesV1, eventExpansionIndexEntryBytesV1,
      maxEncodedEventExpansionIndexBytesV1, maxEventExpansionIndexEntriesV1,
      maxManifestPlaintextBytesV1]
    omega

/-! ## The locators are safe -/

/-- What was constructed or decoded against the catalog. -/
def Accepted (catalog : SegmentCatalogV1) (index : EventExpansionIndexV1) : Prop :=
  (∃ entries, new catalog entries = .ok index) ∨ ∃ bytes, decode catalog bytes = .ok index

theorem Accepted.acceptedBy (h : Accepted catalog index) : AcceptedBy catalog index := by
  rcases h with ⟨_, hnew⟩ | ⟨_, hdecode⟩
  · exact (new_eq_ok.mp hnew).2
  · exact ((canonical _ _).mp hdecode).2

/-- Every locator of an accepted index lies in its segment behind the header, two
of one segment are apart and in the order of their frames, with room for the
frames between them, and no sum on the way wraps. -/
theorem locators_safe (h : Accepted catalog index) :
    (∀ entry ∈ index.entries, ∃ segment,
      catalog.entries[entry.frameLocator.segmentSequence.toNat]? = some segment ∧
      LocatedIn segment entry.frameLocator ∧
      segmentHeaderBytesV1 ≤ entry.frameLocator.frameOffset.toNat ∧
      entry.frameLocator.frameOffset.toNat + entry.frameLocator.frameEncodedLength.toNat ≤
        segment.encodedByteCount.toNat) ∧
    (∀ prior ∈ index.entries, ∀ next ∈ index.entries, prior ≠ next →
      prior.frameLocator.segmentSequence = next.frameLocator.segmentSequence →
        prior.frameLocator.segmentFrameSequence ≠ next.frameLocator.segmentFrameSequence) ∧
    (∀ prior ∈ index.entries, ∀ next ∈ index.entries,
      prior.frameLocator.segmentSequence = next.frameLocator.segmentSequence →
      prior.frameLocator.segmentFrameSequence < next.frameLocator.segmentFrameSequence →
        prior.frameLocator.frameOffset.toNat + prior.frameLocator.frameEncodedLength.toNat +
          (next.frameLocator.segmentFrameSequence.toNat -
            prior.frameLocator.segmentFrameSequence.toNat - 1) * minEncodedFrameBytesV1 ≤
          next.frameLocator.frameOffset.toNat) ∧
    index.totalIndexedFrameBytes.toNat =
      (index.entries.map fun entry => entry.frameLocator.frameEncodedLength.toNat).sum ∧
    index.totalAuthorizedBytes.toNat =
      (index.entries.map fun entry => entry.authorizedBytes.length.toNat).sum := by
  have haccepted := h.acceptedBy
  have hentries := validateCanonicalEntries_eq_ok haccepted.validated
  refine ⟨fun entry hentry => ?_, fun prior hprior next hnext hne hsegment hframe => ?_,
    fun prior hprior next hnext hsegment hframe => ?_, ?_⟩
  · obtain ⟨segment, hsegment, hlocated, _⟩ :=
      EventExpansionIndexEntryV1.validateAgainst_eq_ok (hentries.valid entry hentry)
    have hpreceding := hlocated.preceding
    have hfollowing := hlocated.following
    rw [hlocated.frameSum] at hfollowing
    exact ⟨segment, hsegment, hlocated, by unfold segmentHeaderBytesV1; omega, by omega⟩
  · have hkey : prior.frameKey = next.frameKey := by
      rw [EventExpansionIndexEntryV1.frameKey, EventExpansionIndexEntryV1.frameKey, hsegment,
        hframe]
    exact hne (List.inj_on_of_nodup_map hentries.frames hprior hnext hkey)
  · have happart := hentries.apart prior hprior next hnext hsegment hframe
    rw [prior.frameLocator.toNat_frameEnd] at happart
    exact happart
  · obtain ⟨⟨frameBytes, authorizedBytes⟩, hsums, hindex⟩ :=
      except_bind_eq_ok.mp haccepted.built
    obtain ⟨hfirst, hsecond⟩ := sumIndexedBytes_eq_ok hsums
    have hframeBytes := congrArg totalIndexedFrameBytes (Except.ok.inj hindex)
    have hauthorized := congrArg totalAuthorizedBytes (Except.ok.inj hindex)
    dsimp only at hframeBytes hauthorized
    rw [← hframeBytes, ← hauthorized]
    exact ⟨by simpa using hfirst, by simpa using hsecond⟩

end EventExpansionIndexV1

end Sha

namespace EventExpansionIndexV1

/-- A catalog of one segment with two frames. -/
def sampleCatalog : SegmentCatalogV1 where
  entries := [{
    segmentSequence := 0, firstGlobalFrameSequence := 0, frameCount := 2, encodedByteCount := 366
    ciphertextByteCount := 62, segmentDigest := .repeated 1, finalFrameCommitment := .repeated 2
    checked := by decide }]
  totals := ⟨2, 366, 62⟩
  finalChainRoot := .repeated 2
  reconciled := rfl

def sampleEntry (seed : UInt8) (frame : UInt32) (frameOffset : UInt64) (frameEncodedLength : UInt32)
    (checked : checkFrameRange frameOffset frameEncodedLength = .ok ()) :
    EventExpansionIndexEntryV1 where
  eventId := .ofBytes (List.replicate 32 seed)
  frameLocator := {
    segmentSequence := 0, globalFrameSequence := frame.toUInt64, segmentFrameSequence := frame
    frameOffset, frameEncodedLength, checked }
  authorizedBytes := ⟨0, 10, by decide⟩
  exactnessBasis := .sourceExact

def sampleEntries : List EventExpansionIndexEntryV1 :=
  [sampleEntry 9 0 120 118 (by decide), sampleEntry 4 1 238 128 (by decide)]

theorem locators_safe_two_frames :
    letI := fips180
    ∃ index, new sampleCatalog sampleEntries = .ok index ∧ index.entries.length = 2 ∧
      ∀ entry ∈ index.entries, ∃ segment,
        sampleCatalog.entries[entry.frameLocator.segmentSequence.toNat]? = some segment ∧
        entry.frameLocator.frameOffset.toNat + entry.frameLocator.frameEncodedLength.toNat ≤
          segment.encodedByteCount.toNat := by
  rw [fips180_eq]
  let := fips180Evaluated
  have hnew : ∃ index, new sampleCatalog sampleEntries = .ok index ∧ index.entries.length = 2 := by
    have hok : ((new sampleCatalog sampleEntries).toOption.map fun index =>
        index.entries.length) = some 2 := by
      decide
    obtain ⟨index, hindex, hcount⟩ := Option.map_eq_some_iff.mp hok
    exact ⟨index, toOption_eq_some.mp hindex, hcount⟩
  obtain ⟨index, hindex, hcount⟩ := hnew
  refine ⟨index, hindex, hcount, fun entry hentry => ?_⟩
  obtain ⟨segment, hsegment, _, _, hend⟩ :=
    (locators_safe (.inl ⟨_, hindex⟩)).1 entry hentry
  exact ⟨segment, hsegment, hend⟩

end EventExpansionIndexV1

end Snapshot

end Evidentrail
