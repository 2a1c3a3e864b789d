import Evidentrail.Snapshot.Catalog
import Evidentrail.Snapshot.EventIndexV2

/-!
# Entries of the event expansion index

The first format of the event index names, for each event, a frame of a segment
in the catalog and a range of bytes in the plaintext of that frame. An entry is
checked against the catalog whenever one is built (`validateAgainst_eq_ok`). The
sums that the source leaves unchecked wrap here as they would there.
-/

namespace Evidentrail

open Rust Std Encoding Bytes Slice

namespace Snapshot

inductive EventExpansionIndexErrorV1 where
  | invalidEncodedLength
  | invalidMagic
  | unsupportedVersion
  | unsupportedSchema
  | unsupportedIndexObjectKind
  | invalidEntryWidth
  | nonzeroFlags
  | nonzeroReserved
  | entryCountCap
  | entryCountExceedsCatalogFrames
  | duplicateEventId
  | noncanonicalEventOrder
  | duplicateFrameAssignment
  | unknownSegment
  | segmentFrameSequenceOutOfRange
  | frameSequenceMismatch
  | invalidFrameEncodedLength
  | frameEncodedLengthCap
  | frameRangeOverflow
  | frameOutsideSegment
  | frameLocatorOverlap
  | authorizedByteRangeOverflow
  | authorizedBytesOutsideFrame
  | unsupportedFrameObjectKind
  | unsupportedExactnessKind
  | noncanonicalSourceExactFields
  | catalogSegmentCountMismatch
  | catalogFrameCountMismatch
  | catalogChainRootMismatch
  | catalogDigestMismatch
  | totalFrameBytesMismatch
  | totalAuthorizedBytesMismatch
  | arithmeticOverflow
deriving DecidableEq

def minEncodedFrameBytesV1 : Nat := frameHeaderBytesV1 + frameTagBytesV1
def eventExpansionIndexHeaderBytesV1 : Nat := 144
def eventExpansionIndexEntryBytesV1 : Nat := 160

def maxEventExpansionIndexEntriesV1 : Nat :=
  (maxManifestPlaintextBytesV1 - eventExpansionIndexHeaderBytesV1) / eventExpansionIndexEntryBytesV1

def maxEncodedEventExpansionIndexBytesV1 : Nat :=
  eventExpansionIndexHeaderBytesV1 +
    maxEventExpansionIndexEntriesV1 * eventExpansionIndexEntryBytesV1

/-- `FrameObjectKindV1::AuthorizedOutcome.code()`. -/
def authorizedOutcomeCode : UInt16 := 1

/-! ## Locators -/

/-- The checks of `EventFrameLocatorV1::new`. -/
def checkFrameRange (frameOffset : UInt64) (frameEncodedLength : UInt32) :
    Except EventExpansionIndexErrorV1 Unit :=
  if frameEncodedLength.toNat < minEncodedFrameBytesV1 then .error .invalidFrameEncodedLength
  else if frameEncodedLength.toNat > maxEncodedFrameBytesV1 then .error .frameEncodedLengthCap
  else if checkedAdd frameOffset.toNat frameEncodedLength.toNat = none then
    .error .frameRangeOverflow
  else .ok ()

structure EventFrameLocatorV1 where
  segmentSequence : UInt64
  globalFrameSequence : UInt64
  segmentFrameSequence : UInt32
  frameOffset : UInt64
  frameEncodedLength : UInt32
  checked : checkFrameRange frameOffset frameEncodedLength = .ok ()
deriving DecidableEq

namespace EventFrameLocatorV1

def new (segmentSequence globalFrameSequence : UInt64) (segmentFrameSequence : UInt32)
    (frameOffset : UInt64) (frameEncodedLength : UInt32) :
    Except EventExpansionIndexErrorV1 EventFrameLocatorV1 :=
  ofChecked (checkFrameRange frameOffset frameEncodedLength) fun _ checked =>
    { segmentSequence, globalFrameSequence, segmentFrameSequence, frameOffset
      frameEncodedLength, checked }

theorem new_eq_ok {segmentSequence globalFrameSequence frameOffset : UInt64}
    {segmentFrameSequence frameEncodedLength : UInt32} {locator : EventFrameLocatorV1} :
    new segmentSequence globalFrameSequence segmentFrameSequence frameOffset
        frameEncodedLength = .ok locator ↔
      segmentSequence = locator.segmentSequence ∧
        globalFrameSequence = locator.globalFrameSequence ∧
        segmentFrameSequence = locator.segmentFrameSequence ∧
        frameOffset = locator.frameOffset ∧ frameEncodedLength = locator.frameEncodedLength := by
  rw [new, ofChecked_eq_ok]
  constructor
  · rintro ⟨_, _, rfl⟩
    exact ⟨rfl, rfl, rfl, rfl, rfl⟩
  · rintro ⟨rfl, rfl, rfl, rfl, rfl⟩
    exact ⟨(), locator.checked, rfl⟩

/-- `frame_end`, a sum without a check. -/
def frameEnd (locator : EventFrameLocatorV1) : UInt64 :=
  locator.frameOffset + locator.frameEncodedLength.toUInt64

/-- The bounds that `new` leaves. -/
theorem bounds (locator : EventFrameLocatorV1) :
    108 ≤ locator.frameEncodedLength.toNat ∧ locator.frameEncodedLength.toNat ≤ 8388716 ∧
      locator.frameOffset.toNat + locator.frameEncodedLength.toNat < u64Bound := by
  have h := locator.checked
  simp only [checkFrameRange, ite_error_eq_ok, and_true] at h
  obtain ⟨hmin, hmax, hsum⟩ := h
  simp only [minEncodedFrameBytesV1, maxEncodedFrameBytesV1, frameHeaderBytesV1, frameTagBytesV1,
    maxFrameCiphertextBytesV1, maxFramePlaintextBytesV1] at hmin hmax
  refine ⟨by omega, by omega, ?_⟩
  by_contra hover
  exact hsum (if_neg hover)

/-- The sum does not wrap. -/
theorem toNat_frameEnd (locator : EventFrameLocatorV1) :
    locator.frameEnd.toNat = locator.frameOffset.toNat + locator.frameEncodedLength.toNat := by
  have hsum := locator.bounds.2.2
  rw [frameEnd, UInt64.toNat_add, UInt32.toNat_toUInt64]
  exact Nat.mod_eq_of_lt hsum

end EventFrameLocatorV1

/-- The check of `AuthorizedByteRangeV1::new`, in `u32`. -/
def checkAuthorizedRange (offset length : UInt32) : Except EventExpansionIndexErrorV1 Unit :=
  if offset.toNat + length.toNat ≥ 2 ^ 32 then .error .authorizedByteRangeOverflow else .ok ()

structure AuthorizedByteRangeV1 where
  offset : UInt32
  length : UInt32
  checked : checkAuthorizedRange offset length = .ok ()
deriving DecidableEq

namespace AuthorizedByteRangeV1

def new (offset length : UInt32) : Except EventExpansionIndexErrorV1 AuthorizedByteRangeV1 :=
  ofChecked (checkAuthorizedRange offset length) fun _ checked => { offset, length, checked }

theorem new_eq_ok {offset length : UInt32} {range : AuthorizedByteRangeV1} :
    new offset length = .ok range ↔ offset = range.offset ∧ length = range.length := by
  rw [new, ofChecked_eq_ok]
  constructor
  · rintro ⟨_, _, rfl⟩
    exact ⟨rfl, rfl⟩
  · rintro ⟨rfl, rfl⟩
    exact ⟨(), range.checked, rfl⟩

/-- `end_exclusive`, a sum of two `u32` in `u64`. -/
def endExclusive (range : AuthorizedByteRangeV1) : UInt64 :=
  range.offset.toUInt64 + range.length.toUInt64

theorem toNat_endExclusive (range : AuthorizedByteRangeV1) :
    range.endExclusive.toNat = range.offset.toNat + range.length.toNat := by
  have hoffset := range.offset.toNat_lt
  have hlength := range.length.toNat_lt
  rw [endExclusive, UInt64.toNat_add, UInt32.toNat_toUInt64, UInt32.toNat_toUInt64]
  exact Nat.mod_eq_of_lt (by omega)

end AuthorizedByteRangeV1

/-! ## Entries -/

structure EventExpansionIndexEntryV1 where
  eventId : EventId
  frameLocator : EventFrameLocatorV1
  authorizedBytes : AuthorizedByteRangeV1
  exactnessBasis : ExactnessBasis
deriving DecidableEq

/-- The match on the code of the basis. -/
def readExpansionExactness (code : UInt16) (policy receipt : List UInt8) :
    Except EventExpansionIndexErrorV1 ExactnessBasis :=
  if code = 1 then
    if allZero policy = false ∨ allZero receipt = false then .error .noncanonicalSourceExactFields
    else .ok .sourceExact
  else if code = 2 then .ok (.postPolicy (.ofBytes policy) (.ofBytes receipt))
  else .error .unsupportedExactnessKind

theorem readExpansionExactness_eq_ok {code : UInt16} {policy receipt : List UInt8}
    {basis : ExactnessBasis} (hpolicy : policy.length = 32) (hreceipt : receipt.length = 32) :
    readExpansionExactness code policy receipt = .ok basis ↔
      code = basis.kindCode ∧ policy = basis.policyBytes ∧ receipt = basis.receiptBytes := by
  unfold readExpansionExactness
  constructor
  · intro h
    split at h
    · rename_i hcode
      simp only [ite_error_eq_ok, not_or, Bool.not_eq_false, Except.ok.injEq, allZero_iff, hpolicy,
        hreceipt] at h
      obtain ⟨⟨hp, hr⟩, rfl⟩ := h
      exact ⟨hcode, hp, hr⟩
    · split at h
      · rename_i hcode
        cases h
        exact ⟨hcode, (HashId.asBytes_ofBytes hpolicy).symm, (HashId.asBytes_ofBytes hreceipt).symm⟩
      · cases h
  · rintro ⟨rfl, rfl, rfl⟩
    cases basis with
    | sourceExact =>
        simp [ExactnessBasis.kindCode, ExactnessBasis.policyBytes, ExactnessBasis.receiptBytes]
    | postPolicy policyDigest receiptId =>
        simp [ExactnessBasis.kindCode, ExactnessBasis.policyBytes, ExactnessBasis.receiptBytes]

namespace EventExpansionIndexEntryV1

/-- `validate_against`: the frame has room in its segment, and the authorized
bytes in the frame. -/
def validateAgainst (catalog : SegmentCatalogV1) (entry : EventExpansionIndexEntryV1) :
    Except EventExpansionIndexErrorV1 Unit := do
  let locator := entry.frameLocator
  let segment ← okOr .unknownSegment catalog.entries[locator.segmentSequence.toNat]?
  if segment.segmentSequence ≠ locator.segmentSequence then .error .unknownSegment
  else if locator.segmentFrameSequence ≥ segment.frameCount then
    .error .segmentFrameSequenceOutOfRange
  else do
    let expectedGlobalSequence ← okOr .arithmeticOverflow
      (checkedAdd segment.firstGlobalFrameSequence.toNat locator.segmentFrameSequence.toNat)
    if locator.globalFrameSequence.toNat ≠ expectedGlobalSequence then
      .error .frameSequenceMismatch
    else do
      let preceding ← okOr .arithmeticOverflow
        (checkedMul locator.segmentFrameSequence.toNat minEncodedFrameBytesV1)
      let precedingMinimum ← okOr .arithmeticOverflow (checkedAdd preceding segmentHeaderBytesV1)
      if locator.frameOffset.toNat < precedingMinimum then .error .frameOutsideSegment
      else do
        let following ← okOr .arithmeticOverflow
          (checkedSub segment.frameCount.toNat locator.segmentFrameSequence.toNat)
        let remainingFrames ← okOr .arithmeticOverflow (checkedSub following 1)
        let remainingMinimum ← okOr .arithmeticOverflow
          (checkedMul remainingFrames minEncodedFrameBytesV1)
        let maximumFrameEnd ← okOr .frameOutsideSegment
          (checkedSub segment.encodedByteCount.toNat remainingMinimum)
        if locator.frameEnd.toNat > maximumFrameEnd then .error .frameOutsideSegment
        else do
          let frameCiphertextBytes ← okOr .invalidFrameEncodedLength
            (checkedSub locator.frameEncodedLength.toNat frameHeaderBytesV1)
          let otherFrameCount := (segment.frameCount - 1).toNat
          let minimumOtherCiphertext ← okOr .arithmeticOverflow
            (checkedMul otherFrameCount frameTagBytesV1)
          let minimumSegmentCiphertext ← okOr .arithmeticOverflow
            (checkedAdd frameCiphertextBytes minimumOtherCiphertext)
          if minimumSegmentCiphertext > segment.ciphertextByteCount.toNat then
            .error .frameOutsideSegment
          else do
            let framePlaintextLength ← okOr .invalidFrameEncodedLength
              (checkedSub frameCiphertextBytes frameTagBytesV1)
            if entry.authorizedBytes.endExclusive.toNat > framePlaintextLength then
              .error .authorizedBytesOutsideFrame
            else .ok ()

def new (catalog : SegmentCatalogV1) (eventId : EventId) (frameLocator : EventFrameLocatorV1)
    (authorizedBytes : AuthorizedByteRangeV1) (exactnessBasis : ExactnessBasis) :
    Except EventExpansionIndexErrorV1 EventExpansionIndexEntryV1 := do
  let entry : EventExpansionIndexEntryV1 :=
    { eventId, frameLocator, authorizedBytes, exactnessBasis }
  entry.validateAgainst catalog
  .ok entry

def fields (entry : EventExpansionIndexEntryV1) : List (List UInt8) :=
  [entry.eventId.asBytes, u64Be entry.frameLocator.segmentSequence,
    u64Be entry.frameLocator.globalFrameSequence, u32Be entry.frameLocator.segmentFrameSequence,
    u16Be authorizedOutcomeCode, u16Be entry.exactnessBasis.kindCode,
    u64Be entry.frameLocator.frameOffset, u32Be entry.frameLocator.frameEncodedLength,
    u32Be entry.authorizedBytes.offset, u32Be entry.authorizedBytes.length, zeros 4,
    entry.exactnessBasis.policyBytes, entry.exactnessBasis.receiptBytes, zeros 16]

def encode (entry : EventExpansionIndexEntryV1) : List UInt8 := entry.fields.flatten

def decode (catalog : SegmentCatalogV1) (encoded : List UInt8) :
    Except EventExpansionIndexErrorV1 EventExpansionIndexEntryV1 :=
  if encoded.length ≠ eventExpansionIndexEntryBytesV1 then .error .invalidEncodedLength
  else if allZero (slice encoded 76 4) = false ∨ allZero (slice encoded 144 16) = false then
    .error .nonzeroReserved
  else if readU16 encoded 52 ≠ authorizedOutcomeCode then .error .unsupportedFrameObjectKind
  else do
    let exactnessBasis ← readExpansionExactness (readU16 encoded 54) (slice encoded 80 32)
      (slice encoded 112 32)
    let frameLocator ← EventFrameLocatorV1.new (readU64 encoded 32) (readU64 encoded 40)
      (readU32 encoded 48) (readU64 encoded 56) (readU32 encoded 64)
    let authorizedBytes ← AuthorizedByteRangeV1.new (readU32 encoded 68) (readU32 encoded 72)
    new catalog (readId encoded 0) frameLocator authorizedBytes exactnessBasis

theorem new_eq_ok {catalog : SegmentCatalogV1} {eventId : EventId}
    {frameLocator : EventFrameLocatorV1} {authorizedBytes : AuthorizedByteRangeV1}
    {exactnessBasis : ExactnessBasis} {entry : EventExpansionIndexEntryV1} :
    new catalog eventId frameLocator authorizedBytes exactnessBasis = .ok entry ↔
      (eventId = entry.eventId ∧ frameLocator = entry.frameLocator ∧
        authorizedBytes = entry.authorizedBytes ∧ exactnessBasis = entry.exactnessBasis) ∧
        entry.validateAgainst catalog = .ok () := by
  simp only [new, except_bind_eq_ok, Except.ok.injEq]
  constructor
  · rintro ⟨_, hvalid, rfl⟩
    exact ⟨⟨rfl, rfl, rfl, rfl⟩, hvalid⟩
  · rintro ⟨⟨rfl, rfl, rfl, rfl⟩, hvalid⟩
    exact ⟨(), hvalid, rfl⟩

@[simp] theorem length_encode (entry : EventExpansionIndexEntryV1) :
    entry.encode.length = 160 := by
  simp [encode, fields]

theorem canonical (catalog : SegmentCatalogV1) :
    Canonical encode (decode catalog) fun entry => entry.validateAgainst catalog = .ok () := by
  intro bytes entry
  by_cases hlength : bytes.length = 160
  · rw [encode, eq_flatten_iff (length_encode entry) hlength]
    simp only [fields, Laid, HashId.length_asBytes, length_u16Be, length_u32Be, length_u64Be,
      length_zeros, ExactnessBasis.length_policyBytes, ExactnessBasis.length_receiptBytes,
      Nat.reduceAdd]
    rw [slice_eq_idBytes (by omega), slice_eq_u64Be (by omega), slice_eq_u64Be (by omega),
      slice_eq_u32Be (by omega), slice_eq_u16Be (by omega), slice_eq_u16Be (by omega),
      slice_eq_u64Be (by omega), slice_eq_u32Be (by omega), slice_eq_u32Be (by omega),
      slice_eq_u32Be (by omega), slice_eq_zeros (by omega), slice_eq_zeros (by omega)]
    have hpolicyLength : (slice bytes 80 32).length = 32 := length_slice (by omega)
    have hreceiptLength : (slice bytes 112 32).length = 32 := length_slice (by omega)
    simp only [decode, ite_error_eq_ok, except_bind_eq_ok,
      readExpansionExactness_eq_ok hpolicyLength hreceiptLength, EventFrameLocatorV1.new_eq_ok,
      AuthorizedByteRangeV1.new_eq_ok, new_eq_ok]
    simp only [not_or, Bool.not_eq_false, not_not, hlength, eventExpansionIndexEntryBytesV1,
      true_and, and_true]
    constructor
    · rintro ⟨⟨hone, htwo⟩, hkind, _, ⟨hcode, hpolicy, hreceipt⟩, _, ⟨h1, h2, h3, h4, h5⟩, _,
        ⟨h6, h7⟩, ⟨hid, rfl, rfl, rfl⟩, hvalid⟩
      exact ⟨⟨hid, h1, h2, h3, hkind, hcode, h4, h5, h6, h7, hone, hpolicy, hreceipt, htwo⟩, hvalid⟩
    · rintro ⟨⟨hid, h1, h2, h3, hkind, hcode, h4, h5, h6, h7, hone, hpolicy, hreceipt, htwo⟩,
        hvalid⟩
      exact ⟨⟨hone, htwo⟩, hkind, _, ⟨hcode, hpolicy, hreceipt⟩, _, ⟨h1, h2, h3, h4, h5⟩, _,
        ⟨h6, h7⟩, ⟨hid, rfl, rfl, rfl⟩, hvalid⟩
  · constructor
    · intro h
      simp only [decode, ite_error_eq_ok, not_not] at h
      exact absurd h.1 hlength
    · rintro ⟨rfl, _⟩
      exact absurd (length_encode entry) hlength

end EventExpansionIndexEntryV1

/-! ## What a located frame leaves -/

/-- The arithmetic of `validate_against`: none of its sums and products is out of
range, and the frame lies between the header and the end of the segment, with
room for the frames before and behind it. -/
structure LocatedIn (segment : SegmentCatalogEntryV1) (locator : EventFrameLocatorV1) : Prop where
  sequence : segment.segmentSequence = locator.segmentSequence
  ordinal : locator.segmentFrameSequence.toNat < segment.frameCount.toNat
  globalSum : segment.firstGlobalFrameSequence.toNat + locator.segmentFrameSequence.toNat < u64Bound
  global : locator.globalFrameSequence.toNat =
    segment.firstGlobalFrameSequence.toNat + locator.segmentFrameSequence.toNat
  precedingSum : locator.segmentFrameSequence.toNat * 108 + 120 < u64Bound
  preceding : locator.segmentFrameSequence.toNat * 108 + 120 ≤ locator.frameOffset.toNat
  frameSum : locator.frameEnd.toNat =
    locator.frameOffset.toNat + locator.frameEncodedLength.toNat
  otherFrames : (segment.frameCount - 1).toNat = segment.frameCount.toNat - 1
  followingProduct :
    (segment.frameCount.toNat - locator.segmentFrameSequence.toNat - 1) * 108 < u64Bound
  following : locator.frameEnd.toNat +
    (segment.frameCount.toNat - locator.segmentFrameSequence.toNat - 1) * 108 ≤
      segment.encodedByteCount.toNat
  ciphertextSum : locator.frameEncodedLength.toNat - 92 +
    (segment.frameCount.toNat - 1) * 16 < u64Bound
  ciphertext : locator.frameEncodedLength.toNat - 92 + (segment.frameCount.toNat - 1) * 16 ≤
    segment.ciphertextByteCount.toNat

namespace EventExpansionIndexEntryV1

theorem validateAgainst_eq_ok {catalog : SegmentCatalogV1} {entry : EventExpansionIndexEntryV1}
    (h : entry.validateAgainst catalog = .ok ()) :
    ∃ segment, catalog.entries[entry.frameLocator.segmentSequence.toNat]? = some segment ∧
      LocatedIn segment entry.frameLocator ∧
      entry.authorizedBytes.offset.toNat + entry.authorizedBytes.length.toNat + 108 ≤
        entry.frameLocator.frameEncodedLength.toNat := by
  obtain ⟨hmin, _, _⟩ := entry.frameLocator.bounds
  have hend := entry.frameLocator.toNat_frameEnd
  have hrange := entry.authorizedBytes.toNat_endExclusive
  simp only [validateAgainst, except_bind_eq_ok, okOr_eq_ok, ite_error_eq_ok, not_not, ge_iff_le,
    UInt32.not_le, Nat.not_lt, gt_iff_lt, checkedAdd_eq_some, checkedMul_eq_some,
    checkedSub_eq_some, and_true] at h
  obtain ⟨segment, hsegment, hsequence, hordinal, _, ⟨hglobalSum, rfl⟩, hglobal, _,
    ⟨hproduct, rfl⟩, _, ⟨hprecedingSum, rfl⟩, hpreceding, _, ⟨hle, rfl⟩, _, ⟨hone, rfl⟩, _,
    ⟨hfollowing, rfl⟩, _, ⟨hroom, rfl⟩, hframe, _, ⟨hheader, rfl⟩, _, ⟨hother, rfl⟩, _,
    ⟨hciphertextSum, rfl⟩, hciphertext, _, ⟨htag, rfl⟩, hauthorized⟩ := h
  have hcount : (segment.frameCount - 1).toNat = segment.frameCount.toNat - 1 := by
    have hpositive : (1 : UInt32) ≤ segment.frameCount := by
      rw [UInt32.le_iff_toNat_le, UInt32.toNat_one]
      omega
    rw [UInt32.toNat_sub_of_le _ _ hpositive, UInt32.toNat_one]
  rw [hcount] at hciphertextSum hciphertext
  simp only [minEncodedFrameBytesV1, frameHeaderBytesV1, frameTagBytesV1, segmentHeaderBytesV1]
    at hprecedingSum hpreceding hfollowing hroom hframe hciphertextSum hciphertext htag hauthorized
  refine ⟨segment, hsegment, ⟨hsequence, UInt32.lt_iff_toNat_lt.mp hordinal, hglobalSum, hglobal,
    hprecedingSum, hpreceding, hend, hcount, hfollowing, by omega, hciphertextSum,
    hciphertext⟩, by omega⟩

end EventExpansionIndexEntryV1

end Snapshot

end Evidentrail
