import Evidentrail.Snapshot.Frame

/-!
# Segment headers and the segment catalog

The first format of the snapshots: the header of a segment, and the catalog that
lists the segments of a result. Their values carry the checks of `new`, so for
both the decoder accepts the encodings of values and nothing else
(`SegmentHeaderV1.canonical`, `SegmentCatalogV1.canonical`). The sums of a
catalog are written down and computed again.
-/

namespace Evidentrail

open Rust Std Encoding Bytes

def segmentHeaderBytesV1 : Nat := 120
def frameHeaderBytesV1 : Nat := 92
def maxFrameCiphertextBytesV1 : Nat := maxFramePlaintextBytesV1 + frameTagBytesV1
def maxEncodedFrameBytesV1 : Nat := frameHeaderBytesV1 + maxFrameCiphertextBytesV1
def maxManifestPlaintextBytesV1 : Nat := 16 * 1024 * 1024

/-! ## Segment headers -/

/-- The failures that segment headers, frames and outer manifests can have. -/
inductive SnapshotFormatErrorV1 where
  | invalidEncodedLength
  | invalidMagic
  | unsupportedOuterVersion
  | unsupportedHeaderVersion
  | unsupportedSuite
  | unsupportedObjectKind
  | invalidPayloadSchema
  | invalidObjectSequence
  | resultMismatch
  | nonzeroFlags
  | nonzeroReserved
  | invalidTimeRange
  | invalidSegmentChainStart
  | plaintextTooLarge
  | ciphertextLengthMismatch
  | frameCountCap
  | lengthOverflow
deriving DecidableEq

/-- The checks of `SegmentHeaderV1::new`. -/
def checkSegmentHeader (payloadSchema : UInt16) (segmentSequence : UInt64)
    (createdUnixNanos expiresUnixNanos : Int64) (priorSegmentCommitment : FrameCommitmentV1) :
    Except SnapshotFormatErrorV1 Unit :=
  if payloadSchema = 0 then .error .invalidPayloadSchema
  else if expiresUnixNanos ≤ createdUnixNanos then .error .invalidTimeRange
  else if ¬(segmentSequence = 0 ↔ priorSegmentCommitment = .zero) then
    .error .invalidSegmentChainStart
  else .ok ()

structure SegmentHeaderV1 where
  payloadSchema : UInt16
  resultId : ResultId
  segmentSequence : UInt64
  createdUnixNanos : Int64
  expiresUnixNanos : Int64
  priorSegmentCommitment : FrameCommitmentV1
  checked : checkSegmentHeader payloadSchema segmentSequence createdUnixNanos expiresUnixNanos
    priorSegmentCommitment = .ok ()
deriving DecidableEq

namespace SegmentHeaderV1

def new (payloadSchema : UInt16) (resultId : ResultId) (segmentSequence : UInt64)
    (createdUnixNanos expiresUnixNanos : Int64) (priorSegmentCommitment : FrameCommitmentV1) :
    Except SnapshotFormatErrorV1 SegmentHeaderV1 :=
  ofChecked (checkSegmentHeader payloadSchema segmentSequence createdUnixNanos expiresUnixNanos
      priorSegmentCommitment) fun _ checked =>
    { payloadSchema, resultId, segmentSequence, createdUnixNanos, expiresUnixNanos
      priorSegmentCommitment, checked }

theorem new_eq_ok {payloadSchema : UInt16} {resultId : ResultId} {segmentSequence : UInt64}
    {createdUnixNanos expiresUnixNanos : Int64} {priorSegmentCommitment : FrameCommitmentV1}
    {header : SegmentHeaderV1} :
    new payloadSchema resultId segmentSequence createdUnixNanos expiresUnixNanos
        priorSegmentCommitment = .ok header ↔
      payloadSchema = header.payloadSchema ∧ resultId = header.resultId ∧
        segmentSequence = header.segmentSequence ∧ createdUnixNanos = header.createdUnixNanos ∧
        expiresUnixNanos = header.expiresUnixNanos ∧
        priorSegmentCommitment = header.priorSegmentCommitment := by
  rw [new, ofChecked_eq_ok]
  constructor
  · rintro ⟨_, _, rfl⟩
    exact ⟨rfl, rfl, rfl, rfl, rfl, rfl⟩
  · rintro ⟨rfl, rfl, rfl, rfl, rfl, rfl⟩
    exact ⟨(), header.checked, rfl⟩

def fields (header : SegmentHeaderV1) : List (List UInt8) :=
  [asciiBytes "EVRSNP01", u16Be 1, u16Be 1, u16Be header.payloadSchema, u16Be 0,
    header.resultId.asBytes, u64Be header.segmentSequence,
    u64Be header.createdUnixNanos.toUInt64, u64Be header.expiresUnixNanos.toUInt64,
    header.priorSegmentCommitment.asBytes, zeros 16]

def encode (header : SegmentHeaderV1) : List UInt8 := header.fields.flatten

def decode (encoded : List UInt8) : Except SnapshotFormatErrorV1 SegmentHeaderV1 :=
  if encoded.length ≠ segmentHeaderBytesV1 then .error .invalidEncodedLength
  else if slice encoded 0 8 ≠ asciiBytes "EVRSNP01" then .error .invalidMagic
  else if readU16 encoded 8 ≠ 1 then .error .unsupportedOuterVersion
  else if readU16 encoded 10 ≠ 1 then .error .unsupportedSuite
  else if readU16 encoded 14 ≠ 0 then .error .nonzeroFlags
  else if allZero (slice encoded 104 16) = false then .error .nonzeroReserved
  else new (readU16 encoded 12) (readId encoded 16) (readU64 encoded 48)
    (readU64 encoded 56).toInt64 (readU64 encoded 64).toInt64 (readArray encoded 72)

@[simp] theorem length_magic : (asciiBytes "EVRSNP01").length = 8 := by decide

@[simp] theorem length_encode (header : SegmentHeaderV1) : header.encode.length = 120 := by
  simp [encode, fields]

theorem toInt64_eq_iff {x : UInt64} {t : Int64} : x.toInt64 = t ↔ x = t.toUInt64 := by
  constructor
  · rintro rfl
    rfl
  · rintro rfl
    rfl

theorem canonical : Canonical encode decode fun _ => True := by
  intro bytes header
  rw [and_true]
  by_cases hlength : bytes.length = 120
  · rw [encode, eq_flatten_iff (length_encode header) hlength]
    simp only [fields, Laid, HashId.length_asBytes, length_u16Be, length_u64Be, length_zeros,
      FixedBytes.length_asBytes, length_magic, Nat.reduceAdd]
    rw [slice_eq_u16Be (by omega), slice_eq_u16Be (by omega), slice_eq_u16Be (by omega),
      slice_eq_u16Be (by omega), slice_eq_idBytes (by omega), slice_eq_u64Be (by omega),
      slice_eq_u64Be (by omega), slice_eq_u64Be (by omega), slice_eq_asBytes (by omega),
      slice_eq_zeros (by omega)]
    simp only [decode, ite_error_eq_ok, new_eq_ok, not_not, Bool.not_eq_false, toInt64_eq_iff,
      and_true]
    simp only [hlength, segmentHeaderBytesV1, true_and]
    constructor
    · rintro ⟨hmagic, hversion, hsuite, hflags, hzero, h1, h2, h3, h4, h5, h6⟩
      exact ⟨hmagic, hversion, hsuite, h1, hflags, h2, h3, h4, h5, h6, hzero⟩
    · rintro ⟨hmagic, hversion, hsuite, h1, hflags, h2, h3, h4, h5, h6, hzero⟩
      exact ⟨hmagic, hversion, hsuite, hflags, hzero, h1, h2, h3, h4, h5, h6⟩
  · constructor
    · intro h
      simp only [decode, ite_error_eq_ok, not_not] at h
      exact absurd h.1 hlength
    · rintro rfl
      exact absurd (length_encode header) hlength

end SegmentHeaderV1

namespace Snapshot

/-! ## Catalog entries -/

inductive SegmentCatalogErrorV1 where
  | invalidEncodedLength
  | invalidMagic
  | unsupportedVersion
  | unsupportedSchema
  | invalidEntryWidth
  | nonzeroFlags
  | nonzeroReserved
  | emptyCatalog
  | segmentCountCap
  | segmentSequenceMismatch
  | invalidFrameCount
  | frameCountCap
  | globalFrameRangeMismatch
  | globalFrameRangeOverflow
  | invalidCiphertextByteCount
  | ciphertextByteCountCap
  | invalidSegmentByteCount
  | segmentByteCountCap
  | totalFrameCountCap
  | totalCiphertextByteCountCap
  | totalSegmentByteCountCap
  | totalFrameCountMismatch
  | totalCiphertextByteCountMismatch
  | totalSegmentByteCountMismatch
  | finalChainRootMismatch
  | arithmeticOverflow
deriving DecidableEq

def maxSegmentsPerResultV1 : Nat := 4096
def maxTotalFramesPerResultV1 : Nat := maxSegmentsPerResultV1 * maxFramesPerSegmentV1
def segmentCatalogHeaderBytesV1 : Nat := 96
def segmentCatalogEntryBytesV1 : Nat := 112
def maxSegmentCiphertextBytesV1 : Nat := maxFramesPerSegmentV1 * maxFrameCiphertextBytesV1

def maxSegmentEncodedBytesV1 : Nat :=
  segmentHeaderBytesV1 + maxFramesPerSegmentV1 * frameHeaderBytesV1 + maxSegmentCiphertextBytesV1

def maxTotalSegmentCiphertextBytesV1 : Nat := maxSegmentsPerResultV1 * maxSegmentCiphertextBytesV1
def maxTotalSegmentEncodedBytesV1 : Nat := maxSegmentsPerResultV1 * maxSegmentEncodedBytesV1

abbrev SegmentDigestV1 := FixedBytes 32

/-- The checks of `SegmentCatalogEntryV1::new`. The products are far below `u64`
once the number of frames is. -/
def checkCatalogEntry (firstGlobalFrameSequence : UInt64) (frameCount : UInt32)
    (encodedByteCount ciphertextByteCount : UInt64) : Except SegmentCatalogErrorV1 Unit :=
  if frameCount = 0 then .error .invalidFrameCount
  else if frameCount.toNat > maxFramesPerSegmentV1 then .error .frameCountCap
  else if checkedAdd firstGlobalFrameSequence.toNat frameCount.toNat = none then
    .error .globalFrameRangeOverflow
  else if ciphertextByteCount.toNat < frameCount.toNat * frameTagBytesV1 then
    .error .invalidCiphertextByteCount
  else if ciphertextByteCount.toNat > frameCount.toNat * maxFrameCiphertextBytesV1 then
    .error .ciphertextByteCountCap
  else if encodedByteCount.toNat > maxSegmentEncodedBytesV1 then .error .segmentByteCountCap
  else if encodedByteCount.toNat ≠ segmentHeaderBytesV1 + frameCount.toNat * frameHeaderBytesV1 +
      ciphertextByteCount.toNat then .error .invalidSegmentByteCount
  else .ok ()

structure SegmentCatalogEntryV1 where
  segmentSequence : UInt64
  firstGlobalFrameSequence : UInt64
  frameCount : UInt32
  encodedByteCount : UInt64
  ciphertextByteCount : UInt64
  segmentDigest : SegmentDigestV1
  finalFrameCommitment : FrameCommitmentV1
  checked : checkCatalogEntry firstGlobalFrameSequence frameCount encodedByteCount
    ciphertextByteCount = .ok ()
deriving DecidableEq

namespace SegmentCatalogEntryV1

def new (segmentSequence firstGlobalFrameSequence : UInt64) (frameCount : UInt32)
    (encodedByteCount ciphertextByteCount : UInt64) (segmentDigest : SegmentDigestV1)
    (finalFrameCommitment : FrameCommitmentV1) :
    Except SegmentCatalogErrorV1 SegmentCatalogEntryV1 :=
  ofChecked (checkCatalogEntry firstGlobalFrameSequence frameCount encodedByteCount
      ciphertextByteCount) fun _ checked =>
    { segmentSequence, firstGlobalFrameSequence, frameCount, encodedByteCount
      ciphertextByteCount, segmentDigest, finalFrameCommitment, checked }

theorem new_eq_ok {segmentSequence firstGlobalFrameSequence encodedByteCount : UInt64}
    {frameCount : UInt32} {ciphertextByteCount : UInt64} {segmentDigest : SegmentDigestV1}
    {finalFrameCommitment : FrameCommitmentV1} {entry : SegmentCatalogEntryV1} :
    new segmentSequence firstGlobalFrameSequence frameCount encodedByteCount ciphertextByteCount
        segmentDigest finalFrameCommitment = .ok entry ↔
      segmentSequence = entry.segmentSequence ∧
        firstGlobalFrameSequence = entry.firstGlobalFrameSequence ∧
        frameCount = entry.frameCount ∧ encodedByteCount = entry.encodedByteCount ∧
        ciphertextByteCount = entry.ciphertextByteCount ∧ segmentDigest = entry.segmentDigest ∧
        finalFrameCommitment = entry.finalFrameCommitment := by
  rw [new, ofChecked_eq_ok]
  constructor
  · rintro ⟨_, _, rfl⟩
    exact ⟨rfl, rfl, rfl, rfl, rfl, rfl, rfl⟩
  · rintro ⟨rfl, rfl, rfl, rfl, rfl, rfl, rfl⟩
    exact ⟨(), entry.checked, rfl⟩

/-- `global_frame_end_exclusive`. -/
def globalFrameEndExclusive (entry : SegmentCatalogEntryV1) : Nat :=
  entry.firstGlobalFrameSequence.toNat + entry.frameCount.toNat

def fields (entry : SegmentCatalogEntryV1) : List (List UInt8) :=
  [u64Be entry.segmentSequence, u64Be entry.firstGlobalFrameSequence, u32Be entry.frameCount,
    zeros 4, u64Be entry.encodedByteCount, u64Be entry.ciphertextByteCount,
    entry.segmentDigest.asBytes, entry.finalFrameCommitment.asBytes, zeros 8]

def encode (entry : SegmentCatalogEntryV1) : List UInt8 := entry.fields.flatten

def decode (encoded : List UInt8) : Except SegmentCatalogErrorV1 SegmentCatalogEntryV1 :=
  if encoded.length ≠ segmentCatalogEntryBytesV1 then .error .invalidEncodedLength
  else if allZero (slice encoded 20 4) = false ∨ allZero (slice encoded 104 8) = false then
    .error .nonzeroReserved
  else new (readU64 encoded 0) (readU64 encoded 8) (readU32 encoded 16) (readU64 encoded 24)
    (readU64 encoded 32) (readArray encoded 40) (readArray encoded 72)

@[simp] theorem length_encode (entry : SegmentCatalogEntryV1) : entry.encode.length = 112 := by
  simp [encode, fields]

theorem canonical : Canonical encode decode fun _ => True := by
  intro bytes entry
  rw [and_true]
  by_cases hlength : bytes.length = 112
  · rw [encode, eq_flatten_iff (length_encode entry) hlength]
    simp only [fields, Laid, length_u32Be, length_u64Be, length_zeros, FixedBytes.length_asBytes,
      Nat.reduceAdd]
    rw [slice_eq_u64Be (by omega), slice_eq_u64Be (by omega), slice_eq_u32Be (by omega),
      slice_eq_zeros (by omega), slice_eq_u64Be (by omega), slice_eq_u64Be (by omega),
      slice_eq_asBytes (by omega), slice_eq_asBytes (by omega), slice_eq_zeros (by omega)]
    simp only [decode, ite_error_eq_ok, new_eq_ok, not_not, not_or, Bool.not_eq_false, and_true]
    simp only [hlength, segmentCatalogEntryBytesV1, true_and]
    constructor
    · rintro ⟨⟨hone, htwo⟩, h1, h2, h3, h4, h5, h6, h7⟩
      exact ⟨h1, h2, h3, hone, h4, h5, h6, h7, htwo⟩
    · rintro ⟨h1, h2, h3, hone, h4, h5, h6, h7, htwo⟩
      exact ⟨⟨hone, htwo⟩, h1, h2, h3, h4, h5, h6, h7⟩
  · constructor
    · intro h
      simp only [decode, ite_error_eq_ok, not_not] at h
      exact absurd h.1 hlength
    · rintro rfl
      exact absurd (length_encode entry) hlength

end SegmentCatalogEntryV1

/-! ## The catalog -/

/-- What the loop of `new` sums up. -/
structure CatalogTotals where
  frameCount : UInt64
  encodedByteCount : UInt64
  ciphertextByteCount : UInt64

/-- The loop of `new`: segments and frames one behind the other. -/
def sumSegments (expectedSegment expectedGlobal : Nat) (totals : CatalogTotals) :
    List SegmentCatalogEntryV1 → Except SegmentCatalogErrorV1 CatalogTotals
  | [] => .ok totals
  | entry :: rest =>
      if entry.segmentSequence.toNat ≠ expectedSegment then .error .segmentSequenceMismatch
      else if entry.firstGlobalFrameSequence.toNat ≠ expectedGlobal then
        .error .globalFrameRangeMismatch
      else do
        let frames ← okOr .arithmeticOverflow
          (checkedAdd totals.frameCount.toNat entry.frameCount.toNat)
        let encoded ← okOr .arithmeticOverflow
          (checkedAdd totals.encodedByteCount.toNat entry.encodedByteCount.toNat)
        let ciphertext ← okOr .arithmeticOverflow
          (checkedAdd totals.ciphertextByteCount.toNat entry.ciphertextByteCount.toNat)
        sumSegments (expectedSegment + 1) entry.globalFrameEndExclusive
          ⟨.ofNat frames, .ofNat encoded, .ofNat ciphertext⟩ rest

/-- The checks of `SegmentCatalogV1::new`, and what it computes. -/
def reconcileSegments (entries : List SegmentCatalogEntryV1) :
    Except SegmentCatalogErrorV1 (CatalogTotals × FrameCommitmentV1) :=
  if entries = [] then .error .emptyCatalog
  else if entries.length > maxSegmentsPerResultV1 then .error .segmentCountCap
  else do
    let totals ← sumSegments 0 0 ⟨0, 0, 0⟩ entries
    if totals.frameCount.toNat > maxTotalFramesPerResultV1 then .error .totalFrameCountCap
    else if totals.ciphertextByteCount.toNat > maxTotalSegmentCiphertextBytesV1 then
      .error .totalCiphertextByteCountCap
    else if totals.encodedByteCount.toNat > maxTotalSegmentEncodedBytesV1 then
      .error .totalSegmentByteCountCap
    else do
      let last ← okOr .emptyCatalog entries.getLast?
      .ok (totals, last.finalFrameCommitment)

/-- Only `new` builds one: the sums and the root are those of the entries. -/
structure SegmentCatalogV1 where
  entries : List SegmentCatalogEntryV1
  totals : CatalogTotals
  finalChainRoot : FrameCommitmentV1
  reconciled : reconcileSegments entries = .ok (totals, finalChainRoot)

namespace SegmentCatalogV1

def new (entries : List SegmentCatalogEntryV1) : Except SegmentCatalogErrorV1 SegmentCatalogV1 :=
  ofChecked (reconcileSegments entries) fun found reconciled =>
    { entries, totals := found.1, finalChainRoot := found.2, reconciled }

/-- The entries say the rest. -/
theorem new_eq_ok {entries : List SegmentCatalogEntryV1} {catalog : SegmentCatalogV1} :
    new entries = .ok catalog ↔ entries = catalog.entries := by
  rw [new, ofChecked_eq_ok]
  constructor
  · rintro ⟨_, _, rfl⟩
    rfl
  · rintro rfl
    exact ⟨_, catalog.reconciled, rfl⟩

/-- The caps that `decode` asks for again. -/
theorem caps (catalog : SegmentCatalogV1) :
    catalog.entries ≠ [] ∧ catalog.entries.length ≤ maxSegmentsPerResultV1 ∧
      catalog.totals.frameCount.toNat ≤ maxTotalFramesPerResultV1 ∧
      catalog.totals.encodedByteCount.toNat ≤ maxTotalSegmentEncodedBytesV1 ∧
      catalog.totals.ciphertextByteCount.toNat ≤ maxTotalSegmentCiphertextBytesV1 := by
  have h := catalog.reconciled
  simp only [reconcileSegments, ite_error_eq_ok, except_bind_eq_ok, Except.ok.injEq,
    Nat.not_lt, gt_iff_lt] at h
  obtain ⟨hne, hcount, totals, _, hframes, hcipher, hencoded, _, _, heq⟩ := h
  obtain ⟨rfl, _⟩ := Prod.mk.inj heq
  exact ⟨hne, hcount, hframes, hencoded, hcipher⟩

def header (catalog : SegmentCatalogV1) : List (List UInt8) :=
  [asciiBytes "EVRSCG01", u16Be 1, u16Be 1, u16Be (.ofNat segmentCatalogEntryBytesV1), u16Be 0,
    u64Be (.ofNat catalog.entries.length), u64Be catalog.totals.frameCount,
    u64Be catalog.totals.encodedByteCount, u64Be catalog.totals.ciphertextByteCount,
    catalog.finalChainRoot.asBytes, zeros 16]

def encode (catalog : SegmentCatalogV1) : List UInt8 :=
  catalog.header.flatten ++ catalog.entries.flatMap SegmentCatalogEntryV1.encode

def decode (encoded : List UInt8) : Except SegmentCatalogErrorV1 SegmentCatalogV1 :=
  if encoded.length < segmentCatalogHeaderBytesV1 then .error .invalidEncodedLength
  else if slice encoded 0 8 ≠ asciiBytes "EVRSCG01" then .error .invalidMagic
  else if readU16 encoded 8 ≠ 1 then .error .unsupportedVersion
  else if readU16 encoded 10 ≠ 1 then .error .unsupportedSchema
  else if (readU16 encoded 12).toNat ≠ segmentCatalogEntryBytesV1 then .error .invalidEntryWidth
  else if readU16 encoded 14 ≠ 0 then .error .nonzeroFlags
  else if allZero (slice encoded 80 16) = false then .error .nonzeroReserved
  else
    let count := (readU64 encoded 16).toNat
    if count = 0 then .error .emptyCatalog
    else if count > maxSegmentsPerResultV1 then .error .segmentCountCap
    else if encoded.length ≠ segmentCatalogHeaderBytesV1 + count * segmentCatalogEntryBytesV1 then
      .error .invalidEncodedLength
    else if (readU64 encoded 24).toNat > maxTotalFramesPerResultV1 then .error .totalFrameCountCap
    else if (readU64 encoded 32).toNat > maxTotalSegmentEncodedBytesV1 then
      .error .totalSegmentByteCountCap
    else if (readU64 encoded 40).toNat > maxTotalSegmentCiphertextBytesV1 then
      .error .totalCiphertextByteCountCap
    else do
      let entries ← (chunks segmentCatalogEntryBytesV1 count
        (encoded.drop segmentCatalogHeaderBytesV1)).mapM SegmentCatalogEntryV1.decode
      let catalog ← new entries
      if readU64 encoded 24 ≠ catalog.totals.frameCount then .error .totalFrameCountMismatch
      else if readU64 encoded 32 ≠ catalog.totals.encodedByteCount then
        .error .totalSegmentByteCountMismatch
      else if readU64 encoded 40 ≠ catalog.totals.ciphertextByteCount then
        .error .totalCiphertextByteCountMismatch
      else if readArray encoded 48 ≠ catalog.finalChainRoot then .error .finalChainRootMismatch
      else .ok catalog

@[simp] theorem length_magic : (asciiBytes "EVRSCG01").length = 8 := by decide

theorem length_header (catalog : SegmentCatalogV1) : catalog.header.flatten.length = 96 := by
  simp [header]

theorem length_encode (catalog : SegmentCatalogV1) :
    catalog.encode.length = 96 + catalog.entries.length * 112 := by
  rw [encode, List.length_append, length_header,
    length_flatMap_encode SegmentCatalogEntryV1.length_encode]

theorem laid_header {bytes : List UInt8} (hlength : 96 ≤ bytes.length)
    {catalog : SegmentCatalogV1} :
    Laid bytes 0 catalog.header ↔
      slice bytes 0 8 = asciiBytes "EVRSCG01" ∧ readU16 bytes 8 = 1 ∧ readU16 bytes 10 = 1 ∧
      (readU16 bytes 12).toNat = segmentCatalogEntryBytesV1 ∧ readU16 bytes 14 = 0 ∧
      (readU64 bytes 16).toNat = catalog.entries.length ∧
      readU64 bytes 24 = catalog.totals.frameCount ∧
      readU64 bytes 32 = catalog.totals.encodedByteCount ∧
      readU64 bytes 40 = catalog.totals.ciphertextByteCount ∧
      readArray bytes 48 = catalog.finalChainRoot ∧ allZero (slice bytes 80 16) = true := by
  have hcount := catalog.caps.2.1
  unfold maxSegmentsPerResultV1 at hcount
  have hsmall : (UInt64.ofNat catalog.entries.length).toNat = catalog.entries.length := by
    rw [UInt64.toNat_ofNat']
    omega
  have hwidth : (UInt16.ofNat segmentCatalogEntryBytesV1).toNat = segmentCatalogEntryBytesV1 := rfl
  simp only [header, Laid, length_magic, length_u16Be, length_u64Be, length_zeros,
    FixedBytes.length_asBytes, Nat.reduceAdd]
  rw [slice_eq_u16Be (by omega), slice_eq_u16Be (by omega), slice_eq_u16Be (by omega),
    slice_eq_u16Be (by omega), slice_eq_u64Be (by omega), slice_eq_u64Be (by omega),
    slice_eq_u64Be (by omega), slice_eq_u64Be (by omega), slice_eq_asBytes (by omega),
    slice_eq_zeros (by omega), and_true, ← UInt16.toNat_inj (b := .ofNat _), hwidth,
    ← UInt64.toNat_inj (b := .ofNat _), hsmall]

/-- A byte string is a catalog exactly if it reads as one. -/
theorem encode_eq_iff {bytes : List UInt8} {catalog : SegmentCatalogV1} :
    catalog.encode = bytes ↔
      bytes.length = 96 + catalog.entries.length * 112 ∧ Laid bytes 0 catalog.header ∧
        (chunks 112 catalog.entries.length (bytes.drop 96)).mapM SegmentCatalogEntryV1.decode =
          .ok catalog.entries := by
  constructor
  · intro h
    have hlength := length_encode catalog
    rw [h] at hlength
    exact ⟨hlength, (eq_header_records_iff SegmentCatalogEntryV1.canonical.on
      SegmentCatalogEntryV1.length_encode (length_header catalog) hlength).mp
        ⟨h, rfl, fun _ _ => trivial⟩⟩
  · rintro ⟨hlength, hread⟩
    exact ((eq_header_records_iff SegmentCatalogEntryV1.canonical.on
      SegmentCatalogEntryV1.length_encode (length_header catalog) hlength).mpr hread).1

theorem canonical : Canonical encode decode fun _ => True := by
  intro bytes catalog
  rw [and_true, encode_eq_iff]
  simp only [decode, ite_error_eq_ok, except_bind_eq_ok, new_eq_ok, not_not, Nat.not_lt, gt_iff_lt,
    Bool.not_eq_false, Except.ok.injEq]
  constructor
  · rintro ⟨hlong, hmagic, hversion, hschema, hwidth, hflags, hzero, _, _, hlength, _, _, _,
      entries, hentries, catalog, rfl, hframes, hencoded, hcipher, hroot, rfl⟩
    have hcount := length_of_mapM_chunks hentries
    rw [← hcount] at hlength hentries
    exact ⟨hlength, (laid_header hlong).mpr ⟨hmagic, hversion, hschema, hwidth, hflags, hcount.symm,
      hframes, hencoded, hcipher, hroot, hzero⟩, hentries⟩
  · rintro ⟨hlength, hlaid, hentries⟩
    have hlong : 96 ≤ bytes.length := by omega
    obtain ⟨hmagic, hversion, hschema, hwidth, hflags, hcount, hframes, hencoded, hcipher, hroot,
      hzero⟩ := (laid_header hlong).mp hlaid
    obtain ⟨hne, hcap, hframesCap, hencodedCap, hcipherCap⟩ := catalog.caps
    rw [hcount, hframes, hencoded, hcipher]
    exact ⟨hlong, hmagic, hversion, hschema, hwidth, hflags, hzero,
      fun h => hne (List.eq_nil_of_length_eq_zero h), hcap, hlength, hframesCap, hencodedCap,
      hcipherCap, _, hentries, catalog, rfl, rfl, rfl, rfl, hroot, rfl⟩

end SegmentCatalogV1

end Snapshot

end Evidentrail
