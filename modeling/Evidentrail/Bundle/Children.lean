import Evidentrail.Snapshot.Catalog

/-!
# The parts of a sealed bundle

The outer manifest, segment headers and frames of the first format version, as
far as a parser sees them: fixed headers in front of ciphertext and tag. The
commitment of a frame is not written down; it is derived from the segment
header, the frame header, the ciphertext and the tag.
-/

namespace Evidentrail

open Rust Std Encoding Bytes

def manifestHeaderBytesV1 : Nat := 120
def manifestTagBytesV1 : Nat := 16
def maxEncodedManifestBytesV1 : Nat :=
  manifestHeaderBytesV1 + (maxManifestPlaintextBytesV1 + manifestTagBytesV1)
def coreResultFramePayloadSchemaV1 : UInt16 := 1
def coreResultManifestPayloadSchemaV1 : UInt16 := 1

abbrev FrameNonceV1 := FixedBytes 24

/-! ## Frames -/

inductive FrameObjectKindV1 where
  | authorizedOutcome
  | acquisitionSeal
deriving DecidableEq

def FrameObjectKindV1.code : FrameObjectKindV1 → UInt16
  | .authorizedOutcome => 1
  | .acquisitionSeal => 2

def FrameObjectKindV1.fromCode : UInt16 → Option FrameObjectKindV1
  | 1 => some .authorizedOutcome
  | 2 => some .acquisitionSeal
  | _ => none

/-- The checks of `FrameHeaderV1::new`, which adds the tag to the length. -/
def checkFrameHeader (segmentFrameSequence plaintextLength : UInt32) :
    Except SnapshotFormatErrorV1 Nat :=
  if segmentFrameSequence.toNat ≥ maxFramesPerSegmentV1 then .error .frameCountCap
  else if plaintextLength.toNat > maxFramePlaintextBytesV1 then .error .plaintextTooLarge
  else okOr .lengthOverflow (u32TryFrom (plaintextLength.toNat + frameTagBytesV1))

structure FrameHeaderV1 where
  objectKind : FrameObjectKindV1
  globalSequence : UInt64
  segmentFrameSequence : UInt32
  plaintextLength : UInt32
  ciphertextLength : Nat
  nonce : FrameNonceV1
  previousFrameCommitment : FrameCommitmentV1
  checked : checkFrameHeader segmentFrameSequence plaintextLength = .ok ciphertextLength
deriving DecidableEq

namespace FrameHeaderV1

def new (objectKind : FrameObjectKindV1) (globalSequence : UInt64)
    (segmentFrameSequence plaintextLength : UInt32) (nonce : FrameNonceV1)
    (previousFrameCommitment : FrameCommitmentV1) :
    Except SnapshotFormatErrorV1 FrameHeaderV1 :=
  ofChecked (checkFrameHeader segmentFrameSequence plaintextLength) fun ciphertextLength checked =>
    { objectKind, globalSequence, segmentFrameSequence, plaintextLength, ciphertextLength, nonce
      previousFrameCommitment, checked }

def encode (header : FrameHeaderV1) : List UInt8 :=
  asciiBytes "FRM1" ++ (u16Be 1 ++ (u16Be header.objectKind.code ++
    (u64Be header.globalSequence ++ (u32Be header.segmentFrameSequence ++
    (u32Be header.plaintextLength ++ (beBytes 4 header.ciphertextLength ++
    (header.nonce.asBytes ++ (header.previousFrameCommitment.asBytes ++ zeros 8))))))))

def decode (encoded : List UInt8) : Except SnapshotFormatErrorV1 FrameHeaderV1 :=
  if encoded.length ≠ frameHeaderBytesV1 then .error .invalidEncodedLength
  else if slice encoded 0 4 ≠ asciiBytes "FRM1" then .error .invalidMagic
  else if readU16 encoded 4 ≠ 1 then .error .unsupportedHeaderVersion
  else if allZero (slice encoded 84 8) = false then .error .nonzeroReserved
  else do
    let objectKind ← okOr .unsupportedObjectKind (FrameObjectKindV1.fromCode (readU16 encoded 6))
    let header ← new objectKind (readU64 encoded 8) (readU32 encoded 16) (readU32 encoded 20)
      (readArray encoded 28) (readArray encoded 52)
    if (readU32 encoded 24).toNat ≠ header.ciphertextLength then .error .ciphertextLengthMismatch
    else .ok header

end FrameHeaderV1

structure SealedFrameV1 where
  header : FrameHeaderV1
  ciphertext : List UInt8
  tag : FixedBytes 16
  commitment : FrameCommitmentV1
deriving DecidableEq

section Commitments

variable [Sha256]

/-- The commitment that the first frame of a segment repeats. -/
def segmentStartCommitmentV1 (segment : SegmentHeaderV1) : FrameCommitmentV1 :=
  lifecycleDigest (asciiBytes "evidentrail.snapshot.segment-start.v1" ++ segment.encode)

def deriveFrameCommitment (segment : SegmentHeaderV1) (header : FrameHeaderV1)
    (ciphertext : List UInt8) (tag : FixedBytes 16) : FrameCommitmentV1 :=
  lifecycleDigest (asciiBytes "evidentrail.snapshot.frame-commit.v1" ++ segment.encode
    ++ header.encode ++ ciphertext ++ tag.asBytes)

def SealedFrameV1.decode (segment : SegmentHeaderV1) (encoded : List UInt8) :
    Except SnapshotFormatErrorV1 SealedFrameV1 :=
  if encoded.length < frameHeaderBytesV1 then .error .invalidEncodedLength
  else do
    let header ← FrameHeaderV1.decode (slice encoded 0 frameHeaderBytesV1)
    let expectedLength ← okOr .lengthOverflow
      (checkedAdd frameHeaderBytesV1 header.ciphertextLength)
    if maxEncodedFrameBytesV1 < expectedLength ∨ encoded.length ≠ expectedLength then
      .error .invalidEncodedLength
    else do
      let ciphertextEnd ← okOr .lengthOverflow (checkedSub expectedLength frameTagBytesV1)
      let ciphertext := slice encoded frameHeaderBytesV1 (ciphertextEnd - frameHeaderBytesV1)
      let tag : FixedBytes 16 := readArray encoded ciphertextEnd
      .ok { header, ciphertext, tag
            commitment := deriveFrameCommitment segment header ciphertext tag }

end Commitments

/-! ## The outer manifest -/

/-- The checks of `ManifestHeaderV1::new`. -/
def checkManifestHeader (payloadSchema : UInt16) (objectSequence : UInt64)
    (createdUnixNanos expiresUnixNanos : Int64) (plaintextLength : UInt32) :
    Except SnapshotFormatErrorV1 Nat :=
  if payloadSchema = 0 then .error .invalidPayloadSchema
  else if objectSequence ≠ 0 then .error .invalidObjectSequence
  else if expiresUnixNanos ≤ createdUnixNanos then .error .invalidTimeRange
  else if plaintextLength.toNat > maxManifestPlaintextBytesV1 then .error .plaintextTooLarge
  else okOr .lengthOverflow (u32TryFrom (plaintextLength.toNat + manifestTagBytesV1))

structure ManifestHeaderV1 where
  payloadSchema : UInt16
  resultId : ResultId
  objectSequence : UInt64
  createdUnixNanos : Int64
  expiresUnixNanos : Int64
  plaintextLength : UInt32
  ciphertextLength : Nat
  nonce : FixedBytes 24
  checked : checkManifestHeader payloadSchema objectSequence createdUnixNanos expiresUnixNanos
    plaintextLength = .ok ciphertextLength
deriving DecidableEq

namespace ManifestHeaderV1

def new (payloadSchema : UInt16) (resultId : ResultId) (objectSequence : UInt64)
    (createdUnixNanos expiresUnixNanos : Int64) (plaintextLength : UInt32)
    (nonce : FixedBytes 24) : Except SnapshotFormatErrorV1 ManifestHeaderV1 :=
  ofChecked (checkManifestHeader payloadSchema objectSequence createdUnixNanos expiresUnixNanos
      plaintextLength) fun ciphertextLength checked =>
    { payloadSchema, resultId, objectSequence, createdUnixNanos, expiresUnixNanos
      plaintextLength, ciphertextLength, nonce, checked }

def encode (header : ManifestHeaderV1) : List UInt8 :=
  asciiBytes "EVRMNF01" ++ (u16Be 1 ++ (u16Be 1 ++ (u16Be header.payloadSchema ++ (u16Be 1 ++
    (header.resultId.asBytes ++ (u64Be header.objectSequence ++
    (u64Be header.createdUnixNanos.toUInt64 ++ (u64Be header.expiresUnixNanos.toUInt64 ++
    (u32Be header.plaintextLength ++ (beBytes 4 header.ciphertextLength ++
    (header.nonce.asBytes ++ zeros 16)))))))))))

def decode (encoded : List UInt8) : Except SnapshotFormatErrorV1 ManifestHeaderV1 :=
  if encoded.length ≠ manifestHeaderBytesV1 then .error .invalidEncodedLength
  else if slice encoded 0 8 ≠ asciiBytes "EVRMNF01" then .error .invalidMagic
  else if readU16 encoded 8 ≠ 1 then .error .unsupportedOuterVersion
  else if readU16 encoded 10 ≠ 1 then .error .unsupportedSuite
  else if readU16 encoded 14 ≠ 1 then .error .unsupportedObjectKind
  else if allZero (slice encoded 104 16) = false then .error .nonzeroReserved
  else do
    let header ← new (readU16 encoded 12) (readId encoded 16) (readU64 encoded 48)
      (readU64 encoded 56).toInt64 (readU64 encoded 64).toInt64 (readU32 encoded 72)
      (readArray encoded 80)
    if (readU32 encoded 76).toNat ≠ header.ciphertextLength then .error .ciphertextLengthMismatch
    else .ok header

end ManifestHeaderV1

/-- The commitment of a manifest is derived as well; a bundle never reads it. -/
structure SealedManifestV1 where
  header : ManifestHeaderV1
  ciphertext : List UInt8
  tag : FixedBytes 16
deriving DecidableEq

def SealedManifestV1.decode (expectedResultId : ResultId) (encoded : List UInt8) :
    Except SnapshotFormatErrorV1 SealedManifestV1 :=
  if encoded.length < manifestHeaderBytesV1 then .error .invalidEncodedLength
  else do
    let header ← ManifestHeaderV1.decode (slice encoded 0 manifestHeaderBytesV1)
    if header.resultId ≠ expectedResultId then .error .resultMismatch
    else do
      let expectedLength ← okOr .lengthOverflow
        (checkedAdd manifestHeaderBytesV1 header.ciphertextLength)
      if maxEncodedManifestBytesV1 < expectedLength ∨ encoded.length ≠ expectedLength then
        .error .invalidEncodedLength
      else do
        let ciphertextEnd ← okOr .lengthOverflow (checkedSub expectedLength manifestTagBytesV1)
        .ok { header
              ciphertext := slice encoded manifestHeaderBytesV1
                (ciphertextEnd - manifestHeaderBytesV1)
              tag := readArray encoded ciphertextEnd }

inductive CoreResultPayloadErrorV1 where
  | outerDecodeFailed
  | payloadSchemaMismatch
deriving DecidableEq

/-- The outer manifest of a core result. -/
def SealedCoreResultManifestV1.decode (expectedResultId : ResultId) (encoded : List UInt8) :
    Except CoreResultPayloadErrorV1 SealedManifestV1 := do
  let outer ← (SealedManifestV1.decode expectedResultId encoded).mapError
    fun _ => .outerDecodeFailed
  if outer.header.payloadSchema ≠ coreResultManifestPayloadSchemaV1 then
    .error .payloadSchemaMismatch
  else .ok outer

end Evidentrail
