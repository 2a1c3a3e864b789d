import Evidentrail.Bundle.Children
import Evidentrail.Lib.Image

/-!
# Sealed ciphertext bundles

One byte string for the ciphertext of a result: a header, the outer manifest, a
directory that describes every segment and every frame, and then the segment
headers and frames themselves. Lengths and offsets stand there several times,
and the parser compares them all before it takes the parts out.
-/

namespace Evidentrail

open Rust Std Encoding Bytes

inductive SealedEncryptedCoreResultBundleErrorV1 where
  | invalidResultId
  | invalidMagic
  | unknownVersion
  | unknownSuite
  | unknownObjectKind
  | invalidHeaderLength
  | nonzeroFlags
  | nonzeroReserved
  | truncated
  | trailingData
  | lengthOverflow
  | manifestLengthCap
  | segmentCountCap
  | frameCountCap
  | frameByteCap
  | noncanonicalLayout
  | manifestDecodeFailed
  | segmentHeaderDecodeFailed
  | frameDecodeFailed
  | resultIdentityMismatch
  | sequenceMismatch
  | chainMismatch
  | duplicateNonce
deriving DecidableEq

def maxMemoryEncryptedCoreFramesV1 : Nat := 4096
def maxMemoryEncryptedCoreSegmentsV1 : Nat := 64
def maxMemoryEncryptedCoreFrameBytesV1 : Nat := 64 * 1024 * 1024
def sealedBundleHeaderBytesV1 : Nat := 128
def sealedBundleSegmentDescriptorBytesV1 : Nat := 48
def sealedBundleFrameDescriptorBytesV1 : Nat := 40

def maxSealedBundleBytesV1 : Nat :=
  sealedBundleHeaderBytesV1 + maxEncodedManifestBytesV1
    + maxMemoryEncryptedCoreSegmentsV1 * sealedBundleSegmentDescriptorBytesV1
    + maxMemoryEncryptedCoreFramesV1 * sealedBundleFrameDescriptorBytesV1
    + maxMemoryEncryptedCoreFrameBytesV1

structure SealedBundleSegmentV1 where
  encodedHeader : FixedBytes 120
  encodedFrames : List (List UInt8)
deriving DecidableEq

def SealedBundleSegmentV1.encodedLength (segment : SealedBundleSegmentV1) : Nat :=
  segmentHeaderBytesV1 + (segment.encodedFrames.map List.length).sum

namespace SealedBundle

abbrev Error := SealedEncryptedCoreResultBundleErrorV1

/-! ## What is admitted -/

/-- What has been counted and seen so far. -/
structure Progress where
  expectedGlobalSequence : Nat := 0
  seenNonces : List FrameNonceV1
  frameCount : Nat := 0
  encodedFrameBytes : Nat := 0

def validateCounts (segmentCount frameCount : Nat) : Except Error Unit :=
  if segmentCount = 0 ∨ segmentCount > maxMemoryEncryptedCoreSegmentsV1 then
    .error .segmentCountCap
  else if frameCount = 0 ∨ frameCount > maxMemoryEncryptedCoreFramesV1 ∨
      frameCount < segmentCount then .error .frameCountCap
  else .ok ()

def canonicalDirectoryLen (segmentCount frameCount : Nat) : Except Error Nat := do
  let segments ← okOr .lengthOverflow
    (checkedMul segmentCount sealedBundleSegmentDescriptorBytesV1)
  let frames ← okOr .lengthOverflow (checkedMul frameCount sealedBundleFrameDescriptorBytesV1)
  okOr .lengthOverflow (checkedAdd segments frames)

def canonicalEncodedLen (manifestLength segmentCount frameCount payloadLength : Nat) :
    Except Error Nat := do
  let directoryLength ← canonicalDirectoryLen segmentCount frameCount
  let front ← okOr .lengthOverflow (checkedAdd sealedBundleHeaderBytesV1 manifestLength)
  let front ← okOr .lengthOverflow (checkedAdd front directoryLength)
  let total ← okOr .lengthOverflow (checkedAdd front payloadLength)
  if total > maxSealedBundleBytesV1 then .error .frameByteCap else .ok total

section Validation

variable [Sha256]

/-- The frames of a segment, from one position on. -/
def validateFrames (segment : SegmentHeaderV1) : (segmentFrameIndex : Nat) →
    (expectedPreviousCommitment : FrameCommitmentV1) → List (List UInt8) → Progress →
    Except Error (FrameCommitmentV1 × Progress)
  | _, expectedPrevious, [], p => .ok (expectedPrevious, p)
  | segmentFrameIndex, expectedPrevious, encodedFrame :: rest, p =>
      if encodedFrame.length < frameHeaderBytesV1 + frameTagBytesV1 then
        .error .frameDecodeFailed
      else do
        let frame ← (SealedFrameV1.decode segment encodedFrame).mapError
          fun _ => .frameDecodeFailed
        if frame.header.globalSequence.toNat ≠ p.expectedGlobalSequence then
          .error .sequenceMismatch
        else do
          let ordinal ← okOr .frameCountCap (u32TryFrom segmentFrameIndex)
          if frame.header.segmentFrameSequence.toNat ≠ ordinal then .error .sequenceMismatch
          else if frame.header.previousFrameCommitment ≠ expectedPrevious then
            .error .chainMismatch
          else if frame.header.nonce ∈ p.seenNonces then .error .duplicateNonce
          else do
            let expectedGlobalSequence ← okOr .frameCountCap
              (checkedAdd p.expectedGlobalSequence 1)
            let frameCount ← okOr .frameCountCap (checkedAdd p.frameCount 1)
            if frameCount > maxMemoryEncryptedCoreFramesV1 then .error .frameCountCap
            else do
              let encodedFrameBytes ← okOr .lengthOverflow
                (checkedAdd p.encodedFrameBytes encodedFrame.length)
              if encodedFrameBytes > maxMemoryEncryptedCoreFrameBytesV1 then
                .error .frameByteCap
              else
                validateFrames segment (segmentFrameIndex + 1) frame.commitment rest
                  { expectedGlobalSequence, seenNonces := frame.header.nonce :: p.seenNonces
                    frameCount, encodedFrameBytes }

/-- The segments, from one position on. All name the same times. -/
def validateSegments (resultId : ResultId) : (segmentIndex : Nat) →
    (expectedPriorCommitment : FrameCommitmentV1) → (expectedTimes : Option (Int64 × Int64)) →
    List SealedBundleSegmentV1 → Progress → Except Error Progress
  | _, _, _, [], p => .ok p
  | segmentIndex, expectedPrior, expectedTimes, segment :: rest, p =>
      if segment.encodedFrames.isEmpty ∨
          segment.encodedFrames.length > maxFramesPerSegmentV1 then .error .frameCountCap
      else do
        let header ← (SegmentHeaderV1.decode segment.encodedHeader.asBytes).mapError
          fun _ => .segmentHeaderDecodeFailed
        let times := (header.createdUnixNanos, header.expiresUnixNanos)
        if header.payloadSchema ≠ coreResultFramePayloadSchemaV1 ∨ header.resultId ≠ resultId then
          .error .resultIdentityMismatch
        else do
          let ordinal ← okOr .segmentCountCap (u64TryFrom segmentIndex)
          if header.segmentSequence.toNat ≠ ordinal then .error .sequenceMismatch
          else if header.priorSegmentCommitment ≠ expectedPrior then .error .chainMismatch
          else if expectedTimes.getD times ≠ times then .error .resultIdentityMismatch
          else do
            let encodedFrameBytes ← okOr .lengthOverflow
              (checkedAdd p.encodedFrameBytes segmentHeaderBytesV1)
            let (finalCommitment, p) ← validateFrames header 0 (segmentStartCommitmentV1 header)
              segment.encodedFrames { p with encodedFrameBytes }
            validateSegments resultId (segmentIndex + 1) finalCommitment (some times) rest p

def validateEncryptedParts (resultId : ResultId) (encodedManifest : List UInt8)
    (segments : List SealedBundleSegmentV1) : Except Error (Nat × Nat) :=
  if allZero resultId.asBytes then .error .invalidResultId
  else if encodedManifest.isEmpty ∨ encodedManifest.length > maxEncodedManifestBytesV1 then
    .error .manifestLengthCap
  else do
    let sealedManifest ← (SealedCoreResultManifestV1.decode resultId encodedManifest).mapError
      fun _ => .manifestDecodeFailed
    if segments.isEmpty ∨ segments.length > maxMemoryEncryptedCoreSegmentsV1 then
      .error .segmentCountCap
    else do
      let p ← validateSegments resultId 0 .zero none segments
        { seenNonces := [sealedManifest.header.nonce] }
      validateCounts segments.length p.frameCount
      .ok (p.frameCount, p.encodedFrameBytes)

/-- The counts of the parts and the length of their encoding. -/
def admitParts (resultId : ResultId) (encodedManifest : List UInt8)
    (segments : List SealedBundleSegmentV1) : Except Error (Nat × Nat × Nat) := do
  let (frameCount, encodedFrameBytes) ← validateEncryptedParts resultId encodedManifest segments
  let encodedLen ← canonicalEncodedLen encodedManifest.length segments.length frameCount
    encodedFrameBytes
  .ok (frameCount, encodedFrameBytes, encodedLen)

end Validation

end SealedBundle

open SealedBundle

variable [Sha256]

/-- Only `from_encrypted_parts` builds one. -/
structure SealedEncryptedCoreResultBundleV1 where
  resultId : ResultId
  encodedManifest : List UInt8
  segments : List SealedBundleSegmentV1
  frameCount : Nat
  encodedFrameBytes : Nat
  encodedLen : Nat
  admitted : admitParts resultId encodedManifest segments =
    .ok (frameCount, encodedFrameBytes, encodedLen)
deriving DecidableEq

namespace SealedBundle

def fromEncryptedParts (resultId : ResultId) (encodedManifest : List UInt8)
    (segments : List SealedBundleSegmentV1) : Except Error SealedEncryptedCoreResultBundleV1 :=
  ofChecked (admitParts resultId encodedManifest segments) fun counts admitted =>
    { resultId, encodedManifest, segments, frameCount := counts.1
      encodedFrameBytes := counts.2.1, encodedLen := counts.2.2, admitted }

/-! ## Writing -/

/-- The buffer and the cursors of `encode`. -/
structure Writer where
  encoded : List UInt8
  payloadCursor : Nat
  frameIndex : Nat := 0
  globalSequence : Nat := 0

def encodeFrames (frameDirectoryOffset segmentIndex : Nat) : (segmentFrameIndex : Nat) →
    List (List UInt8) → Writer → Option Writer
  | _, [], w => some w
  | segmentFrameIndex, frame :: rest, w => do
      let descriptorOffset :=
        frameDirectoryOffset + w.frameIndex * sealedBundleFrameDescriptorBytesV1
      let encoded ← writeAll descriptorOffset
        [(0, beField 8 segmentIndex), (8, beField 8 w.globalSequence),
          (16, beField 4 segmentFrameIndex), (24, beField 8 w.payloadCursor),
          (32, beField 8 frame.length)] w.encoded
      encodeFrames frameDirectoryOffset segmentIndex (segmentFrameIndex + 1) rest
        { encoded := encoded ++ frame
          payloadCursor := w.payloadCursor + frame.length
          frameIndex := w.frameIndex + 1
          globalSequence := w.globalSequence + 1 }

def encodeSegments (directoryOffset frameDirectoryOffset : Nat) : (segmentIndex : Nat) →
    List SealedBundleSegmentV1 → Writer → Option Writer
  | _, [], w => some w
  | segmentIndex, segment :: rest, w => do
      let segmentDescriptorOffset :=
        directoryOffset + segmentIndex * sealedBundleSegmentDescriptorBytesV1
      let encoded ← writeAll segmentDescriptorOffset
        [(0, beField 8 segmentIndex), (8, beField 8 w.payloadCursor),
          (16, beField 8 segment.encodedLength),
          (24, beField 4 w.frameIndex), (28, beField 4 segment.encodedFrames.length),
          (32, beField 8 w.globalSequence)] w.encoded
      let w ← encodeFrames frameDirectoryOffset segmentIndex 0 segment.encodedFrames
        { w with
          encoded := encoded ++ segment.encodedHeader.asBytes
          payloadCursor := w.payloadCursor + segmentHeaderBytesV1 }
      encodeSegments directoryOffset frameDirectoryOffset (segmentIndex + 1) rest w

/-- `none` where a checked conversion, a copy or the length assertion fails. -/
def encode (b : SealedEncryptedCoreResultBundleV1) : Option (List UInt8) := do
  let segmentCount := b.segments.length
  let directoryLength ← (canonicalDirectoryLen segmentCount b.frameCount).toOption
  let directoryOffset := sealedBundleHeaderBytesV1 + b.encodedManifest.length
  let payloadOffset := directoryOffset + directoryLength
  let encoded ← writeAll 0
    [(0, some (asciiBytes "EVRSEB01")), (8, some (u16Be 1)), (10, some (u16Be 1)),
      (12, some (u16Be 1)), (14, beField 2 sealedBundleHeaderBytesV1),
      (32, some b.resultId.asBytes), (64, beField 8 b.encodedLen),
      (72, beField 8 sealedBundleHeaderBytesV1), (80, beField 8 b.encodedManifest.length),
      (88, beField 8 directoryOffset), (96, beField 8 directoryLength),
      (104, beField 8 payloadOffset), (112, beField 8 b.encodedFrameBytes),
      (120, beField 4 segmentCount), (124, beField 4 b.frameCount),
      (128, some b.encodedManifest)] (zeros payloadOffset)
  let frameDirectoryOffset :=
    directoryOffset + segmentCount * sealedBundleSegmentDescriptorBytesV1
  let w ← encodeSegments directoryOffset frameDirectoryOffset 0 b.segments
    { encoded, payloadCursor := payloadOffset }
  if w.encoded.length = b.encodedLen then some w.encoded else none

end SealedBundle

end Evidentrail
