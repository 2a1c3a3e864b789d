import Evidentrail.Bundle.Bundle
import Evidentrail.Lib.Completes

/-!
# Reading a sealed bundle

`decode` checks the header, both tables of the directory and how they fit
together before it copies anything out, and at the end it encodes what it found
and compares. An index out of range is `panicked`; so is an offset that wraps,
since it lies behind the end as a number.
-/

namespace Evidentrail

open Rust Std Encoding Bytes

namespace SealedBundle

/-! ## Reading numbers and slices -/

/-- `bytes[offset..offset + n]`. -/
def readBytes (bytes : List UInt8) (offset n : Nat) : Except (Fault Error) (List UInt8) :=
  if offset + n ≤ bytes.length then .ok (slice bytes offset n) else .error .panicked

/-- `read_u16`, `read_u32` and `read_u64`. -/
def readUint (width : Nat) (bytes : List UInt8) (offset : Nat) : Except (Fault Error) Nat :=
  (readBytes bytes offset width).map ofBe

def checkedEnd (offset length : Nat) : Except (Fault Error) Nat :=
  okOr (.err .lengthOverflow) (checkedAdd offset length)

def checkedSlice (bytes : List UInt8) (offset length : Nat) :
    Except (Fault Error) (List UInt8) := do
  let stop ← checkedEnd offset length
  refuse (stop > bytes.length) .truncated
  .ok (slice bytes offset length)

/-- The offset of an entry in a table. -/
def entryOffset (tableOffset index width : Nat) : Except (Fault Error) Nat := do
  let product ← okOr (.err .lengthOverflow) (checkedMul index width)
  checkedEnd tableOffset product

/-! ## The header -/

def validateFixedHeader (encoded : List UInt8) : Except (Fault Error) PUnit := do
  let magic ← readBytes encoded 0 8
  refuse (magic ≠ asciiBytes "EVRSEB01") .invalidMagic
  let version ← readUint 2 encoded 8
  refuse (version ≠ 1) .unknownVersion
  let suite ← readUint 2 encoded 10
  refuse (suite ≠ 1) .unknownSuite
  let objectKind ← readUint 2 encoded 12
  refuse (objectKind ≠ 1) .unknownObjectKind
  let headerLength ← readUint 2 encoded 14
  refuse (headerLength ≠ sealedBundleHeaderBytesV1) .invalidHeaderLength
  let flags ← readUint 4 encoded 16
  refuse (flags ≠ 0) .nonzeroFlags
  let reserved ← readBytes encoded 20 12
  refuse (allZero reserved = false) .nonzeroReserved

/-- What the header says, once it agrees with itself and the length. -/
structure Header where
  resultId : ResultId
  segmentCount : Nat
  frameCount : Nat
  manifestLength : Nat
  directoryOffset : Nat
  directoryLength : Nat
  payloadOffset : Nat
  payloadLength : Nat
  totalLength : Nat
deriving DecidableEq

/-- The first part of `decode`, up to the slices it checks. -/
def readHeader (encoded : List UInt8) : Except (Fault Error) Header := do
  refuse (encoded.length < sealedBundleHeaderBytesV1) .truncated
  refuse (encoded.length > maxSealedBundleBytesV1) .frameByteCap
  validateFixedHeader encoded
  let totalLength ← readUint 8 encoded 64
  refuse (totalLength < encoded.length) .trailingData
  refuse (totalLength > encoded.length) .truncated
  refuse (totalLength > maxSealedBundleBytesV1) .frameByteCap
  let idBytes ← readBytes encoded 32 32
  refuse (allZero idBytes = true) .invalidResultId
  let segmentCount ← readUint 4 encoded 120
  let frameCount ← readUint 4 encoded 124
  let _ ← (validateCounts segmentCount frameCount).mapError Fault.err
  let manifestOffset ← readUint 8 encoded 72
  let manifestLength ← readUint 8 encoded 80
  refuse (manifestLength = 0 ∨ manifestLength > maxEncodedManifestBytesV1) .manifestLengthCap
  let directoryOffset ← readUint 8 encoded 88
  let directoryLength ← readUint 8 encoded 96
  let payloadOffset ← readUint 8 encoded 104
  let payloadLength ← readUint 8 encoded 112
  refuse (payloadLength = 0 ∨ payloadLength > maxMemoryEncryptedCoreFrameBytesV1) .frameByteCap
  let expectedDirectoryLength ←
    (canonicalDirectoryLen segmentCount frameCount).mapError Fault.err
  let expectedDirectoryOffset ← checkedEnd sealedBundleHeaderBytesV1 manifestLength
  let expectedPayloadOffset ← checkedEnd expectedDirectoryOffset expectedDirectoryLength
  let expectedTotal ← checkedEnd expectedPayloadOffset payloadLength
  refuse (manifestOffset ≠ sealedBundleHeaderBytesV1 ∨ directoryOffset ≠ expectedDirectoryOffset ∨
    directoryLength ≠ expectedDirectoryLength ∨ payloadOffset ≠ expectedPayloadOffset ∨
    totalLength ≠ expectedTotal) .noncanonicalLayout
  let _ ← checkedSlice encoded manifestOffset manifestLength
  let _ ← checkedSlice encoded directoryOffset directoryLength
  let _ ← checkedSlice encoded payloadOffset payloadLength
  .ok { resultId := .ofBytes idBytes, segmentCount, frameCount, manifestLength, directoryOffset
        directoryLength, payloadOffset, payloadLength, totalLength }

/-! ## The directory -/

structure SegmentDescriptorV1 where
  segmentSequence : Nat
  payloadOffset : Nat
  encodedLength : Nat
  firstFrameIndex : Nat
  frameCount : Nat
  firstGlobalSequence : Nat
deriving DecidableEq

structure FrameDescriptorV1 where
  segmentSequence : Nat
  globalSequence : Nat
  segmentFrameSequence : Nat
  payloadOffset : Nat
  encodedLength : Nat
deriving DecidableEq

/-- One pass of the loop over the segment descriptors. -/
def decodeSegmentDescriptor (encoded : List UInt8) (directoryOffset index expectedFirstFrame
    expectedGlobalSequence payloadOffset totalLength : Nat) :
    Except (Fault Error) SegmentDescriptorV1 := do
  let offset ← entryOffset directoryOffset index sealedBundleSegmentDescriptorBytesV1
  let _ ← checkedSlice encoded offset sealedBundleSegmentDescriptorBytesV1
  let reserved ← readUint 8 encoded (offset + 40)
  refuse (reserved ≠ 0) .nonzeroReserved
  let segmentSequence ← readUint 8 encoded offset
  let segmentOffset ← readUint 8 encoded (offset + 8)
  let encodedLength ← readUint 8 encoded (offset + 16)
  let firstFrameIndex ← readUint 4 encoded (offset + 24)
  let frameCount ← readUint 4 encoded (offset + 28)
  let firstGlobalSequence ← readUint 8 encoded (offset + 32)
  refuse (segmentSequence ≠ index ∨ firstFrameIndex ≠ expectedFirstFrame ∨
    firstGlobalSequence ≠ expectedGlobalSequence ∨ frameCount = 0 ∨
    frameCount > maxFramesPerSegmentV1 ∨ segmentOffset < payloadOffset ∨
    encodedLength < segmentHeaderBytesV1) .noncanonicalLayout
  let stop ← checkedEnd segmentOffset encodedLength
  refuse (stop > totalLength) .truncated
  .ok { segmentSequence, payloadOffset := segmentOffset, encodedLength, firstFrameIndex
        frameCount, firstGlobalSequence }

/-- The remaining segment descriptors, and the number of frames behind them. -/
def decodeSegmentDescriptorsFrom (encoded : List UInt8)
    (directoryOffset payloadOffset totalLength : Nat) :
    (remaining index expectedFirstFrame expectedGlobalSequence : Nat) →
    Except (Fault Error) (List SegmentDescriptorV1 × Nat)
  | 0, _, expectedFirstFrame, _ => .ok ([], expectedFirstFrame)
  | remaining + 1, index, expectedFirstFrame, expectedGlobalSequence => do
      let descriptor ← decodeSegmentDescriptor encoded directoryOffset index expectedFirstFrame
        expectedGlobalSequence payloadOffset totalLength
      let nextFirstFrame ← okOr (.err .frameCountCap)
        (checkedAdd expectedFirstFrame descriptor.frameCount)
      let nextGlobalSequence ← okOr (.err .frameCountCap)
        (checkedAdd expectedGlobalSequence descriptor.frameCount)
      let (rest, frames) ← decodeSegmentDescriptorsFrom encoded directoryOffset payloadOffset
        totalLength remaining (index + 1) nextFirstFrame nextGlobalSequence
      .ok (descriptor :: rest, frames)

def decodeSegmentDescriptors (encoded : List UInt8)
    (directoryOffset segmentCount totalFrameCount payloadOffset totalLength : Nat) :
    Except (Fault Error) (List SegmentDescriptorV1) := do
  let (descriptors, frames) ← decodeSegmentDescriptorsFrom encoded directoryOffset payloadOffset
    totalLength segmentCount 0 0 0
  refuse (frames ≠ totalFrameCount) .noncanonicalLayout
  .ok descriptors

/-- One pass of the loop over the frame descriptors. -/
def decodeFrameDescriptor (encoded : List UInt8)
    (directoryOffset payloadOffset totalLength index : Nat) :
    Except (Fault Error) FrameDescriptorV1 := do
  let offset ← entryOffset directoryOffset index sealedBundleFrameDescriptorBytesV1
  let _ ← checkedSlice encoded offset sealedBundleFrameDescriptorBytesV1
  let reserved ← readUint 4 encoded (offset + 20)
  refuse (reserved ≠ 0) .nonzeroReserved
  let segmentSequence ← readUint 8 encoded offset
  let globalSequence ← readUint 8 encoded (offset + 8)
  let segmentFrameSequence ← readUint 4 encoded (offset + 16)
  let frameOffset ← readUint 8 encoded (offset + 24)
  let encodedLength ← readUint 8 encoded (offset + 32)
  refuse (globalSequence ≠ index ∨ frameOffset < payloadOffset ∨
    encodedLength < frameHeaderBytesV1 + frameTagBytesV1) .noncanonicalLayout
  let stop ← checkedEnd frameOffset encodedLength
  refuse (stop > totalLength) .truncated
  .ok { segmentSequence, globalSequence, segmentFrameSequence, payloadOffset := frameOffset
        encodedLength }

def decodeFrameDescriptors (encoded : List UInt8)
    (directoryOffset frameCount payloadOffset totalLength : Nat) :
    Except (Fault Error) (List FrameDescriptorV1) :=
  (List.range frameCount).mapM
    (decodeFrameDescriptor encoded directoryOffset payloadOffset totalLength)

/-- The frames of one segment, and where they end. -/
def contiguousFrames (frames : List FrameDescriptorV1) (segmentSequence : Nat) :
    (remaining expectedSegmentFrameSequence expectedPayloadOffset expectedFrameIndex : Nat) →
    Except (Fault Error) (Nat × Nat)
  | 0, _, expectedPayloadOffset, expectedFrameIndex =>
      .ok (expectedPayloadOffset, expectedFrameIndex)
  | remaining + 1, expectedSegmentFrameSequence, expectedPayloadOffset, expectedFrameIndex => do
      let frame ← okOr (.err .noncanonicalLayout) frames[expectedFrameIndex]?
      refuse (frame.segmentSequence ≠ segmentSequence ∨
        frame.segmentFrameSequence ≠ expectedSegmentFrameSequence ∨
        frame.payloadOffset ≠ expectedPayloadOffset) .noncanonicalLayout
      let stop ← checkedEnd frame.payloadOffset frame.encodedLength
      contiguousFrames frames segmentSequence remaining (expectedSegmentFrameSequence + 1) stop
        (expectedFrameIndex + 1)

def contiguousSegments (frames : List FrameDescriptorV1) : List SegmentDescriptorV1 →
    (expectedPayloadOffset expectedFrameIndex : Nat) → Except (Fault Error) (Nat × Nat)
  | [], expectedPayloadOffset, expectedFrameIndex =>
      .ok (expectedPayloadOffset, expectedFrameIndex)
  | segment :: rest, expectedPayloadOffset, expectedFrameIndex => do
      refuse (segment.payloadOffset ≠ expectedPayloadOffset) .noncanonicalLayout
      let start ← checkedEnd expectedPayloadOffset segmentHeaderBytesV1
      let segmentEnd ← checkedEnd segment.payloadOffset segment.encodedLength
      let (stop, frameIndex) ← contiguousFrames frames segment.segmentSequence segment.frameCount
        0 start expectedFrameIndex
      refuse (stop ≠ segmentEnd) .noncanonicalLayout
      contiguousSegments frames rest stop frameIndex

def validateDescriptorContiguity (segments : List SegmentDescriptorV1)
    (frames : List FrameDescriptorV1) (payloadOffset totalLength : Nat) :
    Except (Fault Error) PUnit := do
  let (stop, frameIndex) ← contiguousSegments frames segments payloadOffset 0
  refuse (frameIndex ≠ frames.length ∨ stop ≠ totalLength) .noncanonicalLayout

/-! ## The parts -/

def readFrameBytes (encoded : List UInt8) (frame : FrameDescriptorV1) :
    Except (Fault Error) (List UInt8) :=
  checkedSlice encoded frame.payloadOffset frame.encodedLength

/-- The header and the frames that a descriptor points to. -/
def readSegmentBytes (encoded : List UInt8) (frames : List FrameDescriptorV1)
    (segment : SegmentDescriptorV1) : Except (Fault Error) SealedBundleSegmentV1 := do
  let headerBytes ← checkedSlice encoded segment.payloadOffset segmentHeaderBytesV1
  let frameEnd ← checkedEnd segment.firstFrameIndex segment.frameCount
  let own ← okOr .panicked
    (if frameEnd ≤ frames.length then
      some ((frames.drop segment.firstFrameIndex).take segment.frameCount) else none)
  let encodedFrames ← own.mapM (readFrameBytes encoded)
  .ok { encodedHeader := .ofBytes headerBytes, encodedFrames }

/-- The directory of a bundle whose header was read. -/
def readDirectory (encoded : List UInt8) (header : Header) :
    Except (Fault Error) (List SegmentDescriptorV1 × List FrameDescriptorV1) := do
  let segmentDescriptors ← decodeSegmentDescriptors encoded header.directoryOffset
    header.segmentCount header.frameCount header.payloadOffset header.totalLength
  let frameDirectoryOffset ← entryOffset header.directoryOffset header.segmentCount
    sealedBundleSegmentDescriptorBytesV1
  let frameDescriptors ← decodeFrameDescriptors encoded frameDirectoryOffset header.frameCount
    header.payloadOffset header.totalLength
  validateDescriptorContiguity segmentDescriptors frameDescriptors header.payloadOffset
    header.totalLength
  .ok (segmentDescriptors, frameDescriptors)

def decode [Sha256] (encoded : List UInt8) :
    Except (Fault Error) SealedEncryptedCoreResultBundleV1 := do
  let header ← readHeader encoded
  let (segmentDescriptors, frameDescriptors) ← readDirectory encoded header
  let encodedManifest ← checkedSlice encoded sealedBundleHeaderBytesV1 header.manifestLength
  let segments ← segmentDescriptors.mapM (readSegmentBytes encoded frameDescriptors)
  let bundle ← (fromEncryptedParts header.resultId encodedManifest segments).mapError Fault.err
  refuse (bundle.frameCount ≠ header.frameCount ∨
    bundle.encodedFrameBytes ≠ header.payloadLength ∨
    bundle.encodedLen ≠ header.totalLength) .noncanonicalLayout
  let again ← okOr .panicked (encode bundle)
  refuse (again ≠ encoded) .noncanonicalLayout
  .ok bundle

end SealedBundle

end Evidentrail
