import Evidentrail.Bundle.Admitted
import Evidentrail.Bundle.Reader

/-!
# The layout of a bundle

What `encode` leaves in its buffer: the header, the manifest, the segment
descriptors, the frame descriptors and the payload (`layout`). It fills the
directory while it appends the payload; each loop turns the zeros in front of
its cursor into descriptors and leaves the rest alone.
-/

namespace Evidentrail

open Rust Std Encoding Bytes

namespace SealedBundle

/-! ## Descriptors -/

def SegmentDescriptorV1.fields (d : SegmentDescriptorV1) : List (Nat × List UInt8) :=
  [(0, beBytes 8 d.segmentSequence), (8, beBytes 8 d.payloadOffset),
    (16, beBytes 8 d.encodedLength), (24, beBytes 4 d.firstFrameIndex),
    (28, beBytes 4 d.frameCount), (32, beBytes 8 d.firstGlobalSequence)]

def SegmentDescriptorV1.encode (d : SegmentDescriptorV1) : List UInt8 := image 48 0 d.fields

def FrameDescriptorV1.fields (d : FrameDescriptorV1) : List (Nat × List UInt8) :=
  [(0, beBytes 8 d.segmentSequence), (8, beBytes 8 d.globalSequence),
    (16, beBytes 4 d.segmentFrameSequence), (24, beBytes 8 d.payloadOffset),
    (32, beBytes 8 d.encodedLength)]

def FrameDescriptorV1.encode (d : FrameDescriptorV1) : List UInt8 := image 40 0 d.fields

theorem SegmentDescriptorV1.inImage (d : SegmentDescriptorV1) : InImage 48 0 d.fields := by
  simp [fields, InImage]

theorem FrameDescriptorV1.inImage (d : FrameDescriptorV1) : InImage 40 0 d.fields := by
  simp [fields, InImage]

@[simp] theorem SegmentDescriptorV1.length_encode (d : SegmentDescriptorV1) :
    d.encode.length = 48 := length_image d.inImage

@[simp] theorem FrameDescriptorV1.length_encode (d : FrameDescriptorV1) :
    d.encode.length = 40 := length_image d.inImage

/-- The numbers that the fields have room for. -/
def SegmentDescriptorV1.InRange (d : SegmentDescriptorV1) : Prop :=
  d.segmentSequence < 2 ^ 64 ∧ d.payloadOffset < 2 ^ 64 ∧ d.encodedLength < 2 ^ 64 ∧
    d.firstFrameIndex < 2 ^ 32 ∧ d.frameCount < 2 ^ 32 ∧ d.firstGlobalSequence < 2 ^ 64

def FrameDescriptorV1.InRange (d : FrameDescriptorV1) : Prop :=
  d.segmentSequence < 2 ^ 64 ∧ d.globalSequence < 2 ^ 64 ∧ d.segmentFrameSequence < 2 ^ 32 ∧
    d.payloadOffset < 2 ^ 64 ∧ d.encodedLength < 2 ^ 64

/-- The descriptors of frames that follow each other from an offset on. -/
def framesAt (segment : Nat) : (index globalSequence offset : Nat) → List (List UInt8) →
    List FrameDescriptorV1
  | _, _, _, [] => []
  | index, globalSequence, offset, frame :: rest =>
      { segmentSequence := segment, globalSequence, segmentFrameSequence := index
        payloadOffset := offset, encodedLength := frame.length } ::
        framesAt segment (index + 1) (globalSequence + 1) (offset + frame.length) rest

/-- The descriptors of segments that follow each other, with those of their
frames. -/
def segmentsAt : (index globalSequence offset : Nat) → List SealedBundleSegmentV1 →
    List (SegmentDescriptorV1 × List FrameDescriptorV1)
  | _, _, _, [] => []
  | index, globalSequence, offset, segment :: rest =>
      ({ segmentSequence := index, payloadOffset := offset
         encodedLength := segment.encodedLength, firstFrameIndex := globalSequence
         frameCount := segment.encodedFrames.length, firstGlobalSequence := globalSequence },
        framesAt index 0 globalSequence (offset + segmentHeaderBytesV1) segment.encodedFrames) ::
        segmentsAt (index + 1) (globalSequence + segment.encodedFrames.length)
          (offset + segment.encodedLength) rest

/-- The segment headers and frames, one behind the other. -/
def payload (segments : List SealedBundleSegmentV1) : List UInt8 :=
  segments.flatMap fun segment => segment.encodedHeader.asBytes ++ segment.encodedFrames.flatten

theorem length_framesAt (segment index globalSequence offset : Nat) (frames : List (List UInt8)) :
    (framesAt segment index globalSequence offset frames).length = frames.length := by
  induction frames generalizing index globalSequence offset with
  | nil => rfl
  | cons frame rest ih => rw [framesAt, List.length_cons, List.length_cons, ih]

theorem length_segmentsAt (index globalSequence offset : Nat)
    (segments : List SealedBundleSegmentV1) :
    (segmentsAt index globalSequence offset segments).length = segments.length := by
  induction segments generalizing index globalSequence offset with
  | nil => rfl
  | cons segment rest ih => rw [segmentsAt, List.length_cons, List.length_cons, ih]

theorem length_payload (segments : List SealedBundleSegmentV1) :
    (payload segments).length = byteTotal segments := by
  induction segments with
  | nil => rfl
  | cons segment rest ih =>
      have hpayload : payload (segment :: rest) =
          (segment.encodedHeader.asBytes ++ segment.encodedFrames.flatten) ++ payload rest := rfl
      rw [hpayload, List.length_append, ih, byteTotal_cons, List.length_append,
        FixedBytes.length_asBytes, List.length_flatten]
      rfl

/-! ## The loops -/

/-- What the frames of one segment leave: their descriptors in place of the
zeros in front, and their bytes at the end. -/
theorem encodeFrames_eq {frameDirectoryOffset segment spare : Nat} (hsegment : segment < 2 ^ 64) :
    ∀ {frames : List (List UInt8)} {index : Nat} {w : Writer} {pre post : List UInt8},
      w.encoded = pre ++ (zeros (frames.length * 40 + spare) ++ post) →
      pre.length = frameDirectoryOffset + w.frameIndex * 40 →
      index + frames.length < 2 ^ 32 → w.globalSequence + frames.length < 2 ^ 64 →
      w.payloadCursor + (frames.map List.length).sum < 2 ^ 64 →
      encodeFrames frameDirectoryOffset segment index frames w = some {
        encoded := pre ++ ((framesAt segment index w.globalSequence w.payloadCursor frames).flatMap
          FrameDescriptorV1.encode ++ (zeros spare ++ (post ++ frames.flatten)))
        payloadCursor := w.payloadCursor + (frames.map List.length).sum
        frameIndex := w.frameIndex + frames.length
        globalSequence := w.globalSequence + frames.length }
  | [], index, w, pre, post, hencoded, _, _, _, _ => by
      obtain ⟨encoded, payloadCursor, frameIndex, globalSequence⟩ := w
      simp only at hencoded
      subst hencoded
      simp [encodeFrames, framesAt]
  | frame :: rest, index, w, pre, post, hencoded, hpre, hindex, hglobal, hcursor => by
      simp only [List.length_cons, List.map_cons, List.sum_cons] at hindex hglobal hcursor
      let d : FrameDescriptorV1 :=
        { segmentSequence := segment, globalSequence := w.globalSequence
          segmentFrameSequence := index, payloadOffset := w.payloadCursor
          encodedLength := frame.length }
      have hzeros : zeros ((frame :: rest).length * 40 + spare) =
          zeros 40 ++ zeros (rest.length * 40 + spare) := by
        rw [zeros, zeros, zeros, List.replicate_append_replicate, List.length_cons]
        congr 1
        omega
      have hwrite := @writeAll_image pre.length 0 40 d.fields pre
        (zeros (rest.length * 40 + spare) ++ post) d.inImage rfl
      rw [encodeFrames, beField_of_lt (by omega), beField_of_lt (by omega),
        beField_of_lt (by omega), beField_of_lt (by omega), beField_of_lt (by omega), hencoded,
        hzeros, List.append_assoc]
      simp only [sealedBundleFrameDescriptorBytesV1, ← hpre]
      rw [show writeAll pre.length [(0, some (beBytes 8 segment)), _, _, _, _] _ = _ from hwrite,
        Option.bind_eq_bind, Option.bind_some]
      have hih := @encodeFrames_eq frameDirectoryOffset segment spare hsegment rest (index + 1)
        { encoded := pre ++ (d.encode ++ (zeros (rest.length * 40 + spare) ++ post)) ++ frame
          payloadCursor := w.payloadCursor + frame.length
          frameIndex := w.frameIndex + 1
          globalSequence := w.globalSequence + 1 }
        (pre ++ d.encode) (post ++ frame)
        (by simp only [List.append_assoc])
        (show (pre ++ d.encode).length = frameDirectoryOffset + (w.frameIndex + 1) * 40 by
          rw [List.length_append, FrameDescriptorV1.length_encode]; omega)
        (by omega) (by simp only; omega) (by simp only; omega)
      rw [show d.encode = image 40 0 d.fields from rfl] at hih
      rw [hih]
      simp only [framesAt, List.flatMap_cons, List.flatten_cons, List.map_cons, List.sum_cons,
        List.length_cons, List.append_assoc, Nat.add_assoc, Nat.add_comm 1]
      rfl

/-- The tables of segment and frame descriptors. -/
def segmentTable (directory : List (SegmentDescriptorV1 × List FrameDescriptorV1)) : List UInt8 :=
  directory.flatMap fun entry => entry.1.encode

def frameTable (directory : List (SegmentDescriptorV1 × List FrameDescriptorV1)) : List UInt8 :=
  directory.flatMap fun entry => entry.2.flatMap FrameDescriptorV1.encode

theorem length_segmentTable (directory : List (SegmentDescriptorV1 × List FrameDescriptorV1)) :
    (segmentTable directory).length = directory.length * 48 :=
  length_flatMap_encode (fun entry => entry.1.length_encode) directory

theorem length_frameTable (index globalSequence offset : Nat)
    (segments : List SealedBundleSegmentV1) :
    (frameTable (segmentsAt index globalSequence offset segments)).length =
      frameTotal segments * 40 := by
  induction segments generalizing index globalSequence offset with
  | nil => rfl
  | cons segment rest ih =>
      have htail := ih (index + 1) (globalSequence + segment.encodedFrames.length)
        (offset + segment.encodedLength)
      rw [frameTable] at htail ⊢
      rw [segmentsAt, List.flatMap_cons, List.length_append, htail,
        length_flatMap_encode FrameDescriptorV1.length_encode, length_framesAt, frameTotal_cons,
        Nat.add_mul]

/-- What the segments leave: two tables in place of two ranges of zeros, and the
payload at the end. -/
theorem encodeSegments_eq {directoryOffset frameDirectoryOffset : Nat} :
    ∀ {segments : List SealedBundleSegmentV1} {index : Nat} {w : Writer}
      {pre middle post : List UInt8},
      w.encoded = pre ++ (zeros (segments.length * 48) ++
        (middle ++ (zeros (frameTotal segments * 40) ++ post))) →
      pre.length = directoryOffset + index * 48 →
      pre.length + segments.length * 48 + middle.length =
        frameDirectoryOffset + w.frameIndex * 40 →
      w.globalSequence = w.frameIndex → index + segments.length < 2 ^ 32 →
      w.frameIndex + frameTotal segments < 2 ^ 32 →
      w.payloadCursor + byteTotal segments < 2 ^ 64 →
      encodeSegments directoryOffset frameDirectoryOffset index segments w = some {
        encoded := pre ++ (segmentTable (segmentsAt index w.frameIndex w.payloadCursor segments) ++
          (middle ++ (frameTable (segmentsAt index w.frameIndex w.payloadCursor segments) ++
            (post ++ payload segments))))
        payloadCursor := w.payloadCursor + byteTotal segments
        frameIndex := w.frameIndex + frameTotal segments
        globalSequence := w.frameIndex + frameTotal segments }
  | [], index, w, pre, middle, post, hencoded, _, _, hsame, _, _, _ => by
      obtain ⟨encoded, payloadCursor, frameIndex, globalSequence⟩ := w
      simp only at hencoded hsame
      subst hencoded hsame
      simp [encodeSegments, segmentsAt, segmentTable, frameTable, payload, frameTotal, byteTotal,
        zeros]
  | segment :: rest, index, w, pre, middle, post, hencoded, hpre, hmiddle, hsame, hindex, hframes,
      hbytes => by
      rw [List.length_cons] at hindex hmiddle
      rw [frameTotal_cons] at hframes
      rw [byteTotal_cons] at hbytes
      have hlength : segment.encodedLength =
        segmentHeaderBytesV1 + (segment.encodedFrames.map List.length).sum := rfl
      let d : SegmentDescriptorV1 :=
        { segmentSequence := index, payloadOffset := w.payloadCursor
          encodedLength := segment.encodedLength, firstFrameIndex := w.frameIndex
          frameCount := segment.encodedFrames.length, firstGlobalSequence := w.frameIndex }
      have hzeros : zeros ((segment :: rest).length * 48) =
          zeros 48 ++ zeros (rest.length * 48) := by
        rw [zeros, zeros, zeros, List.replicate_append_replicate, List.length_cons]
        congr 1
        omega
      have hwrite := @writeAll_image pre.length 0 48 d.fields pre
        (zeros (rest.length * 48) ++
          (middle ++ (zeros (frameTotal (segment :: rest) * 40) ++ post))) d.inImage rfl
      rw [encodeSegments, hsame, beField_of_lt (by omega), beField_of_lt (by omega),
        beField_of_lt (by omega), beField_of_lt (by omega), beField_of_lt (by omega),
        beField_of_lt (by omega), hencoded, hzeros, List.append_assoc]
      simp only [sealedBundleSegmentDescriptorBytesV1, ← hpre]
      rw [show writeAll pre.length [(0, some (beBytes 8 index)), _, _, _, _, _] _ = _ from hwrite,
        Option.bind_eq_bind, Option.bind_some]
      have hfilled := @encodeFrames_eq frameDirectoryOffset index (frameTotal rest * 40) (by omega)
        segment.encodedFrames 0
        { encoded := pre ++ (image 48 0 d.fields ++ (zeros (rest.length * 48) ++
            (middle ++ (zeros (frameTotal (segment :: rest) * 40) ++ post)))) ++
              segment.encodedHeader.asBytes
          payloadCursor := w.payloadCursor + segmentHeaderBytesV1
          frameIndex := w.frameIndex
          globalSequence := w.frameIndex }
        (pre ++ (d.encode ++ (zeros (rest.length * 48) ++ middle)))
        (post ++ segment.encodedHeader.asBytes)
        (by rw [frameTotal_cons, Nat.add_mul]
            simp only [List.append_assoc, SegmentDescriptorV1.encode])
        (by simp only [List.length_append, SegmentDescriptorV1.length_encode, length_zeros]; omega)
        (by omega) (by simp only; omega) (by simp only; omega)
      rw [hfilled, Option.bind_eq_bind, Option.bind_some]
      have hih := @encodeSegments_eq directoryOffset frameDirectoryOffset rest (index + 1)
        { encoded := pre ++ (d.encode ++ (zeros (rest.length * 48) ++ middle)) ++
            ((framesAt index 0 w.frameIndex (w.payloadCursor + segmentHeaderBytesV1)
              segment.encodedFrames).flatMap FrameDescriptorV1.encode ++
                (zeros (frameTotal rest * 40) ++ (post ++ segment.encodedHeader.asBytes ++
                  segment.encodedFrames.flatten)))
          payloadCursor := w.payloadCursor + segmentHeaderBytesV1 +
            (segment.encodedFrames.map List.length).sum
          frameIndex := w.frameIndex + segment.encodedFrames.length
          globalSequence := w.frameIndex + segment.encodedFrames.length }
        (pre ++ d.encode)
        (middle ++ (framesAt index 0 w.frameIndex
          (w.payloadCursor + segmentHeaderBytesV1) segment.encodedFrames).flatMap
            FrameDescriptorV1.encode)
        (post ++ (segment.encodedHeader.asBytes ++ segment.encodedFrames.flatten))
        (by simp only [List.append_assoc])
        (by rw [List.length_append, SegmentDescriptorV1.length_encode]; omega)
        (by
          rw [List.length_append, List.length_append, SegmentDescriptorV1.length_encode,
            length_flatMap_encode FrameDescriptorV1.length_encode, length_framesAt]
          simp only
          omega)
        rfl (by omega) (by simp only; omega) (by simp only; omega)
      rw [hih]
      simp only [segmentsAt, segmentTable, frameTable, payload, List.flatMap_cons, hlength,
        frameTotal_cons, byteTotal_cons, List.append_assoc, Nat.add_assoc]
      rfl

/-! ## The whole -/

@[simp] theorem length_bundleMagic : (asciiBytes "EVRSEB01").length = 8 := by decide

variable [Sha256]

def directoryOffset (b : SealedEncryptedCoreResultBundleV1) : Nat :=
  128 + b.encodedManifest.length

def payloadOffset (b : SealedEncryptedCoreResultBundleV1) : Nat :=
  directoryOffset b + directoryLength b.segments.length b.frameCount

/-- The header and the manifest, field by field. -/
def front (b : SealedEncryptedCoreResultBundleV1) : List (List UInt8) :=
  [asciiBytes "EVRSEB01", u16Be 1, u16Be 1, u16Be 1, beBytes 2 128, zeros 16, b.resultId.asBytes,
    beBytes 8 b.encodedLen, beBytes 8 128, beBytes 8 b.encodedManifest.length,
    beBytes 8 (directoryOffset b), beBytes 8 (directoryLength b.segments.length b.frameCount),
    beBytes 8 (payloadOffset b), beBytes 8 b.encodedFrameBytes, beBytes 4 b.segments.length,
    beBytes 4 b.frameCount, b.encodedManifest]

/-- The descriptors of the segments and their frames. -/
def directory (b : SealedEncryptedCoreResultBundleV1) :
    List (SegmentDescriptorV1 × List FrameDescriptorV1) :=
  segmentsAt 0 0 (payloadOffset b) b.segments

def layout (b : SealedEncryptedCoreResultBundleV1) : List UInt8 :=
  (front b).flatten ++ (segmentTable (directory b) ++ (frameTable (directory b) ++
    payload b.segments))

theorem length_front (b : SealedEncryptedCoreResultBundleV1) :
    (front b).flatten.length = directoryOffset b := by
  simp only [front, List.flatten_cons, List.flatten_nil, List.append_nil, List.length_append,
    length_bundleMagic, length_u16Be, length_beBytes, length_zeros, HashId.length_asBytes,
    directoryOffset]
  omega

theorem length_layout (b : SealedEncryptedCoreResultBundleV1) :
    (layout b).length = b.encodedLen := by
  obtain ⟨hadmitted, -⟩ := admitted b
  have hlength := hadmitted.length
  have hframes := hadmitted.frames
  have hbytes := hadmitted.bytes
  rw [layout, List.length_append, List.length_append, List.length_append, length_front,
    length_segmentTable, directory, length_segmentsAt, length_frameTable, length_payload]
  rw [directoryLength] at hlength
  rw [directoryOffset]
  omega

/-- The buffer with the header and the manifest in it. -/
theorem writeFront (b : SealedEncryptedCoreResultBundleV1) :
    writeAll 0
      [(0, some (asciiBytes "EVRSEB01")), (8, some (u16Be 1)), (10, some (u16Be 1)),
        (12, some (u16Be 1)), (14, beField 2 sealedBundleHeaderBytesV1),
        (32, some b.resultId.asBytes), (64, beField 8 b.encodedLen),
        (72, beField 8 sealedBundleHeaderBytesV1), (80, beField 8 b.encodedManifest.length),
        (88, beField 8 (directoryOffset b)),
        (96, beField 8 (directoryLength b.segments.length b.frameCount)),
        (104, beField 8 (payloadOffset b)), (112, beField 8 b.encodedFrameBytes),
        (120, beField 4 b.segments.length), (124, beField 4 b.frameCount),
        (128, some b.encodedManifest)] (zeros (payloadOffset b)) =
      some ((front b).flatten ++ zeros (directoryLength b.segments.length b.frameCount)) := by
  obtain ⟨hadmitted, -⟩ := admitted b
  have hmanifest := hadmitted.manifest.2
  have hsegments := hadmitted.segments.2
  have hframes := hadmitted.frameCount.2.1
  have hbytes := hadmitted.byteCount
  have hlength := hadmitted.lengthCap
  simp only [maxEncodedManifestBytesV1, manifestHeaderBytesV1, maxManifestPlaintextBytesV1,
    manifestTagBytesV1, maxMemoryEncryptedCoreFrameBytesV1, maxSealedBundleBytesV1,
    sealedBundleHeaderBytesV1, maxMemoryEncryptedCoreSegmentsV1,
    sealedBundleSegmentDescriptorBytesV1, maxMemoryEncryptedCoreFramesV1,
    sealedBundleFrameDescriptorBytesV1] at hmanifest hbytes hlength
  have hdirectory : directoryLength b.segments.length b.frameCount < 2 ^ 32 := by
    unfold directoryLength
    omega
  have hoffset : directoryOffset b < 2 ^ 32 := by
    unfold directoryOffset
    omega
  have hpayload : payloadOffset b < 2 ^ 64 := by
    unfold payloadOffset
    omega
  rw [sealedBundleHeaderBytesV1, beField_of_lt (by decide), beField_of_lt (by omega),
    beField_of_lt (by decide), beField_of_lt (by omega), beField_of_lt (by omega),
    beField_of_lt (by omega), beField_of_lt (by omega), beField_of_lt (by omega),
    beField_of_lt (by omega), beField_of_lt (by omega)]
  let fields : List (Nat × List UInt8) :=
    [(0, asciiBytes "EVRSEB01"), (8, u16Be 1), (10, u16Be 1), (12, u16Be 1), (14, beBytes 2 128),
      (32, b.resultId.asBytes), (64, beBytes 8 b.encodedLen), (72, beBytes 8 128),
      (80, beBytes 8 b.encodedManifest.length), (88, beBytes 8 (directoryOffset b)),
      (96, beBytes 8 (directoryLength b.segments.length b.frameCount)),
      (104, beBytes 8 (payloadOffset b)), (112, beBytes 8 b.encodedFrameBytes),
      (120, beBytes 4 b.segments.length), (124, beBytes 4 b.frameCount), (128, b.encodedManifest)]
  have hinside : InImage (payloadOffset b) 0 fields := by
    simp only [fields, InImage, length_bundleMagic, length_u16Be, length_beBytes,
      HashId.length_asBytes]
    refine ⟨by omega, by omega, by omega, by omega, by omega, by omega, by omega, by omega,
      by omega, by omega, by omega, by omega, by omega, by omega, by omega, by omega, ?_⟩
    rw [payloadOffset, directoryOffset]
    omega
  have hwrite := @writeAll_image 0 0 (payloadOffset b) fields [] [] hinside rfl
  have himage : image (payloadOffset b) 0 fields =
      (front b).flatten ++ zeros (directoryLength b.segments.length b.frameCount) := by
    have hgap : payloadOffset b - (128 + b.encodedManifest.length) =
        directoryLength b.segments.length b.frameCount := by
      rw [payloadOffset, directoryOffset]
      omega
    simp only [fields, image, front, length_bundleMagic, length_u16Be, length_beBytes,
      HashId.length_asBytes, List.flatten_cons, List.flatten_nil, List.append_assoc,
      List.nil_append, hgap]
    rfl
  rw [himage, List.append_nil, List.append_nil, Nat.sub_zero] at hwrite
  exact hwrite

/-- `encode` of an admitted bundle passes all its assertions. -/
theorem encode_eq (b : SealedEncryptedCoreResultBundleV1) : encode b = some (layout b) := by
  obtain ⟨hadmitted, -⟩ := admitted b
  have hsegments := hadmitted.segments.2
  have hframes := hadmitted.frameCount.2.1
  have htotal := hadmitted.frames
  have hbytes := hadmitted.bytes
  have hlength := hadmitted.length
  have hcap := hadmitted.lengthCap
  simp only [maxSealedBundleBytesV1, maxEncodedManifestBytesV1, manifestHeaderBytesV1,
    maxManifestPlaintextBytesV1, manifestTagBytesV1, maxMemoryEncryptedCoreFrameBytesV1,
    sealedBundleHeaderBytesV1, maxMemoryEncryptedCoreSegmentsV1,
    sealedBundleSegmentDescriptorBytesV1, maxMemoryEncryptedCoreFramesV1,
    sealedBundleFrameDescriptorBytesV1] at hcap
  have hdirectory : canonicalDirectoryLen b.segments.length b.frameCount =
      .ok (directoryLength b.segments.length b.frameCount) :=
    canonicalDirectoryLen_eq_ok.mpr ⟨by
      show directoryLength _ _ < 2 ^ 64
      unfold directoryLength
      omega, rfl⟩
  have hzeros : zeros (directoryLength b.segments.length b.frameCount) =
      zeros (b.segments.length * 48) ++ zeros (frameTotal b.segments * 40) := by
    rw [zeros, zeros, zeros, List.replicate_append_replicate, directoryLength, htotal]
  have hfront := writeFront b
  rw [hzeros] at hfront
  have hloop := @encodeSegments_eq (directoryOffset b)
    (directoryOffset b + b.segments.length * 48) b.segments 0
    { encoded := (front b).flatten ++ (zeros (b.segments.length * 48) ++
        zeros (frameTotal b.segments * 40))
      payloadCursor := payloadOffset b }
    (front b).flatten [] []
    (by simp) (by rw [length_front, Nat.zero_mul, Nat.add_zero])
    (by rw [length_front]; simp) rfl (by omega) (by simp only; omega)
    (by simp only [payloadOffset, directoryOffset]; omega)
  simp only [List.nil_append] at hloop
  have hlayout := length_layout b
  simp only [encode, hdirectory, Except.toOption, Option.bind_eq_bind, Option.bind_some]
  rw [show sealedBundleHeaderBytesV1 + b.encodedManifest.length = directoryOffset b from rfl,
    show directoryOffset b + directoryLength b.segments.length b.frameCount = payloadOffset b
      from rfl, hfront, Option.bind_some, sealedBundleSegmentDescriptorBytesV1, hloop,
    Option.bind_some]
  exact if_pos hlayout

end SealedBundle

end Evidentrail
