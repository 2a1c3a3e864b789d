import Evidentrail.Bundle.Layout
import Evidentrail.Bundle.Returned
import Evidentrail.Lib.Loop

/-!
# Reading a bundle back

`decode` of a layout passes its four checks one after the other: the header
reads as it was written, the descriptors stand where the loops look for them,
they meet end to end, and the slices they name are the parts.
-/

namespace Evidentrail

open Rust Std Encoding Bytes

namespace SealedBundle

variable {n : Nat} {bytes : List UInt8} {offset : Nat}

/-! ## Numbers -/

theorem readUint_eq_ok {width value : Nat} (hwidth : 0 < width) (hvalue : value < 256 ^ width)
    (h : slice bytes offset width = beBytes width value) :
    readUint width bytes offset = .ok value := by
  have hlength := congrArg List.length h
  rw [length_beBytes, slice, List.length_take, List.length_drop] at hlength
  rw [readUint, readBytes, if_pos (by omega), h]
  exact congrArg Except.ok (ofBe_beBytes hvalue)

theorem readBytes_eq_ok {n : Nat} {field : List UInt8} (hlength : field.length = n) (hn : 0 < n)
    (h : slice bytes offset n = field) : readBytes bytes offset n = .ok field := by
  have hslice := congrArg List.length h
  rw [hlength, slice, List.length_take, List.length_drop] at hslice
  rw [readBytes, if_pos (by omega), h]

/-! ## The header -/

section Header

variable [Sha256]

/-- The header of the layout. -/
def headerOf (b : SealedEncryptedCoreResultBundleV1) : Header where
  resultId := b.resultId
  segmentCount := b.segments.length
  frameCount := b.frameCount
  manifestLength := b.encodedManifest.length
  directoryOffset := directoryOffset b
  directoryLength := directoryLength b.segments.length b.frameCount
  payloadOffset := payloadOffset b
  payloadLength := b.encodedFrameBytes
  totalLength := b.encodedLen

theorem laid_front (b : SealedEncryptedCoreResultBundleV1) : Laid (layout b) 0 (front b) :=
  @laid_append (front b) []
    (segmentTable (directory b) ++ (frameTable (directory b) ++ payload b.segments))

/-- The numbers of a bundle that the header has room for. -/
structure Small (b : SealedEncryptedCoreResultBundleV1) : Prop where
  length : b.encodedLen < 2 ^ 32
  manifest : b.encodedManifest.length < 2 ^ 32
  directory : directoryLength b.segments.length b.frameCount < 2 ^ 32
  payload : b.encodedFrameBytes < 2 ^ 32

theorem small (b : SealedEncryptedCoreResultBundleV1) : Small b := by
  have hlength := (admitted b).1.length
  have hcap := (admitted b).1.lengthCap
  simp only [maxSealedBundleBytesV1, maxEncodedManifestBytesV1, manifestHeaderBytesV1,
    maxManifestPlaintextBytesV1, manifestTagBytesV1, maxMemoryEncryptedCoreFrameBytesV1,
    sealedBundleHeaderBytesV1, maxMemoryEncryptedCoreSegmentsV1,
    sealedBundleSegmentDescriptorBytesV1, maxMemoryEncryptedCoreFramesV1,
    sealedBundleFrameDescriptorBytesV1] at hcap
  exact ⟨by omega, by omega, by omega, by omega⟩

theorem payload_pos (b : SealedEncryptedCoreResultBundleV1) : 0 < b.encodedFrameBytes := by
  obtain ⟨hadmitted, -⟩ := admitted b
  rw [hadmitted.bytes]
  cases hsegments : b.segments with
  | nil =>
      have hsome := hadmitted.segments.1
      rw [hsegments] at hsome
      exact absurd hsome (Nat.lt_irrefl 0)
  | cons segment rest =>
      rw [byteTotal_cons, SealedBundleSegmentV1.encodedLength, segmentHeaderBytesV1]
      omega

theorem readHeader_layout (b : SealedEncryptedCoreResultBundleV1) :
    readHeader (layout b) = .ok (headerOf b) := by
  obtain ⟨hadmitted, -⟩ := admitted b
  have hmanifest := hadmitted.manifest
  have hlength := length_layout b
  have htotal := hadmitted.length
  have hpositive := payload_pos b
  have hcounts := validateCounts_eq_ok.mpr ⟨hadmitted.segments, hadmitted.frameCount⟩
  have hcap : directoryLength b.segments.length b.frameCount < 2 ^ 64 :=
    Nat.lt_trans (small b).directory (by decide)
  have hdirectory := canonicalDirectoryLen_eq_ok.mpr ⟨hcap, rfl⟩
  have hsmall := (small b).length
  have hmanifestSmall := (small b).manifest
  have hdirectorySmall := (small b).directory
  have hpayloadSmall := (small b).payload
  have hsegmentCount := hadmitted.segments.2
  have hframeCount := hadmitted.frameCount.2.1
  have hdirectoryAt : directoryOffset b = 128 + b.encodedManifest.length := rfl
  have hpayloadAt : payloadOffset b =
    directoryOffset b + directoryLength b.segments.length b.frameCount := rfl
  have hlaid := laid_front b
  simp only [front, Laid, length_bundleMagic, length_u16Be, length_beBytes, length_zeros,
    HashId.length_asBytes, Nat.reduceAdd, Nat.zero_add, and_true] at hlaid
  obtain ⟨hmagic, hversion, hsuite, hkind, hwidth, hzero, hid, hall, hmanifestOffset,
    hmanifestLength, hdirectoryOffset, hdirectoryLength, hpayloadOffset, hpayloadLength,
    hsegments, hframes, -⟩ := hlaid
  have hheader : sealedBundleHeaderBytesV1 = 128 := rfl
  obtain ⟨hflags, hreserved⟩ :=
    slice_split (show slice (layout b) 16 (4 + 12) = zeros 4 ++ zeros 12 from hzero) rfl
  have hbytes := hadmitted.byteCount
  simp only [readHeader, validateFixedHeader, except_bind_eq_ok, refuse_eq_ok, mapError_eq_ok,
    checkedEnd_eq_ok, checkedSlice_eq_ok]
  refine ⟨⟨⟩, by rw [sealedBundleHeaderBytesV1]; omega, ⟨⟩,
    by rw [hlength]; exact Nat.not_lt.mpr hadmitted.lengthCap,
    ⟨⟩, ⟨_, readBytes_eq_ok length_bundleMagic (by decide) hmagic, ⟨⟩, by simp,
      1, readUint_eq_ok (by decide) (by decide) hversion, ⟨⟩, by simp,
      1, readUint_eq_ok (by decide) (by decide) hsuite, ⟨⟩, by simp,
      1, readUint_eq_ok (by decide) (by decide) hkind, ⟨⟩, by simp,
      128, readUint_eq_ok (by decide) (by decide) hwidth, ⟨⟩, by simp [sealedBundleHeaderBytesV1],
      0, readUint_eq_ok (by decide) (by decide) hflags, ⟨⟩, by simp,
      zeros 12, readBytes_eq_ok length_zeros (by decide) hreserved, by decide⟩,
    b.encodedLen, readUint_eq_ok (by decide) (by omega) hall, ⟨⟩, by omega, ⟨⟩, by omega, ⟨⟩,
    Nat.not_lt.mpr hadmitted.lengthCap,
    b.resultId.asBytes, readBytes_eq_ok (HashId.length_asBytes _) (by decide) hid, ⟨⟩,
    by simp [hadmitted.identity],
    _, readUint_eq_ok (by decide) (by omega) hsegments,
    _, readUint_eq_ok (by decide) (by omega) hframes, ⟨⟩, hcounts,
    128, readUint_eq_ok (by decide) (by decide) hmanifestOffset,
    _, readUint_eq_ok (by decide) (by omega) hmanifestLength, ⟨⟩, by omega,
    _, readUint_eq_ok (by decide) (by omega) hdirectoryOffset,
    _, readUint_eq_ok (by decide) (by omega) hdirectoryLength,
    _, readUint_eq_ok (by decide) (by omega) hpayloadOffset,
    _, readUint_eq_ok (by decide) (by omega) hpayloadLength, ⟨⟩, by omega,
    _, hdirectory, _, ⟨?_, rfl⟩, _, ⟨?_, rfl⟩, _, ⟨?_, rfl⟩, ⟨⟩, ?_, _, ⟨?_, ?_, rfl⟩,
    _, ⟨?_, ?_, rfl⟩, _, ⟨?_, ?_, rfl⟩, ?_⟩
  · show _ < 2 ^ 64
    omega
  · show _ < 2 ^ 64
    omega
  · show _ < 2 ^ 64
    omega
  · push Not
    exact ⟨rfl, rfl, rfl, rfl, by omega⟩
  · show _ < 2 ^ 64
    omega
  · omega
  · show _ < 2 ^ 64
    omega
  · omega
  · show _ < 2 ^ 64
    omega
  · omega
  · rw [headerOf, HashId.ofBytes_asBytes]

/-! ## The descriptors -/

omit [Sha256] in
theorem entryOffset_eq_ok {tableOffset index width out : Nat} :
    entryOffset tableOffset index width = .ok out ↔
      tableOffset + index * width < u64Bound ∧ out = tableOffset + index * width := by
  simp only [entryOffset, except_bind_eq_ok, okOr_eq_ok, checkedMul_eq_some, checkedEnd_eq_ok]
  constructor
  · rintro ⟨_, ⟨-, rfl⟩, h⟩
    exact h
  · intro h
    exact ⟨_, ⟨by omega, rfl⟩, h⟩

omit [Sha256] in
/-- A descriptor that stands at an offset, field by field. -/
theorem SegmentDescriptorV1.laid {d : SegmentDescriptorV1}
    (h : slice bytes offset 48 = d.encode) : Laid bytes offset
      [beBytes 8 d.segmentSequence, beBytes 8 d.payloadOffset, beBytes 8 d.encodedLength,
        beBytes 4 d.firstFrameIndex, beBytes 4 d.frameCount, beBytes 8 d.firstGlobalSequence,
        zeros 8] := by
  refine laid_of_slice ?_
  simpa [encode, fields, image, zeros] using h

omit [Sha256] in
theorem FrameDescriptorV1.laid {d : FrameDescriptorV1}
    (h : slice bytes offset 40 = d.encode) : Laid bytes offset
      [beBytes 8 d.segmentSequence, beBytes 8 d.globalSequence, beBytes 4 d.segmentFrameSequence,
        zeros 4, beBytes 8 d.payloadOffset, beBytes 8 d.encodedLength] := by
  refine laid_of_slice ?_
  simpa [encode, fields, image, zeros] using h

end Header

/-- Reading what stands there brings the descriptor back. -/
theorem decodeSegmentDescriptor_eq {directoryOffset payloadOffset totalLength : Nat}
    {d : SegmentDescriptorV1} (hrange : d.InRange)
    (hend : directoryOffset + d.segmentSequence * 48 + 48 ≤ bytes.length)
    (hlength : bytes.length < 2 ^ 32)
    (hslice : slice bytes (directoryOffset + d.segmentSequence * 48) 48 = d.encode)
    (hcount : d.frameCount ≠ 0 ∧ d.frameCount ≤ maxFramesPerSegmentV1)
    (hstart : payloadOffset ≤ d.payloadOffset) (hheader : segmentHeaderBytesV1 ≤ d.encodedLength)
    (hstop : d.payloadOffset + d.encodedLength ≤ totalLength) (htotal : totalLength < 2 ^ 32) :
    decodeSegmentDescriptor bytes directoryOffset d.segmentSequence d.firstFrameIndex
      d.firstGlobalSequence payloadOffset totalLength = .ok d := by
  obtain ⟨hsequence, hoffset, hsize, hfirst, hframes, hglobal⟩ := hrange
  have hwidth : sealedBundleSegmentDescriptorBytesV1 = 48 := rfl
  obtain ⟨place, hplace⟩ : ∃ place, directoryOffset + d.segmentSequence * 48 = place := ⟨_, rfl⟩
  rw [hplace] at hend hslice
  have hlaid := SegmentDescriptorV1.laid hslice
  simp only [Laid, length_beBytes, length_zeros, and_true, Nat.add_assoc, Nat.reduceAdd] at hlaid
  obtain ⟨hsequenceAt, hoffsetAt, hsizeAt, hfirstAt, hframesAt, hglobalAt, hreservedAt⟩ := hlaid
  simp only [decodeSegmentDescriptor, except_bind_eq_ok, refuse_eq_ok, checkedSlice_eq_ok,
    checkedEnd_eq_ok, entryOffset_eq_ok]
  refine ⟨place, ⟨?_, hplace.symm⟩, _, ⟨?_, by omega, rfl⟩,
    0, readUint_eq_ok (by decide) (by decide) hreservedAt, ⟨⟩, by simp,
    _, readUint_eq_ok (by decide) hsequence hsequenceAt,
    _, readUint_eq_ok (by decide) hoffset hoffsetAt,
    _, readUint_eq_ok (by decide) hsize hsizeAt,
    _, readUint_eq_ok (by decide) hfirst hfirstAt,
    _, readUint_eq_ok (by decide) hframes hframesAt,
    _, readUint_eq_ok (by decide) hglobal hglobalAt, ⟨⟩, ?_, _, ⟨?_, rfl⟩, ⟨⟩, by omega, rfl⟩
  · show _ < 2 ^ 64
    rw [hwidth]
    omega
  · show _ < 2 ^ 64
    omega
  · push Not
    exact ⟨rfl, rfl, rfl, hcount.1, hcount.2, hstart, hheader⟩
  · show _ < 2 ^ 64
    omega

theorem decodeFrameDescriptor_eq {tableOffset payloadOffset totalLength : Nat}
    {d : FrameDescriptorV1} (hrange : d.InRange)
    (hend : tableOffset + d.globalSequence * 40 + 40 ≤ bytes.length)
    (hlength : bytes.length < 2 ^ 32)
    (hslice : slice bytes (tableOffset + d.globalSequence * 40) 40 = d.encode)
    (hstart : payloadOffset ≤ d.payloadOffset)
    (hlong : frameHeaderBytesV1 + frameTagBytesV1 ≤ d.encodedLength)
    (hstop : d.payloadOffset + d.encodedLength ≤ totalLength) (htotal : totalLength < 2 ^ 32) :
    decodeFrameDescriptor bytes tableOffset payloadOffset totalLength d.globalSequence = .ok d := by
  obtain ⟨hsequence, hglobal, hposition, hoffset, hsize⟩ := hrange
  have hwidth : sealedBundleFrameDescriptorBytesV1 = 40 := rfl
  obtain ⟨place, hplace⟩ : ∃ place, tableOffset + d.globalSequence * 40 = place := ⟨_, rfl⟩
  rw [hplace] at hend hslice
  have hlaid := FrameDescriptorV1.laid hslice
  simp only [Laid, length_beBytes, length_zeros, and_true, Nat.add_assoc, Nat.reduceAdd] at hlaid
  obtain ⟨hsequenceAt, hglobalAt, hpositionAt, hreservedAt, hoffsetAt, hsizeAt⟩ := hlaid
  simp only [decodeFrameDescriptor, except_bind_eq_ok, refuse_eq_ok, checkedSlice_eq_ok,
    checkedEnd_eq_ok, entryOffset_eq_ok]
  refine ⟨place, ⟨?_, hplace.symm⟩, _, ⟨?_, by omega, rfl⟩,
    0, readUint_eq_ok (by decide) (by decide) hreservedAt, ⟨⟩, by simp,
    _, readUint_eq_ok (by decide) hsequence hsequenceAt,
    _, readUint_eq_ok (by decide) hglobal hglobalAt,
    _, readUint_eq_ok (by decide) hposition hpositionAt,
    _, readUint_eq_ok (by decide) hoffset hoffsetAt,
    _, readUint_eq_ok (by decide) hsize hsizeAt, ⟨⟩, ?_, _, ⟨?_, rfl⟩, ⟨⟩, by omega, rfl⟩
  · show _ < 2 ^ 64
    rw [hwidth]
    omega
  · show _ < 2 ^ 64
    omega
  · push Not
    exact ⟨rfl, hstart, hlong⟩
  · show _ < 2 ^ 64
    omega

/-- The loop over the segment descriptors, from one entry on. -/
theorem decodeSegmentDescriptorsFrom_eq {tableOffset start totalLength : Nat}
    (hlength : bytes.length < 2 ^ 32) (htotal : totalLength < 2 ^ 32) :
    ∀ {segments : List SealedBundleSegmentV1} {index global offset : Nat},
      Laid bytes (tableOffset + index * 48)
        ((segmentsAt index global offset segments).map fun entry => entry.1.encode) →
      tableOffset + (index + segments.length) * 48 ≤ bytes.length →
      (∀ segment ∈ segments, segment.encodedFrames ≠ [] ∧
        segment.encodedFrames.length ≤ maxFramesPerSegmentV1) →
      start ≤ offset → offset + byteTotal segments ≤ totalLength →
      global + frameTotal segments < 2 ^ 32 →
      decodeSegmentDescriptorsFrom bytes tableOffset start totalLength segments.length index global
        global = .ok ((segmentsAt index global offset segments).map Prod.fst,
          global + frameTotal segments)
  | [], index, global, offset, _, _, _, _, _, _ => rfl
  | segment :: rest, index, global, offset, hlaid, hend, hcounts, hstart, hstop, hframes => by
      rw [List.length_cons] at hend
      rw [byteTotal_cons] at hstop
      rw [frameTotal_cons] at hframes
      obtain ⟨⟨hsome, hmost⟩, hrest⟩ := List.forall_mem_cons.mp hcounts
      rw [segmentsAt, List.map_cons, Laid, SegmentDescriptorV1.length_encode] at hlaid
      have hfirst := @decodeSegmentDescriptor_eq bytes tableOffset start totalLength
        { segmentSequence := index, payloadOffset := offset
          encodedLength := segment.encodedLength, firstFrameIndex := global
          frameCount := segment.encodedFrames.length, firstGlobalSequence := global }
        (by simp only [SegmentDescriptorV1.InRange]; omega) (by simp only; omega) hlength hlaid.1
        ⟨by simpa using hsome, hmost⟩ hstart
        (Nat.le_add_right _ _) (by simp only; omega) htotal
      have htail := @decodeSegmentDescriptorsFrom_eq tableOffset start totalLength hlength htotal
        rest (index + 1) (global + segment.encodedFrames.length) (offset + segment.encodedLength)
        (by rw [Nat.add_mul, Nat.one_mul, ← Nat.add_assoc]; exact hlaid.2) (by omega) hrest
        (by omega) (by omega) (by omega)
      simp only [List.length_cons, decodeSegmentDescriptorsFrom, except_bind_eq_ok, okOr_eq_ok,
        checkedAdd_eq_some]
      refine ⟨_, hfirst, _, ⟨?_, rfl⟩, _, ⟨?_, rfl⟩, _, htail, ?_⟩
      · show _ < 2 ^ 64
        simp only
        omega
      · show _ < 2 ^ 64
        simp only
        omega
      · rw [segmentsAt, List.map_cons, frameTotal_cons, Nat.add_assoc]

/-! ## The frame descriptors -/

theorem globals_framesAt (segment index global offset : Nat) (frames : List (List UInt8)) :
    (framesAt segment index global offset frames).map FrameDescriptorV1.globalSequence =
      List.range' global frames.length := by
  induction frames generalizing index global offset with
  | nil => rfl
  | cons frame rest ih =>
      rw [framesAt, List.map_cons, ih, List.length_cons, List.range'_succ]

theorem globals_segmentsAt (index global offset : Nat) (segments : List SealedBundleSegmentV1) :
    ((segmentsAt index global offset segments).flatMap Prod.snd).map
      FrameDescriptorV1.globalSequence = List.range' global (frameTotal segments) := by
  induction segments generalizing index global offset with
  | nil => rfl
  | cons segment rest ih =>
      rw [segmentsAt, List.flatMap_cons, List.map_append, globals_framesAt, ih, frameTotal_cons,
        List.range'_append_1]

/-- Where the frames of a segment lie. -/
theorem mem_framesAt {segment index global offset : Nat} {frames : List (List UInt8)}
    {d : FrameDescriptorV1} (h : d ∈ framesAt segment index global offset frames) :
    d.segmentSequence = segment ∧ d.segmentFrameSequence < index + frames.length ∧
      offset ≤ d.payloadOffset ∧
      d.payloadOffset + d.encodedLength ≤ offset + (frames.map List.length).sum ∧
      ∃ frame ∈ frames, d.encodedLength = frame.length := by
  induction frames generalizing index global offset with
  | nil => cases h
  | cons frame rest ih =>
      rw [List.length_cons, List.map_cons, List.sum_cons]
      rw [framesAt, List.mem_cons] at h
      obtain rfl | hrest := h
      · exact ⟨rfl, by simp only; omega, Nat.le_refl _, by simp only; omega, frame,
          List.mem_cons_self .., rfl⟩
      · obtain ⟨hsegment, hposition, hstart, hstop, found, hfound, hlength⟩ := ih hrest
        exact ⟨hsegment, by omega, by omega, by omega, found, List.mem_cons_of_mem _ hfound,
          hlength⟩

theorem mem_segmentsAt {index global offset : Nat} {segments : List SealedBundleSegmentV1}
    {d : FrameDescriptorV1} (h : d ∈ (segmentsAt index global offset segments).flatMap Prod.snd) :
    d.segmentSequence < index + segments.length ∧ d.segmentFrameSequence < frameTotal segments ∧
      offset ≤ d.payloadOffset ∧ d.payloadOffset + d.encodedLength ≤ offset + byteTotal segments ∧
      ∃ segment ∈ segments, ∃ frame ∈ segment.encodedFrames, d.encodedLength = frame.length := by
  induction segments generalizing index global offset with
  | nil => cases h
  | cons segment rest ih =>
      have hlength : segment.encodedLength =
        segmentHeaderBytesV1 + (segment.encodedFrames.map List.length).sum := rfl
      rw [List.length_cons, frameTotal_cons, byteTotal_cons]
      rw [segmentsAt, List.flatMap_cons, List.mem_append] at h
      obtain hfirst | hrest := h
      · obtain ⟨hsegment, hposition, hstart, hstop, frame, hframe, hsize⟩ := mem_framesAt hfirst
        exact ⟨by omega, by omega, by omega, by omega, segment, List.mem_cons_self .., frame,
          hframe, hsize⟩
      · obtain ⟨hsegment, hposition, hstart, hstop, found, hfound, hframe⟩ := ih hrest
        exact ⟨by omega, by omega, by omega, by omega, found, List.mem_cons_of_mem _ hfound,
          hframe⟩

/-- The pass over the frame descriptors. -/
theorem decodeFrameDescriptors_eq {tableOffset start totalLength : Nat}
    (hlength : bytes.length < 2 ^ 32) (htotal : totalLength < 2 ^ 32)
    {segments : List SealedBundleSegmentV1}
    (hlaid : Laid bytes tableOffset
      (((segmentsAt 0 0 start segments).flatMap Prod.snd).map FrameDescriptorV1.encode))
    (hend : tableOffset + frameTotal segments * 40 ≤ bytes.length)
    (hlong : ∀ segment ∈ segments, ∀ frame ∈ segment.encodedFrames,
      frameHeaderBytesV1 + frameTagBytesV1 ≤ frame.length)
    (hstop : start + byteTotal segments ≤ totalLength) (hcount : segments.length < 2 ^ 32) :
    decodeFrameDescriptors bytes tableOffset (frameTotal segments) start totalLength =
      .ok ((segmentsAt 0 0 start segments).flatMap Prod.snd) := by
  have hglobals := globals_segmentsAt 0 0 start segments
  rw [← List.range_eq_range'] at hglobals
  obtain ⟨l, hl⟩ : ∃ l, (segmentsAt 0 0 start segments).flatMap Prod.snd = l := ⟨_, rfl⟩
  have hmem := @mem_segmentsAt 0 0 start segments
  rw [hl] at hlaid hglobals hmem ⊢
  have hcountFrames : l.length = frameTotal segments := by
    rw [← List.length_map, hglobals, List.length_range]
  have hplace : ∀ {i : Nat} {d : FrameDescriptorV1}, l[i]? = some d → d.globalSequence = i := by
    intro i d hget
    have hmap := congrArg (·[i]?) hglobals
    obtain ⟨hi, -⟩ := List.getElem?_eq_some_iff.mp hget
    simp only [List.getElem?_map, hget, Option.map_some] at hmap
    rw [List.getElem?_range (by omega)] at hmap
    exact Option.some.inj hmap
  rw [decodeFrameDescriptors, ← hglobals, List.mapM_map]
  have hall := @Loop.mapM_eq_ok _ _ _ (decodeFrameDescriptor bytes tableOffset start totalLength ∘
    FrameDescriptorV1.globalSequence) id l ?_
  · rwa [List.map_id] at hall
  intro d hd
  obtain ⟨i, hget⟩ := List.mem_iff_getElem?.mp hd
  obtain ⟨hi, -⟩ := List.getElem?_eq_some_iff.mp hget
  have hglobal := hplace hget
  obtain ⟨hsegment, hposition, hfirst, hlast, segment, hsegmentMem, frame, hframe, hsize⟩ := hmem hd
  have hsizeLong := hlong segment hsegmentMem frame hframe
  refine decodeFrameDescriptor_eq ⟨by omega, by omega, by omega, by omega, by omega⟩ (by omega)
    hlength ?_ hfirst (by omega) (by omega) htotal
  rw [hglobal]
  exact hlaid.record FrameDescriptorV1.length_encode hget

end SealedBundle

end Evidentrail
