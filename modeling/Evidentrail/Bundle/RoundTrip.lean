import Mathlib.Data.List.Nodup
import Evidentrail.Bundle.Decoded

/-!
# The round trip of a bundle

The descriptors of a layout meet end to end and the slices they name are the
parts, so `decode` gives the bundle back. What it accepts it has encoded again
and compared; so it accepts layouts only, and what holds of the directory of a
layout holds of every directory that is accepted.
-/

namespace Evidentrail

open Rust Std Encoding Bytes

namespace SealedBundle

variable {bytes : List UInt8}

/-! ## Contiguity -/

/-- The frames of one segment, found at their place among all frames. -/
theorem contiguousFrames_eq {segment : Nat} {all : List FrameDescriptorV1} :
    ∀ {frames : List (List UInt8)} {before after : List FrameDescriptorV1}
      {position global offset index : Nat},
      all = before ++ (framesAt segment position global offset frames ++ after) →
      before.length = index → offset + (frames.map List.length).sum < 2 ^ 64 →
      contiguousFrames all segment frames.length position offset index =
        .ok (offset + (frames.map List.length).sum, index + frames.length)
  | [], _, _, _, _, _, _, _, _, _ => rfl
  | frame :: rest, before, after, position, global, offset, index, hall, hindex, hend => by
      rw [List.map_cons, List.sum_cons] at hend
      have hget : all[index]? = some
          { segmentSequence := segment, globalSequence := global
            segmentFrameSequence := position, payloadOffset := offset
            encodedLength := frame.length } := by
        rw [hall, ← hindex, List.getElem?_append_right (Nat.le_refl _), Nat.sub_self]
        rfl
      have htail := @contiguousFrames_eq segment all rest
        (before ++ [{ segmentSequence := segment, globalSequence := global
                      segmentFrameSequence := position, payloadOffset := offset
                      encodedLength := frame.length }]) after (position + 1) (global + 1)
        (offset + frame.length) (index + 1) (by rw [hall, framesAt]; simp)
        (by rw [List.length_append, hindex, List.length_singleton]) (by omega)
      simp only [List.length_cons, contiguousFrames, except_bind_eq_ok, okOr_eq_ok, refuse_eq_ok,
        checkedEnd_eq_ok, hget]
      refine ⟨_, rfl, ⟨⟩, by simp, _, ⟨?_, rfl⟩, ?_⟩
      · show _ < 2 ^ 64
        simp only
        omega
      · rw [htail, List.map_cons, List.sum_cons, Nat.add_assoc, Nat.add_assoc,
          Nat.add_comm 1 rest.length]

theorem contiguousSegments_eq {all : List FrameDescriptorV1} :
    ∀ {segments : List SealedBundleSegmentV1} {before : List FrameDescriptorV1}
      {position global offset index : Nat},
      all = before ++ (segmentsAt position global offset segments).flatMap Prod.snd →
      before.length = index → offset + byteTotal segments < 2 ^ 64 →
      contiguousSegments all ((segmentsAt position global offset segments).map Prod.fst) offset
        index = .ok (offset + byteTotal segments, index + frameTotal segments)
  | [], _, _, _, _, _, _, _, _ => rfl
  | segment :: rest, before, position, global, offset, index, hall, hindex, hend => by
      have hlength : segment.encodedLength =
        segmentHeaderBytesV1 + (segment.encodedFrames.map List.length).sum := rfl
      rw [byteTotal_cons] at hend
      rw [segmentsAt, List.flatMap_cons] at hall
      have hframes := contiguousFrames_eq hall hindex (by omega)
      have htail := @contiguousSegments_eq all rest
        (before ++ framesAt position 0 global (offset + segmentHeaderBytesV1) segment.encodedFrames)
        (position + 1) (global + segment.encodedFrames.length) (offset + segment.encodedLength)
        (index + segment.encodedFrames.length) (by rw [hall, List.append_assoc])
        (by rw [List.length_append, hindex, length_framesAt]) (by omega)
      simp only [segmentsAt, List.map_cons, contiguousSegments, except_bind_eq_ok, refuse_eq_ok,
        checkedEnd_eq_ok]
      refine ⟨⟨⟩, by simp, _, ⟨?_, rfl⟩, _, ⟨?_, rfl⟩, _, hframes, ⟨⟩, by simp only; omega, ?_⟩
      · show _ < 2 ^ 64
        omega
      · show _ < 2 ^ 64
        omega
      · have hstop : offset + segmentHeaderBytesV1 + (segment.encodedFrames.map List.length).sum =
            offset + segment.encodedLength := by omega
        simp only
        rw [hstop, htail, byteTotal_cons, frameTotal_cons, Nat.add_assoc, Nat.add_assoc]

/-! ## The parts -/

/-- The byte strings that the descriptors of a payload name. -/
def pieces (segments : List SealedBundleSegmentV1) : List (List UInt8) :=
  segments.flatMap fun segment => segment.encodedHeader.asBytes :: segment.encodedFrames

theorem flatten_pieces (segments : List SealedBundleSegmentV1) :
    (pieces segments).flatten = payload segments := by
  induction segments with
  | nil => rfl
  | cons segment rest ih =>
      have hpieces : pieces (segment :: rest) =
          segment.encodedHeader.asBytes :: segment.encodedFrames ++ pieces rest := rfl
      rw [hpieces, List.flatten_append, ih, List.flatten_cons]
      rfl

theorem readFrames_eq {segment : Nat} : ∀ {frames : List (List UInt8)}
    {position global offset : Nat}, Laid bytes offset frames →
    offset + (frames.map List.length).sum ≤ bytes.length → bytes.length < 2 ^ 64 →
    (framesAt segment position global offset frames).mapM (readFrameBytes bytes) = .ok frames
  | [], _, _, _, _, _, _ => rfl
  | frame :: rest, position, global, offset, hlaid, hend, hlength => by
      rw [List.map_cons, List.sum_cons] at hend
      have htail := @readFrames_eq segment rest (position + 1) (global + 1) (offset + frame.length)
        hlaid.2 (by omega) hlength
      have hframe : readFrameBytes bytes
          { segmentSequence := segment, globalSequence := global
            segmentFrameSequence := position, payloadOffset := offset
            encodedLength := frame.length } = .ok frame :=
        checkedSlice_eq_ok.mpr ⟨show _ < 2 ^ 64 by simp only; omega, by simp only; omega,
          hlaid.1.symm⟩
      rw [framesAt, List.mapM_cons, hframe, except_bind_ok, htail]
      rfl

theorem readSegments_eq (hlength : bytes.length < 2 ^ 32) {all : List FrameDescriptorV1} :
    ∀ {segments : List SealedBundleSegmentV1} {before : List FrameDescriptorV1}
      {position global offset : Nat},
      all = before ++ (segmentsAt position global offset segments).flatMap Prod.snd →
      before.length = global → Laid bytes offset (pieces segments) →
      offset + byteTotal segments ≤ bytes.length → global + frameTotal segments < 2 ^ 32 →
      ((segmentsAt position global offset segments).map Prod.fst).mapM
        (readSegmentBytes bytes all) = .ok segments
  | [], _, _, _, _, _, _, _, _, _ => rfl
  | segment :: rest, before, position, global, offset, hall, hbefore, hlaid, hend, hframes => by
      have hsize : segment.encodedLength =
        segmentHeaderBytesV1 + (segment.encodedFrames.map List.length).sum := rfl
      rw [byteTotal_cons] at hend
      rw [frameTotal_cons] at hframes
      rw [segmentsAt, List.flatMap_cons] at hall
      have hpieces : pieces (segment :: rest) =
          (segment.encodedHeader.asBytes :: segment.encodedFrames) ++ pieces rest := rfl
      rw [hpieces, laid_append_iff] at hlaid
      obtain ⟨⟨hheaderAt, hown⟩, hrest⟩ := hlaid
      have hwidth : segment.encodedHeader.asBytes.length = segmentHeaderBytesV1 :=
        FixedBytes.length_asBytes _
      rw [hwidth] at hheaderAt hown
      have hheader : checkedSlice bytes offset segmentHeaderBytesV1 =
          .ok segment.encodedHeader.asBytes :=
        checkedSlice_eq_ok.mpr ⟨show _ < 2 ^ 64 by omega, by omega, hheaderAt.symm⟩
      have hframeList := @readFrames_eq bytes position segment.encodedFrames 0 global
        (offset + segmentHeaderBytesV1) hown (by omega) (by omega)
      have hrange : (all.drop global).take segment.encodedFrames.length =
          framesAt position 0 global (offset + segmentHeaderBytesV1) segment.encodedFrames := by
        rw [hall, ← hbefore, List.drop_left]
        exact List.take_left' (length_framesAt ..)
      have hinside : global + segment.encodedFrames.length ≤ all.length := by
        rw [hall, List.length_append, List.length_append, length_framesAt, hbefore]
        omega
      have htail := @readSegments_eq hlength all rest
        (before ++ framesAt position 0 global (offset + segmentHeaderBytesV1) segment.encodedFrames)
        (position + 1) (global + segment.encodedFrames.length) (offset + segment.encodedLength)
        (by rw [hall, List.append_assoc]) (by rw [List.length_append, hbefore, length_framesAt])
        (by
          have hflatten : (segment.encodedHeader.asBytes :: segment.encodedFrames).flatten.length =
              segment.encodedLength := by
            rw [List.flatten_cons, List.length_append, List.length_flatten, hwidth, hsize]
          rwa [hflatten] at hrest)
        (by omega) (by omega)
      rw [segmentsAt, List.map_cons, List.mapM_cons]
      simp only [except_bind_eq_ok]
      refine ⟨segment, ?_, rest, htail, rfl⟩
      simp only [readSegmentBytes, except_bind_eq_ok, okOr_eq_ok, checkedEnd_eq_ok]
      refine ⟨_, hheader, _, ⟨show _ < 2 ^ 64 by omega, rfl⟩, _, ?_, _, hframeList, ?_⟩
      · rw [if_pos hinside, hrange]
      · rw [FixedBytes.ofBytes_asBytes]

/-- The ranges that a directory names: every segment header, and behind it the
frames of the segment. -/
def spans (segments : List SegmentDescriptorV1) (frames : List FrameDescriptorV1) :
    List (Nat × Nat) :=
  segments.flatMap fun segment => (segment.payloadOffset, segmentHeaderBytesV1) ::
    ((frames.drop segment.firstFrameIndex).take segment.frameCount).map
      fun frame => (frame.payloadOffset, frame.encodedLength)

theorem ranges_framesAt (segment position global offset : Nat) (frames : List (List UInt8)) :
    (framesAt segment position global offset frames).map
      (fun frame => (frame.payloadOffset, frame.encodedLength)) = ranges offset frames := by
  induction frames generalizing position global offset with
  | nil => rfl
  | cons frame rest ih => rw [framesAt, List.map_cons, ih, ranges]

theorem ranges_append (front back : List (List UInt8)) (offset : Nat) :
    ranges offset (front ++ back) =
      ranges offset front ++ ranges (offset + front.flatten.length) back := by
  induction front generalizing offset with
  | nil => rfl
  | cons field rest ih =>
      rw [List.cons_append, ranges, ih, ranges, List.flatten_cons, List.length_append,
        Nat.add_assoc, List.cons_append]

/-- The directory of a layout names the pieces in their order. -/
theorem spans_segmentsAt {all : List FrameDescriptorV1} :
    ∀ {segments : List SealedBundleSegmentV1} {before : List FrameDescriptorV1}
      {position global offset : Nat},
      all = before ++ (segmentsAt position global offset segments).flatMap Prod.snd →
      before.length = global →
      spans ((segmentsAt position global offset segments).map Prod.fst) all =
        ranges offset (pieces segments)
  | [], _, _, _, _, _, _ => rfl
  | segment :: rest, before, position, global, offset, hall, hbefore => by
      have hpieces : pieces (segment :: rest) =
          (segment.encodedHeader.asBytes :: segment.encodedFrames) ++ pieces rest := rfl
      have hwidth : segment.encodedHeader.asBytes.length = segmentHeaderBytesV1 :=
        FixedBytes.length_asBytes _
      have hsize : (segment.encodedHeader.asBytes :: segment.encodedFrames).flatten.length =
          segment.encodedLength := by
        rw [List.flatten_cons, List.length_append, List.length_flatten, hwidth]
        rfl
      rw [segmentsAt, List.flatMap_cons] at hall
      have hrange : (all.drop global).take segment.encodedFrames.length =
          framesAt position 0 global (offset + segmentHeaderBytesV1) segment.encodedFrames := by
        rw [hall, ← hbefore, List.drop_left]
        exact List.take_left' (length_framesAt ..)
      have htail := @spans_segmentsAt all rest
        (before ++ framesAt position 0 global (offset + segmentHeaderBytesV1) segment.encodedFrames)
        (position + 1) (global + segment.encodedFrames.length) (offset + segment.encodedLength)
        (by rw [hall, List.append_assoc]) (by rw [List.length_append, hbefore, length_framesAt])
      rw [spans] at htail
      rw [segmentsAt, List.map_cons, spans, List.flatMap_cons, htail, hpieces, ranges_append, hsize,
        ranges, hwidth]
      simp only [hrange, ranges_framesAt]

/-! ## The bundle -/

section Layout

variable [Sha256]

/-- The frame descriptors of a bundle, in the order of its frames. -/
def frameDescriptors (b : SealedEncryptedCoreResultBundleV1) : List FrameDescriptorV1 :=
  (directory b).flatMap Prod.snd

/-- What stands where in a layout. -/
theorem laid_layout (b : SealedEncryptedCoreResultBundleV1) :
    Laid (layout b) (directoryOffset b) ((directory b).map fun entry => entry.1.encode) ∧
      Laid (layout b) (directoryOffset b + b.segments.length * 48)
        ((frameDescriptors b).map FrameDescriptorV1.encode) ∧
      Laid (layout b) (payloadOffset b) (pieces b.segments) := by
  have hframes := (admitted b).1.frames
  have hsegmentTable : ((directory b).map fun entry => entry.1.encode).flatten =
      segmentTable (directory b) := List.flatMap_def.symm
  have hframeTable : ((frameDescriptors b).map FrameDescriptorV1.encode).flatten =
      frameTable (directory b) := by
    rw [← List.flatMap_def, frameDescriptors, List.flatMap_assoc]
    rfl
  have hwhole : layout b = (front b ++ ((directory b).map (fun entry => entry.1.encode) ++
      ((frameDescriptors b).map FrameDescriptorV1.encode ++ pieces b.segments))).flatten := by
    rw [List.flatten_append, List.flatten_append, List.flatten_append, hsegmentTable, hframeTable,
      flatten_pieces, layout]
  have hall := @laid_of_slice (layout b) _ 0
    (by rw [← hwhole]; exact slice_self rfl : slice (layout b) 0 (front b ++
      ((directory b).map (fun entry => entry.1.encode) ++
        ((frameDescriptors b).map FrameDescriptorV1.encode ++ pieces b.segments))).flatten.length =
          (front b ++ ((directory b).map (fun entry => entry.1.encode) ++
            ((frameDescriptors b).map FrameDescriptorV1.encode ++ pieces b.segments))).flatten)
  rw [laid_append_iff, laid_append_iff, laid_append_iff, hsegmentTable, hframeTable, length_front,
    length_segmentTable, directory, length_segmentsAt, length_frameTable, ← hframes,
    Nat.zero_add] at hall
  obtain ⟨-, hsegments, hframesLaid, hpieces⟩ := hall
  refine ⟨hsegments, hframesLaid, ?_⟩
  rwa [Nat.add_assoc] at hpieces

theorem readDirectory_layout (b : SealedEncryptedCoreResultBundleV1) :
    readDirectory (layout b) (headerOf b) =
      .ok ((directory b).map Prod.fst, frameDescriptors b) := by
  obtain ⟨hadmitted, -⟩ := admitted b
  obtain ⟨hsegments, hframes, hpieces⟩ := laid_layout b
  have hsmall := (small b).length
  have hlength := length_layout b
  have htotal := hadmitted.length
  have hbytes := hadmitted.bytes
  have hcount := hadmitted.frames
  have hcap := hadmitted.frameCount.2.1
  have hmost := hadmitted.segments.2
  have hpayload : payloadOffset b = directoryOffset b +
    (b.segments.length * 48 + b.frameCount * 40) := rfl
  have hdirectory : directoryOffset b = 128 + b.encodedManifest.length := rfl
  have hsize : directoryLength b.segments.length b.frameCount =
    b.segments.length * 48 + b.frameCount * 40 := rfl
  have hdescriptors := @decodeSegmentDescriptorsFrom_eq (layout b) (directoryOffset b)
    (payloadOffset b) b.encodedLen (by omega) hsmall b.segments 0 0 (payloadOffset b)
    (by rw [Nat.zero_mul, Nat.add_zero]; exact hsegments) (by omega) hadmitted.counts
    (Nat.le_refl _) (by omega) (by omega)
  have hframeDescriptors := @decodeFrameDescriptors_eq (layout b)
    (directoryOffset b + b.segments.length * 48) (payloadOffset b) b.encodedLen (by omega) hsmall
    b.segments hframes (by omega) hadmitted.long (by omega) (by omega)
  have hcontiguous := @contiguousSegments_eq (frameDescriptors b) b.segments [] 0 0
    (payloadOffset b) 0 rfl rfl (by omega)
  have hlast : (frameDescriptors b).length = frameTotal b.segments := by
    rw [← List.length_map, frameDescriptors, directory, globals_segmentsAt, List.length_range']
  simp only [readDirectory, headerOf, decodeSegmentDescriptors, validateDescriptorContiguity,
    except_bind_eq_ok, refuse_eq_ok, entryOffset_eq_ok, hcount]
  refine ⟨_, ⟨_, hdescriptors, ⟨⟩, by simp, rfl⟩, _, ⟨?_, rfl⟩, _, hframeDescriptors, ⟨⟩,
    ⟨_, hcontiguous, ?_⟩, rfl⟩
  · show _ < 2 ^ 64
    rw [sealedBundleSegmentDescriptorBytesV1]
    omega
  · rw [← directory, ← frameDescriptors, hlast]
    omega

/-- `decode` undoes `encode`. -/
theorem decode_layout (b : SealedEncryptedCoreResultBundleV1) : decode (layout b) = .ok b := by
  obtain ⟨hadmitted, -⟩ := admitted b
  obtain ⟨-, -, hpieces⟩ := laid_layout b
  have hsmall := (small b).length
  have hlength := length_layout b
  have htotal := hadmitted.length
  have hbytes := hadmitted.bytes
  have hcount := hadmitted.frames
  have hcap := hadmitted.frameCount.2.1
  have hpayload : payloadOffset b = 128 + b.encodedManifest.length +
    directoryLength b.segments.length b.frameCount := rfl
  have hmanifest : checkedSlice (layout b) sealedBundleHeaderBytesV1 b.encodedManifest.length =
      .ok b.encodedManifest := by
    have hlaid := laid_front b
    simp only [front, Laid, length_bundleMagic, length_u16Be, length_beBytes, length_zeros,
      HashId.length_asBytes, Nat.reduceAdd, Nat.zero_add, and_true] at hlaid
    obtain ⟨-, -, -, -, -, -, -, -, -, -, -, -, -, -, -, -, hmanifest⟩ := hlaid
    exact checkedSlice_eq_ok.mpr ⟨show 128 + _ < 2 ^ 64 by omega, show 128 + _ ≤ _ by omega,
      hmanifest.symm⟩
  have hsegments := @readSegments_eq (layout b) (by omega) (frameDescriptors b) b.segments [] 0 0
    (payloadOffset b) rfl rfl hpieces (by omega) (by omega)
  have hbuilt : fromEncryptedParts b.resultId b.encodedManifest b.segments = .ok b :=
    ofChecked_eq_ok.mpr ⟨_, b.admitted, rfl⟩
  simp only [decode, except_bind_eq_ok, mapError_eq_ok, okOr_eq_ok, refuse_eq_ok]
  exact ⟨headerOf b, readHeader_layout b, _, readDirectory_layout b, _, hmanifest, b.segments,
    hsegments, b, hbuilt, ⟨⟩, by simp [headerOf], layout b, encode_eq b, ⟨⟩, by simp, rfl⟩

/-! ## What is accepted -/

/-- What is accepted is the encoding of what is returned. -/
theorem eq_layout_of_decode {b : SealedEncryptedCoreResultBundleV1} (h : decode bytes = .ok b) :
    bytes = layout b := by
  simp only [decode, except_bind_eq_ok, mapError_eq_ok, okOr_eq_ok, refuse_eq_ok] at h
  obtain ⟨_, _, _, _, _, _, _, _, _, _, _, _, again, hagain, _, hsame, hend⟩ := h
  cases hend
  rw [encode_eq] at hagain
  rw [Option.some.inj hagain, not_not.mp hsame]

/-- No read of `decode` lies outside its input, and no step of it wraps. -/
theorem completes_decode (bytes : List UInt8) : Completes (decode bytes) := by
  refine (completes_readHeader bytes).bind fun header _ => ?_
  refine (completes_readDirectory bytes header).bind fun found hfound => ?_
  obtain ⟨segments, frames⟩ := found
  refine (completes_checkedSlice ..).bind fun manifest _ => ?_
  refine (Completes.mapM fun segment hsegment =>
    completes_readSegmentBytes (ranges_of_readDirectory hfound segment hsegment)).bind
      fun parts _ => ?_
  refine (Completes.mapError _).bind fun b _ => Completes.refuse.bind fun _ _ => ?_
  rw [encode_eq]
  exact (Completes.ok _).bind fun _ _ => Completes.refuse.bind fun _ _ => .ok _

/-- The numbers and links of the parts of a bundle. -/
structure WellLinked (b : SealedEncryptedCoreResultBundleV1) (manifest : SealedManifestV1)
    (parts : List DecodedSegment) : Prop where
  outer : SealedCoreResultManifestV1.decode b.resultId b.encodedManifest = .ok manifest
  decoded : List.Forall₂ DecodesTo b.segments parts
  sequences : parts.map (fun part => part.1.segmentSequence.toNat) = List.range parts.length
  globals : (parts.flatMap Prod.snd).map (fun frame => frame.header.globalSequence.toNat) =
    List.range b.frameCount
  positions : ∀ part ∈ parts, part.2.map (fun frame => frame.header.segmentFrameSequence.toNat) =
    List.range part.2.length
  chain : SegmentChain .zero parts
  nonces : (manifest.header.nonce ::
    (parts.flatMap Prod.snd).map fun frame => frame.header.nonce).Nodup

theorem wellLinked (b : SealedEncryptedCoreResultBundleV1) :
    ∃ manifest parts, WellLinked b manifest parts := by
  obtain ⟨hadmitted, manifest, parts, hmanifest, p, hparts⟩ := admitted b
  refine ⟨manifest, parts, hmanifest, hparts.decoded, ?_, ?_, hparts.positions, hparts.chain, ?_⟩
  · rw [hparts.sequences, hparts.decoded.length_eq, List.range_eq_range']
  · rw [hparts.globals, hadmitted.frames, List.range_eq_range']
  · have hnodup := hparts.nodup (List.nodup_singleton _)
    rw [hparts.seen, sawNonces] at hnodup
    have hperm : ((parts.flatMap Prod.snd).map fun frame => frame.header.nonce).reverse ++
        [manifest.header.nonce] = (manifest.header.nonce ::
          (parts.flatMap Prod.snd).map fun frame => frame.header.nonce).reverse :=
      (List.reverse_cons ..).symm
    rwa [hperm, List.nodup_reverse] at hnodup

/-- A bundle of any accepted parts is encoded without a failed assertion and
decoded to itself. No byte string makes the parser panic, and in what it accepts
the headers and frames of the directory tile the payload, one behind the other,
and the parts are numbered from zero, linked to each other and sealed under
different nonces. -/
theorem decode_encode_tiled :
    (∀ resultId encodedManifest segments b,
      fromEncryptedParts resultId encodedManifest segments = .ok b →
        b.resultId = resultId ∧ b.encodedManifest = encodedManifest ∧ b.segments = segments ∧
          ∃ bytes, encode b = some bytes ∧ bytes.length = b.encodedLen ∧ decode bytes = .ok b) ∧
    ∀ bytes, Completes (decode bytes) ∧ ∀ b, decode bytes = .ok b →
      encode b = some bytes ∧
      (∃ header segments frames, readHeader bytes = .ok header ∧
        readDirectory bytes header = .ok (segments, frames) ∧
        Tiles bytes.length header.payloadOffset (spans segments frames) ∧
        (spans segments frames).map (fun range => slice bytes range.1 range.2) =
          pieces b.segments) ∧
      ∃ manifest parts, WellLinked b manifest parts := by
  constructor
  · intro resultId encodedManifest segments b h
    obtain ⟨counts, hcounts, rfl⟩ := ofChecked_eq_ok.mp h
    exact ⟨rfl, rfl, rfl, _, encode_eq _, length_layout _, decode_layout _⟩
  · refine fun bytes => ⟨completes_decode bytes, fun b h => ?_⟩
    obtain rfl := eq_layout_of_decode h
    have hspans : spans ((directory b).map Prod.fst) (frameDescriptors b) =
        ranges (payloadOffset b) (pieces b.segments) :=
      @spans_segmentsAt (frameDescriptors b) b.segments [] 0 0 _ rfl rfl
    refine ⟨encode_eq b, ⟨headerOf b, _, _, readHeader_layout b, readDirectory_layout b, ?_, ?_⟩,
      wellLinked b⟩
    · have hend : (layout b).length = payloadOffset b + (pieces b.segments).flatten.length := by
        rw [length_layout, flatten_pieces, length_payload, ← (admitted b).1.bytes,
          (admitted b).1.length]
        rfl
      rw [hspans, hend]
      exact tiles_ranges _ _
    · rw [hspans]
      exact (laid_layout b).2.2.map_ranges

end Layout

/-! ## Two linked segments -/

/-- Frames around `ciphertexts`, each under the nonce of its global sequence and
linked to the one in front of it, with the last commitment. -/
def linkedFrames [Sha256] (segment : SegmentHeaderV1) : (position globalSequence : Nat) →
    (previous : FrameCommitmentV1) → (ciphertexts : List (List UInt8)) →
    Except SnapshotFormatErrorV1 (FrameCommitmentV1 × List (List UInt8))
  | _, _, previous, [] => .ok (previous, [])
  | position, globalSequence, previous, ciphertext :: rest => do
      let header ← FrameHeaderV1.new .authorizedOutcome (.ofNat globalSequence) (.ofNat position)
        (.ofNat ciphertext.length) (.repeated (.ofNat globalSequence)) previous
      let tag : FixedBytes 16 := .repeated (.ofNat ciphertext.length)
      let (final, frames) ← linkedFrames segment (position + 1) (globalSequence + 1)
        (deriveFrameCommitment segment header ciphertext tag) rest
      .ok (final, (header.encode ++ ciphertext ++ tag.asBytes) :: frames)

def linkedSegments [Sha256] (resultId : ResultId) : (sequence globalSequence : Nat) →
    (prior : FrameCommitmentV1) → (ciphertexts : List (List (List UInt8))) →
    Except SnapshotFormatErrorV1 (List SealedBundleSegmentV1)
  | _, _, _, [] => .ok []
  | sequence, globalSequence, prior, ciphertexts :: rest => do
      let header ← SegmentHeaderV1.new 1 resultId (.ofNat sequence) 0 10 prior
      let (final, frames) ← linkedFrames header 0 globalSequence (segmentStartCommitmentV1 header)
        ciphertexts
      let segments ← linkedSegments resultId (sequence + 1) (globalSequence + ciphertexts.length)
        final rest
      .ok (⟨⟨header.encode, header.length_encode⟩, frames⟩ :: segments)

/-- A manifest around `ciphertext`, under a nonce that no frame has. -/
def linkedManifest (resultId : ResultId) (ciphertext : List UInt8) :
    Except SnapshotFormatErrorV1 (List UInt8) := do
  let header ← ManifestHeaderV1.new 1 resultId 0 0 10 (.ofNat ciphertext.length) (.repeated 255)
  let tag : FixedBytes 16 := .repeated (.ofNat ciphertext.length)
  .ok (header.encode ++ ciphertext ++ tag.asBytes)

def linkedBundle [Sha256] (resultId : ResultId) (manifest : List UInt8)
    (ciphertexts : List (List (List UInt8))) : Option SealedEncryptedCoreResultBundleV1 := do
  let encodedManifest ← (linkedManifest resultId manifest).toOption
  let segments ← (linkedSegments resultId 0 0 .zero ciphertexts).toOption
  (fromEncryptedParts resultId encodedManifest segments).toOption

/-- A segment of two frames and one of a single empty frame: accepted, written
and read back, with the links between them. -/
theorem decode_encode_tiled_linked :
    letI := fips180
    ∃ b, linkedBundle (.repeated 3) [109, 97, 110] [[[104, 105], [106]], [[]]] = some b ∧
      b.segments.length = 2 ∧ b.frameCount = 3 ∧
      ∃ bytes, encode b = some bytes ∧ decode bytes = .ok b ∧
        ∃ manifest parts, WellLinked b manifest parts := by
  rw [fips180_eq]
  let := fips180Evaluated
  have hshape : (linkedBundle (.repeated 3) [109, 97, 110] [[[104, 105], [106]], [[]]]).map
      (fun b => (b.segments.length, b.frameCount)) = some (2, 3) := by
    decide +kernel
  obtain ⟨b, hb, hcounts⟩ := Option.map_eq_some_iff.mp hshape
  obtain ⟨hsegments, hframes⟩ := Prod.mk.inj hcounts
  have hparts := hb
  simp only [linkedBundle, bind, Option.bind_eq_some_iff] at hparts
  obtain ⟨encodedManifest, _, segments, _, haccepted⟩ := hparts
  obtain ⟨_, _, _, bytes, hencode, _, hdecode⟩ :=
    decode_encode_tiled.1 _ _ _ b (toOption_eq_some.mp haccepted)
  obtain ⟨_, _, hlinked⟩ := (decode_encode_tiled.2 bytes).2 b hdecode
  exact ⟨b, hb, hsegments, hframes, bytes, hencode, hdecode, hlinked⟩

end SealedBundle

end Evidentrail
