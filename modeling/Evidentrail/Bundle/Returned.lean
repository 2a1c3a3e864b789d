import Evidentrail.Bundle.Reader

/-!
# The reader does not panic

Every number is read behind a check that it lies inside, and every range of
frame descriptors that is taken lies in the table: the first pass over the
directory adds the counts up to the length of the table.
-/

namespace Evidentrail

open Rust Std Encoding Bytes

namespace SealedBundle

variable {bytes encoded : List UInt8} {offset n : Nat}

/-! ## Reading inside -/

theorem completes_readBytes (h : offset + n ≤ bytes.length) :
    Completes (readBytes bytes offset n) := by
  rw [readBytes, if_pos h]
  exact .ok _

theorem completes_readUint (h : offset + n ≤ bytes.length) :
    Completes (readUint n bytes offset) := by
  rw [readUint, readBytes, if_pos h]
  exact .ok _

theorem completes_checkedEnd (offset length : Nat) : Completes (checkedEnd offset length) := .okOr _

theorem checkedEnd_eq_ok {length stop : Nat} :
    checkedEnd offset length = .ok stop ↔ offset + length < u64Bound ∧ stop = offset + length := by
  rw [checkedEnd, okOr_eq_ok, checkedAdd_eq_some]

theorem completes_checkedSlice (bytes : List UInt8) (offset n : Nat) :
    Completes (checkedSlice bytes offset n) :=
  (completes_checkedEnd _ _).bind fun _ _ => Completes.refuse.bind fun _ _ => .ok _

theorem checkedSlice_eq_ok {out : List UInt8} :
    checkedSlice bytes offset n = .ok out ↔
      offset + n < u64Bound ∧ offset + n ≤ bytes.length ∧ out = slice bytes offset n := by
  simp only [checkedSlice, except_bind_eq_ok, checkedEnd_eq_ok, refuse_eq_ok, Except.ok.injEq]
  constructor
  · rintro ⟨_, ⟨hbound, rfl⟩, _, hend, rfl⟩
    exact ⟨hbound, by omega, rfl⟩
  · rintro ⟨hbound, hend, rfl⟩
    exact ⟨_, ⟨hbound, rfl⟩, ⟨⟩, by omega, rfl⟩

theorem completes_entryOffset (tableOffset index width : Nat) :
    Completes (entryOffset tableOffset index width) :=
  (Completes.okOr _).bind fun _ _ => completes_checkedEnd _ _

/-! ## The header -/

theorem completes_validateFixedHeader (h : 128 ≤ encoded.length) :
    Completes (validateFixedHeader encoded) := by
  unfold validateFixedHeader
  refine (completes_readBytes (by omega)).bind fun _ _ => Completes.refuse.bind fun _ _ => ?_
  refine (completes_readUint (by omega)).bind fun _ _ => Completes.refuse.bind fun _ _ => ?_
  refine (completes_readUint (by omega)).bind fun _ _ => Completes.refuse.bind fun _ _ => ?_
  refine (completes_readUint (by omega)).bind fun _ _ => Completes.refuse.bind fun _ _ => ?_
  refine (completes_readUint (by omega)).bind fun _ _ => Completes.refuse.bind fun _ _ => ?_
  refine (completes_readUint (by omega)).bind fun _ _ => Completes.refuse.bind fun _ _ => ?_
  exact (completes_readBytes (by omega)).bind fun _ _ => Completes.refuse

theorem completes_readHeader (encoded : List UInt8) : Completes (readHeader encoded) := by
  unfold readHeader
  refine Completes.refuse.bind fun _ hlength => ?_
  have hlength : 128 ≤ encoded.length := by
    rw [refuse_eq_ok, sealedBundleHeaderBytesV1] at hlength
    omega
  refine Completes.refuse.bind fun _ _ => ?_
  refine (completes_validateFixedHeader hlength).bind fun _ _ => ?_
  refine (completes_readUint (by omega)).bind fun _ _ => ?_
  refine Completes.refuse.bind fun _ _ => Completes.refuse.bind fun _ _ => Completes.refuse.bind
    fun _ _ => ?_
  refine (completes_readBytes (by omega)).bind fun _ _ => Completes.refuse.bind fun _ _ => ?_
  refine (completes_readUint (by omega)).bind fun _ _ => ?_
  refine (completes_readUint (by omega)).bind fun _ _ => ?_
  refine (Completes.mapError _).bind fun _ _ => ?_
  refine (completes_readUint (by omega)).bind fun _ _ => ?_
  refine (completes_readUint (by omega)).bind fun _ _ => Completes.refuse.bind fun _ _ => ?_
  refine (completes_readUint (by omega)).bind fun _ _ => ?_
  refine (completes_readUint (by omega)).bind fun _ _ => ?_
  refine (completes_readUint (by omega)).bind fun _ _ => ?_
  refine (completes_readUint (by omega)).bind fun _ _ => Completes.refuse.bind fun _ _ => ?_
  refine (Completes.mapError _).bind fun _ _ => ?_
  refine (completes_checkedEnd _ _).bind fun _ _ => (completes_checkedEnd _ _).bind fun _ _ =>
    (completes_checkedEnd _ _).bind fun _ _ => Completes.refuse.bind fun _ _ => ?_
  refine (completes_checkedSlice _ _ _).bind fun _ _ => ?_
  exact (completes_checkedSlice _ _ _).bind fun _ _ =>
    (completes_checkedSlice _ _ _).bind fun _ _ => .ok _

/-! ## The directory -/

theorem completes_decodeSegmentDescriptor (encoded : List UInt8)
    (directoryOffset index firstFrame globalSequence payloadOffset totalLength : Nat) :
    Completes (decodeSegmentDescriptor encoded directoryOffset index firstFrame globalSequence
      payloadOffset totalLength) := by
  unfold decodeSegmentDescriptor
  refine (completes_entryOffset _ _ _).bind fun offset _ => ?_
  refine (completes_checkedSlice _ _ _).bind fun _ hslice => ?_
  have hinside := (checkedSlice_eq_ok.mp hslice).2.1
  rw [sealedBundleSegmentDescriptorBytesV1] at hinside
  refine (completes_readUint (by omega)).bind fun _ _ => Completes.refuse.bind fun _ _ => ?_
  refine (completes_readUint (by omega)).bind fun _ _ => ?_
  refine (completes_readUint (by omega)).bind fun _ _ => ?_
  refine (completes_readUint (by omega)).bind fun _ _ => ?_
  refine (completes_readUint (by omega)).bind fun _ _ => ?_
  refine (completes_readUint (by omega)).bind fun _ _ => ?_
  refine (completes_readUint (by omega)).bind fun _ _ => Completes.refuse.bind fun _ _ => ?_
  exact (completes_checkedEnd _ _).bind fun _ _ => Completes.refuse.bind fun _ _ => .ok _

theorem completes_decodeSegmentDescriptorsFrom (encoded : List UInt8)
    (directoryOffset payloadOffset totalLength : Nat) :
    ∀ remaining index firstFrame globalSequence,
      Completes (decodeSegmentDescriptorsFrom encoded directoryOffset payloadOffset totalLength
        remaining index firstFrame globalSequence) := by
  intro remaining
  induction remaining with
  | zero => exact fun _ _ _ => .ok _
  | succ remaining ih =>
      intro index firstFrame globalSequence
      refine (completes_decodeSegmentDescriptor ..).bind fun _ _ => ?_
      exact (Completes.okOr _).bind fun _ _ => (Completes.okOr _).bind fun _ _ =>
        (ih _ _ _).bind fun _ _ => .ok _

theorem completes_decodeFrameDescriptor (encoded : List UInt8)
    (directoryOffset payloadOffset totalLength index : Nat) :
    Completes (decodeFrameDescriptor encoded directoryOffset payloadOffset totalLength index) := by
  unfold decodeFrameDescriptor
  refine (completes_entryOffset _ _ _).bind fun offset _ => ?_
  refine (completes_checkedSlice _ _ _).bind fun _ hslice => ?_
  have hinside := (checkedSlice_eq_ok.mp hslice).2.1
  rw [sealedBundleFrameDescriptorBytesV1] at hinside
  refine (completes_readUint (by omega)).bind fun _ _ => Completes.refuse.bind fun _ _ => ?_
  refine (completes_readUint (by omega)).bind fun _ _ => ?_
  refine (completes_readUint (by omega)).bind fun _ _ => ?_
  refine (completes_readUint (by omega)).bind fun _ _ => ?_
  refine (completes_readUint (by omega)).bind fun _ _ => ?_
  refine (completes_readUint (by omega)).bind fun _ _ => Completes.refuse.bind fun _ _ => ?_
  exact (completes_checkedEnd _ _).bind fun _ _ => Completes.refuse.bind fun _ _ => .ok _

theorem completes_contiguousFrames (frames : List FrameDescriptorV1) (segmentSequence : Nat) :
    ∀ remaining sequence offset index,
      Completes (contiguousFrames frames segmentSequence remaining sequence offset index) := by
  intro remaining
  induction remaining with
  | zero => exact fun _ _ _ => .ok _
  | succ remaining ih =>
      intro sequence offset index
      exact (Completes.okOr _).bind fun _ _ => Completes.refuse.bind fun _ _ =>
        (completes_checkedEnd _ _).bind fun _ _ => ih _ _ _

theorem completes_contiguousSegments (frames : List FrameDescriptorV1) :
    ∀ (segments : List SegmentDescriptorV1) (offset index : Nat),
      Completes (contiguousSegments frames segments offset index)
  | [], _, _ => .ok _
  | _ :: rest, _, _ =>
      Completes.refuse.bind fun _ _ => (completes_checkedEnd _ _).bind fun _ _ =>
        (completes_checkedEnd _ _).bind fun _ _ =>
          (completes_contiguousFrames _ _ _ _ _ _).bind fun _ _ => Completes.refuse.bind fun _ _ =>
            completes_contiguousSegments frames rest _ _

theorem completes_readDirectory (encoded : List UInt8) (header : Header) :
    Completes (readDirectory encoded header) := by
  have hsegments : Completes (decodeSegmentDescriptors encoded header.directoryOffset
      header.segmentCount header.frameCount header.payloadOffset header.totalLength) :=
    (completes_decodeSegmentDescriptorsFrom ..).bind fun _ _ =>
      Completes.refuse.bind fun _ _ => .ok _
  refine hsegments.bind fun segments _ => (completes_entryOffset _ _ _).bind fun _ _ => ?_
  refine (Completes.mapM fun index _ => completes_decodeFrameDescriptor ..).bind fun frames _ => ?_
  have hcontiguous : Completes (validateDescriptorContiguity segments frames header.payloadOffset
      header.totalLength) :=
    (completes_contiguousSegments ..).bind fun _ _ => Completes.refuse
  exact hcontiguous.bind fun _ _ => .ok _

/-! ## The ranges of frames -/

theorem decodeSegmentDescriptor_eq_ok {directoryOffset index firstFrame globalSequence payloadOffset
    totalLength : Nat} {descriptor : SegmentDescriptorV1}
    (h : decodeSegmentDescriptor encoded directoryOffset index firstFrame globalSequence
      payloadOffset totalLength = .ok descriptor) : descriptor.firstFrameIndex = firstFrame := by
  simp only [decodeSegmentDescriptor, except_bind_eq_ok, refuse_eq_ok] at h
  obtain ⟨_, _, _, _, _, _, _, _, _, _, _, _, _, _, first, _, count, _, _, _, _, hlayout, _, _, _,
    _, hend⟩ := h
  cases hend
  push Not at hlayout
  exact hlayout.2.1

/-- The counts add up to the number of frames. -/
theorem ranges_of_decode {directoryOffset payloadOffset totalLength : Nat} :
    ∀ {remaining index firstFrame globalSequence : Nat} {descriptors : List SegmentDescriptorV1}
      {frames : Nat},
      decodeSegmentDescriptorsFrom encoded directoryOffset payloadOffset totalLength remaining index
        firstFrame globalSequence = .ok (descriptors, frames) →
      firstFrame ≤ frames ∧
        ∀ descriptor ∈ descriptors, descriptor.firstFrameIndex + descriptor.frameCount ≤ frames
  | 0, _, _, _, _, _, h => by
      cases h
      exact ⟨Nat.le_refl _, by simp⟩
  | remaining + 1, index, firstFrame, globalSequence, descriptors, frames, h => by
      simp only [decodeSegmentDescriptorsFrom, except_bind_eq_ok, okOr_eq_ok,
        checkedAdd_eq_some] at h
      obtain ⟨descriptor, hdescriptor, _, ⟨-, rfl⟩, _, -, ⟨rest, frames'⟩, hrest, hend⟩ := h
      cases hend
      obtain ⟨hle, hall⟩ := ranges_of_decode hrest
      have hfirst := decodeSegmentDescriptor_eq_ok hdescriptor
      refine ⟨by omega, List.forall_mem_cons.mpr ⟨by omega, hall⟩⟩

theorem ranges_of_readDirectory {header : Header} {segments : List SegmentDescriptorV1}
    {frames : List FrameDescriptorV1} (h : readDirectory encoded header = .ok (segments, frames)) :
    ∀ segment ∈ segments, segment.firstFrameIndex + segment.frameCount ≤ frames.length := by
  simp only [readDirectory, decodeSegmentDescriptors, except_bind_eq_ok, refuse_eq_ok] at h
  obtain ⟨_, ⟨⟨found, count⟩, hfound, _, hcount, hsegments⟩, _, _, _, hframes, _, _, hend⟩ := h
  cases hsegments
  cases hend
  have hlength := length_mapM hframes
  rw [List.length_range] at hlength
  intro segment hsegment
  have hrange := (ranges_of_decode hfound).2 segment hsegment
  omega

theorem completes_readSegmentBytes {frames : List FrameDescriptorV1} {segment : SegmentDescriptorV1}
    (h : segment.firstFrameIndex + segment.frameCount ≤ frames.length) :
    Completes (readSegmentBytes encoded frames segment) := by
  refine (completes_checkedSlice _ _ _).bind fun _ _ => (completes_checkedEnd _ _).bind
    fun stop hstop => ?_
  obtain ⟨-, rfl⟩ := checkedEnd_eq_ok.mp hstop
  rw [if_pos h]
  exact (Completes.ok _).bind fun own _ =>
    (Completes.mapM fun frame _ => completes_checkedSlice _ _ _).bind fun _ _ => .ok _

end SealedBundle

end Evidentrail
