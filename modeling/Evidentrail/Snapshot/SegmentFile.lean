import Evidentrail.Snapshot.Segment

/-!
# Segment files are written and read

`pushFrameWithKey` seals an object behind the frames of a segment, and
`writeSegment` writes the header and the frames one behind the other. Frames that
are pushed are a chain (`ChainFrom`): each one names the segment, its place in it
and the commitment of the frame in front of it (`pushFrames_eq_ok`). What
`FramesFrom` finds in a file is a chain that fills the rest of it
(`FramesFrom.chained`, `ChainFrom.framesFrom`). Both readers therefore accept the
files of chains and no other file (`segment_readers_accept_written`), and what was
pushed opens again (`pushed_objects_open`).
-/

namespace Evidentrail

open Rust Std Encoding Bytes

namespace SegmentHeaderV2

def fields (segment : SegmentHeaderV2) : List (List UInt8) :=
  [asciiBytes "EVRSEG02", u16Be 2, zeros 6, segment.resultId.asBytes, u64Be segment.segmentOrdinal,
    segment.priorSegmentCommitment.asBytes, zeros 8]

theorem encode_eq_flatten (segment : SegmentHeaderV2) :
    segment.encode = segment.fields.flatten := by
  simp only [encode, fields, List.flatten_cons, List.flatten_nil, List.append_nil]

theorem canonical : Canonical encode decode fun _ => True := by
  intro bytes segment
  rw [and_true]
  by_cases hlength : bytes.length = 96
  · have hwidth := length_encode segment
    rw [encode_eq_flatten] at hwidth ⊢
    rw [eq_flatten_iff hwidth hlength]
    simp only [fields, Laid, length_segmentMagic, length_u16Be, length_u64Be, length_zeros,
      HashId.length_asBytes, FixedBytes.length_asBytes, Nat.reduceAdd]
    rw [slice_eq_u16Be (by omega), slice_eq_zeros (by omega), slice_eq_idBytes (by omega),
      slice_eq_u64Be (by omega), slice_eq_asBytes (by omega), slice_eq_zeros (by omega)]
    simp only [decode, ite_error_eq_ok, new_eq_ok, not_not, Bool.or_eq_true, Bool.not_eq_true',
      not_or, Bool.not_eq_false, and_true]
    simp only [hlength, segmentHeaderBytesV2, true_and]
    constructor
    · rintro ⟨hmagic, hversion, ⟨hone, htwo⟩, h1, h2, h3⟩
      exact ⟨hmagic, hversion, hone, h1.symm, h2.symm, h3.symm, htwo⟩
    · rintro ⟨hmagic, hversion, hone, h1, h2, h3, htwo⟩
      exact ⟨hmagic, hversion, ⟨hone, htwo⟩, h1.symm, h2.symm, h3.symm⟩
  · constructor
    · intro h
      simp only [decode, ite_error_eq_ok, not_not] at h
      exact absurd h.1 hlength
    · rintro rfl
      exact absurd (length_encode segment) hlength

end SegmentHeaderV2

/-! ## The writer -/

/-- `u32_len`. -/
def u32Len (value : Nat) : Except DurableRepositoryErrorV2 UInt32 :=
  if value < 2 ^ 32 then .ok (UInt32.ofNat value) else .error .capacityExceeded

section Pushing

variable [Sha256] [FrameCipher]

def pushFrameWithKey (dek : ResultDekV1) (segment : SegmentHeaderV2)
    (reservation : NonceReservationV1) (objectKind : SnapshotObjectKindV2)
    (firstGlobalSequence : UInt64) (plaintext : List UInt8) (frames : List SealedFrameV2) :
    Except DurableRepositoryErrorV2 (List SealedFrameV2) := do
  let sequence := UInt32.ofNat frames.length
  let previous := lastCommitment frames
  let globalSequence ← okOr .capacityExceeded
    (checkedAdd firstGlobalSequence.toNat sequence.toNat)
  let plaintextLength ← u32Len plaintext.length
  let nonce ← (reservation.nonceAt sequence.toNat).mapError fun _ => .capacityExceeded
  let header ← (FrameHeaderV2.new objectKind segment.segmentOrdinal sequence
    (UInt64.ofNat globalSequence) plaintextLength nonce previous).mapError
      fun _ => .invalidOperation
  let frame ← (sealFrameV2 dek segment header plaintext []).mapError
    fun _ => .authenticationFailed
  .ok (frames ++ [frame])

/-- The objects of a segment, pushed one after the other. -/
def pushFrames (dek : ResultDekV1) (segment : SegmentHeaderV2) (reservation : NonceReservationV1)
    (firstGlobalSequence : UInt64) :
    List SealedFrameV2 → List (SnapshotObjectKindV2 × List UInt8) →
      Except DurableRepositoryErrorV2 (List SealedFrameV2)
  | frames, [] => .ok frames
  | frames, (objectKind, plaintext) :: rest => do
      let frames ← pushFrameWithKey dek segment reservation objectKind firstGlobalSequence plaintext
        frames
      pushFrames dek segment reservation firstGlobalSequence frames rest

end Pushing

/-- The bytes that `write_segment` leaves in the file it renames into place. -/
def writeSegment (header : SegmentHeaderV2) (frames : List SealedFrameV2) :
    Except DurableRepositoryErrorV2 (List UInt8) :=
  if frames = [] ∨ frames.length > maxFramesPerSegmentV1 then .error .invalidOperation
  else .ok (header.encode ++ frames.flatMap SealedFrameV2.encode)

theorem writeSegment_eq_ok {segment : SegmentHeaderV2} {frames : List SealedFrameV2}
    {file : List UInt8} :
    writeSegment segment frames = .ok file ↔
      (frames ≠ [] ∧ frames.length ≤ maxFramesPerSegmentV1) ∧
        segment.encode ++ frames.flatMap SealedFrameV2.encode = file := by
  simp only [writeSegment, ite_error_eq_ok, not_or, gt_iff_lt, Nat.not_lt, Except.ok.injEq]

/-! ## Chains of frames -/

/-- The frame is the `count`-th one of the segment, behind the commitment `previous`. -/
structure ChainedFrame (segment : SegmentHeaderV2) (count : Nat) (previous : FrameCommitmentV1)
    (frame : SealedFrameV2) : Prop where
  wellFormed : frame.WellFormed
  ordinal : frame.header.segmentOrdinal = segment.segmentOrdinal
  sequence : frame.header.frameSequence = UInt32.ofNat count
  chained : frame.header.previousFrameCommitment = previous

/-- These frames follow each other in the segment. -/
def ChainFrom (segment : SegmentHeaderV2) : Nat → FrameCommitmentV1 → List SealedFrameV2 → Prop
  | _, _, [] => True
  | count, previous, frame :: rest =>
      ChainedFrame segment count previous frame ∧
        ChainFrom segment (count + 1) frame.commitment rest

section Chain

variable {file : List UInt8} {segment : SegmentHeaderV2} {frames : List SealedFrameV2}
  {previous : FrameCommitmentV1} {offset count : Nat}

theorem ChainFrom.length_flatMap_le (h : ChainFrom segment count previous frames) :
    (frames.flatMap SealedFrameV2.encode).length ≤
      frames.length * (144 + maxFramePlaintextBytesV1) := by
  induction frames generalizing count previous with
  | nil => exact Nat.zero_le _
  | cons frame rest ih =>
      obtain ⟨hframe, hrest⟩ := h
      have hlong := hframe.wellFormed.length_encode
      have hlimit := frame.header.limits.2
      have hrestLong := ih hrest
      rw [List.flatMap_cons, List.length_append, List.length_cons, Nat.succ_mul]
      omega

theorem FramesFrom.chained (h : FramesFrom file segment offset count previous frames) :
    ChainFrom segment count previous frames ∧
      file.drop offset = frames.flatMap SealedFrameV2.encode := by
  induction frames generalizing offset count previous with
  | nil =>
      obtain rfl : offset = file.length := h
      exact ⟨trivial, List.drop_length⟩
  | cons frame rest ih =>
      obtain ⟨hframe, hrest⟩ := h
      obtain ⟨hchain, hdrop⟩ := ih hrest
      refine ⟨⟨⟨hframe.wellFormed, hframe.ordinal, hframe.sequence, hframe.chained⟩, hchain⟩,
        ?_⟩
      rw [List.flatMap_cons, ← hdrop]
      nth_rewrite 1 [← hframe.encoded]
      exact slice_append_drop.symm

theorem ChainFrom.framesFrom (h : ChainFrom segment count previous frames)
    (hdrop : file.drop offset = frames.flatMap SealedFrameV2.encode) (hle : offset ≤ file.length)
    (haddressable : file.length < u64Bound) :
    FramesFrom file segment offset count previous frames := by
  induction frames generalizing offset count previous with
  | nil => exact Nat.le_antisymm hle (List.drop_eq_nil_iff.mp hdrop)
  | cons frame rest ih =>
      obtain ⟨hframe, hrest⟩ := h
      rw [List.flatMap_cons] at hdrop
      have hlong := congrArg List.length hdrop
      rw [List.length_drop, List.length_append] at hlong
      have hfits : offset + frame.encode.length ≤ file.length := by omega
      have hencoded : slice file offset frame.encode.length = frame.encode := by
        rw [slice, hdrop, List.take_left]
      have hrestDrop : file.drop (offset + frame.encode.length) =
          rest.flatMap SealedFrameV2.encode := by
        rw [← List.drop_drop, hdrop, List.drop_left]
      exact ⟨⟨hframe.wellFormed, hfits, hfits.trans_lt haddressable, hencoded, hframe.ordinal,
        hframe.sequence, hframe.chained⟩, ih hrest hrestDrop hfits⟩

/-! ## The file -/

theorem readSegmentHeader_eq_ok :
    readSegmentHeader file = .ok segment ↔ segment.encode = file.take 96 := by
  simp only [readSegmentHeader, ite_error_eq_ok, except_bind_eq_ok, readExact_eq_ok,
    mapError_eq_ok, SegmentHeaderV2.canonical _ _, and_true]
  constructor
  · rintro ⟨_, _, ⟨_, rfl⟩, hencode⟩
    exact hencode
  · intro hencode
    have hlong := congrArg List.length hencode
    rw [SegmentHeaderV2.length_encode, List.length_take] at hlong
    have hfits : 96 ≤ file.length := by omega
    exact ⟨Nat.not_lt.mpr hfits, _, ⟨by rwa [Nat.zero_add], rfl⟩, hencode⟩

/-- The writer fills no file that the reader could not address. -/
theorem ChainFrom.length_file_lt (h : ChainFrom segment count previous frames)
    (hcount : frames.length ≤ maxFramesPerSegmentV1)
    (hfile : segment.encode ++ frames.flatMap SealedFrameV2.encode = file) :
    file.length < u64Bound := by
  have hframes := h.length_flatMap_le
  have hmul : frames.length * (144 + maxFramePlaintextBytesV1) ≤
      maxFramesPerSegmentV1 * (144 + maxFramePlaintextBytesV1) := Nat.mul_le_mul_right _ hcount
  have hmax : maxFramesPerSegmentV1 * (144 + maxFramePlaintextBytesV1) + 96 < u64Bound := by decide
  rw [← hfile, List.length_append, SegmentHeaderV2.length_encode]
  omega

/-- The files that the writer fills with a chain of frames. -/
theorem segmentFile_iff_writeSegment :
    SegmentFile file segment frames ↔
      writeSegment segment frames = .ok file ∧ ChainFrom segment 0 .zero frames := by
  rw [writeSegment_eq_ok]
  have hheader := SegmentHeaderV2.length_encode segment
  constructor
  · rintro ⟨hread, hne, hcount, hframed⟩
    obtain ⟨hchain, hdrop⟩ := hframed.chained
    refine ⟨⟨⟨hne, hcount⟩, ?_⟩, hchain⟩
    rw [readSegmentHeader_eq_ok.mp hread, ← hdrop]
    exact List.take_append_drop 96 file
  · rintro ⟨⟨⟨hne, hcount⟩, hfile⟩, hchain⟩
    have haddressable := hchain.length_file_lt hcount hfile
    subst hfile
    refine ⟨?_, hne, hcount, hchain.framesFrom (List.drop_left' hheader) ?_ haddressable⟩
    · rw [readSegmentHeader_eq_ok, List.take_left' hheader]
    · rw [List.length_append, hheader]
      exact Nat.le_add_right _ _

/-- Both readers accept exactly the files that the writer fills with a chain of
frames. One returns the frames that were written, the other their places. -/
theorem segment_readers_accept_written (file : List UInt8) (segment : SegmentHeaderV2) :
    (∀ frames, readSegment file = .ok ⟨segment, frames⟩ ↔
      writeSegment segment frames = .ok file ∧ ChainFrom segment 0 .zero frames) ∧
    ∀ scanned, scanSegmentFrames file = .ok (segment, scanned) ↔
      ∃ frames, (writeSegment segment frames = .ok file ∧ ChainFrom segment 0 .zero frames) ∧
        scanned = locate segmentHeaderBytesV2 frames := by
  constructor
  · intro frames
    rw [readSegment_eq_ok, segmentFile_iff_writeSegment]
  · intro scanned
    simp only [scanSegmentFrames_eq_ok, segmentFile_iff_writeSegment]

/-! ## What was pushed -/

section Opening

variable [Sha256] [FrameCipher] {dek : ResultDekV1} {reservation : NonceReservationV1}
  {firstGlobalSequence : UInt64} {objects : List (SnapshotObjectKindV2 × List UInt8)}
  {all : List SealedFrameV2}

/-- The frame has the kind of the object and opens to its plaintext. -/
structure Seals (dek : ResultDekV1) (segment : SegmentHeaderV2)
    (object : SnapshotObjectKindV2 × List UInt8) (frame : SealedFrameV2) : Prop where
  kind : frame.header.objectKind = object.1
  opens : openFrameV2 dek segment frame [] = .ok object.2

/-- The same of the place of a frame in the file. -/
structure OpensAt (dek : ResultDekV1) (file : List UInt8) (segment : SegmentHeaderV2)
    (object : SnapshotObjectKindV2 × List UInt8) (place : ScannedFrameV2) : Prop where
  kind : place.header.objectKind = object.1
  opens : openScannedFrame dek file segment place = .ok object.2

theorem FramesFrom.opensAt (h : FramesFrom file segment offset count previous frames)
    (hobjects : List.Forall₂ (Seals dek segment) objects frames) :
    List.Forall₂ (OpensAt dek file segment) objects (locate offset frames) := by
  induction hobjects generalizing offset count previous with
  | nil => exact .nil
  | cons hobject _ ih =>
      have hplace := h.1.locates
      refine .cons ⟨hobject.kind, ?_⟩ (ih h.2)
      rw [hplace.opens, hobject.opens]
      rfl

variable [LawfulFrameCipher]

/-- The frame that is pushed continues the chain and seals the object. -/
theorem pushFrameWithKey_eq_ok {objectKind : SnapshotObjectKindV2} {plaintext : List UInt8}
    (h : pushFrameWithKey dek segment reservation objectKind firstGlobalSequence plaintext frames =
      .ok all) :
    ∃ frame, all = frames ++ [frame] ∧
      ChainedFrame segment frames.length (lastCommitment frames) frame ∧
      Seals dek segment (objectKind, plaintext) frame := by
  simp only [pushFrameWithKey, except_bind_eq_ok, mapError_eq_ok, Except.ok.injEq] at h
  obtain ⟨_, _, _, _, nonce, hnonce, header, hheader, frame, hsealed, rfl⟩ := h
  simp only [NonceReservationV1.nonceAt, ite_error_eq_ok, except_bind_eq_ok,
    Except.ok.injEq] at hnonce
  obtain ⟨_, counter, _, rfl⟩ := hnonce
  obtain ⟨hkind, hordinal, hsequence, _, _, _, _, hprevious⟩ := FrameHeaderV2.new_eq_ok.mp hheader
  have hsame := sealFrameV2_header hsealed
  refine ⟨frame, rfl, ⟨SealedFrameV2.wellFormed_sealed hsealed, ?_, ?_, ?_⟩, ?_,
    openFrameV2_sealed hsealed⟩
  · rw [hsame, hordinal]
  · rw [hsame, hsequence]
  · rw [hsame, hprevious]
  · rw [hsame, hkind]

theorem pushFrames_eq_ok
    (h : pushFrames dek segment reservation firstGlobalSequence frames objects = .ok all) :
    ∃ rest, all = frames ++ rest ∧ ChainFrom segment frames.length (lastCommitment frames) rest ∧
      List.Forall₂ (Seals dek segment) objects rest := by
  induction objects generalizing frames with
  | nil =>
      cases h
      exact ⟨[], (List.append_nil _).symm, trivial, .nil⟩
  | cons object objects ih =>
      obtain ⟨objectKind, plaintext⟩ := object
      obtain ⟨pushed, hpush, h⟩ := except_bind_eq_ok.mp h
      obtain ⟨frame, rfl, hchained, hobject⟩ := pushFrameWithKey_eq_ok hpush
      obtain ⟨rest, rfl, hrest, hobjects⟩ := ih h
      rw [lastCommitment_append, List.length_append, List.length_singleton] at hrest
      exact ⟨frame :: rest, List.append_assoc .., ⟨hchained, hrest⟩, .cons hobject hobjects⟩

/-- A segment file that was written from pushed objects is accepted by both
readers, and either way every object opens again under its kind. -/
theorem pushed_objects_open (dek : ResultDekV1) (segment : SegmentHeaderV2)
    (reservation : NonceReservationV1) (firstGlobalSequence : UInt64)
    (objects : List (SnapshotObjectKindV2 × List UInt8)) (frames : List SealedFrameV2)
    (file : List UInt8)
    (hpush : pushFrames dek segment reservation firstGlobalSequence [] objects = .ok frames)
    (hwrite : writeSegment segment frames = .ok file) :
    (readSegment file = .ok ⟨segment, frames⟩ ∧
      List.Forall₂ (Seals dek segment) objects frames) ∧
    ∃ scanned, scanSegmentFrames file = .ok (segment, scanned) ∧
      List.Forall₂ (OpensAt dek file segment) objects scanned := by
  obtain ⟨rest, rfl, hchain, hobjects⟩ := pushFrames_eq_ok hpush
  have hfile := segmentFile_iff_writeSegment.mpr ⟨hwrite, hchain⟩
  exact ⟨⟨readSegment_eq_ok.mpr hfile, hobjects⟩, _,
    scanSegmentFrames_eq_ok.mpr ⟨_, hfile, rfl⟩, hfile.framed.opensAt hobjects⟩

end Opening

end Chain

/-! ## A segment of two objects -/

namespace Segment

theorem digestCipher_lawful [Sha256] :
    letI := digestCipher
    LawfulFrameCipher := by
  let := digestCipher
  have hpad : ∀ (key : ResultDekV1) (nonce : FrameNonceV2) (plaintext : List UInt8),
      (plaintext.map (· ^^^ digestPad key nonce)).map (· ^^^ digestPad key nonce) =
        plaintext := by
    intro key nonce plaintext
    simp only [List.map_map, Function.comp_def, UInt8.xor_assoc, UInt8.xor_self, UInt8.xor_zero,
      List.map_id']
  refine ⟨fun key nonce aad plaintext => List.length_map .., fun key nonce aad plaintext => ?_⟩
  change (if digestTag key nonce aad ((plaintext.map _).map _) = _ then
    some ((plaintext.map _).map _) else none) = _
  rw [hpad]
  exact if_pos rfl

def sampleReservation : NonceReservationV1 := ⟨.repeated 2, 5, 2⟩

def sampleObjects : List (SnapshotObjectKindV2 × List UInt8) :=
  [(.request, [1, 2, 3]), (.authorizedEvent, [4, 5])]

theorem sampleObjects_written :
    letI := fips180
    letI := digestCipher
    (pushFrames (.repeated 7) sampleHeader sampleReservation 9 [] sampleObjects >>=
      writeSegment sampleHeader).isOk = true := by
  rw [fips180_eq]
  decide +kernel

theorem pushed_objects_open_two :
    letI := fips180
    letI := digestCipher
    ∃ frames file, (readSegment file = .ok ⟨sampleHeader, frames⟩ ∧
        List.Forall₂ (Seals (.repeated 7) sampleHeader) sampleObjects frames) ∧
      ∃ scanned, scanSegmentFrames file = .ok (sampleHeader, scanned) ∧
        List.Forall₂ (OpensAt (.repeated 7) file sampleHeader) sampleObjects scanned := by
  let := fips180
  let := digestCipher
  have := digestCipher_lawful
  have hok := sampleObjects_written
  cases hrun : pushFrames (.repeated 7) sampleHeader sampleReservation 9 [] sampleObjects >>=
      writeSegment sampleHeader with
  | error error =>
      rw [hrun] at hok
      cases hok
  | ok file =>
      obtain ⟨frames, hpush, hwrite⟩ := except_bind_eq_ok.mp hrun
      exact ⟨frames, file, pushed_objects_open _ _ sampleReservation 9 _ _ _ hpush hwrite⟩

end Segment

end Evidentrail
