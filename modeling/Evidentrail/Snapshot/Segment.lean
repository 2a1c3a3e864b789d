import Evidentrail.Snapshot.Sealed
import Evidentrail.Store.Directory

/-!
# The two readers of a segment file

`readSegment` streams the whole frames of a segment file. `scanSegmentFrames`
seeks from header to header and reads the commitments alone, and
`openScannedFrame` goes back for one frame. Both readers are compared with
`FramesFrom`, which says what stands in the file from an offset on: one step of
either reader finds a frame exactly if `FrameAt` does (`readFrame_eq_ok`,
`scanFrame_eq_ok`), and so do their loops. That they agree follows from there
(`segment_readers_agree`).
-/

namespace Evidentrail

open Rust Std Encoding Bytes

/-! ## The readers -/

/-- `seek` and `read_exact` of a regular file. -/
def readExact (file : List UInt8) (position n : Nat) :
    Except DurableRepositoryErrorV2 (List UInt8) :=
  if position + n ≤ file.length then .ok (slice file position n) else .error .readFailed

/-- The length that a frame header announces. -/
def encodedFrameLength (header : FrameHeaderV2) : Option Nat := do
  let length ← checkedAdd frameHeaderBytesV2 header.plaintextLength.toNat
  let length ← checkedAdd length frameTagBytesV1
  checkedAdd length frameCommitmentBytesV1

structure DecodedSegmentV2 where
  header : SegmentHeaderV2
  frames : List SealedFrameV2
deriving DecidableEq

/-- `frames.last().map_or(ZERO, commitment)`. -/
def lastCommitment (frames : List SealedFrameV2) : FrameCommitmentV1 :=
  (frames.getLast?.map SealedFrameV2.commitment).getD .zero

/-- The body of the loop of `read_segment`: the next frame, and where it ends. -/
def readFrame (file : List UInt8) (segment : SegmentHeaderV2) (offset : Nat)
    (frames : List SealedFrameV2) : Except DurableRepositoryErrorV2 (SealedFrameV2 × Nat) := do
  let headerBytes ← readExact file offset frameHeaderBytesV2
  let frameHeader ← (FrameHeaderV2.decode headerBytes).mapError fun _ => .decodeFailed
  let encodedLength ← okOr .capacityExceeded (encodedFrameLength frameHeader)
  let rest ← readExact file (offset + frameHeaderBytesV2) (encodedLength - frameHeaderBytesV2)
  let frame ← (SealedFrameV2.decode (headerBytes ++ rest)).mapError fun _ => .decodeFailed
  if frame.header.segmentOrdinal ≠ segment.segmentOrdinal ∨
      frame.header.frameSequence ≠ UInt32.ofNat frames.length ∨
      frame.header.previousFrameCommitment ≠ lastCommitment frames then
    .error .commitmentMismatch
  else do
    let next ← okOr .capacityExceeded (checkedAdd offset encodedLength)
    .ok (frame, next)

/-- The loop of `read_segment`. `remaining` is the number of frames that may
still come. -/
def readFrames (file : List UInt8) (segment : SegmentHeaderV2) :
    Nat → Nat → List SealedFrameV2 → Except DurableRepositoryErrorV2 (List SealedFrameV2 × Nat)
  | 0, offset, frames =>
      if offset < file.length then .error .capacityExceeded else .ok (frames, offset)
  | remaining + 1, offset, frames =>
      if offset < file.length then do
        let (frame, next) ← readFrame file segment offset frames
        readFrames file segment remaining next (frames ++ [frame])
      else .ok (frames, offset)

/-- The header that either reader starts with. -/
def readSegmentHeader (file : List UInt8) : Except DurableRepositoryErrorV2 SegmentHeaderV2 :=
  if file.length < segmentHeaderBytesV2 then .error .decodeFailed
  else do
    let headerBytes ← readExact file 0 segmentHeaderBytesV2
    (SegmentHeaderV2.decode headerBytes).mapError fun _ => .decodeFailed

def readSegment (file : List UInt8) : Except DurableRepositoryErrorV2 DecodedSegmentV2 := do
  let header ← readSegmentHeader file
  let (frames, offset) ← readFrames file header maxFramesPerSegmentV1 segmentHeaderBytesV2 []
  if offset ≠ file.length ∨ frames = [] then .error .decodeFailed
  else .ok { header, frames }

structure ScannedFrameV2 where
  header : FrameHeaderV2
  byteOffset : Nat
  encodedLength : Nat
deriving DecidableEq

/-- The body of the loop of `scan_segment_frames`: the frame, its commitment,
and where it ends. -/
def scanFrame (file : List UInt8) (segment : SegmentHeaderV2) (offset : Nat)
    (previous : FrameCommitmentV1) (count : Nat) :
    Except DurableRepositoryErrorV2 (ScannedFrameV2 × FrameCommitmentV1 × Nat) := do
  let headerBytes ← readExact file offset frameHeaderBytesV2
  let header ← (FrameHeaderV2.decode headerBytes).mapError fun _ => .decodeFailed
  let encodedLength ← okOr .capacityExceeded (encodedFrameLength header)
  let next ← okOr .capacityExceeded (checkedAdd offset encodedLength)
  if next > file.length ∨ header.segmentOrdinal ≠ segment.segmentOrdinal ∨
      header.frameSequence ≠ UInt32.ofNat count ∨ header.previousFrameCommitment ≠ previous then
    .error .commitmentMismatch
  else do
    let commitment ← readExact file (next - frameCommitmentBytesV1) frameCommitmentBytesV1
    .ok ({ header, byteOffset := offset, encodedLength }, .ofBytes commitment, next)

/-- The loop of `scan_segment_frames`. -/
def scanFrames (file : List UInt8) (segment : SegmentHeaderV2) :
    Nat → Nat → FrameCommitmentV1 → List ScannedFrameV2 →
      Except DurableRepositoryErrorV2 (List ScannedFrameV2 × Nat)
  | 0, offset, _, frames =>
      if offset < file.length then .error .capacityExceeded else .ok (frames, offset)
  | remaining + 1, offset, previous, frames =>
      if offset < file.length then do
        let (frame, commitment, next) ← scanFrame file segment offset previous frames.length
        scanFrames file segment remaining next commitment (frames ++ [frame])
      else .ok (frames, offset)

def scanSegmentFrames (file : List UInt8) :
    Except DurableRepositoryErrorV2 (SegmentHeaderV2 × List ScannedFrameV2) := do
  let segment ← readSegmentHeader file
  let (frames, offset) ← scanFrames file segment maxFramesPerSegmentV1 segmentHeaderBytesV2 .zero []
  if offset ≠ file.length ∨ frames = [] then .error .decodeFailed
  else .ok (segment, frames)

def openScannedFrame [Sha256] [FrameCipher] (dek : ResultDekV1) (file : List UInt8)
    (segment : SegmentHeaderV2) (frame : ScannedFrameV2) :
    Except DurableRepositoryErrorV2 (List UInt8) := do
  let encoded ← readExact file frame.byteOffset frame.encodedLength
  let sealed ← (SealedFrameV2.decode encoded).mapError fun _ => .decodeFailed
  if sealed.header ≠ frame.header then .error .commitmentMismatch
  else (openFrameV2 dek segment sealed []).mapError fun _ => .authenticationFailed

/-! ## What stands in a file -/

section Frames

variable {file bytes : List UInt8} {segment : SegmentHeaderV2} {header : FrameHeaderV2}
  {frame : SealedFrameV2} {frames rest : List SealedFrameV2} {previous : FrameCommitmentV1}
  {offset next count remaining : Nat}

theorem readExact_eq_ok {position n : Nat} :
    readExact file position n = .ok bytes ↔
      position + n ≤ file.length ∧ slice file position n = bytes := by
  unfold readExact
  split
  · rename_i hfits
    rw [Except.ok.injEq, and_iff_right hfits]
  · rename_i hfits
    exact ⟨nofun, fun h => absurd h.1 hfits⟩

@[simp] theorem encodedFrameLength_eq (header : FrameHeaderV2) :
    encodedFrameLength header = some (144 + header.plaintextLength.toNat) := by
  have hlimit := header.limits.2
  unfold maxFramePlaintextBytesV1 at hlimit
  have hciphertext : checkedAdd 96 header.plaintextLength.toNat =
      some (96 + header.plaintextLength.toNat) := checkedAdd_of_lt (by simp only [u64Bound]; omega)
  have htag : checkedAdd (96 + header.plaintextLength.toNat) 16 =
      some (112 + header.plaintextLength.toNat) :=
    checkedAdd_eq_some.mpr ⟨by simp only [u64Bound]; omega, by omega⟩
  have hall : checkedAdd (112 + header.plaintextLength.toNat) 32 =
      some (144 + header.plaintextLength.toNat) :=
    checkedAdd_eq_some.mpr ⟨by simp only [u64Bound]; omega, by omega⟩
  rw [encodedFrameLength, frameHeaderBytesV2, frameTagBytesV1, frameCommitmentBytesV1, hciphertext]
  exact (congrArg (·.bind (checkedAdd · 32)) htag).trans hall

/-- A frame of the segment is encoded at the offset, the `count`-th one and
behind the commitment `previous`. -/
structure FrameAt (file : List UInt8) (segment : SegmentHeaderV2) (offset count : Nat)
    (previous : FrameCommitmentV1) (frame : SealedFrameV2) : Prop where
  wellFormed : frame.WellFormed
  fits : offset + frame.encode.length ≤ file.length
  addressable : offset + frame.encode.length < u64Bound
  encoded : slice file offset frame.encode.length = frame.encode
  ordinal : frame.header.segmentOrdinal = segment.segmentOrdinal
  sequence : frame.header.frameSequence = UInt32.ofNat count
  chained : frame.header.previousFrameCommitment = previous

/-- From the offset on the file is these frames and nothing else. -/
def FramesFrom (file : List UInt8) (segment : SegmentHeaderV2) :
    Nat → Nat → FrameCommitmentV1 → List SealedFrameV2 → Prop
  | offset, _, _, [] => offset = file.length
  | offset, count, previous, frame :: rest =>
      FrameAt file segment offset count previous frame ∧
        FramesFrom file segment (offset + frame.encode.length) (count + 1) frame.commitment rest

theorem SealedFrameV2.WellFormed.length_encode (h : frame.WellFormed) :
    frame.encode.length = 144 + frame.header.plaintextLength.toNat := by
  rw [SealedFrameV2.length_encode, h]

/-- The header of a frame that stands in the file. -/
theorem FrameAt.header_slice (h : FrameAt file segment offset count previous frame) :
    slice file offset 96 = frame.header.encode := by
  have hlong := h.wellFormed.length_encode
  have hinner : slice (slice file offset frame.encode.length) 0 96 = slice file (offset + 0) 96 :=
    slice_slice (by omega)
  rw [h.encoded, Nat.add_zero] at hinner
  exact hinner.symm.trans (slice_append_self (FrameHeaderV2.length_encode _))

/-- Bytes of the file that decode to a frame, from the header on. -/
theorem frameAt_of_decode (hheader : FrameHeaderV2.decode (slice file offset 96) = .ok header)
    (hfits : offset + (144 + header.plaintextLength.toNat) ≤ file.length)
    (haddressable : offset + (144 + header.plaintextLength.toNat) < u64Bound)
    (hdecode : SealedFrameV2.decode (slice file offset (144 + header.plaintextLength.toNat)) =
      .ok frame) (hordinal : header.segmentOrdinal = segment.segmentOrdinal)
    (hsequence : header.frameSequence = UInt32.ofNat count)
    (hprevious : header.previousFrameCommitment = previous) :
    frame.header = header ∧ frame.encode.length = 144 + header.plaintextLength.toNat ∧
      FrameAt file segment offset count previous frame := by
  obtain ⟨hinner, _⟩ := SealedFrameV2.decode_eq_ok_header hdecode
  rw [slice_slice (by omega), Nat.add_zero] at hinner
  have hsame : frame.header = header := Except.ok.inj (hinner.symm.trans hheader)
  obtain ⟨hencode, hwell⟩ := (SealedFrameV2.canonical _ _).mp hdecode
  have hlong := hwell.length_encode
  rw [hsame] at hlong
  refine ⟨hsame, hlong, hwell, ?_, ?_, ?_, ?_, ?_, ?_⟩
  · rwa [hlong]
  · rwa [hlong]
  · rw [hlong, hencode]
  · rwa [hsame]
  · rwa [hsame]
  · rwa [hsame]

/-- The whole frame is what the bytes at its place decode to. -/
theorem FrameAt.decode_slice (h : FrameAt file segment offset count previous frame) :
    SealedFrameV2.decode (slice file offset frame.encode.length) = .ok frame := by
  rw [h.encoded]
  exact SealedFrameV2.decode_encode frame h.wellFormed

/-- The commitment stands in the last bytes of the frame. -/
theorem FrameAt.commitment_slice (h : FrameAt file segment offset count previous frame)
    (hnext : next = offset + frame.encode.length) :
    FixedBytes.ofBytes (slice file (next - 32) 32) = frame.commitment := by
  have hlong := h.wellFormed.length_encode
  have hend : next - 32 = offset + (112 + frame.header.plaintextLength.toNat) := by omega
  have hinner : slice (slice file offset frame.encode.length)
      (112 + frame.header.plaintextLength.toNat) 32 = slice file (next - 32) 32 := by
    rw [slice_slice (by omega), hend]
  have hdecode := h.decode_slice
  have hparts := SealedFrameV2.decode_of_header (SealedFrameV2.decode_eq_ok_header hdecode).1
    (by rw [h.encoded, hlong])
  rw [← hinner]
  exact (congrArg SealedFrameV2.commitment (Except.ok.inj (hdecode.symm.trans hparts))).symm

/-! ## One step of the readers -/

/-- The streaming reader finds the frames that stand in the file. -/
theorem readFrame_eq_ok :
    readFrame file segment offset frames = .ok (frame, next) ↔
      FrameAt file segment offset frames.length (lastCommitment frames) frame ∧
        next = offset + frame.encode.length := by
  simp only [readFrame, except_bind_eq_ok, mapError_eq_ok, okOr_eq_ok, readExact_eq_ok,
    encodedFrameLength_eq, Option.some.injEq, ite_error_eq_ok, checkedAdd_eq_some, not_or, not_not,
    Except.ok.injEq, Prod.mk.injEq, frameHeaderBytesV2]
  constructor
  · rintro ⟨_, ⟨_, rfl⟩, header, hheader, _, rfl, _, ⟨hfits, rfl⟩, frame, hdecode,
      ⟨hordinal, hsequence, hprevious⟩, _, ⟨haddressable, rfl⟩, rfl, rfl⟩
    rw [slice_append_slice rfl, show 96 + (144 + header.plaintextLength.toNat - 96) =
      144 + header.plaintextLength.toNat by omega] at hdecode
    obtain ⟨hinner, _⟩ := SealedFrameV2.decode_eq_ok_header hdecode
    rw [slice_slice (by omega), Nat.add_zero] at hinner
    obtain rfl := Except.ok.inj (hheader.symm.trans hinner)
    obtain ⟨_, hlong, hframe⟩ := frameAt_of_decode hheader (by omega) haddressable hdecode hordinal
      hsequence hprevious
    exact ⟨hframe, by rw [hlong]⟩
  · rintro ⟨h, rfl⟩
    have hlong := h.wellFormed.length_encode
    have hfits := h.fits
    refine ⟨_, ⟨by omega, rfl⟩, frame.header, ?_, _, rfl, _, ⟨by omega, rfl⟩, frame, ?_,
      ⟨h.ordinal, h.sequence, h.chained⟩, _, ⟨hlong ▸ h.addressable, rfl⟩, rfl, by rw [hlong]⟩
    · rw [h.header_slice]
      exact FrameHeaderV2.decode_encode _
    · rw [slice_append_slice rfl, show 96 + (144 + frame.header.plaintextLength.toNat - 96) =
        frame.encode.length by omega]
      exact h.decode_slice

/-- So does the seeking one, which keeps the header and the place. -/
theorem scanFrame_eq_ok {scanned : ScannedFrameV2} {commitment : FrameCommitmentV1} :
    scanFrame file segment offset previous count = .ok (scanned, commitment, next) ↔
      ∃ frame, FrameAt file segment offset count previous frame ∧
        scanned = ⟨frame.header, offset, frame.encode.length⟩ ∧ commitment = frame.commitment ∧
        next = offset + frame.encode.length := by
  simp only [scanFrame, except_bind_eq_ok, mapError_eq_ok, okOr_eq_ok, readExact_eq_ok,
    encodedFrameLength_eq, Option.some.injEq, ite_error_eq_ok, checkedAdd_eq_some, not_or, not_not,
    Except.ok.injEq, Prod.mk.injEq, frameHeaderBytesV2, gt_iff_lt, Nat.not_lt,
    frameCommitmentBytesV1]
  constructor
  · rintro ⟨_, ⟨_, rfl⟩, header, hheader, _, rfl, _, ⟨haddressable, rfl⟩,
      ⟨hfits, hordinal, hsequence, hprevious⟩, _, ⟨_, rfl⟩, rfl, rfl, rfl⟩
    have hlong : (slice file offset (144 + header.plaintextLength.toNat)).length =
        144 + header.plaintextLength.toNat := length_slice hfits
    have hinner : FrameHeaderV2.decode
        (slice (slice file offset (144 + header.plaintextLength.toNat)) 0 96) = .ok header := by
      rw [slice_slice (by omega), Nat.add_zero]
      exact hheader
    have hdecode := SealedFrameV2.decode_of_header hinner hlong
    obtain ⟨_, hlength, hframe⟩ := frameAt_of_decode hheader hfits haddressable hdecode hordinal
      hsequence hprevious
    exact ⟨_, hframe, by rw [hlength], hframe.commitment_slice (by rw [hlength]), by rw [hlength]⟩
  · rintro ⟨frame, h, rfl, rfl, rfl⟩
    have hlong := h.wellFormed.length_encode
    have hfits := h.fits
    refine ⟨_, ⟨by omega, rfl⟩, frame.header, ?_, _, rfl, _, ⟨hlong ▸ h.addressable, rfl⟩,
      ⟨by omega, h.ordinal, h.sequence, h.chained⟩, _, ⟨by omega, rfl⟩, by rw [hlong],
      h.commitment_slice (by rw [hlong]), by rw [hlong]⟩
    rw [h.header_slice]
    exact FrameHeaderV2.decode_encode _

/-! ## Their loops -/

@[simp] theorem lastCommitment_append (frames : List SealedFrameV2) (frame : SealedFrameV2) :
    lastCommitment (frames ++ [frame]) = frame.commitment := by
  rw [lastCommitment, List.getLast?_append, List.getLast?_singleton]
  rfl

/-- The frame that either reader steps over leaves less of the file. -/
theorem FrameAt.lt_length (h : FrameAt file segment offset count previous frame) :
    offset < file.length := by
  have hlong := h.wellFormed.length_encode
  have hfits := h.fits
  omega

/-- The streaming loop returns the frames in front and the ones that stand in
the file from the offset on, if it stops at the end of the file. -/
theorem readFrames_eq_ok {all : List SealedFrameV2} :
    readFrames file segment remaining offset frames = .ok (all, file.length) ↔
      ∃ rest, all = frames ++ rest ∧ rest.length ≤ remaining ∧
        FramesFrom file segment offset frames.length (lastCommitment frames) rest := by
  induction remaining generalizing offset frames with
  | zero =>
      rw [readFrames, ite_error_eq_ok, Except.ok.injEq, Prod.mk.injEq]
      constructor
      · rintro ⟨_, rfl, rfl⟩
        exact ⟨[], (List.append_nil _).symm, le_rfl, rfl⟩
      · rintro ⟨rest, rfl, hcount, hrest⟩
        obtain rfl := List.eq_nil_of_length_eq_zero (Nat.le_zero.mp hcount)
        obtain rfl : offset = file.length := hrest
        exact ⟨lt_irrefl _, (List.append_nil _).symm, rfl⟩
  | succ remaining ih =>
      rw [readFrames]
      split
      · rename_i hmore
        rw [except_bind_eq_ok]
        constructor
        · rintro ⟨⟨frame, next⟩, hread, hlater⟩
          obtain ⟨hframe, rfl⟩ := readFrame_eq_ok.mp hread
          obtain ⟨rest, rfl, hcount, hrest⟩ := ih.mp hlater
          rw [lastCommitment_append, List.length_append, List.length_singleton] at hrest
          exact ⟨frame :: rest, List.append_assoc .., Nat.succ_le_succ hcount, hframe, hrest⟩
        · rintro ⟨rest, rfl, hcount, hrest⟩
          cases rest with
          | nil => exact absurd hrest hmore.ne
          | cons frame rest =>
              obtain ⟨hframe, hrest⟩ := hrest
              refine ⟨(frame, _), readFrame_eq_ok.mpr ⟨hframe, rfl⟩, ih.mpr ⟨rest, ?_, ?_, ?_⟩⟩
              · rw [List.append_assoc, List.singleton_append]
              · exact Nat.le_of_succ_le_succ hcount
              · rwa [lastCommitment_append, List.length_append, List.length_singleton]
      · rename_i hend
        rw [Except.ok.injEq, Prod.mk.injEq]
        constructor
        · rintro ⟨rfl, rfl⟩
          exact ⟨[], (List.append_nil _).symm, Nat.zero_le _, rfl⟩
        · rintro ⟨rest, rfl, _, hrest⟩
          cases rest with
          | nil => exact ⟨(List.append_nil _).symm, hrest⟩
          | cons frame rest => exact absurd hrest.1.lt_length hend

/-- Where frames stand that are encoded one behind the other. -/
def locate : Nat → List SealedFrameV2 → List ScannedFrameV2
  | _, [] => []
  | offset, frame :: rest =>
      ⟨frame.header, offset, frame.encode.length⟩ :: locate (offset + frame.encode.length) rest

/-- The seeking loop returns the places of the frames that the streaming one
returns. -/
theorem scanFrames_eq_ok {frames all : List ScannedFrameV2} :
    scanFrames file segment remaining offset previous frames = .ok (all, file.length) ↔
      ∃ rest, all = frames ++ locate offset rest ∧ rest.length ≤ remaining ∧
        FramesFrom file segment offset frames.length previous rest := by
  induction remaining generalizing offset previous frames with
  | zero =>
      rw [scanFrames, ite_error_eq_ok, Except.ok.injEq, Prod.mk.injEq]
      constructor
      · rintro ⟨_, rfl, rfl⟩
        exact ⟨[], (List.append_nil _).symm, le_rfl, rfl⟩
      · rintro ⟨rest, rfl, hcount, hrest⟩
        obtain rfl := List.eq_nil_of_length_eq_zero (Nat.le_zero.mp hcount)
        obtain rfl : offset = file.length := hrest
        exact ⟨lt_irrefl _, (List.append_nil _).symm, rfl⟩
  | succ remaining ih =>
      rw [scanFrames]
      split
      · rename_i hmore
        rw [except_bind_eq_ok]
        constructor
        · rintro ⟨⟨scanned, commitment, next⟩, hread, hlater⟩
          obtain ⟨frame, hframe, rfl, rfl, rfl⟩ := scanFrame_eq_ok.mp hread
          obtain ⟨rest, rfl, hcount, hrest⟩ := ih.mp hlater
          rw [List.length_append, List.length_singleton] at hrest
          exact ⟨frame :: rest, List.append_assoc .., Nat.succ_le_succ hcount, hframe, hrest⟩
        · rintro ⟨rest, rfl, hcount, hrest⟩
          cases rest with
          | nil => exact absurd hrest hmore.ne
          | cons frame rest =>
              obtain ⟨hframe, hrest⟩ := hrest
              refine ⟨(_, _, _), scanFrame_eq_ok.mpr ⟨frame, hframe, rfl, rfl, rfl⟩,
                ih.mpr ⟨rest, ?_, ?_, ?_⟩⟩
              · rw [locate, List.append_assoc, List.singleton_append]
              · exact Nat.le_of_succ_le_succ hcount
              · rwa [List.length_append, List.length_singleton]
      · rename_i hend
        rw [Except.ok.injEq, Prod.mk.injEq]
        constructor
        · rintro ⟨rfl, rfl⟩
          exact ⟨[], (List.append_nil _).symm, Nat.zero_le _, rfl⟩
        · rintro ⟨rest, rfl, _, hrest⟩
          cases rest with
          | nil => exact ⟨(List.append_nil _).symm, hrest⟩
          | cons frame rest => exact absurd hrest.1.lt_length hend

/-! ## Segment files -/

/-- A segment file: its header and at least one frame, as many as a segment may
have. -/
structure SegmentFile (file : List UInt8) (segment : SegmentHeaderV2)
    (frames : List SealedFrameV2) : Prop where
  header : readSegmentHeader file = .ok segment
  nonempty : frames ≠ []
  count : frames.length ≤ maxFramesPerSegmentV1
  framed : FramesFrom file segment segmentHeaderBytesV2 0 .zero frames

theorem readSegment_eq_ok :
    readSegment file = .ok ⟨segment, frames⟩ ↔ SegmentFile file segment frames := by
  simp only [readSegment, except_bind_eq_ok, ite_error_eq_ok, not_or, not_not, Except.ok.injEq,
    DecodedSegmentV2.mk.injEq]
  constructor
  · rintro ⟨_, hheader, ⟨_, _⟩, hframes, ⟨rfl, hne⟩, rfl, rfl⟩
    obtain ⟨rest, rfl, hcount, hrest⟩ := readFrames_eq_ok.mp hframes
    exact ⟨hheader, hne, hcount, hrest⟩
  · rintro ⟨hheader, hne, hcount, hframed⟩
    exact ⟨segment, hheader, (frames, file.length),
      readFrames_eq_ok.mpr ⟨frames, rfl, hcount, hframed⟩, ⟨rfl, hne⟩, rfl, rfl⟩

theorem scanSegmentFrames_eq_ok {scanned : List ScannedFrameV2} :
    scanSegmentFrames file = .ok (segment, scanned) ↔
      ∃ frames, SegmentFile file segment frames ∧ scanned = locate segmentHeaderBytesV2 frames := by
  simp only [scanSegmentFrames, except_bind_eq_ok, ite_error_eq_ok, not_or, not_not,
    Except.ok.injEq, Prod.mk.injEq]
  constructor
  · rintro ⟨_, hheader, ⟨_, _⟩, hframes, ⟨rfl, hne⟩, rfl, rfl⟩
    obtain ⟨rest, rfl, hcount, hrest⟩ := scanFrames_eq_ok.mp hframes
    refine ⟨rest, ⟨hheader, ?_, hcount, hrest⟩, rfl⟩
    rintro rfl
    exact hne rfl
  · rintro ⟨frames, ⟨hheader, hne, hcount, hframed⟩, rfl⟩
    refine ⟨segment, hheader, (_, file.length),
      scanFrames_eq_ok.mpr ⟨frames, rfl, hcount, hframed⟩, ⟨rfl, ?_⟩, rfl, rfl⟩
    cases frames with
    | nil => exact absurd rfl hne
    | cons frame rest => exact List.cons_ne_nil _ _

/-! ## The readers agree -/

/-- The places stand one behind the other from `start` to `stop`. -/
def Partitions : Nat → Nat → List ScannedFrameV2 → Prop
  | start, stop, [] => start = stop
  | start, stop, place :: rest =>
      place.byteOffset = start ∧ Partitions (start + place.encodedLength) stop rest

theorem FramesFrom.partitions (h : FramesFrom file segment offset count previous frames) :
    Partitions offset file.length (locate offset frames) := by
  induction frames generalizing offset count previous with
  | nil => exact h
  | cons frame rest ih => exact ⟨rfl, ih h.2⟩

section Opening

variable [Sha256] [FrameCipher]

/-- The place is the one of the frame, and opening it there is opening the frame. -/
structure Locates (file : List UInt8) (segment : SegmentHeaderV2) (frame : SealedFrameV2)
    (place : ScannedFrameV2) : Prop where
  header : place.header = frame.header
  length : place.encodedLength = frame.encode.length
  bytes : slice file place.byteOffset place.encodedLength = frame.encode
  opens : ∀ dek, openScannedFrame dek file segment place =
    (openFrameV2 dek segment frame []).mapError fun _ => .authenticationFailed

theorem FrameAt.locates (h : FrameAt file segment offset count previous frame) :
    Locates file segment frame ⟨frame.header, offset, frame.encode.length⟩ := by
  refine ⟨rfl, rfl, h.encoded, fun dek => ?_⟩
  have hread : readExact file offset frame.encode.length = .ok frame.encode :=
    readExact_eq_ok.mpr ⟨h.fits, h.encoded⟩
  rw [openScannedFrame, hread, except_bind_ok, SealedFrameV2.decode_encode frame h.wellFormed]
  exact if_neg (not_not_intro rfl)

theorem FramesFrom.locates (h : FramesFrom file segment offset count previous frames) :
    List.Forall₂ (Locates file segment) frames (locate offset frames) := by
  induction frames generalizing offset count previous with
  | nil => exact .nil
  | cons frame rest ih => exact .cons h.1.locates (ih h.2)

/-- What the streaming reader accepts the seeking one accepts, with the same
header, with places that partition the file behind it and that lead to the same
frames; and the other way round. -/
theorem segment_readers_agree (file : List UInt8) :
    (∀ segment frames, readSegment file = .ok ⟨segment, frames⟩ →
      ∃ scanned, scanSegmentFrames file = .ok (segment, scanned) ∧
        Partitions segmentHeaderBytesV2 file.length scanned ∧
        List.Forall₂ (Locates file segment) frames scanned) ∧
    ∀ segment scanned, scanSegmentFrames file = .ok (segment, scanned) →
      ∃ frames, readSegment file = .ok ⟨segment, frames⟩ := by
  constructor
  · intro segment frames h
    have hfile := readSegment_eq_ok.mp h
    exact ⟨_, scanSegmentFrames_eq_ok.mpr ⟨frames, hfile, rfl⟩, hfile.framed.partitions,
      hfile.framed.locates⟩
  · intro segment scanned h
    obtain ⟨frames, hfile, _⟩ := scanSegmentFrames_eq_ok.mp h
    exact ⟨frames, readSegment_eq_ok.mpr hfile⟩

end Opening

end Frames

/-! ## A segment of two frames -/

namespace Segment

def sampleHeader : SegmentHeaderV2 := ⟨.repeated 1, 0, .zero, by decide⟩

def sampleFrame (sequence : UInt32) (previous : FrameCommitmentV1) (ciphertext : List UInt8)
    (h : sequence.toNat < maxFramesPerSegmentV1 ∧
      ciphertext.length.toUInt32.toNat ≤ maxFramePlaintextBytesV1)
    (chain : sequence = 0 ↔ previous = .zero) : SealedFrameV2 where
  header := {
    objectKind := .request, segmentOrdinal := 0, frameSequence := sequence, globalSequence := 0
    plaintextLength := ciphertext.length.toUInt32, noncePrefix := .repeated 2, nonceCounter := 0
    previousFrameCommitment := previous, limits := h, chain, nonzero := by decide }
  ciphertext := ciphertext
  tag := .repeated 3
  commitment := .repeated 4

def sampleFrames : List SealedFrameV2 :=
  [sampleFrame 0 .zero [1, 2, 3] (by decide) (by decide),
    sampleFrame 1 (.repeated 4) [] (by decide) (by decide)]

def sampleFile : List UInt8 := sampleHeader.encode ++ sampleFrames.flatMap SealedFrameV2.encode

/-- One byte of the key and the nonce, and a tag over everything. -/
def digestPad [Sha256] (key : ResultDekV1) (nonce : FrameNonceV2) : UInt8 :=
  (Sha256.digest (key.asBytes ++ nonce.asBytes)).bytes.headI

def digestTag [Sha256] (key : ResultDekV1) (nonce : FrameNonceV2)
    (aad plaintext : List UInt8) : FrameTagV1 :=
  ⟨(Sha256.digest (key.asBytes ++ nonce.asBytes ++ field aad ++ plaintext)).bytes.take 16, by
    rw [List.length_take, Digest.length_eq]; decide⟩

/-- A cipher that opens only what was sealed under the same key, nonce and data. -/
@[reducible] def digestCipher [Sha256] : FrameCipher where
  encrypt key nonce aad plaintext :=
    (plaintext.map (· ^^^ digestPad key nonce), digestTag key nonce aad plaintext)
  decrypt key nonce aad ciphertext tag :=
    let plaintext := ciphertext.map (· ^^^ digestPad key nonce)
    if digestTag key nonce aad plaintext = tag then some plaintext else none

theorem segment_readers_agree_two_frames :
    letI := fips180
    letI := digestCipher
    ∃ scanned, scanSegmentFrames sampleFile = .ok (sampleHeader, scanned) ∧
      Partitions segmentHeaderBytesV2 sampleFile.length scanned ∧
      List.Forall₂ (Locates sampleFile sampleHeader) sampleFrames scanned := by
  let := fips180
  let := digestCipher
  have hread : readSegment sampleFile = .ok ⟨sampleHeader, sampleFrames⟩ := by decide +kernel
  exact (segment_readers_agree sampleFile).1 _ _ hread

end Segment

end Evidentrail
