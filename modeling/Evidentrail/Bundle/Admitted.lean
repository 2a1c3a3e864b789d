import Mathlib.Data.List.Forall2
import Evidentrail.Bundle.Bundle

/-!
# What a bundle was admitted with

`validate_encrypted_parts` walks over segments and frames with counters, a
chain of commitments and the set of nonces. What it accepted decodes to headers
and frames (`FramesAccepted`, `SegmentsAccepted`) that are numbered from zero,
linked to each other and sealed under different nonces.
-/

namespace Evidentrail

open Rust Std Encoding Bytes

namespace SealedBundle

variable [Sha256]

/-! ## Chains of commitments -/

/-- Every frame repeats the commitment of the one in front of it. -/
def FrameChain : (previous : FrameCommitmentV1) → List SealedFrameV1 → Prop
  | _, [] => True
  | previous, frame :: rest =>
      frame.header.previousFrameCommitment = previous ∧ FrameChain frame.commitment rest

/-- The commitment that the next segment repeats. -/
def chainEnd : (previous : FrameCommitmentV1) → List SealedFrameV1 → FrameCommitmentV1
  | previous, [] => previous
  | _, frame :: rest => chainEnd frame.commitment rest

/-- A segment header and its frames, decoded. -/
abbrev DecodedSegment := SegmentHeaderV1 × List SealedFrameV1

/-- Every segment repeats the last commitment of the one in front of it, and its
first frame the commitment of its own header. -/
def SegmentChain : (prior : FrameCommitmentV1) → List DecodedSegment → Prop
  | _, [] => True
  | prior, part :: rest =>
      part.1.priorSegmentCommitment = prior ∧
        FrameChain (segmentStartCommitmentV1 part.1) part.2 ∧
        SegmentChain (chainEnd (segmentStartCommitmentV1 part.1) part.2) rest

/-! ## Frames -/

/-- The nonces, the last first, in front of those seen before. -/
def sawNonces (frames : List SealedFrameV1) (seen : List FrameNonceV1) : List FrameNonceV1 :=
  (frames.map fun frame => frame.header.nonce).reverse ++ seen

structure FramesAccepted (segment : SegmentHeaderV1) (index : Nat) (previous : FrameCommitmentV1)
    (encodedFrames : List (List UInt8)) (p p' : Progress) (final : FrameCommitmentV1)
    (frames : List SealedFrameV1) : Prop where
  decoded : List.Forall₂ (fun bytes frame => SealedFrameV1.decode segment bytes = .ok frame)
    encodedFrames frames
  globals : frames.map (fun frame => frame.header.globalSequence.toNat) =
    List.range' p.expectedGlobalSequence encodedFrames.length
  positions : frames.map (fun frame => frame.header.segmentFrameSequence.toNat) =
    List.range' index encodedFrames.length
  chain : FrameChain previous frames
  final : final = chainEnd previous frames
  seen : p'.seenNonces = sawNonces frames p.seenNonces
  nodup : p.seenNonces.Nodup → p'.seenNonces.Nodup
  global : p'.expectedGlobalSequence = p.expectedGlobalSequence + encodedFrames.length
  count : p'.frameCount = p.frameCount + encodedFrames.length
  bytes : p'.encodedFrameBytes = p.encodedFrameBytes + (encodedFrames.map List.length).sum
  caps : encodedFrames ≠ [] → p'.frameCount ≤ maxMemoryEncryptedCoreFramesV1 ∧
    p'.encodedFrameBytes ≤ maxMemoryEncryptedCoreFrameBytesV1
  long : ∀ bytes ∈ encodedFrames, frameHeaderBytesV1 + frameTagBytesV1 ≤ bytes.length

/-- The frame that was accepted first, and the rest. -/
theorem validateFrames_cons {segment : SegmentHeaderV1} {index : Nat}
    {previous final : FrameCommitmentV1} {encodedFrame : List UInt8} {rest : List (List UInt8)}
    {p p' : Progress}
    (h : validateFrames segment index previous (encodedFrame :: rest) p = .ok (final, p')) :
    ∃ frame : SealedFrameV1, SealedFrameV1.decode segment encodedFrame = .ok frame ∧
      frameHeaderBytesV1 + frameTagBytesV1 ≤ encodedFrame.length ∧
      frame.header.globalSequence.toNat = p.expectedGlobalSequence ∧
      frame.header.segmentFrameSequence.toNat = index ∧
      frame.header.previousFrameCommitment = previous ∧ frame.header.nonce ∉ p.seenNonces ∧
      p.frameCount + 1 ≤ maxMemoryEncryptedCoreFramesV1 ∧
      p.encodedFrameBytes + encodedFrame.length ≤ maxMemoryEncryptedCoreFrameBytesV1 ∧
      validateFrames segment (index + 1) frame.commitment rest
        { expectedGlobalSequence := p.expectedGlobalSequence + 1
          seenNonces := frame.header.nonce :: p.seenNonces
          frameCount := p.frameCount + 1
          encodedFrameBytes := p.encodedFrameBytes + encodedFrame.length } = .ok (final, p') := by
  simp only [validateFrames, ite_error_eq_ok, except_bind_eq_ok, mapError_eq_ok, okOr_eq_ok,
    checkedAdd_eq_some, Nat.not_lt, gt_iff_lt, not_not] at h
  obtain ⟨hlong, frame, hframe, hglobal, ordinal, hordinal, hindex, hprevious, hnonce, _, ⟨-, rfl⟩,
    _, ⟨-, rfl⟩, hcount, _, ⟨-, rfl⟩, hbytes, hrest⟩ := h
  have hordinal : ordinal = index := by
    unfold u32TryFrom at hordinal
    split at hordinal
    · exact (Option.some.inj hordinal).symm
    · cases hordinal
  exact ⟨frame, hframe, hlong, hglobal, hindex.trans hordinal, hprevious, hnonce, hcount, hbytes,
    hrest⟩

theorem framesAccepted {segment : SegmentHeaderV1} : ∀ {encodedFrames : List (List UInt8)}
    {index : Nat} {previous final : FrameCommitmentV1} {p p' : Progress},
    validateFrames segment index previous encodedFrames p = .ok (final, p') →
    ∃ frames, FramesAccepted segment index previous encodedFrames p p' final frames
  | [], index, previous, final, p, p', h => by
      cases h
      exact ⟨[], .nil, rfl, rfl, trivial, rfl, rfl, id, rfl, rfl, rfl, fun hne => absurd rfl hne,
        by simp⟩
  | encodedFrame :: rest, index, previous, final, p, p', h => by
      obtain ⟨frame, hframe, hlong, hglobal, hindex, hprevious, hnonce, hcount, hbytes, hrest⟩ :=
        validateFrames_cons h
      obtain ⟨frames, hframes⟩ := framesAccepted hrest
      refine ⟨frame :: frames, .cons hframe hframes.decoded, ?_, ?_, ⟨hprevious, hframes.chain⟩,
        hframes.final, ?_, ?_, ?_, ?_, ?_, fun _ => ?_,
        List.forall_mem_cons.mpr ⟨hlong, hframes.long⟩⟩
      · rw [List.map_cons, hframes.globals, hglobal, List.length_cons, List.range'_succ]
      · rw [List.map_cons, hframes.positions, hindex, List.length_cons, List.range'_succ]
      · rw [hframes.seen]
        simp [sawNonces]
      · exact fun hnodup => hframes.nodup (List.nodup_cons.mpr ⟨hnonce, hnodup⟩)
      · rw [hframes.global, List.length_cons, Nat.add_comm rest.length, ← Nat.add_assoc]
      · rw [hframes.count, List.length_cons, Nat.add_comm rest.length, ← Nat.add_assoc]
      · rw [hframes.bytes, List.map_cons, List.sum_cons, ← Nat.add_assoc]
      · cases rest with
        | nil =>
            cases hrest
            exact ⟨hcount, hbytes⟩
        | cons next rest => exact hframes.caps (List.cons_ne_nil _ _)

/-! ## Segments -/

/-- What a segment decodes to. -/
structure DecodesTo (segment : SealedBundleSegmentV1) (part : DecodedSegment) : Prop where
  header : SegmentHeaderV1.decode segment.encodedHeader.asBytes = .ok part.1
  frames : List.Forall₂ (fun bytes frame => SealedFrameV1.decode part.1 bytes = .ok frame)
    segment.encodedFrames part.2

/-- The frames of all segments, in their order. -/
def frameTotal (segments : List SealedBundleSegmentV1) : Nat :=
  (segments.map fun segment => segment.encodedFrames.length).sum

/-- The bytes of all segments. -/
def byteTotal (segments : List SealedBundleSegmentV1) : Nat :=
  (segments.map SealedBundleSegmentV1.encodedLength).sum

omit [Sha256] in
theorem frameTotal_cons (segment : SealedBundleSegmentV1) (rest : List SealedBundleSegmentV1) :
    frameTotal (segment :: rest) = segment.encodedFrames.length + frameTotal rest := by
  rw [frameTotal, frameTotal, List.map_cons, List.sum_cons]

omit [Sha256] in
theorem byteTotal_cons (segment : SealedBundleSegmentV1) (rest : List SealedBundleSegmentV1) :
    byteTotal (segment :: rest) = segment.encodedLength + byteTotal rest := by
  rw [byteTotal, byteTotal, List.map_cons, List.sum_cons]

structure SegmentsAccepted (resultId : ResultId) (index : Nat) (prior : FrameCommitmentV1)
    (segments : List SealedBundleSegmentV1) (p p' : Progress) (parts : List DecodedSegment) :
    Prop where
  decoded : List.Forall₂ DecodesTo segments parts
  owned : ∀ part ∈ parts, part.1.resultId = resultId
  sequences : parts.map (fun part => part.1.segmentSequence.toNat) =
    List.range' index segments.length
  globals : (parts.flatMap Prod.snd).map (fun frame => frame.header.globalSequence.toNat) =
    List.range' p.expectedGlobalSequence (frameTotal segments)
  positions : ∀ part ∈ parts, part.2.map (fun frame => frame.header.segmentFrameSequence.toNat) =
    List.range part.2.length
  chain : SegmentChain prior parts
  seen : p'.seenNonces = sawNonces (parts.flatMap Prod.snd) p.seenNonces
  nodup : p.seenNonces.Nodup → p'.seenNonces.Nodup
  count : p'.frameCount = p.frameCount + frameTotal segments
  bytes : p'.encodedFrameBytes = p.encodedFrameBytes + byteTotal segments
  caps : segments ≠ [] → p'.frameCount ≤ maxMemoryEncryptedCoreFramesV1 ∧
    p'.encodedFrameBytes ≤ maxMemoryEncryptedCoreFrameBytesV1
  long : ∀ segment ∈ segments, ∀ bytes ∈ segment.encodedFrames,
    frameHeaderBytesV1 + frameTagBytesV1 ≤ bytes.length
  counts : ∀ segment ∈ segments, segment.encodedFrames ≠ [] ∧
    segment.encodedFrames.length ≤ maxFramesPerSegmentV1

theorem segmentsAccepted {resultId : ResultId} : ∀ {segments : List SealedBundleSegmentV1}
    {index : Nat} {prior : FrameCommitmentV1} {times : Option (Int64 × Int64)} {p p' : Progress},
    validateSegments resultId index prior times segments p = .ok p' →
    ∃ parts, SegmentsAccepted resultId index prior segments p p' parts
  | [], index, prior, times, p, p', h => by
      cases h
      exact ⟨[], .nil, by simp, rfl, rfl, by simp, trivial, rfl, id, rfl, rfl,
        fun hne => absurd rfl hne, by simp, by simp⟩
  | segment :: rest, index, prior, times, p, p', h => by
      simp only [validateSegments, ite_error_eq_ok, except_bind_eq_ok, mapError_eq_ok, okOr_eq_ok,
        checkedAdd_eq_some, u64TryFrom_eq_some, not_or, Nat.not_lt, gt_iff_lt, not_not] at h
      obtain ⟨⟨hsome, hmost⟩, header, hheader, ⟨-, howned⟩, _, ⟨-, rfl⟩, hsequence, hprior, -, _,
        ⟨-, rfl⟩, ⟨final, q⟩, hvalid, hrest⟩ := h
      obtain ⟨frames, hframes⟩ := framesAccepted hvalid
      obtain ⟨parts, hparts⟩ := segmentsAccepted hrest
      have hne : segment.encodedFrames ≠ [] := by simpa using hsome
      have hlength : frames.length = segment.encodedFrames.length := hframes.decoded.length_eq.symm
      refine ⟨(header, frames) :: parts, .cons ⟨hheader, hframes.decoded⟩ hparts.decoded,
        List.forall_mem_cons.mpr ⟨howned, hparts.owned⟩, ?_, ?_,
        List.forall_mem_cons.mpr ⟨?_, hparts.positions⟩,
        ⟨hprior, hframes.chain, hframes.final ▸ hparts.chain⟩, ?_,
        fun hnodup => hparts.nodup (hframes.nodup hnodup), ?_, ?_, fun _ => ?_,
        List.forall_mem_cons.mpr ⟨hframes.long, hparts.long⟩,
        List.forall_mem_cons.mpr ⟨⟨hne, hmost⟩, hparts.counts⟩⟩
      · rw [List.map_cons, hparts.sequences, List.length_cons, List.range'_succ, hsequence]
      · rw [List.flatMap_cons, List.map_append, hframes.globals, hparts.globals, hframes.global,
          frameTotal_cons, List.range'_append_1]
      · simp only
        rw [hframes.positions, hlength, List.range_eq_range']
      · rw [hparts.seen, hframes.seen]
        simp [sawNonces]
      · rw [hparts.count, hframes.count, frameTotal_cons, ← Nat.add_assoc]
      · rw [hparts.bytes, hframes.bytes, byteTotal_cons, SealedBundleSegmentV1.encodedLength,
          ← Nat.add_assoc, ← Nat.add_assoc]
      · cases rest with
        | nil =>
            cases hrest
            exact hframes.caps hne
        | cons next rest => exact hparts.caps (List.cons_ne_nil _ _)

/-! ## Bundles -/

omit [Sha256] in
theorem validateCounts_eq_ok {segmentCount frameCount : Nat} :
    validateCounts segmentCount frameCount = .ok () ↔
      (0 < segmentCount ∧ segmentCount ≤ 64) ∧ 0 < frameCount ∧ frameCount ≤ 4096 ∧
        segmentCount ≤ frameCount := by
  unfold validateCounts maxMemoryEncryptedCoreSegmentsV1 maxMemoryEncryptedCoreFramesV1
  rw [ite_error_eq_ok, ite_error_eq_ok, and_iff_left rfl]
  omega

/-- The length of the directory. -/
def directoryLength (segmentCount frameCount : Nat) : Nat := segmentCount * 48 + frameCount * 40

omit [Sha256] in
theorem canonicalDirectoryLen_eq_ok {segmentCount frameCount length : Nat} :
    canonicalDirectoryLen segmentCount frameCount = .ok length ↔
      directoryLength segmentCount frameCount < u64Bound ∧
        length = directoryLength segmentCount frameCount := by
  simp only [canonicalDirectoryLen, except_bind_eq_ok, okOr_eq_ok, checkedMul_eq_some,
    checkedAdd_eq_some, sealedBundleSegmentDescriptorBytesV1, sealedBundleFrameDescriptorBytesV1,
    directoryLength]
  constructor
  · rintro ⟨_, ⟨-, rfl⟩, _, ⟨-, rfl⟩, h⟩
    exact h
  · intro h
    exact ⟨_, ⟨by omega, rfl⟩, _, ⟨by omega, rfl⟩, h⟩

/-- The numbers of an admitted bundle, which are those of its parts. -/
structure Admitted (b : SealedEncryptedCoreResultBundleV1) : Prop where
  identity : allZero b.resultId.asBytes = false
  manifest : 0 < b.encodedManifest.length ∧ b.encodedManifest.length ≤ maxEncodedManifestBytesV1
  segments : 0 < b.segments.length ∧ b.segments.length ≤ 64
  frames : b.frameCount = frameTotal b.segments
  frameCount : 0 < b.frameCount ∧ b.frameCount ≤ 4096 ∧ b.segments.length ≤ b.frameCount
  bytes : b.encodedFrameBytes = byteTotal b.segments
  byteCount : b.encodedFrameBytes ≤ maxMemoryEncryptedCoreFrameBytesV1
  length : b.encodedLen = 128 + b.encodedManifest.length +
    directoryLength b.segments.length b.frameCount + b.encodedFrameBytes
  lengthCap : b.encodedLen ≤ maxSealedBundleBytesV1
  long : ∀ segment ∈ b.segments, ∀ bytes ∈ segment.encodedFrames,
    frameHeaderBytesV1 + frameTagBytesV1 ≤ bytes.length
  counts : ∀ segment ∈ b.segments, segment.encodedFrames ≠ [] ∧
    segment.encodedFrames.length ≤ maxFramesPerSegmentV1

/-- The decoded parts of an admitted bundle. -/
def Parts (b : SealedEncryptedCoreResultBundleV1) (manifest : SealedManifestV1)
    (parts : List DecodedSegment) : Prop :=
  SealedCoreResultManifestV1.decode b.resultId b.encodedManifest = .ok manifest ∧
    ∃ p, SegmentsAccepted b.resultId 0 .zero b.segments
      { seenNonces := [manifest.header.nonce] } p parts

theorem admitted (b : SealedEncryptedCoreResultBundleV1) :
    Admitted b ∧ ∃ manifest parts, Parts b manifest parts := by
  have h := b.admitted
  simp only [admitParts, validateEncryptedParts, canonicalEncodedLen, ite_error_eq_ok,
    except_bind_eq_ok, mapError_eq_ok, okOr_eq_ok, checkedAdd_eq_some, canonicalDirectoryLen_eq_ok,
    Except.ok.injEq, not_or, Nat.not_lt, gt_iff_lt] at h
  obtain ⟨_, ⟨hidentity, ⟨hsome, hmanifest⟩, manifest, hdecode, ⟨hsegments, -⟩, p, hvalid, _,
    hcounts, rfl⟩, _, ⟨_, ⟨-, rfl⟩, _, ⟨-, rfl⟩, _, ⟨-, rfl⟩, _, ⟨-, rfl⟩, hcap, rfl⟩, hend⟩ := h
  obtain ⟨parts, hparts⟩ := segmentsAccepted hvalid
  simp only [Prod.mk.injEq] at hend
  obtain ⟨hframes, hbytes, hlength⟩ := hend
  have hcounts := validateCounts_eq_ok.mp hcounts
  have hcount := hparts.count
  have hbyteTotal := hparts.bytes
  have hcaps := hparts.caps (by simpa using hsegments)
  simp only [Nat.zero_add] at hcount hbyteTotal hcap hlength
  refine ⟨⟨by simpa using hidentity, ⟨?_, hmanifest⟩, hcounts.1, by omega, by omega, by omega,
    by omega, ?_, by omega, hparts.long, hparts.counts⟩, manifest, parts, hdecode, p, hparts⟩
  · exact List.length_pos_iff.mpr (by simpa using hsome)
  · rw [← hlength, hframes, hbytes, sealedBundleHeaderBytesV1]

end SealedBundle

end Evidentrail
