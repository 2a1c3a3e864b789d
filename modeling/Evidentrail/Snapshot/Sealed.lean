import Evidentrail.Lib.Layout
import Evidentrail.Snapshot.Frame

/-!
# Sealed frames are canonical

The second direction of the frame codec: a frame header and a sealed frame that
the decoders accept are the encodings of what they decode to
(`FrameHeaderV2.canonical`, `SealedFrameV2.canonical`). The ciphertext has the
only variable width, and the header in front of it says which.
-/

namespace Evidentrail

open Rust Std Encoding Bytes

namespace SnapshotObjectKindV2

theorem fromCode_eq_some {code : UInt16} {kind : SnapshotObjectKindV2} :
    fromCode code = some kind ↔ code = kind.code := by
  constructor
  · intro h
    unfold fromCode at h
    split at h <;> cases h <;> rfl
  · rintro rfl
    exact fromCode_code kind

end SnapshotObjectKindV2

/-- The nonce stands in two neighbouring fields. -/
theorem ofBytes_nonce {bytes : List UInt8} {offset : Nat} (h : offset + 24 ≤ bytes.length) :
    (FixedBytes.ofBytes (slice bytes offset 16 ++ slice bytes (offset + 16) 8) : FrameNonceV2) =
      frameNonce (readArray bytes offset) (readU64 bytes (offset + 16)) := by
  have hnonce : (readArray bytes offset : ResultNoncePrefixV1).asBytes = slice bytes offset 16 :=
    FixedBytes.asBytes_ofBytes (length_slice (by omega))
  have hcounter : u64Be (readU64 bytes (offset + 16)) = slice bytes (offset + 16) 8 :=
    u64Be_u64OfBe (length_slice (by omega))
  rw [← hnonce, ← hcounter]
  exact FixedBytes.ofBytes_asBytes (frameNonce _ _)

namespace FrameHeaderV2

def fields (header : FrameHeaderV2) : List (List UInt8) :=
  [asciiBytes "EVRFRM02", u16Be 2, u16Be header.objectKind.code, zeros 4,
    u64Be header.segmentOrdinal, u32Be header.frameSequence, u64Be header.globalSequence,
    u32Be header.plaintextLength, header.noncePrefix.asBytes, u64Be header.nonceCounter,
    header.previousFrameCommitment.asBytes]

theorem encode_eq_flatten (header : FrameHeaderV2) : header.encode = header.fields.flatten := by
  simp only [encode, fields, List.flatten_cons, List.flatten_nil, List.append_nil]

theorem canonical : Canonical encode decode fun _ => True := by
  intro bytes header
  rw [and_true]
  by_cases hlength : bytes.length = 96
  · have hwidth := length_encode header
    rw [encode_eq_flatten] at hwidth ⊢
    rw [eq_flatten_iff hwidth hlength]
    simp only [fields, Laid, length_frameMagic, length_u16Be, length_u32Be, length_u64Be,
      length_zeros, FixedBytes.length_asBytes, Nat.reduceAdd]
    rw [slice_eq_u16Be (by omega), slice_eq_u16Be (by omega), slice_eq_zeros (by omega),
      slice_eq_u64Be (by omega), slice_eq_u32Be (by omega), slice_eq_u64Be (by omega),
      slice_eq_u32Be (by omega), slice_eq_asBytes (by omega), slice_eq_u64Be (by omega),
      slice_eq_asBytes (by omega)]
    have hnonce : (FixedBytes.ofBytes (slice bytes 40 16 ++ slice bytes 56 8) : FrameNonceV2) =
        frameNonce (readArray bytes 40) (readU64 bytes 56) := ofBytes_nonce (by omega)
    simp only [decode, ite_error_eq_ok, except_bind_eq_ok, okOr_eq_ok, hnonce, new_eq_ok,
      SnapshotObjectKindV2.fromCode_eq_some, not_not, Bool.not_eq_true', Bool.not_eq_false,
      and_true]
    simp only [hlength, frameHeaderBytesV2, true_and]
    constructor
    · rintro ⟨hmagic, hversion, hzero, kind, hkind, rfl, h1, h2, h3, h4, h5, h6, h7⟩
      exact ⟨hmagic, hversion, hkind, hzero, h1.symm, h2.symm, h3.symm, h4.symm, h5.symm, h6.symm,
        h7.symm⟩
    · rintro ⟨hmagic, hversion, hkind, hzero, h1, h2, h3, h4, h5, h6, h7⟩
      exact ⟨hmagic, hversion, hzero, _, hkind, rfl, h1.symm, h2.symm, h3.symm, h4.symm, h5.symm,
        h6.symm, h7.symm⟩
  · constructor
    · intro h
      simp only [decode, ite_error_eq_ok, not_not] at h
      exact absurd h.1 hlength
    · rintro rfl
      exact absurd (length_encode header) hlength

end FrameHeaderV2

namespace SealedFrameV2

/-- The header says how long the ciphertext is. -/
def WellFormed (frame : SealedFrameV2) : Prop :=
  frame.ciphertext.length = frame.header.plaintextLength.toNat

def fields (frame : SealedFrameV2) : List (List UInt8) :=
  [frame.header.encode, frame.ciphertext, frame.tag.asBytes, frame.commitment.asBytes]

theorem encode_eq_flatten (frame : SealedFrameV2) : frame.encode = frame.fields.flatten := by
  simp only [encode, fields, List.flatten_cons, List.flatten_nil, List.append_nil]

/-- What `decode` answers on bytes whose header decodes. -/
theorem decode_of_header {encoded : List UInt8} {header : FrameHeaderV2}
    (hheader : FrameHeaderV2.decode (slice encoded 0 96) = .ok header)
    (hlength : encoded.length = 144 + header.plaintextLength.toNat) :
    decode encoded = .ok {
      header
      ciphertext := slice encoded 96 header.plaintextLength.toNat
      tag := readArray encoded (96 + header.plaintextLength.toNat)
      commitment := readArray encoded (112 + header.plaintextLength.toNat) } := by
  have hlimit := header.limits.2
  have hend : 96 + header.plaintextLength.toNat + 16 = 112 + header.plaintextLength.toNat := by
    omega
  simp only [decode, frameHeaderBytesV2, frameTagBytesV1, frameCommitmentBytesV1,
    maxEncodedFrameBytesV2, hheader, hlength, except_bind_ok, hend]
  rw [if_neg (by omega), if_neg (by omega)]

theorem decode_eq_ok_header {encoded : List UInt8} {frame : SealedFrameV2}
    (h : decode encoded = .ok frame) :
    FrameHeaderV2.decode (slice encoded 0 96) = .ok frame.header ∧
      encoded.length = 144 + frame.header.plaintextLength.toNat := by
  simp only [decode, ite_error_eq_ok, except_bind_eq_ok, not_not, Except.ok.injEq] at h
  obtain ⟨_, header, hheader, hlength, rfl⟩ := h
  refine ⟨hheader, hlength.trans ?_⟩
  simp only [frameHeaderBytesV2, frameTagBytesV1, frameCommitmentBytesV1]
  omega

theorem canonical : Canonical encode decode WellFormed := by
  intro bytes frame
  constructor
  · intro h
    obtain ⟨hheader, hlength⟩ := decode_eq_ok_header h
    have hframe := Except.ok.inj (h.symm.trans (decode_of_header hheader hlength))
    have hlimit := frame.header.limits.2
    have hheaderBytes := ((FrameHeaderV2.canonical _ _).mp hheader).1
    have hcipher : frame.ciphertext = slice bytes 96 frame.header.plaintextLength.toNat :=
      congrArg ciphertext hframe
    have htag : readArray bytes (96 + frame.header.plaintextLength.toNat) = frame.tag :=
      (congrArg tag hframe).symm
    have hcommitment : readArray bytes (112 + frame.header.plaintextLength.toNat) =
        frame.commitment := (congrArg commitment hframe).symm
    have hwell : frame.WellFormed := by
      rw [WellFormed, hcipher, length_slice (by omega)]
    have hwidth : frame.fields.flatten.length = 144 + frame.header.plaintextLength.toNat := by
      rw [← encode_eq_flatten, length_encode, hwell]
    refine ⟨?_, hwell⟩
    rw [encode_eq_flatten, eq_flatten_iff hwidth hlength]
    simp only [fields, Laid, FrameHeaderV2.length_encode, FixedBytes.length_asBytes, Nat.zero_add]
    rw [hwell, ← hcipher, slice_eq_asBytes (by omega), slice_eq_asBytes (by omega)]
    refine ⟨hheaderBytes.symm, rfl, htag, ?_, trivial⟩
    rw [← hcommitment]
    congr 1
    omega
  · rintro ⟨rfl, hwell⟩
    exact decode_encode frame hwell

theorem wellFormed_sealed [Sha256] [FrameCipher] [LawfulFrameCipher] {resultDek : ResultDekV1}
    {segment : SegmentHeaderV2} {header : FrameHeaderV2} {plaintext additionalAad : List UInt8}
    {frame : SealedFrameV2}
    (h : sealFrameV2 resultDek segment header plaintext additionalAad = .ok frame) :
    frame.WellFormed := by
  rw [WellFormed, length_ciphertext h, length_plaintext h, sealFrameV2_header h]

end SealedFrameV2

end Evidentrail
