import Evidentrail.Lib.Layout
import Evidentrail.Store.Lifecycle

/-!
# Encrypted frames

A segment is a header and frames, each with a header of its own, a
ciphertext, a tag and a commitment that the next frame repeats. The
authenticated cipher comes from the `chacha20poly1305` crate and is a
parameter here (`FrameCipher`): what the source decides is the nonce and
the associated data each frame is sealed under.
-/

namespace Evidentrail

open Rust Std Encoding Bytes

/-! ## Reading fixed bytes -/

namespace FixedBytes

variable {n : Nat}

/-- `try_into` of a slice whose length was checked. -/
def ofBytes (bytes : List UInt8) : FixedBytes n :=
  if h : bytes.length = n then ⟨bytes, h⟩ else .zero

@[simp] theorem length_asBytes (b : FixedBytes n) : b.asBytes.length = n := b.length_eq

@[simp] theorem ofBytes_asBytes (b : FixedBytes n) : ofBytes b.asBytes = b := by
  rw [ofBytes, dif_pos b.length_eq]

theorem asBytes_ofBytes {bytes : List UInt8} (h : bytes.length = n) :
    (ofBytes bytes : FixedBytes n).asBytes = bytes := by
  rw [ofBytes, dif_pos h]

end FixedBytes

/-- `read_array`. -/
def readArray {n : Nat} (bytes : List UInt8) (offset : Nat) : FixedBytes n :=
  .ofBytes (slice bytes offset n)

/-- `from_bytes` of an identity. -/
def HashId.ofBytes {kind : IdKind} (bytes : List UInt8) : HashId kind :=
  let fixed : FixedBytes 32 := .ofBytes bytes
  ⟨⟨fixed.asBytes, fixed.length_eq⟩⟩

@[simp] theorem HashId.ofBytes_asBytes {kind : IdKind} (id : HashId kind) :
    HashId.ofBytes id.asBytes = id := by
  have hfixed : FixedBytes.ofBytes id.asBytes = ⟨id.asBytes, id.length_asBytes⟩ :=
    FixedBytes.ofBytes_asBytes ⟨id.asBytes, id.length_asBytes⟩
  exact HashId.asBytes_inj (congrArg FixedBytes.asBytes hfixed)

theorem HashId.asBytes_ofBytes {kind : IdKind} {bytes : List UInt8} (h : bytes.length = 32) :
    (HashId.ofBytes bytes : HashId kind).asBytes = bytes :=
  FixedBytes.asBytes_ofBytes h

def readId {kind : IdKind} (bytes : List UInt8) (offset : Nat) : HashId kind :=
  .ofBytes (slice bytes offset 32)

theorem slice_eq_asBytes {n : Nat} {bytes : List UInt8} {offset : Nat} {b : FixedBytes n}
    (h : offset + n ≤ bytes.length) :
    slice bytes offset n = b.asBytes ↔ readArray bytes offset = b := by
  constructor
  · intro hslice
    rw [readArray, hslice, FixedBytes.ofBytes_asBytes]
  · rintro rfl
    exact (FixedBytes.asBytes_ofBytes (length_slice h)).symm

theorem slice_eq_idBytes {kind : IdKind} {bytes : List UInt8} {offset : Nat} {id : HashId kind}
    (h : offset + 32 ≤ bytes.length) :
    slice bytes offset 32 = id.asBytes ↔ readId bytes offset = id := by
  constructor
  · intro hslice
    rw [readId, hslice, HashId.ofBytes_asBytes]
  · rintro rfl
    exact (HashId.asBytes_ofBytes (length_slice h)).symm

/-! ## Object kinds -/

inductive SnapshotObjectKindV2 where
  | request
  | authorizedEvent
  | semanticReceipt
  | operationalReceipt
  | dataManifest
  | eventIndex
  | product
  | finalManifest
  | aliasManifest
  | eventIndexDirectory
deriving DecidableEq

namespace SnapshotObjectKindV2

def code : SnapshotObjectKindV2 → UInt16
  | .request => 1
  | .authorizedEvent => 2
  | .semanticReceipt => 3
  | .operationalReceipt => 4
  | .dataManifest => 5
  | .eventIndex => 6
  | .product => 7
  | .finalManifest => 8
  | .aliasManifest => 9
  | .eventIndexDirectory => 10

def fromCode : UInt16 → Option SnapshotObjectKindV2
  | 1 => some .request
  | 2 => some .authorizedEvent
  | 3 => some .semanticReceipt
  | 4 => some .operationalReceipt
  | 5 => some .dataManifest
  | 6 => some .eventIndex
  | 7 => some .product
  | 8 => some .finalManifest
  | 9 => some .aliasManifest
  | 10 => some .eventIndexDirectory
  | _ => none

@[simp] theorem fromCode_code (kind : SnapshotObjectKindV2) : fromCode kind.code = some kind := by
  cases kind <;> rfl

end SnapshotObjectKindV2

inductive SnapshotFrameErrorV2 where
  | invalidEncodedLength
  | invalidMagic
  | unsupportedVersion
  | unsupportedObjectKind
  | nonzeroReserved
  | invalidSegmentChain
  | invalidFrameChain
  | invalidNonce
  | frameLimit
  | lengthOverflow
  | headerContextMismatch
  | commitmentMismatch
  | authenticationFailed
deriving DecidableEq

def maxFramesPerSegmentV1 : Nat := 4096
def maxFramePlaintextBytesV1 : Nat := 8 * 1024 * 1024
def segmentHeaderBytesV2 : Nat := 96
def frameHeaderBytesV2 : Nat := 96
def frameTagBytesV1 : Nat := 16
def frameCommitmentBytesV1 : Nat := 32

def maxEncodedFrameBytesV2 : Nat :=
  frameHeaderBytesV2 + maxFramePlaintextBytesV1 + frameTagBytesV1 + frameCommitmentBytesV1

/-! ## Segment headers -/

@[simp] theorem length_segmentMagic : (asciiBytes "EVRSEG02").length = 8 := by decide

/-- Only `new` builds one. The prior commitment is the one of the preceding
segment, zero for segment zero alone. -/
structure SegmentHeaderV2 where
  resultId : ResultId
  segmentOrdinal : UInt64
  priorSegmentCommitment : FrameCommitmentV1
  valid : allZero resultId.asBytes = false ∧
    (segmentOrdinal = 0 ↔ priorSegmentCommitment = .zero)
deriving DecidableEq

namespace SegmentHeaderV2

def new (resultId : ResultId) (segmentOrdinal : UInt64)
    (priorSegmentCommitment : FrameCommitmentV1) :
    Except SnapshotFrameErrorV2 SegmentHeaderV2 :=
  if h : allZero resultId.asBytes = false ∧
      (segmentOrdinal = 0 ↔ priorSegmentCommitment = .zero) then
    .ok ⟨resultId, segmentOrdinal, priorSegmentCommitment, h⟩
  else .error .invalidSegmentChain

def encode (segment : SegmentHeaderV2) : List UInt8 :=
  asciiBytes "EVRSEG02" ++ (u16Be 2 ++ (zeros 6 ++ (segment.resultId.asBytes ++
    (u64Be segment.segmentOrdinal ++ (segment.priorSegmentCommitment.asBytes ++ zeros 8)))))

def decode (encoded : List UInt8) : Except SnapshotFrameErrorV2 SegmentHeaderV2 :=
  if encoded.length ≠ segmentHeaderBytesV2 then .error .invalidEncodedLength
  else if slice encoded 0 8 ≠ asciiBytes "EVRSEG02" then .error .invalidMagic
  else if readU16 encoded 8 ≠ 2 then .error .unsupportedVersion
  else if !allZero (slice encoded 10 6) || !allZero (slice encoded 88 8) then
    .error .nonzeroReserved
  else new (readId encoded 16) (readU64 encoded 48) (readArray encoded 56)

theorem new_eq_ok {resultId : ResultId} {segmentOrdinal : UInt64}
    {prior : FrameCommitmentV1} {segment : SegmentHeaderV2} :
    new resultId segmentOrdinal prior = .ok segment ↔
      segment.resultId = resultId ∧ segment.segmentOrdinal = segmentOrdinal ∧
        segment.priorSegmentCommitment = prior := by
  unfold new
  constructor
  · intro h
    split at h
    · cases h
      exact ⟨rfl, rfl, rfl⟩
    · cases h
  · rintro ⟨rfl, rfl, rfl⟩
    rw [dif_pos segment.valid]

@[simp] theorem length_encode (segment : SegmentHeaderV2) : segment.encode.length = 96 := by
  simp [encode]

end SegmentHeaderV2

/-! ## Frame headers -/

/-- A nonce is sixteen bytes of the result and a counter. -/
abbrev FrameNonceV2 := FixedBytes 24

def frameNonce (noncePrefix : ResultNoncePrefixV1) (counter : UInt64) : FrameNonceV2 :=
  ⟨noncePrefix.asBytes ++ u64Be counter, by simp⟩

/-- `nonce_at`. -/
def NonceReservationV1.nonceAt (reservation : NonceReservationV1) (index : Nat) :
    Except LifecycleRecordErrorV1 FrameNonceV2 :=
  if index ≥ reservation.count then .error .invalidNonceReservation
  else do
    let counter ← okOr .nonceNamespaceExhausted (checkedAdd reservation.firstCounter index)
    .ok (frameNonce reservation.nonceBase (UInt64.ofNat counter))

/-- Only `new` builds one. -/
structure FrameHeaderV2 where
  objectKind : SnapshotObjectKindV2
  segmentOrdinal : UInt64
  frameSequence : UInt32
  globalSequence : UInt64
  plaintextLength : UInt32
  noncePrefix : ResultNoncePrefixV1
  nonceCounter : UInt64
  previousFrameCommitment : FrameCommitmentV1
  limits : frameSequence.toNat < maxFramesPerSegmentV1 ∧
    plaintextLength.toNat ≤ maxFramePlaintextBytesV1
  chain : frameSequence = 0 ↔ previousFrameCommitment = .zero
  nonzero : noncePrefix.isZero = false
deriving DecidableEq

namespace FrameHeaderV2

def new (objectKind : SnapshotObjectKindV2) (segmentOrdinal : UInt64) (frameSequence : UInt32)
    (globalSequence : UInt64) (plaintextLength : UInt32) (nonce : FrameNonceV2)
    (previousFrameCommitment : FrameCommitmentV1) :
    Except SnapshotFrameErrorV2 FrameHeaderV2 :=
  let noncePrefix : ResultNoncePrefixV1 := readArray nonce.asBytes 0
  if limits : frameSequence.toNat < maxFramesPerSegmentV1 ∧
      plaintextLength.toNat ≤ maxFramePlaintextBytesV1 then
    if chain : frameSequence = 0 ↔ previousFrameCommitment = .zero then
      if nonzero : noncePrefix.isZero = false then
        .ok { objectKind, segmentOrdinal, frameSequence, globalSequence, plaintextLength
              noncePrefix, nonceCounter := readU64 nonce.asBytes 16, previousFrameCommitment
              limits, chain, nonzero }
      else .error .invalidNonce
    else .error .invalidFrameChain
  else .error .frameLimit

def nonce (header : FrameHeaderV2) : FrameNonceV2 :=
  frameNonce header.noncePrefix header.nonceCounter

def encode (header : FrameHeaderV2) : List UInt8 :=
  asciiBytes "EVRFRM02" ++ (u16Be 2 ++ (u16Be header.objectKind.code ++ (zeros 4 ++
    (u64Be header.segmentOrdinal ++ (u32Be header.frameSequence ++
    (u64Be header.globalSequence ++ (u32Be header.plaintextLength ++
    (header.noncePrefix.asBytes ++ (u64Be header.nonceCounter ++
    header.previousFrameCommitment.asBytes)))))))))

def decode (encoded : List UInt8) : Except SnapshotFrameErrorV2 FrameHeaderV2 :=
  if encoded.length ≠ frameHeaderBytesV2 then .error .invalidEncodedLength
  else if slice encoded 0 8 ≠ asciiBytes "EVRFRM02" then .error .invalidMagic
  else if readU16 encoded 8 ≠ 2 then .error .unsupportedVersion
  else if !allZero (slice encoded 12 4) then .error .nonzeroReserved
  else do
    let objectKind ← okOr .unsupportedObjectKind
      (SnapshotObjectKindV2.fromCode (readU16 encoded 10))
    new objectKind (readU64 encoded 16) (readU32 encoded 24) (readU64 encoded 28)
      (readU32 encoded 36) (.ofBytes (slice encoded 40 16 ++ slice encoded 56 8))
      (readArray encoded 64)

@[simp] theorem length_frameMagic : (asciiBytes "EVRFRM02").length = 8 := by decide

@[simp] theorem length_encode (header : FrameHeaderV2) : header.encode.length = 96 := by
  simp [encode]

theorem new_eq_ok {objectKind : SnapshotObjectKindV2} {segmentOrdinal globalSequence : UInt64}
    {frameSequence plaintextLength : UInt32} {noncePrefix : ResultNoncePrefixV1}
    {nonceCounter : UInt64} {previous : FrameCommitmentV1} {header : FrameHeaderV2} :
    new objectKind segmentOrdinal frameSequence globalSequence plaintextLength
        (frameNonce noncePrefix nonceCounter) previous = .ok header ↔
      header.objectKind = objectKind ∧ header.segmentOrdinal = segmentOrdinal ∧
        header.frameSequence = frameSequence ∧ header.globalSequence = globalSequence ∧
        header.plaintextLength = plaintextLength ∧ header.noncePrefix = noncePrefix ∧
        header.nonceCounter = nonceCounter ∧ header.previousFrameCommitment = previous := by
  have hnonce : readArray (frameNonce noncePrefix nonceCounter).asBytes 0 = noncePrefix := by
    simp [frameNonce, readArray]
  have hcounter : readU64 (frameNonce noncePrefix nonceCounter).asBytes 16 = nonceCounter := by
    simp [frameNonce, readU64]
  unfold new
  simp only [hnonce, hcounter]
  constructor
  · intro h
    split at h
    · split at h
      · split at h
        · cases h
          exact ⟨rfl, rfl, rfl, rfl, rfl, rfl, rfl, rfl⟩
        · cases h
      · cases h
    · cases h
  · rintro ⟨rfl, rfl, rfl, rfl, rfl, rfl, rfl, rfl⟩
    rw [dif_pos header.limits, dif_pos header.chain, dif_pos header.nonzero]

theorem decode_encode (header : FrameHeaderV2) : decode header.encode = .ok header := by
  have hlength : header.encode.length = frameHeaderBytesV2 := by simp [frameHeaderBytesV2]
  have hnonce : (FixedBytes.ofBytes (header.noncePrefix.asBytes ++ u64Be header.nonceCounter) :
      FrameNonceV2) = frameNonce header.noncePrefix header.nonceCounter :=
    FixedBytes.ofBytes_asBytes (frameNonce header.noncePrefix header.nonceCounter)
  rw [decode, if_neg (not_not_intro hlength)]
  simp only [encode, readU16, readU32, readU64, readArray]
  simp [hnonce, except_bind_ok, new_eq_ok]

end FrameHeaderV2

/-! ## Sealed frames -/

abbrev FrameTagV1 := FixedBytes 16

structure SealedFrameV2 where
  header : FrameHeaderV2
  ciphertext : List UInt8
  tag : FrameTagV1
  commitment : FrameCommitmentV1
deriving DecidableEq

namespace SealedFrameV2

def encode (frame : SealedFrameV2) : List UInt8 :=
  frame.header.encode ++ (frame.ciphertext ++ (frame.tag.asBytes ++ frame.commitment.asBytes))

def decode (encoded : List UInt8) : Except SnapshotFrameErrorV2 SealedFrameV2 :=
  if encoded.length < frameHeaderBytesV2 + frameTagBytesV1 + frameCommitmentBytesV1 ∨
      encoded.length > maxEncodedFrameBytesV2 then .error .invalidEncodedLength
  else do
    let header ← FrameHeaderV2.decode (slice encoded 0 frameHeaderBytesV2)
    let plaintextLength := header.plaintextLength.toNat
    if encoded.length ≠
        frameHeaderBytesV2 + plaintextLength + (frameTagBytesV1 + frameCommitmentBytesV1) then
      .error .invalidEncodedLength
    else
      let ciphertextEnd := frameHeaderBytesV2 + plaintextLength
      .ok {
        header
        ciphertext := slice encoded frameHeaderBytesV2 plaintextLength
        tag := readArray encoded ciphertextEnd
        commitment := readArray encoded (ciphertextEnd + frameTagBytesV1) }

@[simp] theorem length_encode (frame : SealedFrameV2) :
    frame.encode.length = 144 + frame.ciphertext.length := by
  simp [encode]
  omega

theorem decode_encode (frame : SealedFrameV2)
    (h : frame.ciphertext.length = frame.header.plaintextLength.toNat) :
    decode frame.encode = .ok frame := by
  have hlimit := frame.header.limits.2
  have hheader : slice frame.encode 0 frameHeaderBytesV2 = frame.header.encode :=
    slice_append_self (by simp [frameHeaderBytesV2])
  have hciphertext : slice frame.encode frameHeaderBytesV2 frame.header.plaintextLength.toNat =
      frame.ciphertext := by
    rw [encode, slice_append_right (by simp [frameHeaderBytesV2])]
    simp [frameHeaderBytesV2, h]
  have htag : slice frame.encode (frameHeaderBytesV2 + frame.header.plaintextLength.toNat) 16 =
      frame.tag.asBytes := by
    rw [encode, slice_append_right (by simp [frameHeaderBytesV2]),
      slice_append_right (by simp [frameHeaderBytesV2, h])]
    simp [frameHeaderBytesV2, h]
  have hcommitment : slice frame.encode
      (frameHeaderBytesV2 + frame.header.plaintextLength.toNat + frameTagBytesV1) 32 =
      frame.commitment.asBytes := by
    rw [encode, slice_append_right (by simp [frameHeaderBytesV2]; omega),
      slice_append_right (by simp [frameHeaderBytesV2, h]; omega),
      slice_append_right (by simp [frameHeaderBytesV2, frameTagBytesV1, h]; omega)]
    refine (congrArg (slice frame.commitment.asBytes · 32) ?_).trans (slice_self (by simp))
    simp only [frameHeaderBytesV2, frameTagBytesV1, FrameHeaderV2.length_encode, h,
      FixedBytes.length_asBytes]
    omega
  rw [decode, if_neg, hheader, FrameHeaderV2.decode_encode, except_bind_ok]
  · simp only
    rw [if_neg, hciphertext, readArray, htag, readArray, hcommitment]
    · simp
    · simp [frameHeaderBytesV2, frameTagBytesV1, frameCommitmentBytesV1, h]
      omega
  · simp only [length_encode, frameHeaderBytesV2, frameTagBytesV1, frameCommitmentBytesV1,
      maxEncodedFrameBytesV2, h]
    omega

end SealedFrameV2

/-! ## Sealing and opening -/

/-- `XChaCha20Poly1305` with a detached tag. -/
class FrameCipher where
  encrypt (key : ResultDekV1) (nonce : FrameNonceV2) (aad plaintext : List UInt8) :
    List UInt8 × FrameTagV1
  decrypt (key : ResultDekV1) (nonce : FrameNonceV2) (aad ciphertext : List UInt8)
    (tag : FrameTagV1) : Option (List UInt8)

/-- The ciphertext is as long as the plaintext, and what was sealed opens. -/
class LawfulFrameCipher [FrameCipher] : Prop where
  length_encrypt (key : ResultDekV1) (nonce : FrameNonceV2) (aad plaintext : List UInt8) :
    (FrameCipher.encrypt key nonce aad plaintext).1.length = plaintext.length
  decrypt_encrypt (key : ResultDekV1) (nonce : FrameNonceV2) (aad plaintext : List UInt8) :
    FrameCipher.decrypt key nonce aad (FrameCipher.encrypt key nonce aad plaintext).1
      (FrameCipher.encrypt key nonce aad plaintext).2 = some plaintext

def canonicalFrameAadV2 (segment : SegmentHeaderV2) (header : FrameHeaderV2) : List UInt8 :=
  asciiBytes "evidentrail.snapshot.frame-aad.v2" ++ segment.encode ++ header.encode

def extendedFrameAadV1 (segment : SegmentHeaderV2) (header : FrameHeaderV2)
    (additionalAad : List UInt8) : List UInt8 :=
  canonicalFrameAadV2 segment header ++
    if additionalAad.isEmpty then []
    else asciiBytes "evidentrail.snapshot.frame-additional-aad.v1" ++
      beBytes 8 additionalAad.length ++ additionalAad

def validateHeaderAgainstSegment (segment : SegmentHeaderV2) (header : FrameHeaderV2)
    (plaintextLength : Nat) : Except SnapshotFrameErrorV2 Unit :=
  if segment.segmentOrdinal ≠ header.segmentOrdinal ∨
      plaintextLength ≠ header.plaintextLength.toNat ∨
      (header.frameSequence = 0 ∧ header.previousFrameCommitment ≠ .zero) then
    .error .headerContextMismatch
  else .ok ()

section Sealing

variable [Sha256] [FrameCipher]

def deriveFrameCommitmentV2 (segment : SegmentHeaderV2) (header : FrameHeaderV2)
    (ciphertext : List UInt8) (tag : FrameTagV1) : FrameCommitmentV1 :=
  lifecycleDigest (asciiBytes "evidentrail.snapshot.frame-commitment.v2" ++ segment.encode
    ++ header.encode ++ ciphertext ++ tag.asBytes)

/-- `seal_frame_v2_with_additional_aad`. -/
def sealFrameV2 (resultDek : ResultDekV1) (segment : SegmentHeaderV2) (header : FrameHeaderV2)
    (plaintext additionalAad : List UInt8) : Except SnapshotFrameErrorV2 SealedFrameV2 := do
  validateHeaderAgainstSegment segment header plaintext.length
  let aad := extendedFrameAadV1 segment header additionalAad
  let (ciphertext, tag) := FrameCipher.encrypt resultDek header.nonce aad plaintext
  .ok { header, ciphertext, tag
        commitment := deriveFrameCommitmentV2 segment header ciphertext tag }

/-- `open_frame_v2_with_additional_aad`. -/
def openFrameV2 (resultDek : ResultDekV1) (segment : SegmentHeaderV2) (frame : SealedFrameV2)
    (additionalAad : List UInt8) : Except SnapshotFrameErrorV2 (List UInt8) := do
  validateHeaderAgainstSegment segment frame.header frame.ciphertext.length
  if deriveFrameCommitmentV2 segment frame.header frame.ciphertext frame.tag ≠
      frame.commitment then .error .commitmentMismatch
  else
    let aad := extendedFrameAadV1 segment frame.header additionalAad
    okOr .authenticationFailed
      (FrameCipher.decrypt resultDek frame.header.nonce aad frame.ciphertext frame.tag)

variable {resultDek : ResultDekV1} {segment : SegmentHeaderV2} {header : FrameHeaderV2}
  {plaintext additionalAad : List UInt8} {frame : SealedFrameV2}

theorem sealFrameV2_header
    (h : sealFrameV2 resultDek segment header plaintext additionalAad = .ok frame) :
    frame.header = header := by
  obtain ⟨_, _, h⟩ := except_bind_eq_ok.mp h
  cases h
  rfl

theorem length_plaintext
    (h : sealFrameV2 resultDek segment header plaintext additionalAad = .ok frame) :
    plaintext.length = header.plaintextLength.toNat := by
  obtain ⟨_, hvalid, _⟩ := except_bind_eq_ok.mp h
  rw [validateHeaderAgainstSegment] at hvalid
  split at hvalid
  · cases hvalid
  · rename_i hnot
    push Not at hnot
    exact hnot.2.1

variable [LawfulFrameCipher]

theorem length_ciphertext
    (h : sealFrameV2 resultDek segment header plaintext additionalAad = .ok frame) :
    frame.ciphertext.length = plaintext.length := by
  obtain ⟨_, _, h⟩ := except_bind_eq_ok.mp h
  cases h
  exact LawfulFrameCipher.length_encrypt ..

/-- A frame opens under what it was sealed under. -/
theorem openFrameV2_sealed
    (h : sealFrameV2 resultDek segment header plaintext additionalAad = .ok frame) :
    openFrameV2 resultDek segment frame additionalAad = .ok plaintext := by
  have hlength := length_ciphertext h
  obtain ⟨_, hvalid, h⟩ := except_bind_eq_ok.mp h
  cases h
  dsimp only at hlength
  rw [openFrameV2, hlength, hvalid, except_bind_ok, if_neg (not_not_intro rfl)]
  exact congrArg (okOr SnapshotFrameErrorV2.authenticationFailed)
    (LawfulFrameCipher.decrypt_encrypt resultDek header.nonce _ plaintext)

end Sealing

end Evidentrail
