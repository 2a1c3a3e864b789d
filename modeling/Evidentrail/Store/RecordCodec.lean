import Evidentrail.Snapshot.Frame
import Evidentrail.Store.Record

/-!
# The stored form of the authority record

The record is kept as 512 bytes, and `decode` ends with
`validate_canonical`. A record that is not canonical can be written and
never read again.
-/

namespace Evidentrail

open Rust Std Encoding Bytes

namespace ResultLifecycleStateV1

def code : ResultLifecycleStateV1 → UInt16
  | .opened => 1
  | .dataCommitted => 2
  | .sealed => 3
  | .published => 4

def fromCode (code : UInt16) : Except LifecycleRecordErrorV1 ResultLifecycleStateV1 :=
  if code = 1 then .ok .opened
  else if code = 2 then .ok .dataCommitted
  else if code = 3 then .ok .sealed
  else if code = 4 then .ok .published
  else .error .unknownState

@[simp] theorem fromCode_code (state : ResultLifecycleStateV1) :
    fromCode state.code = .ok state := by
  cases state <;> rfl

theorem code_of_fromCode {code : UInt16} {state : ResultLifecycleStateV1}
    (h : fromCode code = .ok state) : state.code = code := by
  unfold fromCode at h
  split at h
  · cases h
    simp_all [ResultLifecycleStateV1.code]
  · split at h
    · cases h
      simp_all [ResultLifecycleStateV1.code]
    · split at h
      · cases h
        simp_all [ResultLifecycleStateV1.code]
      · split at h
        · cases h
          simp_all [ResultLifecycleStateV1.code]
        · cases h

end ResultLifecycleStateV1

/-- `read_u64` and `read_i64`, as numbers. -/
def readNat64 (bytes : List UInt8) (offset : Nat) : Nat := ofBe (slice bytes offset 8)
def readI64 (bytes : List UInt8) (offset : Nat) : Int := i64OfBe (slice bytes offset 8)

def resultAuthorityRecordBytesV2 : Nat := 512

def SealCommitmentsV1.encode (c : SealCommitmentsV1) : List UInt8 :=
  c.finalManifest.asBytes ++ (c.dataManifest.asBytes ++ (c.eventIndex.asBytes ++
    (c.frameChain.asBytes ++ c.products.asBytes)))

namespace ResultAuthorityRecordV2

/-- What belongs to the result and to its first call. -/
def encodeFront (r : ResultAuthorityRecordV2) : List UInt8 :=
  asciiBytes "EVRAUT02" ++ (u16Be 2 ++ (u16Be r.state.code ++ (zeros 4 ++ (r.resultId.asBytes ++
    (i64Be r.createdUnixNanos ++ (i64Be r.expiresUnixNanos ++ (r.nonceBase.asBytes ++
    (beBytes 8 r.nonceHighWater ++ (beBytes 8 r.publicationGeneration ++
    (r.beginOperation.asBytes ++ r.beginDigest.asBytes))))))))))

/-- What the later calls write. -/
def encodeBack (r : ResultAuthorityRecordV2) : List UInt8 :=
  r.dataOperation.asBytes ++ (r.dataDigest.asBytes ++ (r.buildContext.asBytes ++
    (r.sealOperation.asBytes ++ (r.sealCommitments.encode ++ (r.publishOperation.asBytes ++
    (r.repositoryCommitment.asBytes ++ (r.pendingNonceOperation.asBytes ++
    (r.pendingNonceDigest.asBytes ++ (beBytes 8 r.pendingNonceFirst ++
    beBytes 8 r.pendingNonceCount)))))))))

def encode (r : ResultAuthorityRecordV2) : List UInt8 := r.encodeFront ++ r.encodeBack

/-- The fields at their offsets. -/
def ofFields (encoded : List UInt8) (state : ResultLifecycleStateV1) : ResultAuthorityRecordV2 where
  resultId := readId encoded 16
  createdUnixNanos := readI64 encoded 48
  expiresUnixNanos := readI64 encoded 56
  state := state
  nonceBase := readArray encoded 64
  nonceHighWater := readNat64 encoded 80
  publicationGeneration := readNat64 encoded 88
  beginOperation := readArray encoded 96
  beginDigest := readArray encoded 112
  dataOperation := readArray encoded 144
  dataDigest := readArray encoded 160
  buildContext := readArray encoded 192
  sealOperation := readArray encoded 224
  sealCommitments := ⟨readArray encoded 240, readArray encoded 272, readArray encoded 304,
    readArray encoded 336, readArray encoded 368⟩
  publishOperation := readArray encoded 400
  repositoryCommitment := readArray encoded 416
  pendingNonceOperation := readArray encoded 448
  pendingNonceDigest := readArray encoded 464
  pendingNonceFirst := readNat64 encoded 496
  pendingNonceCount := readNat64 encoded 504

def decode (encoded : List UInt8) : Except LifecycleRecordErrorV1 ResultAuthorityRecordV2 :=
  if encoded.length ≠ resultAuthorityRecordBytesV2 then .error .invalidEncodedLength
  else if slice encoded 0 8 ≠ asciiBytes "EVRAUT02" then .error .invalidMagic
  else if readU16 encoded 8 ≠ 2 then .error .unsupportedVersion
  else if !allZero (slice encoded 12 4) then .error .nonzeroFlags
  else do
    let state ← ResultLifecycleStateV1.fromCode (readU16 encoded 10)
    let record := ofFields encoded state
    record.validateCanonical
    .ok record

/-! ## Lengths -/

@[simp] theorem length_authorityMagic : (asciiBytes "EVRAUT02").length = 8 := by decide

@[simp] theorem length_encodeFront (r : ResultAuthorityRecordV2) :
    r.encodeFront.length = 144 := by
  simp [encodeFront]

@[simp] theorem length_encodeBack (r : ResultAuthorityRecordV2) : r.encodeBack.length = 368 := by
  simp [encodeBack, SealCommitmentsV1.encode]

@[simp] theorem length_encode (r : ResultAuthorityRecordV2) : r.encode.length = 512 := by
  simp [encode]

/-! ## Round trips -/

/-- The numbers are in the range of their types. -/
structure Fits (r : ResultAuthorityRecordV2) : Prop where
  created : IsI64 r.createdUnixNanos
  expires : IsI64 r.expiresUnixNanos
  nonceHighWater : r.nonceHighWater < 2 ^ 64
  publicationGeneration : r.publicationGeneration < 2 ^ 64
  pendingNonceFirst : r.pendingNonceFirst < 2 ^ 64
  pendingNonceCount : r.pendingNonceCount < 2 ^ 64

variable {r : ResultAuthorityRecordV2}

theorem ofFields_encode (h : r.Fits) : ofFields r.encode r.state = r := by
  have hhigh : ofBe (beBytes 8 r.nonceHighWater) = r.nonceHighWater :=
    ofBe_beBytes h.nonceHighWater
  have hgeneration : ofBe (beBytes 8 r.publicationGeneration) = r.publicationGeneration :=
    ofBe_beBytes h.publicationGeneration
  have hfirst : ofBe (beBytes 8 r.pendingNonceFirst) = r.pendingNonceFirst :=
    ofBe_beBytes h.pendingNonceFirst
  have hcount : ofBe (beBytes 8 r.pendingNonceCount) = r.pendingNonceCount :=
    ofBe_beBytes h.pendingNonceCount
  have hcreated := i64OfBe_i64Be h.created
  have hexpires := i64OfBe_i64Be h.expires
  have hfront : ∀ {offset n : Nat}, offset + n ≤ 144 →
      slice r.encode offset n = slice r.encodeFront offset n :=
    fun hle => slice_append_left (by simpa using hle)
  have hback : ∀ {offset n : Nat}, 144 ≤ offset →
      slice r.encode offset n = slice r.encodeBack (offset - 144) n := by
    intro offset n hle
    rw [encode, slice_append_right (by simpa using hle), length_encodeFront]
  unfold ofFields
  simp only [readId, readI64, readArray, readNat64]
  simp only [hfront, hback, Nat.reduceLeDiff, Nat.reduceAdd, Nat.reduceSub]
  simp [encodeFront, encodeBack, SealCommitmentsV1.encode, hhigh, hgeneration, hfirst, hcount,
    hcreated, hexpires]

/-- A stored record is read back exactly when it is canonical. -/
theorem decode_encode (h : r.Fits) :
    decode r.encode = r.validateCanonical.map fun _ => r := by
  have hfront : ∀ {offset n : Nat}, offset + n ≤ 144 →
      slice r.encode offset n = slice r.encodeFront offset n :=
    fun hle => slice_append_left (by simpa using hle)
  have hmagic : slice r.encode 0 8 = asciiBytes "EVRAUT02" := by
    rw [hfront (by decide)]
    simp [encodeFront]
  have hversion : readU16 r.encode 8 = 2 := by
    rw [readU16, hfront (by decide)]
    simp [encodeFront]
  have hflags : allZero (slice r.encode 12 4) = true := by
    rw [hfront (by decide)]
    simp [encodeFront]
  have hstate : readU16 r.encode 10 = r.state.code := by
    rw [readU16, hfront (by decide)]
    simp [encodeFront]
  rw [decode, if_neg (by simp [resultAuthorityRecordBytesV2]), if_neg (not_not_intro hmagic),
    if_neg (not_not_intro hversion), if_neg (by simp [hflags]), hstate,
    ResultLifecycleStateV1.fromCode_code, except_bind_ok, ofFields_encode h]
  dsimp only
  cases r.validateCanonical with
  | error e => rfl
  | ok _ => rfl

theorem decode_encode_iff (h : r.Fits) :
    decode r.encode = .ok r ↔ r.validateCanonical = .ok () := by
  rw [decode_encode h]
  cases r.validateCanonical with
  | error e => simp [Except.map]
  | ok u => simp [Except.map]

/-- What `decode` checked. -/
theorem decode_ok {encoded : List UInt8} (h : decode encoded = .ok r) :
    encoded.length = 512 ∧ slice encoded 0 8 = asciiBytes "EVRAUT02" ∧
      slice encoded 8 2 = u16Be 2 ∧ slice encoded 10 2 = u16Be r.state.code ∧
      slice encoded 12 4 = zeros 4 ∧ r = ofFields encoded r.state ∧
      r.validateCanonical = .ok () := by
  unfold decode at h
  split at h
  · cases h
  · rename_i hlength
    have hlength : encoded.length = 512 := not_not.mp hlength
    split at h
    · cases h
    · rename_i hmagic
      split at h
      · cases h
      · rename_i hversion
        split at h
        · cases h
        · rename_i hflags
          obtain ⟨state, hstate, h⟩ := except_bind_eq_ok.mp h
          obtain ⟨_, hcanonical, h⟩ := except_bind_eq_ok.mp h
          cases h
          have hcode : state.code = readU16 encoded 10 :=
            ResultLifecycleStateV1.code_of_fromCode hstate
          have hread : ∀ {offset : Nat}, offset + 2 ≤ 512 →
              u16Be (readU16 encoded offset) = slice encoded offset 2 :=
            fun hle => u16Be_u16OfBe (length_slice (by rw [hlength]; exact hle))
          refine ⟨hlength, not_not.mp hmagic, ?_, ?_, ?_, rfl, hcanonical⟩
          · rw [← hread (by decide), not_not.mp hversion]
          · rw [← hread (by decide), ← hcode]
            rfl
          · have hzero := allZero_iff.mp (by simpa using hflags)
            rwa [length_slice (by rw [hlength]; decide)] at hzero

/-- Every byte string that is read is what would be written. -/
theorem encode_of_decode {encoded : List UInt8} (h : decode encoded = .ok r) :
    r.encode = encoded := by
  obtain ⟨hlength, hmagic, hversion, hstate, hflags, hfields, _⟩ := decode_ok h
  have hid : ∀ {offset : Nat}, offset + 32 ≤ 512 →
      (readId encoded offset : ResultId).asBytes = slice encoded offset 32 :=
    fun hle => HashId.asBytes_ofBytes (length_slice (by rw [hlength]; exact hle))
  have harray : ∀ {n offset : Nat}, offset + n ≤ 512 →
      (readArray encoded offset : FixedBytes n).asBytes = slice encoded offset n :=
    fun hle => FixedBytes.asBytes_ofBytes (length_slice (by rw [hlength]; exact hle))
  have hnat : ∀ {offset : Nat}, offset + 8 ≤ 512 →
      beBytes 8 (readNat64 encoded offset) = slice encoded offset 8 := by
    intro offset hle
    have hslice : (slice encoded offset 8).length = 8 := length_slice (by rw [hlength]; exact hle)
    have hbytes := beBytes_ofBe (slice encoded offset 8)
    rwa [hslice] at hbytes
  have hint : ∀ {offset : Nat}, offset + 8 ≤ 512 →
      i64Be (readI64 encoded offset) = slice encoded offset 8 :=
    fun hle => i64Be_i64OfBe (length_slice (by rw [hlength]; exact hle))
  have hfront : r.encodeFront = slice encoded 0 144 := by
    rw [encodeFront, ← hmagic, ← hversion, ← hstate, ← hflags, hfields]
    simp only [ofFields]
    rw [hid (by decide), hint (by decide), hint (by decide), harray (by decide),
      hnat (by decide), hnat (by decide), harray (by decide), harray (by decide)]
    simp only [slice_append_slice, Nat.reduceAdd]
  have hback : r.encodeBack = slice encoded 144 368 := by
    rw [encodeBack, hfields]
    simp only [ofFields, SealCommitmentsV1.encode]
    simp only [harray, hnat, Nat.reduceLeDiff, Nat.reduceAdd, List.append_assoc]
    simp only [slice_append_slice, Nat.reduceAdd]
  rw [encode, hfront, hback, slice_append_slice (by decide), slice_self hlength]

end ResultAuthorityRecordV2

end Evidentrail
