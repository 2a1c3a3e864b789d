import Evidentrail.Store.Keychain
import Evidentrail.Store.RecordCodec

/-!
# The stored form of a keychain entry

An entry is kept as 680 bytes: the record, the key, the last nonce
reservation and the reserved publication. `decode_unbound` refuses an entry
whose reservations are neither absent nor complete.
-/

namespace Evidentrail

open Rust Std Encoding Bytes

namespace KeychainEntryV2

def entryBytesV2 : Nat := 680

/-- The header, the record and the key. -/
def encodeFront (e : KeychainEntryV2) : List UInt8 :=
  asciiBytes "EVRKEY02" ++ (u16Be 2 ++ (zeros 6 ++ (e.record.encode ++ e.resultDek.asBytes)))

/-- The two reservations. -/
def encodeBack (e : KeychainEntryV2) : List UInt8 :=
  e.lastNonceOperation.asBytes ++ (e.lastNonceDigest.asBytes ++ (beBytes 8 e.lastNonceFirst ++
    (beBytes 8 e.lastNonceCount ++ (e.publicationOperation.asBytes ++
    (e.publicationDigest.asBytes ++ beBytes 8 e.publicationGeneration)))))

def encode (e : KeychainEntryV2) : List UInt8 := e.encodeFront ++ e.encodeBack

/-- The fields at their offsets, around a decoded record. -/
def ofFields (encoded : List UInt8) (record : ResultAuthorityRecordV2) : KeychainEntryV2 where
  record := record
  resultDek := readArray encoded 528
  lastNonceOperation := readArray encoded 560
  lastNonceDigest := readArray encoded 576
  lastNonceFirst := readNat64 encoded 608
  lastNonceCount := readNat64 encoded 616
  publicationOperation := readArray encoded 624
  publicationDigest := readArray encoded 640
  publicationGeneration := readNat64 encoded 672

def decodeUnbound (encoded : List UInt8) : Except KeyAuthorityErrorV2 KeychainEntryV2 :=
  if encoded.length ≠ entryBytesV2 ∨ slice encoded 0 8 ≠ asciiBytes "EVRKEY02" ∨
      readU16 encoded 8 ≠ 2 ∨ !allZero (slice encoded 10 6) then .error .unavailable
  else do
    let record ← (ResultAuthorityRecordV2.decode (slice encoded 16 512)).mapError
      fun _ => .unavailable
    let entry := ofFields encoded record
    if entry.resultDek.isZero then .error .unavailable
    else if !entry.nonceDecodes ∨ !entry.publicationDecodes then .error .unavailable
    else .ok entry

/-! ## Round trips -/

@[simp] theorem length_entryMagic : (asciiBytes "EVRKEY02").length = 8 := by decide

@[simp] theorem length_encodeFront (e : KeychainEntryV2) : e.encodeFront.length = 560 := by
  simp [encodeFront]

@[simp] theorem length_encodeBack (e : KeychainEntryV2) : e.encodeBack.length = 120 := by
  simp [encodeBack]

@[simp] theorem length_encode (e : KeychainEntryV2) : e.encode.length = 680 := by
  simp [encode]

/-- The numbers are in the range of their types. -/
structure Fits (e : KeychainEntryV2) : Prop where
  record : e.record.Fits
  lastNonceFirst : e.lastNonceFirst < 2 ^ 64
  lastNonceCount : e.lastNonceCount < 2 ^ 64
  publicationGeneration : e.publicationGeneration < 2 ^ 64

variable {e : KeychainEntryV2}

theorem slice_encode_front {offset n : Nat} (h : offset + n ≤ 560) :
    slice e.encode offset n = slice e.encodeFront offset n :=
  slice_append_left (by simpa using h)

theorem slice_encode_back {offset n : Nat} (h : 560 ≤ offset) :
    slice e.encode offset n = slice e.encodeBack (offset - 560) n := by
  rw [encode, slice_append_right (by simpa using h), length_encodeFront]

theorem ofFields_encode (h : e.Fits) : ofFields e.encode e.record = e := by
  have hfirst : ofBe (beBytes 8 e.lastNonceFirst) = e.lastNonceFirst :=
    ofBe_beBytes h.lastNonceFirst
  have hcount : ofBe (beBytes 8 e.lastNonceCount) = e.lastNonceCount :=
    ofBe_beBytes h.lastNonceCount
  have hgeneration : ofBe (beBytes 8 e.publicationGeneration) = e.publicationGeneration :=
    ofBe_beBytes h.publicationGeneration
  unfold ofFields
  simp only [readArray, readNat64]
  simp only [slice_encode_front, slice_encode_back, Nat.reduceLeDiff, Nat.reduceAdd,
    Nat.reduceSub]
  simp [encodeFront, encodeBack, hfirst, hcount, hgeneration]

/-- An entry is read back exactly when its record is canonical, its key is
not zero and each reservation is absent or complete. -/
theorem decodeUnbound_encode (h : e.Fits) :
    decodeUnbound e.encode = if e.decodes then .ok e else .error .unavailable := by
  have hmagic : slice e.encode 0 8 = asciiBytes "EVRKEY02" := by
    rw [slice_encode_front (by decide)]
    simp [encodeFront]
  have hversion : readU16 e.encode 8 = 2 := by
    rw [readU16, slice_encode_front (by decide)]
    simp [encodeFront]
  have hzeros : allZero (slice e.encode 10 6) = true := by
    rw [slice_encode_front (by decide)]
    simp [encodeFront]
  have hrecord : slice e.encode 16 512 = e.record.encode := by
    rw [slice_encode_front (by decide)]
    simp [encodeFront]
  rw [decodeUnbound, if_neg (by simp [entryBytesV2, hmagic, hversion, hzeros]), hrecord,
    ResultAuthorityRecordV2.decode_encode h.record]
  cases hcanonical : e.record.validateCanonical with
  | error error =>
      have hdecodes : e.decodes ≠ true := by
        rw [Ne, decodes_iff, hcanonical]
        simp
      rw [if_neg hdecodes]
      rfl
  | ok u =>
      simp only [Except.map, Except.mapError, except_bind_ok, ofFields_encode h]
      by_cases hdecodes : e.decodes = true
      · obtain ⟨_, hdek, hnonce, hpublication⟩ := decodes_iff.mp hdecodes
        rw [if_pos hdecodes, if_neg (by simp [hdek]), if_neg (by simp [hnonce, hpublication])]
      · rw [if_neg hdecodes]
        split
        · rfl
        · rename_i hdek
          rw [if_pos]
          by_contra hvalid
          refine hdecodes (decodes_iff.mpr ⟨hcanonical, ?_, ?_, ?_⟩)
          · simpa using hdek
          · simp only [not_or, Bool.not_eq_true, Bool.not_eq_false'] at hvalid
            exact hvalid.1
          · simp only [not_or, Bool.not_eq_true, Bool.not_eq_false'] at hvalid
            exact hvalid.2

theorem decodeUnbound_encode_iff (h : e.Fits) :
    decodeUnbound e.encode = .ok e ↔ e.decodes = true := by
  rw [decodeUnbound_encode h]
  cases e.decodes <;> simp

end KeychainEntryV2

end Evidentrail
