import Evidentrail.Snapshot.EventIndexV2
import Evidentrail.Store.Lifecycle

/-!
# The journal of a durable batch

The last frame of a batch names the counters that were reserved for it and where
each event was written, under a digest of these acknowledgements. Nothing of the
reservation but its counters is written, and the decoder checks them under a
prefix of its own; so it accepts what the constructor builds from a valid
reservation and nothing else (`DurableBatchJournalV2.canonical`).
-/

namespace Evidentrail

open Rust Std Encoding Bytes

namespace Snapshot

inductive DurableBatchJournalErrorV2 where
  | invalidEncodedLength
  | invalidHeader
  | acknowledgementCountCap
  | noncanonicalAcknowledgement
  | duplicateAcknowledgement
  | acknowledgementDigestMismatch
deriving DecidableEq

def durableBatchJournalHeaderBytesV2 : Nat := 128
def durableAcknowledgementBytesV2 : Nat := 128
def maxDurableAcknowledgementsV2 : Nat := 4094

/-! ## Acknowledgements -/

structure DurableAcknowledgementV2 where
  eventId : EventId
  locator : EventFrameLocatorV2
deriving DecidableEq

namespace DurableAcknowledgementV2

def fields (acknowledgement : DurableAcknowledgementV2) : List (List UInt8) :=
  [acknowledgement.eventId.asBytes, u64Be acknowledgement.locator.segmentOrdinal,
    u32Be acknowledgement.locator.frameSequence, zeros 4,
    u64Be acknowledgement.locator.globalSequence, u64Be acknowledgement.locator.byteOffset,
    u32Be acknowledgement.locator.encodedLength, u32Be acknowledgement.locator.plaintextLength,
    acknowledgement.locator.frameCommitment.asBytes, zeros 24]

def encode (acknowledgement : DurableAcknowledgementV2) : List UInt8 :=
  acknowledgement.fields.flatten

def decode (encoded : List UInt8) : Except DurableBatchJournalErrorV2 DurableAcknowledgementV2 :=
  if encoded.length ≠ durableAcknowledgementBytesV2 ∨ allZero (slice encoded 44 4) = false ∨
      allZero (slice encoded 104 24) = false then .error .noncanonicalAcknowledgement
  else do
    let locator ← (EventFrameLocatorV2.new (readU64 encoded 32) (readU32 encoded 40)
      (readU64 encoded 48) (readU64 encoded 56) (readU32 encoded 64) (readU32 encoded 68)
      (readArray encoded 72)).mapError fun _ => .noncanonicalAcknowledgement
    .ok ⟨readId encoded 0, locator⟩

@[simp] theorem length_encode (acknowledgement : DurableAcknowledgementV2) :
    acknowledgement.encode.length = 128 := by
  simp [encode, fields]

theorem canonical : Canonical encode decode fun _ => True := by
  intro bytes acknowledgement
  rw [and_true]
  by_cases hlength : bytes.length = 128
  · rw [encode, eq_flatten_iff (length_encode acknowledgement) hlength]
    simp only [fields, Laid, HashId.length_asBytes, length_u32Be, length_u64Be, length_zeros,
      FixedBytes.length_asBytes, Nat.reduceAdd]
    rw [slice_eq_idBytes (by omega), slice_eq_u64Be (by omega), slice_eq_u32Be (by omega),
      slice_eq_zeros (by omega), slice_eq_u64Be (by omega), slice_eq_u64Be (by omega),
      slice_eq_u32Be (by omega), slice_eq_u32Be (by omega), slice_eq_asBytes (by omega),
      slice_eq_zeros (by omega)]
    obtain ⟨eventId, locator⟩ := acknowledgement
    simp only [decode, ite_error_eq_ok, except_bind_eq_ok, mapError_eq_ok,
      EventFrameLocatorV2.new_eq_ok, Except.ok.injEq, mk.injEq]
    simp only [not_or, Bool.not_eq_false, not_not, hlength, durableAcknowledgementBytesV2,
      true_and, and_true]
    constructor
    · rintro ⟨⟨hone, htwo⟩, _, ⟨h1, h2, h3, h4, h5, h6, h7⟩, hid, rfl⟩
      exact ⟨hid, h1, h2, hone, h3, h4, h5, h6, h7, htwo⟩
    · rintro ⟨hid, h1, h2, hone, h3, h4, h5, h6, h7, htwo⟩
      exact ⟨⟨hone, htwo⟩, locator, ⟨h1, h2, h3, h4, h5, h6, h7⟩, hid, rfl⟩
  · constructor
    · intro h
      simp only [decode, ite_error_eq_ok, not_or, not_not] at h
      exact absurd h.1.1 hlength
    · rintro rfl
      exact absurd (length_encode acknowledgement) hlength

end DurableAcknowledgementV2

/-! ## The journal -/

structure DurableBatchJournalV2 where
  batchOrdinal : UInt64
  operation : OperationIdV1
  canonicalDigest : LifecycleDigestV1
  nonceFirst : UInt64
  nonceCount : UInt64
  acknowledgements : List DurableAcknowledgementV2
deriving DecidableEq

/-- The loop of `new`: no event and no frame twice. -/
def distinctAcknowledgements (eventIds : List EventId) (locations : List (UInt64 × UInt32)) :
    List DurableAcknowledgementV2 → Except DurableBatchJournalErrorV2 Unit
  | [] => .ok ()
  | acknowledgement :: rest =>
      let location :=
        (acknowledgement.locator.segmentOrdinal, acknowledgement.locator.frameSequence)
      if acknowledgement.eventId ∈ eventIds ∨ location ∈ locations then
        .error .duplicateAcknowledgement
      else distinctAcknowledgements (acknowledgement.eventId :: eventIds) (location :: locations)
        rest

/-- The prefix under which `decode` checks the counters. -/
def journalNonceBase : ResultNoncePrefixV1 := .repeated 1

namespace DurableBatchJournalV2

def new (batchOrdinal : UInt64) (operation : OperationIdV1) (canonicalDigest : LifecycleDigestV1)
    (reservation : NonceReservationV1) (acknowledgements : List DurableAcknowledgementV2) :
    Except DurableBatchJournalErrorV2 DurableBatchJournalV2 :=
  if operation.isZero ∨ acknowledgements.length > maxDurableAcknowledgementsV2 ∨
      reservation.count = 0 then .error .invalidHeader
  else do
    distinctAcknowledgements [] [] acknowledgements
    .ok {
      batchOrdinal, operation, canonicalDigest
      nonceFirst := .ofNat reservation.firstCounter
      nonceCount := .ofNat reservation.count
      acknowledgements }

/-- The journals that are built from a reservation. -/
structure Valid (journal : DurableBatchJournalV2) : Prop where
  operation : journal.operation.isZero = false
  cap : journal.acknowledgements.length ≤ maxDurableAcknowledgementsV2
  count : journal.nonceCount.toNat ≠ 0
  counters : journal.nonceFirst.toNat + journal.nonceCount.toNat < u64Bound
  distinct : distinctAcknowledgements [] [] journal.acknowledgements = .ok ()

section Journal

variable {batchOrdinal : UInt64} {operation : OperationIdV1} {canonicalDigest : LifecycleDigestV1}
  {reservation : NonceReservationV1} {acknowledgements : List DurableAcknowledgementV2}
  {journal : DurableBatchJournalV2} {bytes : List UInt8}

theorem reservation_eq_ok {base : ResultNoncePrefixV1} {firstCounter count : Nat} :
    NonceReservationV1.new base firstCounter count = .ok reservation ↔
      (base.isZero = false ∧ count ≠ 0 ∧ firstCounter + count < u64Bound) ∧
        ⟨base, firstCounter, count⟩ = reservation := by
  simp only [NonceReservationV1.new, ite_error_eq_ok, not_or, Bool.not_eq_true, checkedAdd,
    ite_eq_right_iff, reduceCtorEq, imp_false, not_not, Except.ok.injEq, ne_eq]

theorem new_eq_ok :
    new batchOrdinal operation canonicalDigest reservation acknowledgements = .ok journal ↔
      (operation.isZero = false ∧ acknowledgements.length ≤ maxDurableAcknowledgementsV2 ∧
        reservation.count ≠ 0 ∧ distinctAcknowledgements [] [] acknowledgements = .ok ()) ∧
      { batchOrdinal, operation, canonicalDigest
        nonceFirst := .ofNat reservation.firstCounter
        nonceCount := .ofNat reservation.count
        acknowledgements } = journal := by
  simp only [new, ite_error_eq_ok, except_bind_eq_ok, not_or, Bool.not_eq_true, gt_iff_lt,
    Nat.not_lt, Except.ok.injEq, ne_eq]
  constructor
  · rintro ⟨⟨hoperation, hcap, hcount⟩, _, hdistinct, rfl⟩
    exact ⟨⟨hoperation, hcap, hcount, hdistinct⟩, rfl⟩
  · rintro ⟨⟨hoperation, hcap, hcount, hdistinct⟩, rfl⟩
    exact ⟨⟨hoperation, hcap, hcount⟩, (), hdistinct, rfl⟩

theorem valid_of_new {base : ResultNoncePrefixV1} {firstCounter count : Nat}
    (hreservation : NonceReservationV1.new base firstCounter count = .ok reservation)
    (h : new batchOrdinal operation canonicalDigest reservation acknowledgements = .ok journal) :
    journal.Valid := by
  obtain ⟨⟨_, hcount, hcounters⟩, rfl⟩ := reservation_eq_ok.mp hreservation
  obtain ⟨⟨hoperation, hcap, _, hdistinct⟩, rfl⟩ := new_eq_ok.mp h
  have hfirst : (UInt64.ofNat firstCounter).toNat = firstCounter := by
    rw [UInt64.toNat_ofNat']
    exact Nat.mod_eq_of_lt (by unfold u64Bound at hcounters; omega)
  have hnumber : (UInt64.ofNat count).toNat = count := by
    rw [UInt64.toNat_ofNat']
    exact Nat.mod_eq_of_lt (by unfold u64Bound at hcounters; omega)
  refine ⟨hoperation, hcap, ?_, ?_, hdistinct⟩
  · rw [hnumber]
    exact hcount
  · rw [hfirst, hnumber]
    exact hcounters

/-- Acknowledgements that are read are the bytes that they are read from. -/
theorem flatMap_of_mapM {count : Nat} (hlength : bytes.length = 128 + count * 128)
    (h : (chunks 128 count (bytes.drop 128)).mapM DurableAcknowledgementV2.decode =
      .ok acknowledgements) :
    acknowledgements.flatMap DurableAcknowledgementV2.encode = bytes.drop 128 ∧
      acknowledgements.length = count := by
  have hrest : (bytes.drop 128).length = count * 128 := by
    rw [List.length_drop, hlength, Nat.add_sub_cancel_left]
  obtain ⟨hflat, hcount, _⟩ := (mapM_chunks DurableAcknowledgementV2.canonical.on
    DurableAcknowledgementV2.length_encode hrest).mp h
  exact ⟨hflat, hcount⟩

@[simp] theorem length_magic : (asciiBytes "EVRJRN02").length = 8 := by decide

section Sha

variable [Sha256]

def deriveAcknowledgementDigest (entries : List UInt8) : FixedBytes 32 :=
  lifecycleDigest (asciiBytes "evidentrail.snapshot.acknowledgements.v2" ++ entries)

def header (journal : DurableBatchJournalV2) : List (List UInt8) :=
  [asciiBytes "EVRJRN02", u16Be 2, u16Be SnapshotObjectKindV2.operationalReceipt.code, zeros 4,
    u64Be journal.batchOrdinal, journal.operation.asBytes, journal.canonicalDigest.asBytes,
    u64Be journal.nonceFirst, u64Be journal.nonceCount,
    u32Be (.ofNat journal.acknowledgements.length), zeros 4,
    (deriveAcknowledgementDigest
      (journal.acknowledgements.flatMap DurableAcknowledgementV2.encode)).asBytes]

def encode (journal : DurableBatchJournalV2) : List UInt8 :=
  journal.header.flatten ++ journal.acknowledgements.flatMap DurableAcknowledgementV2.encode

/-- The length that is expected cannot overflow behind the check of the count. -/
def decode (encoded : List UInt8) : Except DurableBatchJournalErrorV2 DurableBatchJournalV2 :=
  if encoded.length < durableBatchJournalHeaderBytesV2 ∨ slice encoded 0 8 ≠ asciiBytes "EVRJRN02" ∨
      readU16 encoded 8 ≠ 2 ∨ readU16 encoded 10 ≠ SnapshotObjectKindV2.operationalReceipt.code ∨
      allZero (slice encoded 12 4) = false ∨ allZero (slice encoded 92 4) = false then
    .error .invalidHeader
  else
    let count := (readU32 encoded 88).toNat
    if count > maxDurableAcknowledgementsV2 then .error .acknowledgementCountCap
    else if encoded.length ≠
        durableBatchJournalHeaderBytesV2 + count * durableAcknowledgementBytesV2 then
      .error .invalidEncodedLength
    else
      let entries := encoded.drop durableBatchJournalHeaderBytesV2
      if readArray encoded 96 ≠ deriveAcknowledgementDigest entries then
        .error .acknowledgementDigestMismatch
      else do
        let acknowledgements ← (chunks durableAcknowledgementBytesV2 count entries).mapM
          DurableAcknowledgementV2.decode
        let reservation ← (NonceReservationV1.new journalNonceBase (readU64 encoded 72).toNat
          (readU64 encoded 80).toNat).mapError fun _ => .invalidHeader
        new (readU64 encoded 16) (readArray encoded 24) (readArray encoded 40) reservation
          acknowledgements

theorem length_header (journal : DurableBatchJournalV2) :
    journal.header.flatten.length = 128 := by
  simp [header]

theorem length_encode (journal : DurableBatchJournalV2) :
    journal.encode.length = 128 + journal.acknowledgements.length * 128 := by
  rw [encode, List.length_append, length_header,
    length_flatMap_encode DurableAcknowledgementV2.length_encode]

theorem laid_header (hlength : 128 ≤ bytes.length)
    (hcap : journal.acknowledgements.length ≤ maxDurableAcknowledgementsV2) :
    Laid bytes 0 journal.header ↔
      slice bytes 0 8 = asciiBytes "EVRJRN02" ∧ readU16 bytes 8 = 2 ∧
      readU16 bytes 10 = SnapshotObjectKindV2.operationalReceipt.code ∧
      allZero (slice bytes 12 4) = true ∧ readU64 bytes 16 = journal.batchOrdinal ∧
      readArray bytes 24 = journal.operation ∧ readArray bytes 40 = journal.canonicalDigest ∧
      readU64 bytes 72 = journal.nonceFirst ∧ readU64 bytes 80 = journal.nonceCount ∧
      (readU32 bytes 88).toNat = journal.acknowledgements.length ∧
      allZero (slice bytes 92 4) = true ∧
      readArray bytes 96 = deriveAcknowledgementDigest
        (journal.acknowledgements.flatMap DurableAcknowledgementV2.encode) := by
  have hcount : (UInt32.ofNat journal.acknowledgements.length).toNat =
      journal.acknowledgements.length := by
    unfold maxDurableAcknowledgementsV2 at hcap
    rw [UInt32.toNat_ofNat']
    omega
  simp only [header, Laid, length_magic, length_u16Be, length_u32Be, length_u64Be, length_zeros,
    FixedBytes.length_asBytes, Nat.reduceAdd]
  rw [slice_eq_u16Be (by omega), slice_eq_u16Be (by omega), slice_eq_zeros (by omega),
    slice_eq_u64Be (by omega), slice_eq_asBytes (by omega), slice_eq_asBytes (by omega),
    slice_eq_u64Be (by omega), slice_eq_u64Be (by omega), slice_eq_u32Be (by omega),
    slice_eq_zeros (by omega), slice_eq_asBytes (by omega), and_true,
    ← UInt32.toNat_inj (b := .ofNat _), hcount]

/-- A byte string is a journal exactly if it reads as one. -/
theorem encode_eq_iff {journal : DurableBatchJournalV2} :
    journal.encode = bytes ↔
      bytes.length = 128 + journal.acknowledgements.length * 128 ∧ Laid bytes 0 journal.header ∧
        (chunks 128 journal.acknowledgements.length (bytes.drop 128)).mapM
          DurableAcknowledgementV2.decode = .ok journal.acknowledgements := by
  constructor
  · intro h
    have hlength := length_encode journal
    rw [h] at hlength
    exact ⟨hlength, (eq_header_records_iff DurableAcknowledgementV2.canonical.on
      DurableAcknowledgementV2.length_encode (length_header journal) hlength).mp
        ⟨h, rfl, fun _ _ => trivial⟩⟩
  · rintro ⟨hlength, hread⟩
    exact ((eq_header_records_iff DurableAcknowledgementV2.canonical.on
      DurableAcknowledgementV2.length_encode (length_header journal) hlength).mpr hread).1

theorem canonical : Canonical encode decode Valid := by
  intro bytes journal
  rw [encode_eq_iff]
  simp only [decode, ite_error_eq_ok, except_bind_eq_ok, mapError_eq_ok, reservation_eq_ok,
    new_eq_ok, not_or, not_not, Nat.not_lt, gt_iff_lt, Bool.not_eq_false]
  constructor
  · rintro ⟨⟨hlong, hmagic, hversion, hkind, hone, htwo⟩, hcap, hlength, hdigest,
      acknowledgements, hread, _, ⟨⟨_, hcount, hcounters⟩, rfl⟩,
      ⟨hoperation, _, _, hdistinct⟩, rfl⟩
    obtain ⟨hflat, hnumber⟩ := flatMap_of_mapM hlength hread
    rw [← hnumber] at hlength hread hcap
    simp only [UInt64.ofNat_toNat]
    refine ⟨⟨hlength, (laid_header hlong hcap).mpr ?_, hread⟩,
      ⟨hoperation, hcap, hcount, hcounters, hdistinct⟩⟩
    refine ⟨hmagic, hversion, hkind, hone, rfl, rfl, rfl, rfl, rfl, hnumber.symm, htwo, ?_⟩
    rw [hflat]
    exact hdigest
  · rintro ⟨⟨hlength, hlaid, hread⟩, hvalid⟩
    have hlong : 128 ≤ bytes.length := by omega
    obtain ⟨hmagic, hversion, hkind, hone, hordinal, hoperation, hcanonical, hfirst, hcount,
      hnumber, htwo, hdigest⟩ := (laid_header hlong hvalid.cap).mp hlaid
    rw [(flatMap_of_mapM hlength hread).1] at hdigest
    rw [hnumber, hordinal, hoperation, hcanonical, hfirst, hcount]
    refine ⟨⟨hlong, hmagic, hversion, hkind, hone, htwo⟩, hvalid.cap, hlength, hdigest,
      journal.acknowledgements, hread, _, ⟨⟨by decide, hvalid.count, hvalid.counters⟩, rfl⟩,
      ⟨hvalid.operation, hvalid.cap, hvalid.count, hvalid.distinct⟩, ?_⟩
    simp only [UInt64.ofNat_toNat]

end Sha

end Journal

end DurableBatchJournalV2

end Snapshot

end Evidentrail
