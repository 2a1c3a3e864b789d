import Evidentrail.Lib.Search
import Evidentrail.Schema.Acquisition
import Evidentrail.Snapshot.Frame

/-!
# The authenticated event index

An index shard lists where each event's frame stands, in the order of the event
ids, and the directory lists the shards. Both are written as a header and
records of one width, so a decoder is its header, its record and what `new`
makes of the records: `new` sorts, and nothing asks whether the records of a
byte string were in order (`AuthenticatedEventIndexV2.encode_decode_iff`).
-/

namespace Evidentrail

open Rust Std Encoding Bytes Slice

/-! ## Exactness -/

namespace ExactnessBasis

/-- The code of a basis in a record, and the digests that stand for it. -/
def kindCode : ExactnessBasis → UInt16
  | .sourceExact => 1
  | .postPolicy _ _ => 2

def policyBytes : ExactnessBasis → List UInt8
  | .sourceExact => zeros 32
  | .postPolicy policyDigest _ => policyDigest.asBytes

def receiptBytes : ExactnessBasis → List UInt8
  | .sourceExact => zeros 32
  | .postPolicy _ transformationReceiptId => transformationReceiptId.asBytes

@[simp] theorem length_policyBytes (basis : ExactnessBasis) : basis.policyBytes.length = 32 := by
  cases basis <;> simp [policyBytes]

@[simp] theorem length_receiptBytes (basis : ExactnessBasis) : basis.receiptBytes.length = 32 := by
  cases basis <;> simp [receiptBytes]

/-- A basis after a policy names a digest and a receipt that are not zero. -/
def isNonzero : ExactnessBasis → Bool
  | .sourceExact => true
  | .postPolicy policyDigest transformationReceiptId =>
      !allZero policyDigest.asBytes && !allZero transformationReceiptId.asBytes

end ExactnessBasis

namespace Snapshot

inductive AuthenticatedEventIndexErrorV2 where
  | invalidEncodedLength
  | unsupportedVersion
  | unsupportedObjectKind
  | nonzeroReserved
  | entryCountCap
  | duplicateEntry
  | invalidLocator
  | noncanonicalEntry
  | noncanonicalExactness
  | aggregateMismatch
  | arithmeticOverflow
  | shardEntryCountCap
  | shardCountCap
  | noncanonicalShardOrder
deriving DecidableEq

def authenticatedEventIndexHeaderBytesV2 : Nat := 128
def authenticatedEventIndexEntryBytesV2 : Nat := 192
def maxAuthenticatedEventIndexEntriesV2 : Nat := 1000000
def maxAuthenticatedEventIndexShardEntriesV2 : Nat := 16384
def maxAuthenticatedEventIndexShardsV2 : Nat := 62
def authenticatedEventIndexDirectoryHeaderBytesV2 : Nat := 128
def authenticatedEventIndexShardDescriptorBytesV2 : Nat := 128

/-! ## Locators -/

def locatorIsValid (byteOffset : UInt64) (encodedLength plaintextLength : UInt32)
    (frameCommitment : FrameCommitmentV1) : Prop :=
  encodedLength ≠ 0 ∧ encodedLength.toNat ≤ maxEncodedFrameBytesV2 ∧
    plaintextLength.toNat ≤ maxFramePlaintextBytesV1 ∧
    (checkedAdd byteOffset.toNat encodedLength.toNat).isSome ∧ frameCommitment ≠ .zero

instance (byteOffset : UInt64) (encodedLength plaintextLength : UInt32)
    (frameCommitment : FrameCommitmentV1) :
    Decidable (locatorIsValid byteOffset encodedLength plaintextLength frameCommitment) :=
  inferInstanceAs (Decidable (_ ∧ _))

/-- Only `new` builds one. -/
structure EventFrameLocatorV2 where
  segmentOrdinal : UInt64
  frameSequence : UInt32
  globalSequence : UInt64
  byteOffset : UInt64
  encodedLength : UInt32
  plaintextLength : UInt32
  frameCommitment : FrameCommitmentV1
  valid : locatorIsValid byteOffset encodedLength plaintextLength frameCommitment
deriving DecidableEq

namespace EventFrameLocatorV2

def new (segmentOrdinal : UInt64) (frameSequence : UInt32) (globalSequence byteOffset : UInt64)
    (encodedLength plaintextLength : UInt32) (frameCommitment : FrameCommitmentV1) :
    Except AuthenticatedEventIndexErrorV2 EventFrameLocatorV2 :=
  if valid : locatorIsValid byteOffset encodedLength plaintextLength frameCommitment then
    .ok { segmentOrdinal, frameSequence, globalSequence, byteOffset, encodedLength
          plaintextLength, frameCommitment, valid }
  else .error .invalidLocator

theorem new_eq_ok {segmentOrdinal globalSequence byteOffset : UInt64}
    {frameSequence encodedLength plaintextLength : UInt32} {frameCommitment : FrameCommitmentV1}
    {locator : EventFrameLocatorV2} :
    new segmentOrdinal frameSequence globalSequence byteOffset encodedLength plaintextLength
        frameCommitment = .ok locator ↔
      segmentOrdinal = locator.segmentOrdinal ∧ frameSequence = locator.frameSequence ∧
        globalSequence = locator.globalSequence ∧ byteOffset = locator.byteOffset ∧
        encodedLength = locator.encodedLength ∧ plaintextLength = locator.plaintextLength ∧
        frameCommitment = locator.frameCommitment := by
  unfold new
  constructor
  · intro h
    split at h
    · cases h
      exact ⟨rfl, rfl, rfl, rfl, rfl, rfl, rfl⟩
    · cases h
  · rintro ⟨rfl, rfl, rfl, rfl, rfl, rfl, rfl⟩
    rw [dif_pos locator.valid]

end EventFrameLocatorV2

/-! ## Entries -/

structure AuthenticatedEventIndexEntryV2 where
  eventId : EventId
  exactnessBasis : ExactnessBasis
  locator : EventFrameLocatorV2
deriving DecidableEq

/-- The match on the code of the basis. -/
def readExactness (code : UInt16) (policy receipt : List UInt8) :
    Except AuthenticatedEventIndexErrorV2 ExactnessBasis :=
  if code = 1 ∧ allZero policy = true ∧ allZero receipt = true then .ok .sourceExact
  else if code = 2 ∧ allZero policy = false ∧ allZero receipt = false then
    .ok (.postPolicy (.ofBytes policy) (.ofBytes receipt))
  else .error .noncanonicalExactness

theorem readExactness_eq_ok {code : UInt16} {policy receipt : List UInt8} {basis : ExactnessBasis}
    (hpolicy : policy.length = 32) (hreceipt : receipt.length = 32) :
    readExactness code policy receipt = .ok basis ↔
      (code = basis.kindCode ∧ policy = basis.policyBytes ∧ receipt = basis.receiptBytes) ∧
        basis.isNonzero = true := by
  unfold readExactness
  constructor
  · intro h
    split at h
    · rename_i hzero
      obtain ⟨hcode, hp, hr⟩ := hzero
      cases h
      rw [allZero_iff, hpolicy] at hp
      rw [allZero_iff, hreceipt] at hr
      exact ⟨⟨hcode, hp, hr⟩, rfl⟩
    · split at h
      · rename_i hnonzero
        obtain ⟨hcode, hp, hr⟩ := hnonzero
        cases h
        refine ⟨⟨hcode, (HashId.asBytes_ofBytes hpolicy).symm,
          (HashId.asBytes_ofBytes hreceipt).symm⟩, ?_⟩
        rw [ExactnessBasis.isNonzero, HashId.asBytes_ofBytes hpolicy,
          HashId.asBytes_ofBytes hreceipt, hp, hr]
        rfl
      · cases h
  · rintro ⟨⟨rfl, rfl, rfl⟩, hnonzero⟩
    cases basis with
    | sourceExact => rw [if_pos ⟨rfl, allZero_zeros, allZero_zeros⟩]
    | postPolicy policyDigest receiptId =>
        rw [ExactnessBasis.isNonzero, Bool.and_eq_true, Bool.not_eq_true', Bool.not_eq_true']
          at hnonzero
        rw [if_neg (by rintro ⟨hcode, _⟩; cases hcode), if_pos ⟨rfl, hnonzero.1, hnonzero.2⟩]
        exact congrArg Except.ok (congrArg₂ _ (HashId.ofBytes_asBytes _)
          (HashId.ofBytes_asBytes _))

namespace AuthenticatedEventIndexEntryV2

def fields (entry : AuthenticatedEventIndexEntryV2) : List (List UInt8) :=
  [entry.eventId.asBytes, u16Be entry.exactnessBasis.kindCode,
    u16Be SnapshotObjectKindV2.authorizedEvent.code, zeros 4,
    u64Be entry.locator.segmentOrdinal, u32Be entry.locator.frameSequence, zeros 4,
    u64Be entry.locator.globalSequence, u64Be entry.locator.byteOffset,
    u32Be entry.locator.encodedLength, u32Be entry.locator.plaintextLength,
    entry.locator.frameCommitment.asBytes, entry.exactnessBasis.policyBytes,
    entry.exactnessBasis.receiptBytes, zeros 16]

def encode (entry : AuthenticatedEventIndexEntryV2) : List UInt8 := entry.fields.flatten

def decode (encoded : List UInt8) :
    Except AuthenticatedEventIndexErrorV2 AuthenticatedEventIndexEntryV2 :=
  if encoded.length ≠ authenticatedEventIndexEntryBytesV2 ∨ allZero (slice encoded 36 4) = false ∨
      allZero (slice encoded 52 4) = false ∨ allZero (slice encoded 176 16) = false then
    .error .noncanonicalEntry
  else if readU16 encoded 34 ≠ SnapshotObjectKindV2.authorizedEvent.code then
    .error .unsupportedObjectKind
  else do
    let exactnessBasis ← readExactness (readU16 encoded 32) (slice encoded 112 32)
      (slice encoded 144 32)
    let locator ← EventFrameLocatorV2.new (readU64 encoded 40) (readU32 encoded 48)
      (readU64 encoded 56) (readU64 encoded 64) (readU32 encoded 72) (readU32 encoded 76)
      (readArray encoded 80)
    .ok ⟨readId encoded 0, exactnessBasis, locator⟩

@[simp] theorem length_encode (entry : AuthenticatedEventIndexEntryV2) :
    entry.encode.length = 192 := by
  simp [encode, fields]

theorem canonical :
    Canonical encode decode fun entry => entry.exactnessBasis.isNonzero = true := by
  intro bytes entry
  by_cases hlength : bytes.length = 192
  · rw [encode, eq_flatten_iff (length_encode entry) hlength]
    simp only [fields, Laid, HashId.length_asBytes, length_u16Be, length_u32Be, length_u64Be,
      length_zeros, FixedBytes.length_asBytes, ExactnessBasis.length_policyBytes,
      ExactnessBasis.length_receiptBytes, Nat.reduceAdd]
    rw [slice_eq_idBytes (by omega), slice_eq_u16Be (by omega), slice_eq_u16Be (by omega),
      slice_eq_zeros (by omega), slice_eq_u64Be (by omega), slice_eq_u32Be (by omega),
      slice_eq_zeros (by omega), slice_eq_u64Be (by omega), slice_eq_u64Be (by omega),
      slice_eq_u32Be (by omega), slice_eq_u32Be (by omega), slice_eq_asBytes (by omega),
      slice_eq_zeros (by omega)]
    have hpolicyLength : (slice bytes 112 32).length = 32 := length_slice (by omega)
    have hreceiptLength : (slice bytes 144 32).length = 32 := length_slice (by omega)
    obtain ⟨eventId, basis, locator⟩ := entry
    simp only [decode, ite_error_eq_ok, except_bind_eq_ok,
      readExactness_eq_ok hpolicyLength hreceiptLength,
      EventFrameLocatorV2.new_eq_ok, Except.ok.injEq, mk.injEq]
    simp only [not_or, Bool.not_eq_false, not_not, hlength, authenticatedEventIndexEntryBytesV2]
    constructor
    · rintro ⟨⟨_, hone, htwo, hthree⟩, hkind, _, ⟨⟨hcode, hpolicy, hreceipt⟩, hnonzero⟩, _,
        ⟨h1, h2, h3, h4, h5, h6, h7⟩, hid, rfl, rfl⟩
      exact ⟨⟨hid, hcode, hkind, hone, h1, h2, htwo, h3, h4, h5, h6, h7, hpolicy, hreceipt, hthree,
        trivial⟩, hnonzero⟩
    · rintro ⟨⟨hid, hcode, hkind, hone, h1, h2, htwo, h3, h4, h5, h6, h7, hpolicy, hreceipt, hthree,
        _⟩, hnonzero⟩
      exact ⟨⟨trivial, hone, htwo, hthree⟩, hkind, basis, ⟨⟨hcode, hpolicy, hreceipt⟩, hnonzero⟩,
        locator, ⟨h1, h2, h3, h4, h5, h6, h7⟩, hid, rfl, rfl⟩
  · constructor
    · intro h
      rw [decode, if_pos (.inl hlength)] at h
      cases h
    · rintro ⟨rfl, _⟩
      exact absurd (length_encode entry) hlength

end AuthenticatedEventIndexEntryV2

/-! ## The index -/

def inEventOrder (entries : List AuthenticatedEventIndexEntryV2) : Prop :=
  entries.Pairwise fun a b => (compare a.eventId b.eventId).isLE

/-- Only `new` builds one, and it sorts. -/
structure AuthenticatedEventIndexV2 where
  entries : List AuthenticatedEventIndexEntryV2
  finalFrameCommitment : FrameCommitmentV1
  totalAuthorizedBytes : UInt64
  sorted : inEventOrder entries

/-- The loop of `new`: no event and no frame twice, and the sum of the lengths. -/
def scanEntries (eventIds : List EventId) (frames : List (UInt64 × UInt32 × UInt64))
    (total : UInt64) :
    List AuthenticatedEventIndexEntryV2 → Except AuthenticatedEventIndexErrorV2 UInt64
  | [] => .ok total
  | entry :: rest =>
      let frame := (entry.locator.segmentOrdinal, entry.locator.frameSequence,
        entry.locator.byteOffset)
      if entry.eventId ∈ eventIds ∨ frame ∈ frames then .error .duplicateEntry
      else do
        let sum ← okOr .arithmeticOverflow
          (checkedAdd total.toNat entry.locator.plaintextLength.toNat)
        scanEntries (entry.eventId :: eventIds) (frame :: frames) (.ofNat sum) rest

def indexHeader (count : Nat) (total : UInt64) (finalFrameCommitment : FrameCommitmentV1) :
    List (List UInt8) :=
  [asciiBytes "EVREIX02", u16Be 2, u16Be 1, u16Be SnapshotObjectKindV2.eventIndex.code, zeros 2,
    u64Be (.ofNat count), u64Be total, finalFrameCommitment.asBytes, zeros 64]

/-- An index with these entries, in this order. -/
def encodeIndex (entries : List AuthenticatedEventIndexEntryV2) (total : UInt64)
    (finalFrameCommitment : FrameCommitmentV1) : List UInt8 :=
  (indexHeader entries.length total finalFrameCommitment).flatten ++
    entries.flatMap AuthenticatedEventIndexEntryV2.encode

namespace AuthenticatedEventIndexV2

def new (entries : List AuthenticatedEventIndexEntryV2)
    (finalFrameCommitment : FrameCommitmentV1) :
    Except AuthenticatedEventIndexErrorV2 AuthenticatedEventIndexV2 :=
  if entries.length > maxAuthenticatedEventIndexShardEntriesV2 ∨
      (entries ≠ [] ∧ finalFrameCommitment = .zero) then .error .shardEntryCountCap
  else do
    let total ← scanEntries [] [] 0 (sortByKey AuthenticatedEventIndexEntryV2.eventId entries)
    .ok ⟨sortByKey AuthenticatedEventIndexEntryV2.eventId entries, finalFrameCommitment, total,
      pairwise_sortByKey AuthenticatedEventIndexEntryV2.eventId entries⟩

def encodedLen (index : AuthenticatedEventIndexV2) : Nat :=
  authenticatedEventIndexHeaderBytesV2 + index.entries.length * authenticatedEventIndexEntryBytesV2

def encode (index : AuthenticatedEventIndexV2) : List UInt8 :=
  encodeIndex index.entries index.totalAuthorizedBytes index.finalFrameCommitment

/-- The sums of the lengths cannot overflow behind the check of the count. -/
def decode (encoded : List UInt8) :
    Except AuthenticatedEventIndexErrorV2 AuthenticatedEventIndexV2 :=
  if encoded.length < authenticatedEventIndexHeaderBytesV2 ∨
      slice encoded 0 8 ≠ asciiBytes "EVREIX02" then .error .invalidEncodedLength
  else if readU16 encoded 8 ≠ 2 ∨ readU16 encoded 10 ≠ 1 then .error .unsupportedVersion
  else if readU16 encoded 12 ≠ SnapshotObjectKindV2.eventIndex.code then
    .error .unsupportedObjectKind
  else if allZero (slice encoded 14 2) = false ∨ allZero (slice encoded 64 64) = false then
    .error .nonzeroReserved
  else
    let count := (readU64 encoded 16).toNat
    if count > maxAuthenticatedEventIndexShardEntriesV2 then .error .shardEntryCountCap
    else if encoded.length ≠ authenticatedEventIndexHeaderBytesV2 +
        count * authenticatedEventIndexEntryBytesV2 then .error .invalidEncodedLength
    else do
      let entries ← (chunks authenticatedEventIndexEntryBytesV2 count
        (encoded.drop authenticatedEventIndexHeaderBytesV2)).mapM
          AuthenticatedEventIndexEntryV2.decode
      let index ← new entries (readArray encoded 32)
      if index.totalAuthorizedBytes ≠ readU64 encoded 24 then .error .aggregateMismatch
      else .ok index

theorem new_eq_ok {entries : List AuthenticatedEventIndexEntryV2}
    {finalFrameCommitment : FrameCommitmentV1} {index : AuthenticatedEventIndexV2}
    (h : new entries finalFrameCommitment = .ok index) :
    entries.length ≤ maxAuthenticatedEventIndexShardEntriesV2 ∧
      index.entries = sortByKey AuthenticatedEventIndexEntryV2.eventId entries ∧
      index.finalFrameCommitment = finalFrameCommitment := by
  simp only [new, ite_error_eq_ok, except_bind_eq_ok, Except.ok.injEq] at h
  obtain ⟨hcap, total, _, rfl⟩ := h
  exact ⟨Nat.not_lt.mp (not_or.mp hcap).1, rfl, rfl⟩

/-- What is sorted already is built as it is. -/
theorem new_entries {entries : List AuthenticatedEventIndexEntryV2}
    {finalFrameCommitment : FrameCommitmentV1} {index : AuthenticatedEventIndexV2}
    (h : new entries finalFrameCommitment = .ok index) :
    new index.entries finalFrameCommitment = .ok index := by
  obtain ⟨_, hentries, _⟩ := new_eq_ok h
  have hsorted : sortByKey AuthenticatedEventIndexEntryV2.eventId index.entries =
      sortByKey AuthenticatedEventIndexEntryV2.eventId entries := by
    rw [(sortByKey_eq_self_iff _).mpr index.sorted, hentries]
  have hlength : index.entries.length = entries.length := by rw [hentries, length_sortByKey]
  have hempty : index.entries = [] ↔ entries = [] := by
    rw [← List.length_eq_zero_iff, hlength, List.length_eq_zero_iff]
  rw [← h]
  simp only [new, hsorted, hlength, ne_eq, hempty]

end AuthenticatedEventIndexV2

@[simp] theorem length_indexMagic : (asciiBytes "EVREIX02").length = 8 := by decide

theorem length_indexHeader (count : Nat) (total : UInt64) (commitment : FrameCommitmentV1) :
    (indexHeader count total commitment).flatten.length = 128 := by
  simp [indexHeader]

theorem laid_indexHeader {bytes : List UInt8} (hlength : 128 ≤ bytes.length) {count : Nat}
    {total : UInt64} {commitment : FrameCommitmentV1} :
    Laid bytes 0 (indexHeader count total commitment) ↔
      slice bytes 0 8 = asciiBytes "EVREIX02" ∧ readU16 bytes 8 = 2 ∧ readU16 bytes 10 = 1 ∧
      readU16 bytes 12 = SnapshotObjectKindV2.eventIndex.code ∧
      allZero (slice bytes 14 2) = true ∧ readU64 bytes 16 = .ofNat count ∧
      readU64 bytes 24 = total ∧ readArray bytes 32 = commitment ∧
      allZero (slice bytes 64 64) = true := by
  simp only [indexHeader, Laid, length_indexMagic, length_u16Be, length_u64Be, length_zeros,
    FixedBytes.length_asBytes, Nat.reduceAdd]
  rw [slice_eq_u16Be (by omega), slice_eq_u16Be (by omega), slice_eq_u16Be (by omega),
    slice_eq_zeros (by omega), slice_eq_u64Be (by omega), slice_eq_u64Be (by omega),
    slice_eq_asBytes (by omega), slice_eq_zeros (by omega), and_true]

theorem length_encodeIndex (entries : List AuthenticatedEventIndexEntryV2) (total : UInt64)
    (commitment : FrameCommitmentV1) :
    (encodeIndex entries total commitment).length = 128 + entries.length * 192 := by
  rw [encodeIndex, List.length_append, length_indexHeader,
    length_flatMap_encode AuthenticatedEventIndexEntryV2.length_encode]

namespace AuthenticatedEventIndexV2

/-- What is accepted is an index of some entries in some order, and `new` sorts
them. -/
theorem decode_eq_ok {bytes : List UInt8} {index : AuthenticatedEventIndexV2} :
    decode bytes = .ok index ↔ ∃ entries, new entries index.finalFrameCommitment = .ok index ∧
      (∀ entry ∈ entries, entry.exactnessBasis.isNonzero = true) ∧
      encodeIndex entries index.totalAuthorizedBytes index.finalFrameCommitment = bytes := by
  constructor
  · intro h
    simp only [decode, ite_error_eq_ok, except_bind_eq_ok, not_or, not_not, Nat.not_lt, gt_iff_lt,
      Bool.not_eq_false, Except.ok.injEq] at h
    obtain ⟨⟨hlong, hmagic⟩, ⟨hversion, hschema⟩, hkind, ⟨hzero, hzeros⟩, hcap, hlength, entries,
      hentries, _, hnew, htotal, rfl⟩ := h
    obtain ⟨hflat, hcount, hnonzero⟩ := (mapM_chunks AuthenticatedEventIndexEntryV2.canonical.on
      AuthenticatedEventIndexEntryV2.length_encode (by
        rw [List.length_drop, hlength]
        exact Nat.add_sub_cancel_left _ _)).mp hentries
    obtain ⟨_, _, hcommitment⟩ := new_eq_ok hnew
    rw [← hcommitment] at hnew
    refine ⟨entries, hnew, hnonzero, ?_⟩
    rw [encodeIndex, eq_flatten_append_iff (length_indexHeader _ _ _),
      laid_indexHeader (by exact hlong)]
    refine ⟨⟨hmagic, hversion, hschema, hkind, hzero, ?_, htotal.symm, hcommitment.symm, hzeros⟩,
      hflat.symm⟩
    rw [hcount, UInt64.ofNat_toNat]
  · rintro ⟨entries, hnew, hnonzero, rfl⟩
    obtain ⟨hcap, _, _⟩ := new_eq_ok hnew
    have hlength := length_encodeIndex entries index.totalAuthorizedBytes
      index.finalFrameCommitment
    generalize hbytes : encodeIndex entries index.totalAuthorizedBytes
      index.finalFrameCommitment = bytes at hlength ⊢
    rw [encodeIndex, eq_flatten_append_iff (length_indexHeader _ _ _),
      laid_indexHeader (by omega)] at hbytes
    obtain ⟨⟨hmagic, hversion, hschema, hkind, hzero, hcount, htotal, hcommitment, hzeros⟩,
      hrest⟩ := hbytes
    have hentries : (readU64 bytes 16).toNat = entries.length := by
      rw [hcount, UInt64.toNat_ofNat']
      unfold maxAuthenticatedEventIndexShardEntriesV2 at hcap
      omega
    have hrecords : (bytes.drop 128).length = entries.length * 192 := by
      rw [List.length_drop, hlength, Nat.add_sub_cancel_left]
    have hdecoded := (mapM_chunks AuthenticatedEventIndexEntryV2.canonical.on
      AuthenticatedEventIndexEntryV2.length_encode hrecords).mpr ⟨hrest.symm, rfl, hnonzero⟩
    simp only [decode, ite_error_eq_ok, except_bind_eq_ok, not_or, not_not, Nat.not_lt, gt_iff_lt,
      Bool.not_eq_false, Except.ok.injEq]
    rw [hentries, hcommitment]
    exact ⟨⟨by rw [hlength]; exact Nat.le_add_right _ _, hmagic⟩, ⟨hversion, hschema⟩, hkind,
      ⟨hzero, hzeros⟩, hcap, hlength, entries, hdecoded, index, hnew, htotal.symm, rfl⟩

/-- An index comes back unless a basis names a zero digest. -/
theorem decode_encode_iff {entries : List AuthenticatedEventIndexEntryV2}
    {finalFrameCommitment : FrameCommitmentV1} {index : AuthenticatedEventIndexV2}
    (h : new entries finalFrameCommitment = .ok index) :
    decode index.encode = .ok index ↔
      ∀ entry ∈ entries, entry.exactnessBasis.isNonzero = true := by
  obtain ⟨_, hentries, hcommitment⟩ := new_eq_ok h
  have hmem : ∀ {entry}, entry ∈ index.entries ↔ entry ∈ entries := by
    intro entry
    rw [hentries, mem_sortByKey]
  constructor
  · intro hdecode entry hentry
    obtain ⟨others, hnew, hnonzero, _⟩ := decode_eq_ok.mp hdecode
    refine hnonzero entry ?_
    rw [← mem_sortByKey AuthenticatedEventIndexEntryV2.eventId, ← (new_eq_ok hnew).2.1]
    exact hmem.mpr hentry
  · intro hnonzero
    refine decode_eq_ok.mpr ⟨index.entries, ?_, fun entry hentry =>
      hnonzero entry (hmem.mp hentry), rfl⟩
    rw [hcommitment]
    exact new_entries h

/-- The event ids that stand in the records of a byte string. -/
def storedEventIds (encoded : List UInt8) : List EventId :=
  (chunks authenticatedEventIndexEntryBytesV2 (readU64 encoded 16).toNat
    (encoded.drop authenticatedEventIndexHeaderBytesV2)).map fun record => readId record 0

theorem storedEventIds_encodeIndex {entries : List AuthenticatedEventIndexEntryV2}
    (hcap : entries.length ≤ maxAuthenticatedEventIndexShardEntriesV2) (total : UInt64)
    (commitment : FrameCommitmentV1) :
    storedEventIds (encodeIndex entries total commitment) =
      entries.map AuthenticatedEventIndexEntryV2.eventId := by
  have hlength := length_encodeIndex entries total commitment
  generalize hbytes : encodeIndex entries total commitment = bytes at hlength ⊢
  rw [encodeIndex, eq_flatten_append_iff (length_indexHeader _ _ _),
    laid_indexHeader (by omega)] at hbytes
  obtain ⟨⟨_, _, _, _, _, hcount, _⟩, hrest⟩ := hbytes
  have hentries : (readU64 bytes 16).toNat = entries.length := by
    rw [hcount, UInt64.toNat_ofNat']
    unfold maxAuthenticatedEventIndexShardEntriesV2 at hcap
    omega
  rw [storedEventIds, hentries]
  refine (congrArg (fun records => (chunks 192 entries.length records).map fun record =>
    (readId record 0 : EventId)) hrest).trans ?_
  rw [chunks_flatMap AuthenticatedEventIndexEntryV2.length_encode, List.map_map]
  refine List.map_congr_left fun entry _ => ?_
  show readId (entry.eventId.asBytes ++ _) 0 = entry.eventId
  rw [readId, slice_append_self (HashId.length_asBytes _), HashId.ofBytes_asBytes]

/-- What was accepted is given back exactly if its records are in the order of
their event ids. -/
theorem encode_decode_iff {bytes : List UInt8} {index : AuthenticatedEventIndexV2}
    (h : decode bytes = .ok index) :
    index.encode = bytes ↔
      (storedEventIds bytes).Pairwise fun a b => (compare a b).isLE := by
  obtain ⟨entries, hnew, hnonzero, rfl⟩ := decode_eq_ok.mp h
  obtain ⟨hcap, hentries, _⟩ := new_eq_ok hnew
  have hsame : index.encode = encodeIndex entries index.totalAuthorizedBytes
      index.finalFrameCommitment ↔ index.entries = entries := by
    constructor
    · intro heq
      have hlength : index.entries.length = entries.length := by rw [hentries, length_sortByKey]
      rw [encode, encodeIndex, encodeIndex, hlength, List.append_cancel_left_eq] at heq
      refine flatMap_encode_inj AuthenticatedEventIndexEntryV2.canonical.on
        AuthenticatedEventIndexEntryV2.length_encode ?_ hnonzero hlength heq
      intro entry hentry
      rw [hentries, mem_sortByKey] at hentry
      exact hnonzero entry hentry
    · intro heq
      rw [encode, heq]
  rw [hsame, hentries, sortByKey_eq_self_iff, storedEventIds_encodeIndex hcap, List.pairwise_map]

end AuthenticatedEventIndexV2

end Snapshot

end Evidentrail
