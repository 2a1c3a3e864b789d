import Evidentrail.Snapshot.EventIndexV2

/-!
# The directory of the event index

A directory lists the shards of an index in order, each by its first and last
event, its length and its digest. It is not sorted when it is built, so a byte
string is given back as it was (`AuthenticatedEventIndexDirectoryV2.canonical`).
What a decoder asks of a descriptor holds for every shard, except that its
digest is not zero.
-/

namespace Evidentrail.Snapshot

open Rust Std Encoding Bytes Slice

/-! ## Descriptors -/

structure AuthenticatedEventIndexShardDescriptorV2 where
  ordinal : UInt32
  entryCount : UInt32
  firstEventId : EventId
  lastEventId : EventId
  shardDigest : LifecycleDigestV1
  totalAuthorizedBytes : UInt64
  encodedLength : UInt32
deriving DecidableEq

namespace AuthenticatedEventIndexShardDescriptorV2

def fields (descriptor : AuthenticatedEventIndexShardDescriptorV2) : List (List UInt8) :=
  [u32Be descriptor.ordinal, u32Be descriptor.entryCount, descriptor.firstEventId.asBytes,
    descriptor.lastEventId.asBytes, descriptor.shardDigest.asBytes,
    u64Be descriptor.totalAuthorizedBytes, u32Be descriptor.encodedLength, zeros 12]

def encode (descriptor : AuthenticatedEventIndexShardDescriptorV2) : List UInt8 :=
  descriptor.fields.flatten

/-- The checks behind the reads of `decode`. -/
def isCanonical (descriptor : AuthenticatedEventIndexShardDescriptorV2) : Bool :=
  descriptor.entryCount ≠ 0 &&
    descriptor.entryCount.toNat ≤ maxAuthenticatedEventIndexShardEntriesV2 &&
    (compare descriptor.firstEventId descriptor.lastEventId).isLE &&
    !allZero descriptor.shardDigest.asBytes &&
    descriptor.encodedLength.toNat ≤ maxFramePlaintextBytesV1

def decode (encoded : List UInt8) :
    Except AuthenticatedEventIndexErrorV2 AuthenticatedEventIndexShardDescriptorV2 :=
  if encoded.length ≠ authenticatedEventIndexShardDescriptorBytesV2 ∨
      allZero (slice encoded 116 12) = false then .error .noncanonicalEntry
  else
    let descriptor : AuthenticatedEventIndexShardDescriptorV2 :=
      ⟨readU32 encoded 0, readU32 encoded 4, readId encoded 8, readId encoded 40,
        readArray encoded 72, readU64 encoded 104, readU32 encoded 112⟩
    if descriptor.isCanonical = false then .error .noncanonicalEntry else .ok descriptor

@[simp] theorem length_encode (descriptor : AuthenticatedEventIndexShardDescriptorV2) :
    descriptor.encode.length = 128 := by
  simp [encode, fields]

theorem canonical : Canonical encode decode fun descriptor => descriptor.isCanonical = true := by
  intro bytes descriptor
  by_cases hlength : bytes.length = 128
  · rw [encode, eq_flatten_iff (length_encode descriptor) hlength]
    simp only [fields, Laid, HashId.length_asBytes, length_u32Be, length_u64Be, length_zeros,
      FixedBytes.length_asBytes, Nat.reduceAdd]
    rw [slice_eq_u32Be (by omega), slice_eq_u32Be (by omega), slice_eq_idBytes (by omega),
      slice_eq_idBytes (by omega), slice_eq_asBytes (by omega), slice_eq_u64Be (by omega),
      slice_eq_u32Be (by omega), slice_eq_zeros (by omega)]
    simp only [decode, ite_error_eq_ok, not_or, not_not, Bool.not_eq_false, Except.ok.injEq,
      hlength, authenticatedEventIndexShardDescriptorBytesV2]
    constructor
    · rintro ⟨⟨_, hzero⟩, hvalid, rfl⟩
      exact ⟨⟨rfl, rfl, rfl, rfl, rfl, rfl, rfl, hzero, trivial⟩, hvalid⟩
    · rintro ⟨⟨h1, h2, h3, h4, h5, h6, h7, hzero, _⟩, hvalid⟩
      rw [h1, h2, h3, h4, h5, h6, h7]
      exact ⟨⟨trivial, hzero⟩, hvalid, rfl⟩
  · constructor
    · intro h
      rw [decode, if_pos (.inl hlength)] at h
      cases h
    · rintro ⟨rfl, _⟩
      exact absurd (length_encode descriptor) hlength

end AuthenticatedEventIndexShardDescriptorV2

/-! ## The directory -/

structure AuthenticatedEventIndexDirectoryV2 where
  descriptors : List AuthenticatedEventIndexShardDescriptorV2
  finalFrameCommitment : FrameCommitmentV1
  eventCount : UInt64
  totalAuthorizedBytes : UInt64
deriving DecidableEq

/-- The loop of `new`: ordinals without a gap, shards one behind the other, and
the sums. -/
def scanDescriptors (expected : Nat) (previousLast : Option EventId) (eventCount total : UInt64) :
    List AuthenticatedEventIndexShardDescriptorV2 →
      Except AuthenticatedEventIndexErrorV2 (UInt64 × UInt64)
  | [] => .ok (eventCount, total)
  | descriptor :: rest =>
      if descriptor.ordinal.toNat ≠ expected ∨
          previousLast.any (fun last => compare last descriptor.firstEventId ≠ .lt) = true then
        .error .noncanonicalShardOrder
      else do
        let events ← okOr .arithmeticOverflow
          (checkedAdd eventCount.toNat descriptor.entryCount.toNat)
        let bytes ← okOr .arithmeticOverflow
          (checkedAdd total.toNat descriptor.totalAuthorizedBytes.toNat)
        scanDescriptors (expected + 1) (some descriptor.lastEventId) (.ofNat events)
          (.ofNat bytes) rest

namespace AuthenticatedEventIndexDirectoryV2

def new (descriptors : List AuthenticatedEventIndexShardDescriptorV2)
    (finalFrameCommitment : FrameCommitmentV1) :
    Except AuthenticatedEventIndexErrorV2 AuthenticatedEventIndexDirectoryV2 :=
  if descriptors.length > maxAuthenticatedEventIndexShardsV2 then .error .shardCountCap
  else do
    let (eventCount, total) ← scanDescriptors 0 none 0 0 descriptors
    if eventCount.toNat > maxAuthenticatedEventIndexEntriesV2 then .error .entryCountCap
    else .ok ⟨descriptors, finalFrameCommitment, eventCount, total⟩

def header (directory : AuthenticatedEventIndexDirectoryV2) : List (List UInt8) :=
  [asciiBytes "EVREID02", u16Be 2, u16Be SnapshotObjectKindV2.eventIndexDirectory.code, zeros 4,
    u32Be (.ofNat directory.descriptors.length), zeros 4, u64Be directory.eventCount,
    u64Be directory.totalAuthorizedBytes, directory.finalFrameCommitment.asBytes, zeros 56]

def encode (directory : AuthenticatedEventIndexDirectoryV2) : List UInt8 :=
  directory.header.flatten ++
    directory.descriptors.flatMap AuthenticatedEventIndexShardDescriptorV2.encode

def decode (encoded : List UInt8) :
    Except AuthenticatedEventIndexErrorV2 AuthenticatedEventIndexDirectoryV2 :=
  if encoded.length < authenticatedEventIndexDirectoryHeaderBytesV2 ∨
      slice encoded 0 8 ≠ asciiBytes "EVREID02" ∨ readU16 encoded 8 ≠ 2 ∨
      readU16 encoded 10 ≠ SnapshotObjectKindV2.eventIndexDirectory.code ∨
      allZero (slice encoded 12 4) = false ∨ allZero (slice encoded 20 4) = false ∨
      allZero (slice encoded 72 56) = false then .error .invalidEncodedLength
  else
    let count := (readU32 encoded 16).toNat
    if count > maxAuthenticatedEventIndexShardsV2 then .error .shardCountCap
    else if encoded.length ≠ authenticatedEventIndexDirectoryHeaderBytesV2 +
        count * authenticatedEventIndexShardDescriptorBytesV2 then .error .invalidEncodedLength
    else do
      let descriptors ← (chunks authenticatedEventIndexShardDescriptorBytesV2 count
        (encoded.drop authenticatedEventIndexDirectoryHeaderBytesV2)).mapM
          AuthenticatedEventIndexShardDescriptorV2.decode
      let directory ← new descriptors (readArray encoded 40)
      if directory.eventCount ≠ readU64 encoded 24 ∨
          directory.totalAuthorizedBytes ≠ readU64 encoded 32 then .error .aggregateMismatch
      else .ok directory

theorem new_eq_ok {descriptors : List AuthenticatedEventIndexShardDescriptorV2}
    {finalFrameCommitment : FrameCommitmentV1} {directory : AuthenticatedEventIndexDirectoryV2}
    (h : new descriptors finalFrameCommitment = .ok directory) :
    descriptors.length ≤ maxAuthenticatedEventIndexShardsV2 ∧
      directory.descriptors = descriptors ∧
      directory.finalFrameCommitment = finalFrameCommitment := by
  simp only [new, ite_error_eq_ok, except_bind_eq_ok, Except.ok.injEq] at h
  obtain ⟨hcap, _, _, _, rfl⟩ := h
  exact ⟨Nat.not_lt.mp hcap, rfl, rfl⟩

@[simp] theorem length_directoryMagic : (asciiBytes "EVREID02").length = 8 := by decide

theorem length_header (directory : AuthenticatedEventIndexDirectoryV2) :
    directory.header.flatten.length = 128 := by
  simp [header]

theorem length_encode (directory : AuthenticatedEventIndexDirectoryV2) :
    directory.encode.length = 128 + directory.descriptors.length * 128 := by
  rw [encode, List.length_append, length_header,
    length_flatMap_encode AuthenticatedEventIndexShardDescriptorV2.length_encode]

theorem laid_header {bytes : List UInt8} (hlength : 128 ≤ bytes.length)
    {directory : AuthenticatedEventIndexDirectoryV2} :
    Laid bytes 0 directory.header ↔
      slice bytes 0 8 = asciiBytes "EVREID02" ∧ readU16 bytes 8 = 2 ∧
      readU16 bytes 10 = SnapshotObjectKindV2.eventIndexDirectory.code ∧
      allZero (slice bytes 12 4) = true ∧
      readU32 bytes 16 = .ofNat directory.descriptors.length ∧
      allZero (slice bytes 20 4) = true ∧ readU64 bytes 24 = directory.eventCount ∧
      readU64 bytes 32 = directory.totalAuthorizedBytes ∧
      readArray bytes 40 = directory.finalFrameCommitment ∧
      allZero (slice bytes 72 56) = true := by
  simp only [header, Laid, length_directoryMagic, length_u16Be, length_u32Be, length_u64Be,
    length_zeros, FixedBytes.length_asBytes, Nat.reduceAdd]
  rw [slice_eq_u16Be (by omega), slice_eq_u16Be (by omega), slice_eq_zeros (by omega),
    slice_eq_u32Be (by omega), slice_eq_zeros (by omega), slice_eq_u64Be (by omega),
    slice_eq_u64Be (by omega), slice_eq_asBytes (by omega), slice_eq_zeros (by omega), and_true]

/-- A directory that was built, with descriptors a decoder takes. -/
structure IsReadable (directory : AuthenticatedEventIndexDirectoryV2) : Prop where
  built : new directory.descriptors directory.finalFrameCommitment = .ok directory
  descriptors : ∀ descriptor ∈ directory.descriptors, descriptor.isCanonical = true

theorem canonical : Canonical encode decode IsReadable := by
  intro bytes directory
  constructor
  · intro h
    simp only [decode, ite_error_eq_ok, except_bind_eq_ok, not_or, not_not, Nat.not_lt, gt_iff_lt,
      Bool.not_eq_false, Except.ok.injEq] at h
    obtain ⟨⟨hlong, hmagic, hversion, hkind, hone, htwo, hthree⟩, hcap, hlength, descriptors,
      hdescriptors, _, hnew, ⟨hevents, htotal⟩, rfl⟩ := h
    obtain ⟨hflat, hcount, hcanonical⟩ :=
      (mapM_chunks AuthenticatedEventIndexShardDescriptorV2.canonical.on
        AuthenticatedEventIndexShardDescriptorV2.length_encode (by
          rw [List.length_drop, hlength]
          exact Nat.add_sub_cancel_left _ _)).mp hdescriptors
    obtain ⟨_, rfl, hcommitment⟩ := new_eq_ok hnew
    rw [← hcommitment] at hnew
    refine ⟨?_, hnew, hcanonical⟩
    rw [encode, eq_flatten_append_iff (length_header _), laid_header (by exact hlong)]
    refine ⟨⟨hmagic, hversion, hkind, hone, ?_, htwo, hevents.symm, htotal.symm, hcommitment.symm,
      hthree⟩, hflat.symm⟩
    rw [hcount, UInt32.ofNat_toNat]
  · rintro ⟨rfl, hnew, hcanonical⟩
    obtain ⟨hcap, _, _⟩ := new_eq_ok hnew
    have hlength := length_encode directory
    generalize hbytes : directory.encode = bytes at hlength ⊢
    rw [encode, eq_flatten_append_iff (length_header _), laid_header (by omega)] at hbytes
    obtain ⟨⟨hmagic, hversion, hkind, hone, hcount, htwo, hevents, htotal, hcommitment, hthree⟩,
      hrest⟩ := hbytes
    have hdescriptors : (readU32 bytes 16).toNat = directory.descriptors.length := by
      rw [hcount, UInt32.toNat_ofNat']
      unfold maxAuthenticatedEventIndexShardsV2 at hcap
      omega
    have hrecords : (bytes.drop 128).length = directory.descriptors.length * 128 := by
      rw [List.length_drop, hlength, Nat.add_sub_cancel_left]
    have hdecoded := (mapM_chunks AuthenticatedEventIndexShardDescriptorV2.canonical.on
      AuthenticatedEventIndexShardDescriptorV2.length_encode hrecords).mpr
        ⟨hrest.symm, rfl, hcanonical⟩
    simp only [decode, ite_error_eq_ok, except_bind_eq_ok, not_or, not_not, Nat.not_lt, gt_iff_lt,
      Bool.not_eq_false, Except.ok.injEq]
    rw [hdescriptors, hcommitment]
    exact ⟨⟨by rw [hlength]; exact Nat.le_add_right _ _, hmagic, hversion, hkind, hone, htwo,
      hthree⟩, hcap, hlength, _, hdecoded, directory, hnew, ⟨hevents.symm, htotal.symm⟩, rfl⟩

end AuthenticatedEventIndexDirectoryV2

/-! ## From shards -/

section Shards

variable [Sha256]

/-- `derive_authenticated_event_index_digest_v2` of the encoding. -/
def AuthenticatedEventIndexV2.digest (index : AuthenticatedEventIndexV2) : LifecycleDigestV1 :=
  lifecycleDigest (asciiBytes "evidentrail.snapshot.event-index.v2" ++ index.encode)

namespace AuthenticatedEventIndexShardDescriptorV2

def fromIndex (ordinal : UInt32) (index : AuthenticatedEventIndexV2) :
    Except AuthenticatedEventIndexErrorV2 AuthenticatedEventIndexShardDescriptorV2 :=
  match index.entries with
  | [] => .error .shardEntryCountCap
  | first :: rest =>
      if (first :: rest).length > maxAuthenticatedEventIndexShardEntriesV2 then
        .error .shardEntryCountCap
      else .ok {
        ordinal
        entryCount := .ofNat (first :: rest).length
        firstEventId := first.eventId
        lastEventId := ((first :: rest).getLast (List.cons_ne_nil _ _)).eventId
        shardDigest := index.digest
        totalAuthorizedBytes := index.totalAuthorizedBytes
        encodedLength := .ofNat index.encodedLen }

/-- The descriptor of a shard asks only for a digest that is not zero. -/
theorem fromIndex_isCanonical {ordinal : UInt32} {index : AuthenticatedEventIndexV2}
    {descriptor : AuthenticatedEventIndexShardDescriptorV2}
    (h : fromIndex ordinal index = .ok descriptor) :
    descriptor.isCanonical = true ↔ allZero index.digest.asBytes = false := by
  unfold fromIndex at h
  split at h
  · cases h
  · rename_i first rest hentries
    rw [ite_error_eq_ok] at h
    obtain ⟨hcap, h⟩ := h
    rw [Nat.not_lt] at hcap
    unfold maxAuthenticatedEventIndexShardEntriesV2 at hcap
    cases h
    have hpos : 0 < (first :: rest).length := Nat.succ_pos _
    have hcount : (UInt32.ofNat (first :: rest).length).toNat = (first :: rest).length := by
      rw [UInt32.toNat_ofNat']
      omega
    have hlen : index.encodedLen = 128 + (first :: rest).length * 192 := by
      rw [AuthenticatedEventIndexV2.encodedLen, hentries]
      rfl
    have hencoded : (UInt32.ofNat index.encodedLen).toNat = index.encodedLen := by
      rw [UInt32.toNat_ofNat', hlen]
      omega
    have horder : (compare first.eventId
        ((first :: rest).getLast (List.cons_ne_nil _ _)).eventId).isLE = true := by
      have hsorted := index.sorted
      rw [hentries] at hsorted
      rcases List.mem_cons.mp (List.getLast_mem (List.cons_ne_nil first rest)) with heq | hmem
      · rw [heq, ReflOrd.compare_self]
        rfl
      · exact (List.pairwise_cons.mp hsorted).1 _ hmem
    have hnonzero : UInt32.ofNat (first :: rest).length ≠ 0 := by
      intro hzero
      rw [hzero] at hcount
      exact absurd hcount hpos.ne
    simp only [isCanonical, Bool.and_eq_true, decide_eq_true_eq, Bool.not_eq_true', hcount,
      hencoded, horder]
    unfold maxAuthenticatedEventIndexShardEntriesV2 maxFramePlaintextBytesV1
    constructor
    · rintro ⟨⟨_, hdigest⟩, _⟩
      exact hdigest
    · intro hdigest
      exact ⟨⟨⟨⟨hnonzero, hcap⟩, trivial⟩, hdigest⟩, by omega⟩

end AuthenticatedEventIndexShardDescriptorV2

namespace AuthenticatedEventIndexDirectoryV2

/-- The loop of `from_shards`. -/
def describe (ordinal : Nat) : List AuthenticatedEventIndexV2 →
    Except AuthenticatedEventIndexErrorV2 (List AuthenticatedEventIndexShardDescriptorV2)
  | [] => .ok []
  | shard :: rest => do
      let descriptor ← AuthenticatedEventIndexShardDescriptorV2.fromIndex (.ofNat ordinal) shard
      let descriptors ← describe (ordinal + 1) rest
      .ok (descriptor :: descriptors)

def fromShards (shards : List AuthenticatedEventIndexV2)
    (finalFrameCommitment : FrameCommitmentV1) :
    Except AuthenticatedEventIndexErrorV2 AuthenticatedEventIndexDirectoryV2 :=
  if shards.length > maxAuthenticatedEventIndexShardsV2 ∨
      (shards ≠ [] ∧ finalFrameCommitment = .zero) then .error .shardCountCap
  else do
    let descriptors ← describe 0 shards
    new descriptors finalFrameCommitment

theorem describe_isCanonical {shards : List AuthenticatedEventIndexV2} {ordinal : Nat}
    {descriptors : List AuthenticatedEventIndexShardDescriptorV2}
    (h : describe ordinal shards = .ok descriptors) :
    (∀ descriptor ∈ descriptors, descriptor.isCanonical = true) ↔
      ∀ shard ∈ shards, allZero shard.digest.asBytes = false := by
  induction shards generalizing ordinal descriptors with
  | nil =>
      cases h
      simp
  | cons shard rest ih =>
      obtain ⟨descriptor, hfirst, h⟩ := except_bind_eq_ok.mp h
      obtain ⟨others, hothers, h⟩ := except_bind_eq_ok.mp h
      cases h
      rw [List.forall_mem_cons, List.forall_mem_cons, ih hothers,
        AuthenticatedEventIndexShardDescriptorV2.fromIndex_isCanonical hfirst]

/-- A directory comes back unless the digest of a shard is zero. -/
theorem decode_encode_iff {shards : List AuthenticatedEventIndexV2}
    {finalFrameCommitment : FrameCommitmentV1} {directory : AuthenticatedEventIndexDirectoryV2}
    (h : fromShards shards finalFrameCommitment = .ok directory) :
    decode directory.encode = .ok directory ↔
      ∀ shard ∈ shards, allZero shard.digest.asBytes = false := by
  simp only [fromShards, ite_error_eq_ok, except_bind_eq_ok] at h
  obtain ⟨_, descriptors, hdescribe, hnew⟩ := h
  obtain ⟨_, rfl, rfl⟩ := new_eq_ok hnew
  rw [canonical _ _, ← describe_isCanonical hdescribe]
  constructor
  · rintro ⟨_, hreadable⟩
    exact hreadable.descriptors
  · exact fun hcanonical => ⟨rfl, hnew, hcanonical⟩

end AuthenticatedEventIndexDirectoryV2

end Shards

end Evidentrail.Snapshot
