import Evidentrail.Store.AliasEntry

/-!
# The displayed-alias manifest

A manifest is a header with a digest of its body, and the records of its
aliases. What a decoder accepts is a manifest of records that turn into the
entries (`decode_eq_ok`), and a record may list its relations in any order. A
manifest that was built is written with its relations in order and comes back
(`decode_encode`); an accepted byte string is written back as it was exactly if
its relations are in order (`encode_decode_iff`).
-/

namespace Evidentrail

open Rust Std Encoding Bytes

@[simp] theorem length_aliasMagic : (asciiBytes "EVRALS01").length = 8 := by decide

/-- The records a body holds, as far as they can be read. -/
def storedRecords : Nat → Nat → List UInt8 → List RawAlias
  | 0, _, _ => []
  | count + 1, index, body =>
      match RawAlias.parse body (index + 1) with
      | .ok (record, len) => record :: storedRecords count (index + 1) (body.drop len)
      | .error _ => []

/-- The relations that stand in the records of a byte string. -/
def storedRelations (encoded : List UInt8) : List (List ExpansionRelationV1) :=
  (storedRecords (readU32 encoded 64).toNat 0
    (encoded.drop displayedAliasManifestHeaderBytesV1)).map RawAlias.relations

section Manifest

variable [Sha256]

/-! ## The manifest -/

structure DisplayedAliasManifestV1 where
  resultId : ResultId
  expiresAt : UnixTimestampNanos
  entries : List DisplayedAliasManifestEntryV1
deriving DecidableEq

/-- The loop of `validate_manifest`. -/
def validateEntries (resultId : ResultId) (expiresAt : UnixTimestampNanos) (index : Nat)
    (referenceIds : List EvidenceReferenceId) (displayedEvents : ExtTreeSet EventId) :
    List DisplayedAliasManifestEntryV1 → Except DisplayedAliasManifestErrorV1 Unit
  | [] => .ok ()
  | entry :: rest =>
      if entry.ordinal.toNat ≠ index + 1 then .error .invalidOrdinal
      else if entry.reference.resultId ≠ resultId then .error .invalidResult
      else if entry.reference.id ∈ referenceIds then .error .duplicateReference
      else do
        let displayedEvents ← insertAllNew DisplayedAliasManifestErrorV1.overlappingAliasEvents
          displayedEvents entry.orderedEventIds
        if entry.reference.expiresAt ≠ expiresAt ∨
            entry.reference.issuedAt.get ≥ expiresAt.get then .error .invalidLifetime
        else do
          let _ ← DisplayedAliasManifestEntryV1.new resultId entry.ordinal entry.reference
            entry.issued entry.orderedEventIds
          validateEntries resultId expiresAt (index + 1) (entry.reference.id :: referenceIds)
            displayedEvents rest

def validateManifest (resultId : ResultId) (expiresAt : UnixTimestampNanos)
    (entries : List DisplayedAliasManifestEntryV1) : Except DisplayedAliasManifestErrorV1 Unit :=
  if entries.length > maxLogBriefEvidencePackets then .error .tooManyAliases
  else validateEntries resultId expiresAt 0 [] ∅ entries

/-- The fold of `encoded_len`. -/
def encodedLenFrom (total : Nat) :
    List DisplayedAliasManifestEntryV1 → Except DisplayedAliasManifestErrorV1 Nat
  | [] => .ok total
  | entry :: rest => do
      let entryLen ← entry.encodedLen
      let sum ← okOr .arithmeticOverflow (checkedAdd total entryLen)
      encodedLenFrom sum rest

/-- `update_digest_field`. -/
def digestField (bytes : List UInt8) : List UInt8 := u64Be (.ofNat bytes.length) ++ bytes

/-- `derive_digest`. -/
def deriveAliasDigest (resultId : ResultId) (expiresAt : UnixTimestampNanos)
    (body : List UInt8) : FixedBytes 32 :=
  lifecycleDigest (digestField (asciiBytes "evidentrail/displayed-alias-manifest/v1") ++
    (digestField (u16Be 1) ++ (digestField resultId.asBytes ++
    (digestField (i128Be expiresAt.get) ++ digestField body))))

def manifestHeader (resultId : ResultId) (expiresAt : UnixTimestampNanos) (count : Nat)
    (body : List UInt8) : List (List UInt8) :=
  [asciiBytes "EVRALS01", u16Be 1, u16Be 1, u16Be 1, zeros 2, resultId.asBytes,
    i128Be expiresAt.get, u32Be (.ofNat count), u32Be (.ofNat body.length),
    (deriveAliasDigest resultId expiresAt body).asBytes, zeros 8]

/-- A manifest with this body. -/
def manifestBytes (resultId : ResultId) (expiresAt : UnixTimestampNanos) (count : Nat)
    (body : List UInt8) : List UInt8 :=
  (manifestHeader resultId expiresAt count body).flatten ++ body

/-- The loop of `encode_manifest`. -/
def encodeEntries :
    List DisplayedAliasManifestEntryV1 → Except DisplayedAliasManifestErrorV1 (List UInt8)
  | [] => .ok []
  | entry :: rest => do
      let bytes ← entry.encode
      let others ← encodeEntries rest
      .ok (bytes ++ others)

/-- The loop of `decode_manifest`, with what is left of the body. -/
def decodeEntries (resultId : ResultId) : Nat → Nat → List UInt8 →
    Except DisplayedAliasManifestErrorV1 (List DisplayedAliasManifestEntryV1 × List UInt8)
  | 0, _, body => .ok ([], body)
  | count + 1, index, body => do
      let (entry, consumed) ← DisplayedAliasManifestEntryV1.decode resultId body (index + 1)
      let (entries, rest) ← decodeEntries resultId count (index + 1) (body.drop consumed)
      .ok (entry :: entries, rest)

namespace DisplayedAliasManifestV1

def encodedLen (manifest : DisplayedAliasManifestV1) : Except DisplayedAliasManifestErrorV1 Nat :=
  encodedLenFrom displayedAliasManifestHeaderBytesV1 manifest.entries

def new (resultId : ResultId) (expiresAt : UnixTimestampNanos)
    (entries : List DisplayedAliasManifestEntryV1) :
    Except DisplayedAliasManifestErrorV1 DisplayedAliasManifestV1 := do
  validateManifest resultId expiresAt entries
  let manifest : DisplayedAliasManifestV1 := ⟨resultId, expiresAt, entries⟩
  let encodedLen ← manifest.encodedLen
  if encodedLen > maxFramePlaintextBytesV1 then .error .sizeCap else .ok manifest

/-- `encode_manifest`. -/
def tryEncode (manifest : DisplayedAliasManifestV1) :
    Except DisplayedAliasManifestErrorV1 (List UInt8) := do
  validateManifest manifest.resultId manifest.expiresAt manifest.entries
  let totalLen ← manifest.encodedLen
  if totalLen > maxFramePlaintextBytesV1 then .error .sizeCap
  else do
    let bodyLen ← okOr .arithmeticOverflow
      (checkedSub totalLen displayedAliasManifestHeaderBytesV1)
    let body ← encodeEntries manifest.entries
    if manifest.entries.length ≥ 2 ^ 32 then .error .tooManyAliases
    else if bodyLen ≥ 2 ^ 32 then .error .sizeCap
    else .ok (manifestBytes manifest.resultId manifest.expiresAt manifest.entries.length body)

/-- `None` is the panic of `expect`. -/
def encode (manifest : DisplayedAliasManifestV1) : Option (List UInt8) :=
  manifest.tryEncode.toOption

def decode (encoded : List UInt8) :
    Except DisplayedAliasManifestErrorV1 DisplayedAliasManifestV1 :=
  if encoded.length < displayedAliasManifestHeaderBytesV1 ∨
      encoded.length > maxFramePlaintextBytesV1 then .error .wrongLength
  else if slice encoded 0 8 ≠ asciiBytes "EVRALS01" then .error .wrongLength
  else if readU16 encoded 8 ≠ 1 then .error .unsupportedVersion
  else if readU16 encoded 10 ≠ 1 then .error .unsupportedSchema
  else if readU16 encoded 12 ≠ 1 then .error .invalidRelation
  else if allZero (slice encoded 14 2) = false ∨ allZero (slice encoded 104 8) = false then
    .error .noncanonicalReserved
  else
    let resultId : ResultId := readId encoded 16
    let expiresAt := readTimestamp encoded 48
    let entryCount := (readU32 encoded 64).toNat
    if entryCount > maxLogBriefEvidencePackets then .error .tooManyAliases
    else
      let expectedLen := displayedAliasManifestHeaderBytesV1 + (readU32 encoded 68).toNat
      if expectedLen ≠ encoded.length then
        .error (if expectedLen < encoded.length then .trailingData else .wrongLength)
      else
        let body := encoded.drop displayedAliasManifestHeaderBytesV1
        if deriveAliasDigest resultId expiresAt body ≠ readArray encoded 72 then
          .error .digestMismatch
        else do
          let (entries, rest) ← decodeEntries resultId entryCount 0 body
          if rest ≠ [] then .error .trailingData else new resultId expiresAt entries

end DisplayedAliasManifestV1

/-! ## Records and the entries they turn into -/

/-- The record of an entry whose targets are events. -/
def DisplayedAliasManifestEntryV1.record (entry : DisplayedAliasManifestEntryV1) : RawAlias :=
  entry.raw (entry.reference.targets.filterMap fun target => (targetEvent target).toOption)

/-- These records, numbered from `index` on, turn into these entries. -/
def Rebuilt (resultId : ResultId) : Nat → List RawAlias → List DisplayedAliasManifestEntryV1 → Prop
  | _, [], [] => True
  | index, record :: records, entry :: entries =>
      record.Counted ∧ record.ordinal.toNat = index + 1 ∧
        DisplayedAliasManifestEntryV1.rebuild resultId record = .ok entry ∧
        Rebuilt resultId (index + 1) records entries
  | _, _, _ => False

theorem DisplayedAliasManifestEntryV1.IsEntryOf.record_eq {resultId : ResultId}
    {targets : List EventId} {entry : DisplayedAliasManifestEntryV1}
    (h : entry.IsEntryOf resultId targets) : entry.record = entry.raw targets := by
  have hevents : (targets.map EvidenceTargetRef.event).filterMap
      (fun target => (targetEvent target).toOption) = targets := by
    rw [List.filterMap_map]
    exact List.filterMap_some
  rw [record, h.targets, hevents]

/-- One accepted record. -/
theorem DisplayedAliasManifestEntryV1.decode_eq_ok {resultId : ResultId} {body : List UInt8}
    {expected consumed : Nat} {entry : DisplayedAliasManifestEntryV1} :
    decode resultId body expected = .ok (entry, consumed) ↔
      ∃ record : RawAlias, record.Counted ∧ record.ordinal.toNat = expected ∧
        rebuild resultId record = .ok entry ∧ consumed = record.encodedLen ∧
        body.take consumed = record.encode := by
  simp only [decode, except_bind_eq_ok, Except.ok.injEq, Prod.mk.injEq]
  constructor
  · rintro ⟨⟨record, len⟩, hparse, _, hrebuild, rfl, rfl⟩
    obtain ⟨hcounted, hordinal, hlen, hbytes⟩ := RawAlias.parse_eq_ok.mp hparse
    exact ⟨record, hcounted, hordinal, hrebuild, hlen, hbytes⟩
  · rintro ⟨record, hcounted, hordinal, hrebuild, hlen, hbytes⟩
    exact ⟨(record, consumed), RawAlias.parse_eq_ok.mpr ⟨hcounted, hordinal, hlen, hbytes⟩, entry,
      hrebuild, rfl, rfl⟩

theorem decodeEntries_eq_ok {resultId : ResultId} {count index : Nat} {body rest : List UInt8}
    {entries : List DisplayedAliasManifestEntryV1} :
    decodeEntries resultId count index body = .ok (entries, rest) ↔
      ∃ records : List RawAlias, records.length = count ∧ Rebuilt resultId index records entries ∧
        records.flatMap RawAlias.encode ++ rest = body := by
  induction count generalizing index body entries with
  | zero =>
      constructor
      · intro h
        cases h
        exact ⟨[], rfl, trivial, rfl⟩
      · rintro ⟨records, hcount, hrebuilt, rfl⟩
        obtain rfl := List.eq_nil_of_length_eq_zero hcount
        cases entries with
        | nil => rfl
        | cons entry entries => exact hrebuilt.elim
  | succ count ih =>
      constructor
      · intro h
        obtain ⟨⟨entry, consumed⟩, hentry, h⟩ := except_bind_eq_ok.mp h
        obtain ⟨⟨others, left⟩, hothers, h⟩ := except_bind_eq_ok.mp h
        cases h
        obtain ⟨record, hcounted, hordinal, hrebuild, rfl, hbytes⟩ :=
          DisplayedAliasManifestEntryV1.decode_eq_ok.mp hentry
        obtain ⟨records, hcount, hrebuilt, hrest⟩ := ih.mp hothers
        refine ⟨record :: records, by rw [List.length_cons, hcount],
          ⟨hcounted, hordinal, hrebuild, hrebuilt⟩, ?_⟩
        rw [List.flatMap_cons, List.append_assoc, hrest, ← hbytes, List.take_append_drop]
      · rintro ⟨records, hcount, hrebuilt, rfl⟩
        match records, entries, hrebuilt with
        | record :: records, entry :: entries, ⟨hcounted, hordinal, hrebuild, hrebuilt⟩ =>
            have htake : (record.encode ++ (records.flatMap RawAlias.encode ++ rest)).take
                record.encodedLen = record.encode := List.take_left' record.length_encode
            have hentry := DisplayedAliasManifestEntryV1.decode_eq_ok.mpr ⟨record, hcounted,
              hordinal, hrebuild, rfl, htake⟩
            rw [List.flatMap_cons, List.append_assoc, decodeEntries, hentry, except_bind_ok]
            simp only
            rw [List.drop_left' record.length_encode,
              ih.mpr ⟨records, Nat.succ.inj hcount, hrebuilt, rfl⟩]
            rfl

/-! ## Lengths -/

theorem Rebuilt.length_eq {resultId : ResultId} {index : Nat} {records : List RawAlias}
    {entries : List DisplayedAliasManifestEntryV1} (h : Rebuilt resultId index records entries) :
    records.length = entries.length := by
  induction records generalizing index entries with
  | nil =>
      cases entries with
      | nil => rfl
      | cons entry entries => exact h.elim
  | cons record records ih =>
      cases entries with
      | nil => exact h.elim
      | cons entry entries => exact congrArg Nat.succ (ih h.2.2.2)

/-- Putting the relations in order leaves the length of a record. -/
theorem record_of_rebuild {resultId : ResultId} {record : RawAlias}
    {entry : DisplayedAliasManifestEntryV1}
    (h : DisplayedAliasManifestEntryV1.rebuild resultId record = .ok entry) :
    entry.record = { record with relations := (ExtTreeSet.ofList record.relations).toList } ∧
      entry.record.encodedLen = record.encodedLen := by
  obtain ⟨hentry, hraw, hsize⟩ := DisplayedAliasManifestEntryV1.rebuild_eq_ok h
  rw [hentry.record_eq, hraw]
  refine ⟨rfl, ?_⟩
  rw [RawAlias.encodedLen, RawAlias.encodedLen, ExtTreeSet.length_toList, hsize]

theorem Rebuilt.length_flatMap {resultId : ResultId} {index : Nat} {records : List RawAlias}
    {entries : List DisplayedAliasManifestEntryV1} (h : Rebuilt resultId index records entries) :
    ((entries.map DisplayedAliasManifestEntryV1.record).flatMap RawAlias.encode).length =
      (records.flatMap RawAlias.encode).length := by
  induction records generalizing index entries with
  | nil =>
      cases entries with
      | nil => rfl
      | cons entry entries => exact h.elim
  | cons record records ih =>
      cases entries with
      | nil => exact h.elim
      | cons entry entries =>
          rw [List.map_cons, List.flatMap_cons, List.flatMap_cons, List.length_append,
            List.length_append, ih h.2.2.2, RawAlias.length_encode, RawAlias.length_encode,
            (record_of_rebuild h.2.2.1).2]

/-- Every entry of a manifest that was found in order. -/
theorem validateEntries_ok {resultId : ResultId} {expiresAt : UnixTimestampNanos} {index : Nat}
    {referenceIds : List EvidenceReferenceId} {displayedEvents : ExtTreeSet EventId}
    {entries : List DisplayedAliasManifestEntryV1}
    (h : validateEntries resultId expiresAt index referenceIds displayedEvents entries = .ok ()) :
    (∀ entry ∈ entries, ∃ targets, entry.IsEntryOf resultId targets) ∧
      Rebuilt resultId index (entries.map DisplayedAliasManifestEntryV1.record) entries := by
  induction entries generalizing index referenceIds displayedEvents with
  | nil => exact ⟨fun entry hentry => (List.not_mem_nil hentry).elim, trivial⟩
  | cons entry rest ih =>
      simp only [validateEntries, ite_error_eq_ok, except_bind_eq_ok, ne_eq, not_not] at h
      obtain ⟨hordinal, _, _, _, _, _, built, hbuilt, hrest⟩ := h
      obtain ⟨hall, hrebuilt⟩ := ih hrest
      have hsame : built = entry := (DisplayedAliasManifestEntryV1.new_eq_ok hbuilt).1
      obtain ⟨targets, hentry⟩ := DisplayedAliasManifestEntryV1.isEntryOf_of_new hbuilt
      rw [hsame] at hentry
      refine ⟨List.forall_mem_cons.mpr ⟨⟨targets, hentry⟩, hall⟩, ?_⟩
      rw [List.map_cons, hentry.record_eq]
      exact ⟨hentry.counted, hordinal, hentry.rebuild_raw, hrebuilt⟩

theorem encodedLenFrom_ok {resultId : ResultId} {total len : Nat}
    {entries : List DisplayedAliasManifestEntryV1} (h : encodedLenFrom total entries = .ok len)
    (hall : ∀ entry ∈ entries, ∃ targets, entry.IsEntryOf resultId targets) :
    len = total +
      ((entries.map DisplayedAliasManifestEntryV1.record).flatMap RawAlias.encode).length := by
  induction entries generalizing total with
  | nil =>
      cases h
      rfl
  | cons entry rest ih =>
      obtain ⟨⟨targets, hentry⟩, hall⟩ := List.forall_mem_cons.mp hall
      simp only [encodedLenFrom, except_bind_eq_ok, okOr_eq_ok, hentry.encodedLen_eq_ok,
        Except.ok.injEq] at h
      obtain ⟨_, rfl, sum, hsum, h⟩ := h
      obtain ⟨_, rfl⟩ := checkedAdd_eq_some.mp hsum
      rw [ih h hall, List.map_cons, List.flatMap_cons, List.length_append, hentry.record_eq,
        RawAlias.length_encode, Nat.add_assoc]

theorem encodeEntries_ok {resultId : ResultId} {entries : List DisplayedAliasManifestEntryV1}
    (hall : ∀ entry ∈ entries, ∃ targets, entry.IsEntryOf resultId targets) :
    encodeEntries entries =
      .ok ((entries.map DisplayedAliasManifestEntryV1.record).flatMap RawAlias.encode) := by
  induction entries with
  | nil => rfl
  | cons entry rest ih =>
      obtain ⟨⟨targets, hentry⟩, hall⟩ := List.forall_mem_cons.mp hall
      rw [encodeEntries, hentry.encode_eq_ok, except_bind_ok, ih hall, except_bind_ok,
        List.map_cons, List.flatMap_cons, hentry.record_eq]

/-! ## Both directions -/

namespace DisplayedAliasManifestV1

/-- What a built manifest is written as. -/
def body (manifest : DisplayedAliasManifestV1) : List UInt8 :=
  (manifest.entries.map DisplayedAliasManifestEntryV1.record).flatMap RawAlias.encode

/-- What `new` found in order. -/
structure Built (manifest : DisplayedAliasManifestV1) : Prop where
  valid : validateManifest manifest.resultId manifest.expiresAt manifest.entries = .ok ()
  sized : manifest.encodedLen = .ok (112 + manifest.body.length)
  fits : 112 + manifest.body.length ≤ maxFramePlaintextBytesV1
  count_le : manifest.entries.length ≤ maxLogBriefEvidencePackets
  entries : ∀ entry ∈ manifest.entries, ∃ targets, entry.IsEntryOf manifest.resultId targets
  rebuilt : Rebuilt manifest.resultId 0
    (manifest.entries.map DisplayedAliasManifestEntryV1.record) manifest.entries

theorem new_eq_ok {resultId : ResultId} {expiresAt : UnixTimestampNanos}
    {entries : List DisplayedAliasManifestEntryV1} {manifest : DisplayedAliasManifestV1} :
    new resultId expiresAt entries = .ok manifest ↔
      manifest = ⟨resultId, expiresAt, entries⟩ ∧ manifest.Built := by
  constructor
  · intro h
    simp only [new, except_bind_eq_ok, ite_error_eq_ok, gt_iff_lt, Nat.not_lt,
      Except.ok.injEq] at h
    obtain ⟨_, hvalid, len, hlen, hfits, rfl⟩ := h
    have hloop := hvalid
    rw [validateManifest, ite_error_eq_ok, gt_iff_lt, Nat.not_lt] at hloop
    obtain ⟨hentries, hrebuilt⟩ := validateEntries_ok hloop.2
    obtain rfl := encodedLenFrom_ok hlen hentries
    exact ⟨rfl, hvalid, hlen, hfits, hloop.1, hentries, hrebuilt⟩
  · rintro ⟨rfl, h⟩
    have hsized := h.sized
    simp only [new, except_bind_eq_ok, ite_error_eq_ok, gt_iff_lt, Nat.not_lt]
    exact ⟨(), h.valid, _, hsized, h.fits, trivial⟩

/-- No `expect` fails. -/
theorem Built.encode_eq {manifest : DisplayedAliasManifestV1} (h : manifest.Built) :
    manifest.encode = some (manifestBytes manifest.resultId manifest.expiresAt
      manifest.entries.length manifest.body) := by
  have hfits := h.fits
  have hcount := h.count_le
  unfold maxFramePlaintextBytesV1 at hfits
  unfold maxLogBriefEvidencePackets at hcount
  have hok : manifest.tryEncode = .ok (manifestBytes manifest.resultId manifest.expiresAt
      manifest.entries.length manifest.body) := by
    simp only [tryEncode, except_bind_eq_ok, ite_error_eq_ok, okOr_eq_ok, gt_iff_lt, Nat.not_lt,
      ge_iff_le, Nat.not_le, Except.ok.injEq]
    refine ⟨(), h.valid, _, h.sized, h.fits, manifest.body.length, ?_, _,
      encodeEntries_ok h.entries, by omega, by omega, rfl⟩
    rw [checkedSub, displayedAliasManifestHeaderBytesV1, if_pos (Nat.le_add_right _ _),
      Nat.add_sub_cancel_left]
  rw [encode, hok]
  rfl

end DisplayedAliasManifestV1

theorem length_manifestHeader (resultId : ResultId) (expiresAt : UnixTimestampNanos) (count : Nat)
    (body : List UInt8) : (manifestHeader resultId expiresAt count body).flatten.length = 112 := by
  simp [manifestHeader]

theorem laid_manifestHeader {bytes : List UInt8} (hlength : 112 ≤ bytes.length)
    {resultId : ResultId} {expiresAt : UnixTimestampNanos} {count : Nat} {body : List UInt8} :
    Laid bytes 0 (manifestHeader resultId expiresAt count body) ↔
      slice bytes 0 8 = asciiBytes "EVRALS01" ∧ readU16 bytes 8 = 1 ∧ readU16 bytes 10 = 1 ∧
      readU16 bytes 12 = 1 ∧ allZero (slice bytes 14 2) = true ∧ readId bytes 16 = resultId ∧
      readTimestamp bytes 48 = expiresAt ∧ readU32 bytes 64 = .ofNat count ∧
      readU32 bytes 68 = .ofNat body.length ∧
      readArray bytes 72 = deriveAliasDigest resultId expiresAt body ∧
      allZero (slice bytes 104 8) = true := by
  simp only [manifestHeader, Laid, length_aliasMagic, length_u16Be, length_u32Be,
    HashId.length_asBytes, length_i128Be, FixedBytes.length_asBytes, length_zeros, Nat.reduceAdd]
  rw [slice_eq_u16Be (by omega), slice_eq_u16Be (by omega), slice_eq_u16Be (by omega),
    slice_eq_zeros (by omega), slice_eq_idBytes (by omega), slice_eq_i128Be (by omega),
    slice_eq_u32Be (by omega), slice_eq_u32Be (by omega), slice_eq_asBytes (by omega),
    slice_eq_zeros (by omega), and_true]

namespace DisplayedAliasManifestV1

/-- What is accepted is a manifest of records that turn into the entries. -/
theorem decode_eq_ok {bytes : List UInt8} {manifest : DisplayedAliasManifestV1} :
    decode bytes = .ok manifest ↔ manifest.Built ∧ ∃ records,
      Rebuilt manifest.resultId 0 records manifest.entries ∧
      manifestBytes manifest.resultId manifest.expiresAt records.length
        (records.flatMap RawAlias.encode) = bytes := by
  constructor
  · intro h
    simp only [decode, ite_error_eq_ok, except_bind_eq_ok, not_or, not_not, gt_iff_lt, Nat.not_lt,
      Bool.not_eq_false, ne_eq] at h
    obtain ⟨⟨hlong, hshort⟩, hmagic, hversion, hschema, hrelation, ⟨hzero, hzeros⟩, hcap, hlength,
      hdigest, ⟨entries, rest⟩, hentries, rfl, hnew⟩ := h
    obtain ⟨records, hcount, hrebuilt, hbody⟩ := decodeEntries_eq_ok.mp hentries
    obtain ⟨rfl, hbuilt⟩ := new_eq_ok.mp hnew
    rw [List.append_nil] at hbody
    refine ⟨hbuilt, records, hrebuilt, ?_⟩
    unfold displayedAliasManifestHeaderBytesV1 at hlong hlength hdigest hbody
    rw [manifestBytes, eq_flatten_append_iff (length_manifestHeader _ _ _ _),
      laid_manifestHeader hlong]
    refine ⟨⟨hmagic, hversion, hschema, hrelation, hzero, rfl, rfl, ?_, ?_, ?_, hzeros⟩, hbody.symm⟩
    · rw [hcount, UInt32.ofNat_toNat]
    · rw [hbody, List.length_drop, ← hlength, Nat.add_sub_cancel_left, UInt32.ofNat_toNat]
    · rw [hbody, hdigest]
  · rintro ⟨hbuilt, records, hrebuilt, hbytes⟩
    have hfits := hbuilt.fits
    have hcount := hbuilt.count_le
    have hbody := hrebuilt.length_flatMap
    rw [← body] at hbody
    have hrecords := hrebuilt.length_eq
    unfold maxFramePlaintextBytesV1 at hfits
    unfold maxLogBriefEvidencePackets at hcount
    have hlength : bytes.length = 112 + (records.flatMap RawAlias.encode).length := by
      rw [← hbytes, manifestBytes, List.length_append, length_manifestHeader]
    rw [manifestBytes, eq_flatten_append_iff (length_manifestHeader _ _ _ _),
      laid_manifestHeader (by omega)] at hbytes
    obtain ⟨⟨hmagic, hversion, hschema, hrelation, hzero, hresult, hexpires, hnumber, hbodyLen,
      hdigest, hzeros⟩, hrest⟩ := hbytes
    have hentryCount : (readU32 bytes 64).toNat = records.length := by
      rw [hnumber, UInt32.toNat_ofNat']
      omega
    have hdeclared : (readU32 bytes 68).toNat = (records.flatMap RawAlias.encode).length := by
      rw [hbodyLen, UInt32.toNat_ofNat']
      omega
    have hentries := decodeEntries_eq_ok.mpr
      ⟨records, rfl, hrebuilt, List.append_nil (records.flatMap RawAlias.encode)⟩
    have hnew : new manifest.resultId manifest.expiresAt manifest.entries = .ok manifest :=
      new_eq_ok.mpr ⟨rfl, hbuilt⟩
    simp only [decode, ite_error_eq_ok, except_bind_eq_ok, not_or, not_not, gt_iff_lt, Nat.not_lt,
      Bool.not_eq_false, ne_eq]
    unfold displayedAliasManifestHeaderBytesV1 maxFramePlaintextBytesV1 maxLogBriefEvidencePackets
    rw [hentryCount, hdeclared, hresult, hexpires, hdigest, hrest]
    exact ⟨⟨by omega, by omega⟩, hmagic, hversion, hschema, hrelation, ⟨hzero, hzeros⟩, by omega,
      hlength.symm, rfl, _, hentries, rfl, hnew⟩

/-- A manifest that was built is written and comes back. -/
theorem decode_encode {resultId : ResultId} {expiresAt : UnixTimestampNanos}
    {entries : List DisplayedAliasManifestEntryV1} {manifest : DisplayedAliasManifestV1}
    (h : new resultId expiresAt entries = .ok manifest) :
    ∃ bytes, manifest.encode = some bytes ∧ decode bytes = .ok manifest := by
  obtain ⟨_, hbuilt⟩ := new_eq_ok.mp h
  refine ⟨_, hbuilt.encode_eq, decode_eq_ok.mpr ⟨hbuilt, _, hbuilt.rebuilt, ?_⟩⟩
  rw [List.length_map]
  rfl

end DisplayedAliasManifestV1

/-! ## The order of the relations -/

namespace Rebuilt

variable {resultId : ResultId} {index : Nat} {records : List RawAlias}
  {entries : List DisplayedAliasManifestEntryV1}

theorem storedRecords_eq (h : Rebuilt resultId index records entries) :
    storedRecords records.length index (records.flatMap RawAlias.encode) = records := by
  induction records generalizing index entries with
  | nil => rfl
  | cons record records ih =>
      cases entries with
      | nil => exact h.elim
      | cons entry entries =>
          obtain ⟨hcounted, hordinal, _, hrest⟩ := h
          have hparse : RawAlias.parse (record.encode ++ records.flatMap RawAlias.encode)
              (index + 1) = .ok (record, record.encodedLen) :=
            RawAlias.parse_eq_ok.mpr ⟨hcounted, hordinal, rfl, List.take_left' record.length_encode⟩
          rw [List.length_cons, List.flatMap_cons, storedRecords, hparse]
          simp only
          rw [List.drop_left' record.length_encode, ih hrest]

/-- Records are told apart by their bytes. -/
theorem eq_of_flatMap {others : List RawAlias} (h : Rebuilt resultId index records entries)
    (hothers : Rebuilt resultId index others entries)
    (hbytes : records.flatMap RawAlias.encode = others.flatMap RawAlias.encode) :
    records = others := by
  have hlength : records.length = others.length := h.length_eq.trans hothers.length_eq.symm
  rw [← h.storedRecords_eq, hbytes, hlength, hothers.storedRecords_eq]

theorem record_eq_iff (h : Rebuilt resultId index records entries) :
    entries.map DisplayedAliasManifestEntryV1.record = records ↔
      ∀ record ∈ records, record.relations.Pairwise fun a b => compare a b = .lt := by
  induction records generalizing index entries with
  | nil =>
      cases entries with
      | nil => simp
      | cons entry entries => exact h.elim
  | cons record records ih =>
      cases entries with
      | nil => exact h.elim
      | cons entry entries =>
          obtain ⟨_, _, hrebuild, hrest⟩ := h
          obtain ⟨hrecord, _⟩ := record_of_rebuild hrebuild
          have hsize := (DisplayedAliasManifestEntryV1.rebuild_eq_ok hrebuild).2.2
          have hsame : entry.record = record ↔
              (ExtTreeSet.ofList record.relations).toList = record.relations := by
            constructor
            · intro heq
              rw [hrecord] at heq
              exact congrArg RawAlias.relations heq
            · intro heq
              rw [hrecord, heq]
          rw [List.map_cons, List.cons.injEq, List.forall_mem_cons, ih hrest, hsame,
            Slice.toList_ofList_eq_iff hsize]

end Rebuilt

/-- What was accepted is written back as it was exactly if the relations of
every record are in order. -/
theorem DisplayedAliasManifestV1.encode_decode_iff {bytes : List UInt8}
    {manifest : DisplayedAliasManifestV1} (h : decode bytes = .ok manifest) :
    manifest.encode = some bytes ↔ ∀ relations ∈ storedRelations bytes,
      relations.Pairwise fun a b => compare a b = .lt := by
  obtain ⟨hbuilt, records, hrebuilt, hbytes⟩ := decode_eq_ok.mp h
  have hcount := hbuilt.count_le
  unfold maxLogBriefEvidencePackets at hcount
  have hrecords := hrebuilt.length_eq
  have hsame : manifest.encode = some bytes ↔
      manifest.entries.map DisplayedAliasManifestEntryV1.record = records := by
    rw [hbuilt.encode_eq, Option.some.injEq, ← hbytes, ← hrecords]
    constructor
    · intro heq
      have hbody := congrArg (List.drop 112) heq
      rw [manifestBytes, manifestBytes, List.drop_left' (length_manifestHeader _ _ _ _),
        List.drop_left' (length_manifestHeader _ _ _ _)] at hbody
      exact hbuilt.rebuilt.eq_of_flatMap hrebuilt hbody
    · intro heq
      rw [body, heq]
  have hlength : bytes.length = 112 + (records.flatMap RawAlias.encode).length := by
    rw [← hbytes, manifestBytes, List.length_append, length_manifestHeader]
  rw [manifestBytes, eq_flatten_append_iff (length_manifestHeader _ _ _ _),
    laid_manifestHeader (by omega)] at hbytes
  obtain ⟨⟨_, _, _, _, _, _, _, hnumber, _⟩, hrest⟩ := hbytes
  have hentryCount : (readU32 bytes 64).toNat = records.length := by
    rw [hnumber, UInt32.toNat_ofNat']
    omega
  rw [hsame, hrebuilt.record_eq_iff, storedRelations, hentryCount,
    displayedAliasManifestHeaderBytesV1, hrest, hrebuilt.storedRecords_eq]
  exact List.forall_mem_map.symm

end Manifest

end Evidentrail
