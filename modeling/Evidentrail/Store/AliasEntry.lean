import Evidentrail.Core.Reference
import Evidentrail.Snapshot.Frame

/-!
# Entries of the displayed-alias manifest

One alias is a record of variable width: a reference with its relations and
targets, and the events in the order they are shown. Reading a record gives back
what stands in it (`RawAlias`); only then is the reference built again, and
building it sorts the relations. So a record says more than the entry it turns
into: the order of its relations (`rebuild_eq_ok`).
-/

namespace Evidentrail

open Rust Std Encoding Bytes

inductive DisplayedAliasManifestErrorV1 where
  | tooManyAliases
  | invalidOrdinal
  | invalidResult
  | invalidLifetime
  | invalidRelation
  | invalidTarget
  | invalidEventOrder
  | duplicateEvent
  | duplicateReference
  | overlappingAliasEvents
  | sizeCap
  | arithmeticOverflow
  | wrongLength
  | unsupportedVersion
  | unsupportedSchema
  | noncanonicalReserved
  | digestMismatch
  | referenceMismatch
  | trailingData
deriving DecidableEq

def displayedAliasManifestHeaderBytesV1 : Nat := 112
def displayedAliasManifestEntryHeaderBytesV1 : Nat := 80

/-! ## Timestamps and relations -/

def readTimestamp (bytes : List UInt8) (offset : Nat) : UnixTimestampNanos :=
  if h : (slice bytes offset 16).length = 16 then
    ⟨i128OfBe (slice bytes offset 16), (isI128_i128OfBe h).1, (isI128_i128OfBe h).2⟩
  else .epoch

theorem slice_eq_i128Be {bytes : List UInt8} {offset : Nat} {t : UnixTimestampNanos}
    (h : offset + 16 ≤ bytes.length) :
    slice bytes offset 16 = i128Be t.get ↔ readTimestamp bytes offset = t := by
  have hlength : (slice bytes offset 16).length = 16 := length_slice h
  rw [readTimestamp, dif_pos hlength]
  constructor
  · intro hslice
    obtain ⟨value, hlow, hhigh⟩ := t
    congr 1
    rw [hslice, i128OfBe_i128Be ⟨hlow, hhigh⟩]
  · rintro rfl
    exact (i128Be_i128OfBe hlength).symm

def relationCode : ExpansionRelationV1 → UInt16
  | .exact => 1
  | .sameLaneBeforeAfter => 2
  | .globalBeforeAfter => 3
  | .patternMembers => 4
  | .sameAttestedTrace => 5
  | .aroundOnset => 6

def relationFromCode : UInt16 → Except DisplayedAliasManifestErrorV1 ExpansionRelationV1
  | 1 => .ok .exact
  | 2 => .ok .sameLaneBeforeAfter
  | 3 => .ok .globalBeforeAfter
  | 4 => .ok .patternMembers
  | 5 => .ok .sameAttestedTrace
  | 6 => .ok .aroundOnset
  | _ => .error .invalidRelation

theorem relationFromCode_eq_ok {code : UInt16} {relation : ExpansionRelationV1} :
    relationFromCode code = .ok relation ↔ code = relationCode relation := by
  constructor
  · intro h
    unfold relationFromCode at h
    split at h <;> cases h <;> rfl
  · rintro rfl
    cases relation <;> rfl

def relationBytes (relation : ExpansionRelationV1) : List UInt8 := u16Be (relationCode relation)

def readRelation (bytes : List UInt8) :
    Except DisplayedAliasManifestErrorV1 ExpansionRelationV1 :=
  relationFromCode (readU16 bytes 0)

theorem relation_canonical : CanonicalOn 2 relationBytes readRelation fun _ => True := by
  intro bytes relation hlength
  rw [readRelation, relationFromCode_eq_ok, ← slice_eq_u16Be (by omega), slice_self hlength,
    and_true, relationBytes, eq_comm]

theorem eventId_read (bytes : List UInt8) (id : EventId) (hlength : bytes.length = 32) :
    readId bytes 0 = id ↔ id.asBytes = bytes := by
  rw [← slice_eq_idBytes (by omega), slice_self hlength, eq_comm]

/-! ## Records -/

/-- What stands in the record of one alias. -/
structure RawAlias where
  ordinal : UInt16
  declaredId : EvidenceReferenceId
  issuedAt : UnixTimestampNanos
  expiresAt : UnixTimestampNanos
  relations : List ExpansionRelationV1
  targets : List EventId
  ordered : List EventId
deriving DecidableEq

namespace RawAlias

def encodedLen (raw : RawAlias) : Nat :=
  displayedAliasManifestEntryHeaderBytesV1 + raw.relations.length * 2 + raw.targets.length * 32 +
    raw.ordered.length * 32

def header (raw : RawAlias) : List (List UInt8) :=
  [u32Be (.ofNat raw.encodedLen), u16Be raw.ordinal, u16Be 1, raw.declaredId.asBytes,
    i128Be raw.issuedAt.get, i128Be raw.expiresAt.get, u16Be (.ofNat raw.targets.length),
    u16Be (.ofNat raw.relations.length), u16Be (.ofNat raw.ordered.length), zeros 2]

def encode (raw : RawAlias) : List UInt8 :=
  raw.header.flatten ++ (raw.relations.flatMap relationBytes ++
    (raw.targets.flatMap HashId.asBytes ++ raw.ordered.flatMap HashId.asBytes))

/-- The counts a reader takes. -/
structure Counted (raw : RawAlias) : Prop where
  targets_pos : 0 < raw.targets.length
  targets_le : raw.targets.length ≤ maxEvidenceReferenceTargets
  ordered : raw.ordered.length = raw.targets.length
  relations_pos : 0 < raw.relations.length
  relations_le : raw.relations.length ≤ 6

/-- The reading half of `decode_entry`, with the length of the record. -/
def parse (encoded : List UInt8) (expectedOrdinal : Nat) :
    Except DisplayedAliasManifestErrorV1 (RawAlias × Nat) :=
  if encoded.length < displayedAliasManifestEntryHeaderBytesV1 then .error .wrongLength
  else
    let entryLen := (readU32 encoded 0).toNat
    if entryLen < displayedAliasManifestEntryHeaderBytesV1 ∨ entryLen > encoded.length then
      .error .wrongLength
    else
      let encoded := encoded.take entryLen
      let ordinal := readU16 encoded 4
      if ordinal.toNat ≠ expectedOrdinal then .error .invalidOrdinal
      else if readU16 encoded 6 ≠ 1 then .error .invalidRelation
      else if allZero (slice encoded 78 2) = false then .error .noncanonicalReserved
      else
        let targetCount := (readU16 encoded 72).toNat
        let relationCount := (readU16 encoded 74).toNat
        let orderedCount := (readU16 encoded 76).toNat
        if targetCount = 0 ∨ targetCount > maxEvidenceReferenceTargets ∨
            orderedCount ≠ targetCount ∨ relationCount = 0 ∨ relationCount > 6 then
          .error .invalidTarget
        else if displayedAliasManifestEntryHeaderBytesV1 + relationCount * 2 + targetCount * 32 +
            orderedCount * 32 ≠ entryLen then .error .wrongLength
        else do
          let body := encoded.drop displayedAliasManifestEntryHeaderBytesV1
          let relations ← (chunks 2 relationCount (body.take (relationCount * 2))).mapM readRelation
          let ids := body.drop (relationCount * 2)
          .ok ({
            ordinal
            declaredId := readId encoded 8
            issuedAt := readTimestamp encoded 40
            expiresAt := readTimestamp encoded 56
            relations
            targets := (chunks 32 targetCount (ids.take (targetCount * 32))).map (readId · 0)
            ordered := (chunks 32 orderedCount (ids.drop (targetCount * 32))).map (readId · 0) },
            entryLen)

theorem length_header (raw : RawAlias) : raw.header.flatten.length = 80 := by
  simp [header]

theorem length_encode (raw : RawAlias) : raw.encode.length = raw.encodedLen := by
  have hrelations : (raw.relations.flatMap relationBytes).length = raw.relations.length * 2 :=
    length_flatMap_encode (fun _ => length_u16Be _) _
  have htargets : (raw.targets.flatMap HashId.asBytes).length = raw.targets.length * 32 :=
    length_flatMap_encode HashId.length_asBytes _
  have hordered : (raw.ordered.flatMap HashId.asBytes).length = raw.ordered.length * 32 :=
    length_flatMap_encode HashId.length_asBytes _
  rw [encode, List.length_append, List.length_append, List.length_append, length_header,
    hrelations, htargets, hordered, encodedLen, displayedAliasManifestEntryHeaderBytesV1]
  omega

theorem laid_header {bytes : List UInt8} (hlength : 80 ≤ bytes.length) {raw : RawAlias} :
    Laid bytes 0 raw.header ↔
      readU32 bytes 0 = .ofNat raw.encodedLen ∧ readU16 bytes 4 = raw.ordinal ∧
      readU16 bytes 6 = 1 ∧ readId bytes 8 = raw.declaredId ∧
      readTimestamp bytes 40 = raw.issuedAt ∧ readTimestamp bytes 56 = raw.expiresAt ∧
      readU16 bytes 72 = .ofNat raw.targets.length ∧
      readU16 bytes 74 = .ofNat raw.relations.length ∧
      readU16 bytes 76 = .ofNat raw.ordered.length ∧ allZero (slice bytes 78 2) = true := by
  simp only [header, Laid, length_u16Be, length_u32Be, HashId.length_asBytes, length_i128Be,
    length_zeros, Nat.reduceAdd]
  rw [slice_eq_u32Be (by omega), slice_eq_u16Be (by omega), slice_eq_u16Be (by omega),
    slice_eq_idBytes (by omega), slice_eq_i128Be (by omega), slice_eq_i128Be (by omega),
    slice_eq_u16Be (by omega), slice_eq_u16Be (by omega), slice_eq_u16Be (by omega),
    slice_eq_zeros (by omega), and_true]

/-- The lists behind the header. -/
theorem body_eq_iff {body : List UInt8} {relations targets ordered : Nat}
    (hlength : body.length = relations * 2 + targets * 32 + ordered * 32) (raw : RawAlias) :
    ((chunks 2 relations (body.take (relations * 2))).mapM readRelation = .ok raw.relations ∧
      (chunks 32 targets ((body.drop (relations * 2)).take (targets * 32))).map (readId · 0) =
        raw.targets ∧
      (chunks 32 ordered ((body.drop (relations * 2)).drop (targets * 32))).map (readId · 0) =
        raw.ordered) ↔
    (body = raw.relations.flatMap relationBytes ++
      (raw.targets.flatMap HashId.asBytes ++ raw.ordered.flatMap HashId.asBytes) ∧
      raw.relations.length = relations ∧ raw.targets.length = targets ∧
      raw.ordered.length = ordered) := by
  have hwidth : ∀ relation, (relationBytes relation).length = 2 := fun _ => length_u16Be _
  have hids : ∀ id : EventId, id.asBytes.length = 32 := HashId.length_asBytes
  rw [mapM_chunks relation_canonical hwidth (by rw [List.length_take]; omega),
    map_chunks eventId_read hids (by rw [List.length_take, List.length_drop]; omega),
    map_chunks eventId_read hids (by rw [List.length_drop, List.length_drop]; omega)]
  constructor
  · rintro ⟨⟨hfirst, hrelations, _⟩, ⟨hsecond, htargets⟩, hthird, hordered⟩
    refine ⟨?_, hrelations, htargets, hordered⟩
    rw [hfirst, hsecond, hthird, List.take_append_drop, List.take_append_drop]
  · rintro ⟨rfl, hrelations, htargets, hordered⟩
    have hfirst := length_flatMap_encode hwidth raw.relations
    have hsecond := length_flatMap_encode hids raw.targets
    rw [hrelations] at hfirst
    rw [htargets] at hsecond
    rw [List.take_left' hfirst, List.drop_left' hfirst, List.take_left' hsecond,
      List.drop_left' hsecond]
    exact ⟨⟨rfl, hrelations, fun _ _ => trivial⟩, ⟨rfl, htargets⟩, rfl, hordered⟩

/-- A record is read as what it was written from. -/
theorem parse_eq_ok {encoded : List UInt8} {expected len : Nat} {raw : RawAlias} :
    parse encoded expected = .ok (raw, len) ↔
      raw.Counted ∧ raw.ordinal.toNat = expected ∧ len = raw.encodedLen ∧
        encoded.take len = raw.encode := by
  constructor
  · intro h
    simp only [parse, ite_error_eq_ok, except_bind_eq_ok, not_or, not_not, Nat.not_lt, gt_iff_lt,
      Bool.not_eq_false, Except.ok.injEq, Prod.mk.injEq] at h
    obtain ⟨_, ⟨hentry, hfits⟩, hordinal, hone, hzero, ⟨htargets, htargetsLe, hordered, hrelations,
      hrelationsLe⟩, hlen, relations, hmap, rfl, rfl⟩ := h
    unfold displayedAliasManifestEntryHeaderBytesV1 at hentry hlen
    generalize hrecord : encoded.take (readU32 encoded 0).toNat = record at *
    have hlength : record.length = (readU32 encoded 0).toNat := by
      rw [← hrecord, List.length_take]
      omega
    have hbody : (record.drop 80).length = (readU16 record 74).toNat * 2 +
        (readU16 record 72).toNat * 32 + (readU16 record 76).toNat * 32 := by
      rw [List.length_drop]
      omega
    generalize hraw : RawAlias.mk _ _ _ _ _ _ _ = raw
    obtain ⟨hrest, hcount, htcount, hocount⟩ := (body_eq_iff hbody raw).mp
      ⟨by rw [← hraw]; exact hmap, by rw [← hraw]; rfl, by rw [← hraw]; rfl⟩
    have hencodedLen : (readU32 encoded 0).toNat = raw.encodedLen := by
      rw [encodedLen, hcount, htcount, hocount, ← hlen]
      rfl
    have hwhole : readU32 record 0 = readU32 encoded 0 := by
      rw [← hrecord, readU32, slice_take (by omega)]
      rfl
    refine ⟨⟨?_, ?_, ?_, ?_, ?_⟩, ?_, hencodedLen, ?_⟩
    · omega
    · omega
    · omega
    · omega
    · omega
    · rw [← hraw]
      exact hordinal
    · rw [eq_comm, encode, eq_flatten_append_iff (length_header raw), laid_header (by omega)]
      refine ⟨⟨?_, ?_, hone, ?_, ?_, ?_, ?_, ?_, ?_, hzero⟩, hrest⟩
      · rw [hwhole, ← hencodedLen, UInt32.ofNat_toNat]
      · rw [← hraw]
      · rw [← hraw]
      · rw [← hraw]
      · rw [← hraw]
      · rw [htcount, UInt16.ofNat_toNat]
      · rw [hcount, UInt16.ofNat_toNat]
      · rw [hocount, UInt16.ofNat_toNat]
  · rintro ⟨hcounted, hordinal, rfl, hrecord⟩
    obtain ⟨htargets, htargetsLe, hordered, hrelations, hrelationsLe⟩ := hcounted
    have hlen : raw.encodedLen = 80 + raw.relations.length * 2 + raw.targets.length * 32 +
      raw.ordered.length * 32 := rfl
    have hmax : raw.targets.length ≤ 4096 := htargetsLe
    have hlength : raw.encode.length = raw.encodedLen := length_encode raw
    have hfits : raw.encodedLen ≤ encoded.length := by
      rw [← hrecord, List.length_take] at hlength
      omega
    generalize hrecord' : raw.encode = record at hrecord hlength
    have hwhole : readU32 record 0 = readU32 encoded 0 := by
      rw [← hrecord, readU32, slice_take (by omega)]
      rfl
    rw [encode, eq_flatten_append_iff (length_header raw), laid_header (by omega)] at hrecord'
    obtain ⟨⟨hfirst, hordinal', hone, hid, hissued, hexpires, htcount, hcount, hocount, hzero⟩,
      hrest⟩ := hrecord'
    have hentry : (readU32 encoded 0).toNat = raw.encodedLen := by
      rw [← hwhole, hfirst, UInt32.toNat_ofNat']
      omega
    have htc : (readU16 record 72).toNat = raw.targets.length := by
      rw [htcount, UInt16.toNat_ofNat']
      omega
    have hrc : (readU16 record 74).toNat = raw.relations.length := by
      rw [hcount, UInt16.toNat_ofNat']
      omega
    have hoc : (readU16 record 76).toNat = raw.ordered.length := by
      rw [hocount, UInt16.toNat_ofNat']
      omega
    have hbody : (record.drop 80).length = raw.relations.length * 2 + raw.targets.length * 32 +
        raw.ordered.length * 32 := by
      rw [List.length_drop]
      omega
    obtain ⟨hmap, htmap, homap⟩ := (body_eq_iff hbody raw).mpr ⟨hrest, rfl, rfl, rfl⟩
    simp only [parse, ite_error_eq_ok, except_bind_eq_ok, not_or, not_not, Nat.not_lt, gt_iff_lt,
      Bool.not_eq_false, Except.ok.injEq, Prod.mk.injEq]
    rw [hentry, hrecord, htc, hrc, hoc, hordinal', hid, hissued, hexpires]
    unfold displayedAliasManifestEntryHeaderBytesV1
    exact ⟨by omega, ⟨by omega, hfits⟩, hordinal, hone, hzero, ⟨by omega, htargetsLe, hordered,
      by omega, hrelationsLe⟩, hlen.symm, raw.relations, hmap, by rw [htmap, homap], rfl⟩

end RawAlias

/-! ## Entries -/

def targetEvent : EvidenceTargetRef → Except DisplayedAliasManifestErrorV1 EventId
  | .event eventId => .ok eventId
  | .block _ => .error .invalidTarget

theorem targetEvents_eq_ok {targets : List EvidenceTargetRef} {events : List EventId} :
    targets.mapM targetEvent = .ok events ↔ targets = events.map .event := by
  induction targets generalizing events with
  | nil =>
      constructor
      · intro h
        cases h
        rfl
      · intro h
        rw [List.map_eq_nil_iff.mp h.symm]
        rfl
  | cons target rest ih =>
      rw [List.mapM_cons]
      constructor
      · intro h
        obtain ⟨event, hevent, h⟩ := except_bind_eq_ok.mp h
        obtain ⟨others, hothers, h⟩ := except_bind_eq_ok.mp h
        cases h
        cases target with
        | event id =>
            cases hevent
            rw [ih.mp hothers, List.map_cons]
        | block id => cases hevent
      · intro h
        cases events with
        | nil => cases h
        | cons event others =>
            obtain ⟨rfl, hrest⟩ := List.cons.inj h
            rw [ih.mpr hrest]
            rfl

theorem relations_le (relations : List ExpansionRelationV1) (h : relations.Nodup) :
    relations.length ≤ 6 := by
  have hall : relations ⊆ [.exact, .sameLaneBeforeAfter, .globalBeforeAfter, .patternMembers,
      .sameAttestedTrace, .aroundOnset] := by
    intro relation _
    cases relation <;> decide
  exact (List.subperm_of_subset h hall).length_le

section Entries

variable [Sha256]

/-- One frozen alias. The reference was issued: nothing else builds one. -/
structure DisplayedAliasManifestEntryV1 where
  ordinal : UInt16
  reference : EvidenceReferenceV1
  orderedEventIds : List EventId
  issued : reference.Issued
deriving DecidableEq

namespace DisplayedAliasManifestEntryV1

def new (resultId : ResultId) (ordinal : UInt16) (reference : EvidenceReferenceV1)
    (issued : reference.Issued) (orderedEventIds : List EventId) :
    Except DisplayedAliasManifestErrorV1 DisplayedAliasManifestEntryV1 :=
  if ordinal = 0 ∨ ordinal.toNat > maxLogBriefEvidencePackets then .error .invalidOrdinal
  else if reference.resultId ≠ resultId then .error .invalidResult
  else if (Slice.binarySearchByKey (fun relation => relation) ExpansionRelationV1.exact
      reference.allowedRelations).toOption.isNone then .error .invalidRelation
  else do
    let targetEvents ← reference.targets.mapM targetEvent
    if orderedEventIds = [] ∨ orderedEventIds.length > maxEvidenceReferenceTargets ∨
        orderedEventIds.length ≠ targetEvents.length then .error .invalidEventOrder
    else
      let targets := ExtTreeSet.ofList targetEvents
      let ordered := ExtTreeSet.ofList orderedEventIds
      if targets.size ≠ targetEvents.length ∨ ordered.size ≠ orderedEventIds.length then
        .error .duplicateEvent
      else if targets.toList ≠ ordered.toList then .error .invalidEventOrder
      else .ok ⟨ordinal, reference, orderedEventIds, issued⟩

/-- What is written of an entry. -/
def raw (entry : DisplayedAliasManifestEntryV1) (targets : List EventId) : RawAlias :=
  ⟨entry.ordinal, entry.reference.id, entry.reference.issuedAt, entry.reference.expiresAt,
    entry.reference.allowedRelations, targets, entry.orderedEventIds⟩

def encodedLen (entry : DisplayedAliasManifestEntryV1) :
    Except DisplayedAliasManifestErrorV1 Nat :=
  okOr .arithmeticOverflow do
    let relations ← checkedMul entry.reference.allowedRelations.length 2
    let value ← checkedAdd displayedAliasManifestEntryHeaderBytesV1 relations
    let targets ← checkedMul entry.reference.targets.length 32
    let value ← checkedAdd value targets
    let ordered ← checkedMul entry.orderedEventIds.length 32
    checkedAdd value ordered

/-- `encode_entry`. -/
def encode (entry : DisplayedAliasManifestEntryV1) :
    Except DisplayedAliasManifestErrorV1 (List UInt8) := do
  let entryLen ← entry.encodedLen
  if entryLen ≥ 2 ^ 32 then .error .sizeCap
  else if entry.reference.targets.length ≥ 2 ^ 16 then .error .invalidTarget
  else if entry.reference.allowedRelations.length ≥ 2 ^ 16 then .error .invalidRelation
  else if entry.orderedEventIds.length ≥ 2 ^ 16 then .error .invalidEventOrder
  else do
    let targets ← entry.reference.targets.mapM targetEvent
    if (entry.raw targets).encodedLen ≠ entryLen then .error .arithmeticOverflow
    else .ok (entry.raw targets).encode

/-- The building half of `decode_entry`. -/
def rebuild (resultId : ResultId) (raw : RawAlias) :
    Except DisplayedAliasManifestErrorV1 DisplayedAliasManifestEntryV1 :=
  match h : EvidenceReferenceV1.verifyDeclared raw.declaredId resultId (raw.targets.map .event)
      raw.relations raw.issuedAt raw.expiresAt with
  | .error _ => .error .referenceMismatch
  | .ok reference =>
      new resultId raw.ordinal reference
        (EvidenceReferenceV1.issued_of_issue (EvidenceReferenceV1.verifyDeclared_eq_ok.mp h).1)
        raw.ordered

def decode (resultId : ResultId) (encoded : List UInt8) (expectedOrdinal : Nat) :
    Except DisplayedAliasManifestErrorV1 (DisplayedAliasManifestEntryV1 × Nat) := do
  let (raw, entryLen) ← RawAlias.parse encoded expectedOrdinal
  let entry ← rebuild resultId raw
  .ok (entry, entryLen)

/-- What `new` found in order. -/
structure IsEntryOf (resultId : ResultId) (targets : List EventId)
    (entry : DisplayedAliasManifestEntryV1) : Prop where
  built : new resultId entry.ordinal entry.reference entry.issued entry.orderedEventIds = .ok entry
  targets : entry.reference.targets = targets.map .event

theorem new_eq_ok {resultId : ResultId} {ordinal : UInt16} {reference : EvidenceReferenceV1}
    {issued : reference.Issued} {ordered : List EventId} {entry : DisplayedAliasManifestEntryV1}
    (h : new resultId ordinal reference issued ordered = .ok entry) :
    entry = ⟨ordinal, reference, ordered, issued⟩ ∧ reference.resultId = resultId ∧
      0 < ordered.length ∧ ordered.length ≤ maxEvidenceReferenceTargets ∧
      ∃ targets : List EventId, reference.targets = targets.map .event ∧
        ordered.length = targets.length := by
  simp only [new, ite_error_eq_ok, except_bind_eq_ok, not_or, not_not, gt_iff_lt, Nat.not_lt,
    ne_eq, Except.ok.injEq] at h
  obtain ⟨_, hresult, _, targets, htargets, ⟨hsome, hle, hlength⟩, _, _, rfl⟩ := h
  exact ⟨rfl, hresult, List.length_pos_iff.mpr hsome, hle, targets, targetEvents_eq_ok.mp htargets,
    hlength⟩

theorem isEntryOf_of_new {resultId : ResultId} {ordinal : UInt16} {reference : EvidenceReferenceV1}
    {issued : reference.Issued} {ordered : List EventId} {entry : DisplayedAliasManifestEntryV1}
    (h : new resultId ordinal reference issued ordered = .ok entry) :
    ∃ targets, entry.IsEntryOf resultId targets := by
  obtain ⟨rfl, _, _, _, targets, htargets, _⟩ := new_eq_ok h
  exact ⟨targets, h, htargets⟩

namespace IsEntryOf

variable {resultId : ResultId} {targets : List EventId} {entry : DisplayedAliasManifestEntryV1}

theorem counted (h : entry.IsEntryOf resultId targets) : (entry.raw targets).Counted := by
  obtain ⟨_, _, hpos, hle, targets', htargets', hlength⟩ := new_eq_ok h.built
  have hsame : targets'.length = targets.length := by
    have hmap := congrArg List.length (htargets'.symm.trans h.targets)
    rwa [List.length_map, List.length_map] at hmap
  obtain ⟨hvalid, _⟩ := EvidenceReferenceV1.issue_eq_ok.mp entry.issued.reissue
  obtain ⟨⟨_, _, _, hrelations, hsize, _⟩, _⟩ :=
    EvidenceReferenceV1.validateMaterial_eq_ok.mp hvalid
  refine ⟨?_, ?_, ?_, List.length_pos_iff.mpr hrelations,
    relations_le _ (Slice.nodup_of_size hsize)⟩
  · rw [raw, ← hsame, ← hlength]
    exact hpos
  · rw [raw, ← hsame, ← hlength]
    exact hle
  · rw [raw, ← hsame, ← hlength]

/-- An entry that is written is read as the entry. -/
theorem rebuild_raw (h : entry.IsEntryOf resultId targets) :
    rebuild resultId (entry.raw targets) = .ok entry := by
  have hresult := (new_eq_ok h.built).2.1
  have hverified : EvidenceReferenceV1.verifyDeclared (entry.raw targets).declaredId resultId
      ((entry.raw targets).targets.map .event) (entry.raw targets).relations
      (entry.raw targets).issuedAt (entry.raw targets).expiresAt = .ok entry.reference := by
    refine EvidenceReferenceV1.verifyDeclared_eq_ok.mpr ⟨?_, rfl⟩
    have hissue := entry.issued.reissue
    rw [hresult, h.targets] at hissue
    exact hissue
  unfold rebuild
  split
  · rename_i herror
    rw [hverified] at herror
    cases herror
  · rename_i reference hok
    obtain rfl := Except.ok.inj (hverified.symm.trans hok)
    exact h.built

theorem encodedLen_eq_ok (h : entry.IsEntryOf resultId targets) :
    entry.encodedLen = .ok (entry.raw targets).encodedLen := by
  obtain ⟨_, htargets, hordered, _, hrelations⟩ := h.counted
  have htargetsLe : targets.length ≤ 4096 := htargets
  have horderedEq : entry.orderedEventIds.length = targets.length := hordered
  have hrelationsLe : entry.reference.allowedRelations.length ≤ 6 := hrelations
  have hcount : entry.reference.targets.length = targets.length := by
    rw [h.targets, List.length_map]
  have hbound : u64Bound = 2 ^ 64 := rfl
  unfold encodedLen displayedAliasManifestEntryHeaderBytesV1
  rw [hcount, checkedMul_of_lt (by omega), checkedMul_of_lt (by omega),
    checkedMul_of_lt (by omega)]
  simp only [Option.bind_eq_bind, Option.bind_some]
  rw [checkedAdd_of_lt (by omega), Option.bind_some, checkedAdd_of_lt (by omega),
    Option.bind_some, checkedAdd_of_lt (by omega)]
  rfl

theorem encode_eq_ok (h : entry.IsEntryOf resultId targets) :
    entry.encode = .ok (entry.raw targets).encode := by
  obtain ⟨_, htargets, hordered, _, hrelations⟩ := h.counted
  have htargetsLe : targets.length ≤ 4096 := htargets
  have horderedEq : entry.orderedEventIds.length = targets.length := hordered
  have hrelationsLe : entry.reference.allowedRelations.length ≤ 6 := hrelations
  have hcount : entry.reference.targets.length = targets.length := by
    rw [h.targets, List.length_map]
  have hlen : (entry.raw targets).encodedLen = 80 + entry.reference.allowedRelations.length * 2 +
    targets.length * 32 + entry.orderedEventIds.length * 32 := rfl
  rw [encode, h.encodedLen_eq_ok, except_bind_ok, if_neg (by omega), if_neg (by omega),
    if_neg (by omega), if_neg (by omega), targetEvents_eq_ok.mpr h.targets, except_bind_ok,
    if_neg (not_not_intro rfl)]

end IsEntryOf

/-- What a record turns into is the record with its relations in order. -/
theorem rebuild_eq_ok {resultId : ResultId} {record : RawAlias}
    {entry : DisplayedAliasManifestEntryV1} (h : rebuild resultId record = .ok entry) :
    entry.IsEntryOf resultId record.targets ∧
      entry.raw record.targets =
        { record with relations := (ExtTreeSet.ofList record.relations).toList } ∧
      (ExtTreeSet.ofList record.relations).size = record.relations.length := by
  unfold rebuild at h
  split at h
  · cases h
  · rename_i reference hverified
    obtain ⟨hissue, hid⟩ := EvidenceReferenceV1.verifyDeclared_eq_ok.mp hverified
    obtain ⟨hvalid, _, _, hissued, hexpires⟩ := EvidenceReferenceV1.issue_eq_ok.mp hissue
    obtain ⟨⟨_, _, _, _, hsize, _⟩, htargets, hrelations⟩ :=
      EvidenceReferenceV1.validateMaterial_eq_ok.mp hvalid
    obtain ⟨rfl, _⟩ := new_eq_ok h
    refine ⟨⟨h, htargets⟩, ?_, hsize⟩
    rw [raw, hid, hissued, hexpires, hrelations]

end DisplayedAliasManifestEntryV1

end Entries

end Evidentrail
