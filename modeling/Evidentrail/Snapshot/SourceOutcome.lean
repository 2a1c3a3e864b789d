import Evidentrail.Snapshot.EventIndexV1

/-!
# The table of source outcomes

What became of every acknowledged source record, in the order of the receipt,
bound to the digest of the event index. The decoder compares the table with the
index as the constructor does and reconciles the receipt once more, so it accepts
what the constructor builds and nothing else (`SourceOutcomeTableV1.canonical`),
and a receipt comes back from its table
(`SourceOutcomeTableV1.toAcquisitionReceipt_of_new`).
-/

namespace Evidentrail

open Rust Std Encoding Bytes Slice

/-! ## Outcomes -/

namespace AcquisitionOutcome

/-- The code of an outcome in a record, and the fields that stand for it. -/
def kindCode : AcquisitionOutcome → UInt16
  | .persisted _ .sourceExact => 1
  | .persisted _ (.postPolicy _ _) => 2
  | .omittedByPolicy _ => 3

def eventBytes : AcquisitionOutcome → List UInt8
  | .persisted eventId _ => eventId.asBytes
  | .omittedByPolicy _ => zeros 32

def policyBytes : AcquisitionOutcome → List UInt8
  | .persisted _ exactnessBasis => exactnessBasis.policyBytes
  | .omittedByPolicy policyDigest => policyDigest.asBytes

def receiptBytes : AcquisitionOutcome → List UInt8
  | .persisted _ exactnessBasis => exactnessBasis.receiptBytes
  | .omittedByPolicy _ => zeros 32

@[simp] theorem length_eventBytes (outcome : AcquisitionOutcome) :
    outcome.eventBytes.length = 32 := by
  cases outcome <;> simp [eventBytes]

@[simp] theorem length_policyBytes (outcome : AcquisitionOutcome) :
    outcome.policyBytes.length = 32 := by
  cases outcome <;> simp [policyBytes]

@[simp] theorem length_receiptBytes (outcome : AcquisitionOutcome) :
    outcome.receiptBytes.length = 32 := by
  cases outcome <;> simp [receiptBytes]

end AcquisitionOutcome

namespace Snapshot

inductive SourceOutcomeTableErrorV1 where
  | invalidEncodedLength
  | invalidMagic
  | unsupportedVersion
  | unsupportedSchema
  | unsupportedObjectKind
  | invalidEntryWidth
  | nonzeroFlags
  | nonzeroReserved
  | entryCountCap
  | retrievalMismatch
  | receiptEntryCountMismatch
  | receiptCountsMismatch
  | indexEntryCountMismatch
  | indexDigestMismatch
  | invalidAcquisitionOrdinal
  | duplicateSourceRecordId
  | duplicatePersistedEventId
  | unsupportedOutcomeKind
  | noncanonicalConditionalFields
  | declaredCountsMismatch
  | receiptEntryMismatch
  | missingIndexEvent
  | extraIndexEvent
  | indexExactnessMismatch
  | receiptReconstructionFailed
  | arithmeticOverflow
deriving DecidableEq

def sourceOutcomeTableHeaderBytesV1 : Nat := 160
def sourceOutcomeTableEntryBytesV1 : Nat := 160

def maxSourceOutcomeTableEntriesV1 : Nat :=
  (maxManifestPlaintextBytesV1 - sourceOutcomeTableHeaderBytesV1) / sourceOutcomeTableEntryBytesV1

def maxEncodedSourceOutcomeTableBytesV1 : Nat :=
  sourceOutcomeTableHeaderBytesV1 + maxSourceOutcomeTableEntriesV1 * sourceOutcomeTableEntryBytesV1

/-- The match on the code of an outcome. -/
def readOutcome (code : UInt16) (event policy receipt : List UInt8) :
    Except SourceOutcomeTableErrorV1 AcquisitionOutcome :=
  if code = 1 then
    if allZero policy = false ∨ allZero receipt = false then .error .noncanonicalConditionalFields
    else .ok (.persisted (.ofBytes event) .sourceExact)
  else if code = 2 then
    .ok (.persisted (.ofBytes event) (.postPolicy (.ofBytes policy) (.ofBytes receipt)))
  else if code = 3 then
    if allZero event = false ∨ allZero receipt = false then .error .noncanonicalConditionalFields
    else .ok (.omittedByPolicy (.ofBytes policy))
  else .error .unsupportedOutcomeKind

theorem readOutcome_eq_ok {code : UInt16} {event policy receipt : List UInt8}
    {outcome : AcquisitionOutcome} (hevent : event.length = 32) (hpolicy : policy.length = 32)
    (hreceipt : receipt.length = 32) :
    readOutcome code event policy receipt = .ok outcome ↔
      code = outcome.kindCode ∧ event = outcome.eventBytes ∧ policy = outcome.policyBytes ∧
        receipt = outcome.receiptBytes := by
  constructor
  · intro h
    unfold readOutcome at h
    split at h
    · rename_i hcode
      simp only [ite_error_eq_ok, not_or, Bool.not_eq_false, Except.ok.injEq, allZero_iff, hpolicy,
        hreceipt] at h
      obtain ⟨⟨hp, hr⟩, rfl⟩ := h
      exact ⟨hcode, (HashId.asBytes_ofBytes hevent).symm, hp, hr⟩
    · split at h
      · rename_i hcode
        cases h
        exact ⟨hcode, (HashId.asBytes_ofBytes hevent).symm, (HashId.asBytes_ofBytes hpolicy).symm,
          (HashId.asBytes_ofBytes hreceipt).symm⟩
      · split at h
        · rename_i hcode
          simp only [ite_error_eq_ok, not_or, Bool.not_eq_false, Except.ok.injEq, allZero_iff,
            hevent, hreceipt] at h
          obtain ⟨⟨he, hr⟩, rfl⟩ := h
          exact ⟨hcode, he, (HashId.asBytes_ofBytes hpolicy).symm, hr⟩
        · cases h
  · rintro ⟨rfl, rfl, rfl, rfl⟩
    cases outcome with
    | persisted eventId exactnessBasis =>
        cases exactnessBasis with
        | sourceExact =>
            simp [readOutcome, AcquisitionOutcome.kindCode, AcquisitionOutcome.eventBytes,
              AcquisitionOutcome.policyBytes, AcquisitionOutcome.receiptBytes,
              ExactnessBasis.policyBytes, ExactnessBasis.receiptBytes]
        | postPolicy policyDigest receiptId =>
            simp [readOutcome, AcquisitionOutcome.kindCode, AcquisitionOutcome.eventBytes,
              AcquisitionOutcome.policyBytes, AcquisitionOutcome.receiptBytes,
              ExactnessBasis.policyBytes, ExactnessBasis.receiptBytes]
    | omittedByPolicy policyDigest =>
        simp [readOutcome, AcquisitionOutcome.kindCode, AcquisitionOutcome.eventBytes,
          AcquisitionOutcome.policyBytes, AcquisitionOutcome.receiptBytes]

/-! ## Entries -/

structure SourceOutcomeTableEntryV1 where
  acquisitionOrdinal : UInt64
  sourceRecordId : SourceRecordId
  outcome : AcquisitionOutcome
deriving DecidableEq

namespace SourceOutcomeTableEntryV1

def fields (entry : SourceOutcomeTableEntryV1) : List (List UInt8) :=
  [u64Be entry.acquisitionOrdinal, entry.sourceRecordId.asBytes, u16Be entry.outcome.kindCode,
    u16Be 0, zeros 4, entry.outcome.eventBytes, entry.outcome.policyBytes,
    entry.outcome.receiptBytes, zeros 16]

def encode (entry : SourceOutcomeTableEntryV1) : List UInt8 := entry.fields.flatten

def decode (expectedOrdinal : UInt64) (encoded : List UInt8) :
    Except SourceOutcomeTableErrorV1 SourceOutcomeTableEntryV1 :=
  if encoded.length ≠ sourceOutcomeTableEntryBytesV1 then .error .invalidEncodedLength
  else if readU16 encoded 42 ≠ 0 then .error .nonzeroFlags
  else if allZero (slice encoded 44 4) = false ∨ allZero (slice encoded 144 16) = false then
    .error .nonzeroReserved
  else if readU64 encoded 0 ≠ expectedOrdinal then .error .invalidAcquisitionOrdinal
  else do
    let outcome ← readOutcome (readU16 encoded 40) (slice encoded 48 32) (slice encoded 80 32)
      (slice encoded 112 32)
    .ok { acquisitionOrdinal := readU64 encoded 0, sourceRecordId := readId encoded 8, outcome }

@[simp] theorem length_encode (entry : SourceOutcomeTableEntryV1) : entry.encode.length = 160 := by
  simp [encode, fields]

theorem canonical (expectedOrdinal : UInt64) :
    Canonical encode (decode expectedOrdinal) (·.acquisitionOrdinal = expectedOrdinal) := by
  intro bytes entry
  by_cases hlength : bytes.length = 160
  · rw [encode, eq_flatten_iff (length_encode entry) hlength]
    simp only [fields, Laid, HashId.length_asBytes, length_u16Be, length_u64Be, length_zeros,
      AcquisitionOutcome.length_eventBytes, AcquisitionOutcome.length_policyBytes,
      AcquisitionOutcome.length_receiptBytes, Nat.reduceAdd]
    rw [slice_eq_u64Be (by omega), slice_eq_idBytes (by omega), slice_eq_u16Be (by omega),
      slice_eq_u16Be (by omega), slice_eq_zeros (by omega), slice_eq_zeros (by omega)]
    have hevent : (slice bytes 48 32).length = 32 := length_slice (by omega)
    have hpolicy : (slice bytes 80 32).length = 32 := length_slice (by omega)
    have hreceipt : (slice bytes 112 32).length = 32 := length_slice (by omega)
    obtain ⟨ordinal, sourceRecordId, outcome⟩ := entry
    simp only [decode, ite_error_eq_ok, except_bind_eq_ok,
      readOutcome_eq_ok hevent hpolicy hreceipt, Except.ok.injEq, mk.injEq]
    simp only [not_or, Bool.not_eq_false, not_not, hlength, sourceOutcomeTableEntryBytesV1,
      true_and, and_true]
    constructor
    · rintro ⟨hflags, ⟨hone, htwo⟩, rfl, _, ⟨hcode, h1, h2, h3⟩, rfl, hid, rfl⟩
      exact ⟨⟨rfl, hid, hcode, hflags, hone, h1, h2, h3, htwo⟩, rfl⟩
    · rintro ⟨⟨hordinal, hid, hcode, hflags, hone, h1, h2, h3, htwo⟩, rfl⟩
      exact ⟨hflags, ⟨hone, htwo⟩, hordinal, outcome, ⟨hcode, h1, h2, h3⟩, hordinal, hid, rfl⟩
  · constructor
    · intro h
      simp only [decode, ite_error_eq_ok, not_not] at h
      exact absurd h.1 hlength
    · rintro ⟨rfl, _⟩
      exact absurd (length_encode entry) hlength

end SourceOutcomeTableEntryV1

/-! ## The checks of a table -/

/-- `validate_entry_count` and `validate_declared_entry_count`. -/
def validateOutcomeCount (entryCount : Nat) : Except SourceOutcomeTableErrorV1 Unit :=
  if entryCount > maxSourceOutcomeTableEntriesV1 then .error .entryCountCap else .ok ()

/-- The loop of `validate_unique_entries`. -/
def uniqueEntries (sourceRecords : ExtTreeSet SourceRecordId)
    (persistedEvents : ExtTreeSet EventId) :
    List SourceOutcomeTableEntryV1 → Except SourceOutcomeTableErrorV1 Unit
  | [] => .ok ()
  | entry :: rest =>
      if entry.sourceRecordId ∈ sourceRecords then .error .duplicateSourceRecordId
      else
        match entry.outcome.persistedEventId with
        | some eventId =>
            if eventId ∈ persistedEvents then .error .duplicatePersistedEventId
            else uniqueEntries (sourceRecords.insert entry.sourceRecordId)
              (persistedEvents.insert eventId) rest
        | none => uniqueEntries (sourceRecords.insert entry.sourceRecordId) persistedEvents rest

def validateUniqueEntries (entries : List SourceOutcomeTableEntryV1) :
    Except SourceOutcomeTableErrorV1 Unit :=
  uniqueEntries ∅ ∅ entries

/-- The loop of `validate_bijection`: persisted events are taken out of the index. -/
def removeIndexed (indexed : ExtTreeMap EventId ExactnessBasis) :
    List SourceOutcomeTableEntryV1 →
      Except SourceOutcomeTableErrorV1 (ExtTreeMap EventId ExactnessBasis)
  | [] => .ok indexed
  | entry :: rest =>
      match entry.outcome with
      | .persisted eventId exactnessBasis => do
          let indexedExactness ← okOr .missingIndexEvent indexed[eventId]?
          if indexedExactness ≠ exactnessBasis then .error .indexExactnessMismatch
          else removeIndexed (indexed.erase eventId) rest
      | .omittedByPolicy _ => removeIndexed indexed rest

/-- The map that `validate_bijection` collects. -/
def indexedExactness (entries : List EventExpansionIndexEntryV1) :
    ExtTreeMap EventId ExactnessBasis :=
  entries.foldl (fun indexed entry => indexed.insert entry.eventId entry.exactnessBasis) ∅

def validateBijection (entries : List SourceOutcomeTableEntryV1)
    (eventIndex : EventExpansionIndexV1) : Except SourceOutcomeTableErrorV1 Unit := do
  let indexed ← removeIndexed (indexedExactness eventIndex.entries) entries
  if indexed.isEmpty then .ok () else .error .extraIndexEvent

/-- The counts of `derive_counts`. -/
structure SourceOutcomeCounts where
  sourceExact : UInt64 := 0
  postPolicy : UInt64 := 0
  omittedByPolicy : UInt64 := 0
deriving DecidableEq

def deriveCounts (counts : SourceOutcomeCounts) :
    List SourceOutcomeTableEntryV1 → Except SourceOutcomeTableErrorV1 SourceOutcomeCounts
  | [] => .ok counts
  | entry :: rest =>
      match entry.outcome with
      | .persisted _ .sourceExact => do
          let sourceExact ← okOr .arithmeticOverflow (checkedAdd counts.sourceExact.toNat 1)
          deriveCounts { counts with sourceExact := .ofNat sourceExact } rest
      | .persisted _ (.postPolicy _ _) => do
          let postPolicy ← okOr .arithmeticOverflow (checkedAdd counts.postPolicy.toNat 1)
          deriveCounts { counts with postPolicy := .ofNat postPolicy } rest
      | .omittedByPolicy _ => do
          let omittedByPolicy ← okOr .arithmeticOverflow
            (checkedAdd counts.omittedByPolicy.toNat 1)
          deriveCounts { counts with omittedByPolicy := .ofNat omittedByPolicy } rest

/-- The events that a table persists. -/
def persistedEvents (entries : List SourceOutcomeTableEntryV1) : List EventId :=
  entries.filterMap (·.outcome.persistedEventId)

section Checks

variable {entries : List SourceOutcomeTableEntryV1}

theorem persistedEvents_cons (entry : SourceOutcomeTableEntryV1)
    (rest : List SourceOutcomeTableEntryV1) :
    persistedEvents (entry :: rest) =
      entry.outcome.persistedEventId.toList ++ persistedEvents rest := by
  cases hevent : entry.outcome.persistedEventId <;> simp [persistedEvents, hevent]

theorem uniqueEntries_eq_ok {sourceRecords : ExtTreeSet SourceRecordId}
    {persisted : ExtTreeSet EventId} (h : uniqueEntries sourceRecords persisted entries = .ok ()) :
    ((entries.map (·.sourceRecordId)).Nodup ∧
      ∀ id ∈ entries.map (·.sourceRecordId), id ∉ sourceRecords) ∧
    (persistedEvents entries).Nodup ∧ ∀ id ∈ persistedEvents entries, id ∉ persisted := by
  induction entries generalizing sourceRecords persisted with
  | nil => simp [persistedEvents]
  | cons entry rest ih =>
      simp only [uniqueEntries, ite_error_eq_ok] at h
      obtain ⟨hrecord, h⟩ := h
      have hrecords : ∀ {persisted : ExtTreeSet EventId},
          uniqueEntries (sourceRecords.insert entry.sourceRecordId) persisted rest = .ok () →
          ((entry :: rest).map (·.sourceRecordId)).Nodup ∧
            ∀ id ∈ (entry :: rest).map (·.sourceRecordId), id ∉ sourceRecords := by
        intro persisted hrest
        obtain ⟨⟨hnodup, hfresh⟩, _⟩ := ih hrest
        refine ⟨List.nodup_cons.mpr ⟨fun hmem => ?_, hnodup⟩,
          List.forall_mem_cons.mpr ⟨hrecord, fun id hid hmem => ?_⟩⟩
        · exact hfresh _ hmem (mem_insert_set.mpr (.inl rfl))
        · exact hfresh id hid (mem_insert_set.mpr (.inr hmem))
      rw [persistedEvents_cons]
      cases hevent : entry.outcome.persistedEventId with
      | none =>
          simp only [hevent] at h
          exact ⟨hrecords h, (ih h).2⟩
      | some eventId =>
          simp only [hevent, ite_error_eq_ok] at h
          obtain ⟨hnew, h⟩ := h
          obtain ⟨hnodup, hfresh⟩ := (ih h).2
          refine ⟨hrecords h, List.nodup_cons.mpr ⟨fun hmem => ?_, hnodup⟩,
            List.forall_mem_cons.mpr ⟨hnew, fun id hid hmem => ?_⟩⟩
          · exact hfresh _ hmem (mem_insert_set.mpr (.inl rfl))
          · exact hfresh id hid (mem_insert_set.mpr (.inr hmem))

/-- Every persisted event takes one out of the index. -/
theorem size_removeIndexed {indexed rest : ExtTreeMap EventId ExactnessBasis}
    (h : removeIndexed indexed entries = .ok rest) :
    rest.size + (persistedEvents entries).length = indexed.size := by
  induction entries generalizing indexed with
  | nil =>
      cases h
      rfl
  | cons entry others ih =>
      rw [persistedEvents_cons]
      cases houtcome : entry.outcome with
      | omittedByPolicy policyDigest =>
          simp only [removeIndexed, houtcome] at h
          exact ih h
      | persisted eventId exactnessBasis =>
          simp only [removeIndexed, houtcome, except_bind_eq_ok, okOr_eq_ok, ite_error_eq_ok] at h
          obtain ⟨_, hfound, _, h⟩ := h
          have hmem : eventId ∈ indexed :=
            ExtTreeMap.isSome_getElem?_iff_mem.mp (by rw [hfound]; rfl)
          have hrest := ih h
          rw [← size_erase hmem, ← hrest]
          simp only [AcquisitionOutcome.persistedEventId, Option.toList_some,
            List.singleton_append, List.length_cons]
          omega

theorem size_indexedExactness {entries : List EventExpansionIndexEntryV1}
    (hnodup : (entries.map EventExpansionIndexEntryV1.eventId).Nodup) :
    (indexedExactness entries).size = entries.length := by
  have hfold : ∀ (entries : List EventExpansionIndexEntryV1)
      (indexed : ExtTreeMap EventId ExactnessBasis),
      (entries.map EventExpansionIndexEntryV1.eventId).Nodup →
      (∀ entry ∈ entries, entry.eventId ∉ indexed) →
      (entries.foldl (fun indexed entry => indexed.insert entry.eventId entry.exactnessBasis)
        indexed).size = indexed.size + entries.length := by
    intro entries
    induction entries with
    | nil => exact fun _ _ _ => rfl
    | cons entry rest ih =>
        intro indexed hnodup hfresh
        obtain ⟨hnew, hnodup⟩ := List.nodup_cons.mp hnodup
        obtain ⟨hhead, hfresh⟩ := List.forall_mem_cons.mp hfresh
        rw [List.foldl_cons, ih _ hnodup, size_insert hhead, List.length_cons]
        · omega
        · intro other hother hmem
          rcases mem_insert.mp hmem with heq | hmem
          · exact hnew (heq ▸ List.mem_map_of_mem hother)
          · exact hfresh other hother hmem
  rw [indexedExactness, hfold entries ∅ hnodup (by simp), ExtTreeMap.size_empty, Nat.zero_add]

/-- An index is as long as the list of the events that a table persists. -/
theorem validateBijection_eq_ok {eventIndex : EventExpansionIndexV1}
    (h : validateBijection entries eventIndex = .ok ())
    (hnodup : (eventIndex.entries.map EventExpansionIndexEntryV1.eventId).Nodup) :
    (persistedEvents entries).length = eventIndex.entries.length := by
  obtain ⟨rest, hremoved, h⟩ := except_bind_eq_ok.mp h
  have hempty : rest.isEmpty = true := by
    by_contra hsome
    rw [if_neg hsome] at h
    cases h
  have hsize := size_removeIndexed hremoved
  rw [size_indexedExactness hnodup] at hsize
  rw [ExtTreeMap.isEmpty_eq_size_beq_zero, beq_iff_eq] at hempty
  omega

/-- The counts of a table are of its events and of its entries. -/
theorem deriveCounts_eq_ok {counts found : SourceOutcomeCounts}
    (h : deriveCounts counts entries = .ok found) :
    found.sourceExact.toNat + found.postPolicy.toNat =
      counts.sourceExact.toNat + counts.postPolicy.toNat + (persistedEvents entries).length ∧
    found.sourceExact.toNat + found.postPolicy.toNat + found.omittedByPolicy.toNat =
      counts.sourceExact.toNat + counts.postPolicy.toNat + counts.omittedByPolicy.toNat +
        entries.length := by
  have hone : ∀ {n : UInt64}, n.toNat + 1 < 2 ^ 64 → (UInt64.ofNat (n.toNat + 1)).toNat =
      n.toNat + 1 := by
    intro n hn
    rw [UInt64.toNat_ofNat']
    exact Nat.mod_eq_of_lt hn
  induction entries generalizing counts with
  | nil =>
      cases h
      exact ⟨rfl, rfl⟩
  | cons entry rest ih =>
      rw [persistedEvents_cons]
      cases houtcome : entry.outcome with
      | omittedByPolicy policyDigest =>
          simp only [deriveCounts, houtcome, except_bind_eq_ok, okOr_eq_ok, checkedAdd_eq_some] at h
          obtain ⟨_, ⟨hlt, rfl⟩, h⟩ := h
          obtain ⟨hpersisted, hall⟩ := ih h
          simp only [hone hlt] at hpersisted hall
          simp only [AcquisitionOutcome.persistedEventId, Option.toList_none, List.nil_append,
            List.length_cons]
          omega
      | persisted eventId exactnessBasis =>
          simp only [AcquisitionOutcome.persistedEventId, Option.toList_some,
            List.singleton_append, List.length_cons]
          cases exactnessBasis with
          | sourceExact =>
              simp only [deriveCounts, houtcome, except_bind_eq_ok, okOr_eq_ok,
                checkedAdd_eq_some] at h
              obtain ⟨_, ⟨hlt, rfl⟩, h⟩ := h
              obtain ⟨hpersisted, hall⟩ := ih h
              simp only [hone hlt] at hpersisted hall
              omega
          | postPolicy policyDigest receiptId =>
              simp only [deriveCounts, houtcome, except_bind_eq_ok, okOr_eq_ok,
                checkedAdd_eq_some] at h
              obtain ⟨_, ⟨hlt, rfl⟩, h⟩ := h
              obtain ⟨hpersisted, hall⟩ := ih h
              simp only [hone hlt] at hpersisted hall
              omega

end Checks

/-! ## The table -/

structure SourceOutcomeTableV1 where
  retrievalId : RetrievalId
  entries : List SourceOutcomeTableEntryV1
  counts : SourceOutcomeCounts
  eventIndexEntryCount : UInt64
  eventIndexDigest : FixedBytes 32
deriving DecidableEq

/-- The entries of a receipt, with their ordinals. -/
def numberEntries : (ordinal : Nat) → List AcquisitionReceiptEntry → List SourceOutcomeTableEntryV1
  | _, [] => []
  | ordinal, entry :: rest =>
      { acquisitionOrdinal := .ofNat ordinal
        sourceRecordId := entry.sourceRecordId
        outcome := entry.outcome } :: numberEntries (ordinal + 1) rest

/-- The entries stand at their ordinals. -/
abbrev InOrdinalOrder (ordinal : Nat) (entries : List SourceOutcomeTableEntryV1) : Prop :=
  Numbered (fun ordinal entry => entry.acquisitionOrdinal = .ofNat ordinal) ordinal entries

theorem inOrdinalOrder_numberEntries (ordinal : Nat) (entries : List AcquisitionReceiptEntry) :
    InOrdinalOrder ordinal (numberEntries ordinal entries) := by
  induction entries generalizing ordinal with
  | nil => trivial
  | cons entry rest ih => exact ⟨rfl, ih (ordinal + 1)⟩

theorem map_numberEntries (ordinal : Nat) (entries : List AcquisitionReceiptEntry) :
    (numberEntries ordinal entries).map (fun entry =>
      (⟨entry.sourceRecordId, entry.outcome⟩ : AcquisitionReceiptEntry)) = entries := by
  induction entries generalizing ordinal with
  | nil => rfl
  | cons entry rest ih => exact congrArg (entry :: ·) (ih (ordinal + 1))

theorem length_numberEntries (ordinal : Nat) (entries : List AcquisitionReceiptEntry) :
    (numberEntries ordinal entries).length = entries.length := by
  conv_rhs => rw [← map_numberEntries ordinal entries, List.length_map]

namespace SourceOutcomeTableV1

def header (table : SourceOutcomeTableV1) : List (List UInt8) :=
  [asciiBytes "EVRSOT01", u16Be 1, u16Be 1, u16Be 1, u16Be (.ofNat sourceOutcomeTableEntryBytesV1),
    u16Be 0, zeros 6, table.retrievalId.asBytes, u64Be (.ofNat table.entries.length),
    u64Be table.counts.sourceExact, u64Be table.counts.postPolicy,
    u64Be table.counts.omittedByPolicy, u64Be table.eventIndexEntryCount,
    table.eventIndexDigest.asBytes, zeros 32]

def encode (table : SourceOutcomeTableV1) : List UInt8 :=
  table.header.flatten ++ table.entries.flatMap SourceOutcomeTableEntryV1.encode

def toAcquisitionReceipt (table : SourceOutcomeTableV1) :
    Except (Fault SourceOutcomeTableErrorV1) AcquisitionReceipt :=
  (AcquisitionReceipt.reconcile table.retrievalId (table.entries.map (·.sourceRecordId))
    (table.entries.map fun entry => ⟨entry.sourceRecordId, entry.outcome⟩)).mapError
      (Fault.mapErr fun _ => .receiptReconstructionFailed)

@[simp] theorem length_magic : (asciiBytes "EVRSOT01").length = 8 := by decide

theorem length_header (table : SourceOutcomeTableV1) : table.header.flatten.length = 160 := by
  simp [header]

theorem length_encode (table : SourceOutcomeTableV1) :
    table.encode.length = 160 + table.entries.length * 160 := by
  rw [encode, List.length_append, length_header,
    length_flatMap_encode SourceOutcomeTableEntryV1.length_encode]

theorem laid_header {bytes : List UInt8} (hlength : 160 ≤ bytes.length)
    {table : SourceOutcomeTableV1} (hsmall : table.entries.length ≤ 104856) :
    Laid bytes 0 table.header ↔
      slice bytes 0 8 = asciiBytes "EVRSOT01" ∧ readU16 bytes 8 = 1 ∧ readU16 bytes 10 = 1 ∧
      readU16 bytes 12 = 1 ∧ (readU16 bytes 14).toNat = sourceOutcomeTableEntryBytesV1 ∧
      readU16 bytes 16 = 0 ∧ allZero (slice bytes 18 6) = true ∧
      readId bytes 24 = table.retrievalId ∧ (readU64 bytes 56).toNat = table.entries.length ∧
      readU64 bytes 64 = table.counts.sourceExact ∧ readU64 bytes 72 = table.counts.postPolicy ∧
      readU64 bytes 80 = table.counts.omittedByPolicy ∧
      readU64 bytes 88 = table.eventIndexEntryCount ∧
      readArray bytes 96 = table.eventIndexDigest ∧ allZero (slice bytes 128 32) = true := by
  have hcount : (UInt64.ofNat table.entries.length).toNat = table.entries.length := by
    rw [UInt64.toNat_ofNat']
    omega
  have hwidth : (UInt16.ofNat sourceOutcomeTableEntryBytesV1).toNat =
      sourceOutcomeTableEntryBytesV1 := rfl
  simp only [header, Laid, length_magic, length_u16Be, length_u64Be, length_zeros,
    HashId.length_asBytes, FixedBytes.length_asBytes, Nat.reduceAdd]
  rw [slice_eq_u16Be (by omega), slice_eq_u16Be (by omega), slice_eq_u16Be (by omega),
    slice_eq_u16Be (by omega), slice_eq_u16Be (by omega), slice_eq_zeros (by omega),
    slice_eq_idBytes (by omega), slice_eq_u64Be (by omega), slice_eq_u64Be (by omega),
    slice_eq_u64Be (by omega), slice_eq_u64Be (by omega), slice_eq_u64Be (by omega),
    slice_eq_asBytes (by omega), slice_eq_zeros (by omega), and_true,
    ← UInt16.toNat_inj (b := .ofNat _), hwidth, ← UInt64.toNat_inj (b := .ofNat _), hcount]

theorem encode_eq_iff {table : SourceOutcomeTableV1} {bytes : List UInt8} :
    table.encode = bytes ↔
      Laid bytes 0 table.header ∧
        bytes.drop 160 = table.entries.flatMap SourceOutcomeTableEntryV1.encode :=
  eq_flatten_append_iff (length_header table)

/-- The receipt that a table with distinct records and events stands for. -/
theorem toAcquisitionReceipt_eq_ok {table : SourceOutcomeTableV1}
    (h : validateUniqueEntries table.entries = .ok ()) :
    table.toAcquisitionReceipt = .ok (.ofEntries table.retrievalId
      (table.entries.map fun entry => ⟨entry.sourceRecordId, entry.outcome⟩)) := by
  obtain ⟨⟨hrecords, _⟩, hevents, _⟩ := uniqueEntries_eq_ok h
  have hreconciled := @AcquisitionReceipt.reconcile_eq_ok table.retrievalId
    (table.entries.map fun entry => ⟨entry.sourceRecordId, entry.outcome⟩)
    (by rw [List.map_map]; exact hrecords) (by rw [List.filterMap_map]; exact hevents)
  rw [List.map_map, List.map_map] at hreconciled
  exact congrArg (Except.mapError _) hreconciled

section Index

variable [Sha256]

/-- `derive_event_expansion_index_digest_v1`. -/
def deriveEventExpansionIndexDigest (eventIndex : EventExpansionIndexV1) : FixedBytes 32 :=
  lifecycleDigest eventIndex.encode

def new (receipt : AcquisitionReceipt) (eventIndex : EventExpansionIndexV1) :
    Except SourceOutcomeTableErrorV1 SourceOutcomeTableV1 := do
  validateOutcomeCount receipt.entries.length
  let entries := numberEntries 0 receipt.entries
  validateUniqueEntries entries
  validateBijection entries eventIndex
  let counts ← deriveCounts {} entries
  if counts.sourceExact.toNat ≠ receipt.counts.sourceExact ∨
      counts.postPolicy.toNat ≠ receipt.counts.postPolicy ∨
      counts.omittedByPolicy.toNat ≠ receipt.counts.omittedByPolicy then
    .error .receiptCountsMismatch
  else .ok {
    retrievalId := receipt.retrievalId
    entries, counts
    eventIndexEntryCount := eventIndex.entryCount
    eventIndexDigest := deriveEventExpansionIndexDigest eventIndex }

/-- `decode` without the receipt that it reconciles at its end. The length that
is expected cannot overflow behind the check of the count. -/
def decodeTable (eventIndex : EventExpansionIndexV1) (encoded : List UInt8) :
    Except SourceOutcomeTableErrorV1 SourceOutcomeTableV1 :=
  if encoded.length < sourceOutcomeTableHeaderBytesV1 then .error .invalidEncodedLength
  else if slice encoded 0 8 ≠ asciiBytes "EVRSOT01" then .error .invalidMagic
  else if readU16 encoded 8 ≠ 1 then .error .unsupportedVersion
  else if readU16 encoded 10 ≠ 1 then .error .unsupportedSchema
  else if readU16 encoded 12 ≠ 1 then .error .unsupportedObjectKind
  else if (readU16 encoded 14).toNat ≠ sourceOutcomeTableEntryBytesV1 then
    .error .invalidEntryWidth
  else if readU16 encoded 16 ≠ 0 then .error .nonzeroFlags
  else if allZero (slice encoded 18 6) = false ∨ allZero (slice encoded 128 32) = false then
    .error .nonzeroReserved
  else do
    let entryCount := (readU64 encoded 56).toNat
    validateOutcomeCount entryCount
    let expectedLength :=
      sourceOutcomeTableHeaderBytesV1 + entryCount * sourceOutcomeTableEntryBytesV1
    if expectedLength > maxEncodedSourceOutcomeTableBytesV1 ∨ encoded.length ≠ expectedLength then
      .error .invalidEncodedLength
    else if readU64 encoded 88 ≠ eventIndex.entryCount then .error .indexEntryCountMismatch
    else if readArray encoded 96 ≠ deriveEventExpansionIndexDigest eventIndex then
      .error .indexDigestMismatch
    else do
      let entries ← decodeFrom (fun ordinal => SourceOutcomeTableEntryV1.decode (.ofNat ordinal)) 0
        (chunks sourceOutcomeTableEntryBytesV1 entryCount
          (encoded.drop sourceOutcomeTableHeaderBytesV1))
      validateUniqueEntries entries
      let counts ← deriveCounts {} entries
      if readU64 encoded 64 ≠ counts.sourceExact ∨ readU64 encoded 72 ≠ counts.postPolicy ∨
          readU64 encoded 80 ≠ counts.omittedByPolicy then .error .declaredCountsMismatch
      else do
        let derivedEntryCount ← okOr .arithmeticOverflow
          ((checkedAdd counts.sourceExact.toNat counts.postPolicy.toNat).bind fun persisted =>
            checkedAdd persisted counts.omittedByPolicy.toNat)
        if derivedEntryCount ≠ entryCount then .error .declaredCountsMismatch
        else do
          let persistedCount ← okOr .arithmeticOverflow
            (checkedAdd counts.sourceExact.toNat counts.postPolicy.toNat)
          if persistedCount ≠ eventIndex.entryCount.toNat then .error .indexEntryCountMismatch
          else do
            validateBijection entries eventIndex
            .ok {
              retrievalId := readId encoded 24
              entries, counts
              eventIndexEntryCount := eventIndex.entryCount
              eventIndexDigest := deriveEventExpansionIndexDigest eventIndex }

def decode (eventIndex : EventExpansionIndexV1) (encoded : List UInt8) :
    Except (Fault SourceOutcomeTableErrorV1) SourceOutcomeTableV1 := do
  let table ← (decodeTable eventIndex encoded).mapError .err
  let _ ← table.toAcquisitionReceipt
  .ok table

/-- The tables that are built over an index. -/
structure AcceptedBy (eventIndex : EventExpansionIndexV1) (table : SourceOutcomeTableV1) :
    Prop where
  count : validateOutcomeCount table.entries.length = .ok ()
  ordinals : InOrdinalOrder 0 table.entries
  unique : validateUniqueEntries table.entries = .ok ()
  bijection : validateBijection table.entries eventIndex = .ok ()
  counts : deriveCounts {} table.entries = .ok table.counts
  indexCount : table.eventIndexEntryCount = eventIndex.entryCount
  indexDigest : table.eventIndexDigest = deriveEventExpansionIndexDigest eventIndex

variable {receipt : AcquisitionReceipt} {eventIndex : EventExpansionIndexV1}
  {table : SourceOutcomeTableV1} {bytes : List UInt8}

theorem new_eq_ok (h : new receipt eventIndex = .ok table) :
    table.retrievalId = receipt.retrievalId ∧ table.entries = numberEntries 0 receipt.entries ∧
      AcceptedBy eventIndex table := by
  simp only [new, except_bind_eq_ok, ite_error_eq_ok, Except.ok.injEq] at h
  obtain ⟨_, hcount, _, hunique, _, hbijection, counts, hcounts, _, rfl⟩ := h
  refine ⟨rfl, rfl, ?_, inOrdinalOrder_numberEntries _ _, hunique, hbijection, hcounts, rfl, rfl⟩
  rw [length_numberEntries]
  exact hcount

/-- The receipt comes back from its table. -/
theorem toAcquisitionReceipt_of_new (h : new receipt eventIndex = .ok table) :
    table.toAcquisitionReceipt = .ok receipt := by
  obtain ⟨hid, hentries, haccepted⟩ := new_eq_ok h
  rw [toAcquisitionReceipt_eq_ok haccepted.unique]
  refine congrArg Except.ok (AcquisitionReceipt.ext hid ?_)
  rw [hentries]
  exact map_numberEntries 0 receipt.entries

theorem AcceptedBy.cap (h : AcceptedBy eventIndex table) : table.entries.length ≤ 104856 := by
  have hcount := h.count
  simp only [validateOutcomeCount, ite_error_eq_ok, Nat.not_lt, gt_iff_lt, and_true] at hcount
  exact hcount

/-- The sums that `decode` compares are those of the index and of the entries. -/
theorem AcceptedBy.totals (h : AcceptedBy eventIndex table)
    (hdistinct : (eventIndex.entries.map EventExpansionIndexEntryV1.eventId).Nodup) :
    table.counts.sourceExact.toNat + table.counts.postPolicy.toNat = eventIndex.entries.length ∧
      table.counts.sourceExact.toNat + table.counts.postPolicy.toNat +
        table.counts.omittedByPolicy.toNat = table.entries.length := by
  obtain ⟨hpersisted, hall⟩ := deriveCounts_eq_ok h.counts
  rw [validateBijection_eq_ok h.bijection hdistinct] at hpersisted
  exact ⟨by simpa using hpersisted, by simpa using hall⟩

theorem decodeTable_eq_ok
    (hdistinct : (eventIndex.entries.map EventExpansionIndexEntryV1.eventId).Nodup) :
    decodeTable eventIndex bytes = .ok table ↔
      table.encode = bytes ∧ AcceptedBy eventIndex table := by
  have hrecords : ∀ {count : Nat} {entries : List SourceOutcomeTableEntryV1},
      bytes.length = 160 + count * 160 →
      (decodeFrom (fun ordinal => SourceOutcomeTableEntryV1.decode (.ofNat ordinal)) 0
          (chunks 160 count (bytes.drop 160)) = .ok entries ↔
        entries.flatMap SourceOutcomeTableEntryV1.encode = bytes.drop 160 ∧
          entries.length = count ∧ InOrdinalOrder 0 entries) := by
    intro count entries hlength
    refine decodeFrom_chunks (fun ordinal => (SourceOutcomeTableEntryV1.canonical _).on)
      SourceOutcomeTableEntryV1.length_encode ?_
    rw [List.length_drop, hlength, Nat.add_sub_cancel_left]
  simp only [decodeTable, ite_error_eq_ok, except_bind_eq_ok, okOr_eq_ok, not_not, not_or,
    Nat.not_lt, gt_iff_lt, Bool.not_eq_false, Except.ok.injEq]
  constructor
  · rintro ⟨hlong, hmagic, hversion, hschema, hkind, hwidth, hflags, ⟨hone, htwo⟩, _, hcount,
      ⟨_, hlength⟩, hindexCount, hindexDigest, entries, hentries, _, hunique, counts, hcounts,
      ⟨hexact, hpost, homitted⟩, _, _, _, _, _, _, _, hbijection, rfl⟩
    obtain ⟨hflat, hentryCount, hordinals⟩ := (hrecords hlength).mp hentries
    rw [← hentryCount] at hcount
    have haccepted : AcceptedBy eventIndex {
        retrievalId := readId bytes 24, entries, counts
        eventIndexEntryCount := eventIndex.entryCount
        eventIndexDigest := deriveEventExpansionIndexDigest eventIndex } :=
      ⟨hcount, hordinals, hunique, hbijection, hcounts, rfl, rfl⟩
    refine ⟨encode_eq_iff.mpr ⟨(laid_header hlong haccepted.cap).mpr ?_, hflat.symm⟩, haccepted⟩
    exact ⟨hmagic, hversion, hschema, hkind, hwidth, hflags, hone, rfl, hentryCount.symm, hexact,
      hpost, homitted, hindexCount, hindexDigest, htwo⟩
  · rintro ⟨hencode, haccepted⟩
    have hlength := length_encode table
    rw [hencode] at hlength
    have hlong : 160 ≤ bytes.length := by omega
    obtain ⟨hlaid, hrest⟩ := encode_eq_iff.mp hencode
    obtain ⟨hmagic, hversion, hschema, hkind, hwidth, hflags, hone, hid, hentryCount, hexact, hpost,
      homitted, hindexCount, hindexDigest, htwo⟩ := (laid_header hlong haccepted.cap).mp hlaid
    obtain ⟨hpersisted, hall⟩ := haccepted.totals hdistinct
    have hcap := haccepted.cap
    have hbound : 104856 < u64Bound := by decide
    have hindex : eventIndex.entryCount.toNat = eventIndex.entries.length := by
      rw [EventExpansionIndexV1.entryCount, UInt64.toNat_ofNat']
      omega
    rw [hentryCount]
    refine ⟨hlong, hmagic, hversion, hschema, hkind, hwidth, hflags, ⟨hone, htwo⟩, (),
      haccepted.count, ⟨?_, hlength⟩, hindexCount.trans haccepted.indexCount,
      hindexDigest.trans haccepted.indexDigest, table.entries,
      (hrecords hlength).mpr ⟨hrest.symm, rfl, haccepted.ordinals⟩, (), haccepted.unique,
      table.counts, haccepted.counts, ⟨hexact, hpost, homitted⟩, table.entries.length, ?_, rfl,
      eventIndex.entries.length, ?_, hindex.symm, (), haccepted.bijection, ?_⟩
    · simp only [sourceOutcomeTableHeaderBytesV1, sourceOutcomeTableEntryBytesV1,
        maxEncodedSourceOutcomeTableBytesV1, maxSourceOutcomeTableEntriesV1,
        maxManifestPlaintextBytesV1]
      omega
    · exact Option.bind_eq_some_iff.mpr ⟨_, checkedAdd_eq_some.mpr ⟨by omega, rfl⟩,
        checkedAdd_eq_some.mpr ⟨by omega, hall.symm⟩⟩
    · exact checkedAdd_eq_some.mpr ⟨by omega, hpersisted.symm⟩
    · rw [hid, ← haccepted.indexCount, ← haccepted.indexDigest]

/-- The index has one entry for an event. -/
theorem canonical
    (hdistinct : (eventIndex.entries.map EventExpansionIndexEntryV1.eventId).Nodup) :
    Canonical encode (decode eventIndex) (AcceptedBy eventIndex) := by
  intro bytes table
  simp only [decode, except_bind_eq_ok, mapError_eq_ok, Except.ok.injEq]
  constructor
  · rintro ⟨table, htable, _, _, rfl⟩
    exact (decodeTable_eq_ok hdistinct).mp htable
  · intro h
    exact ⟨table, (decodeTable_eq_ok hdistinct).mpr h, _, toAcquisitionReceipt_eq_ok h.2.unique,
      rfl⟩

end Index

end SourceOutcomeTableV1

end Snapshot

end Evidentrail
