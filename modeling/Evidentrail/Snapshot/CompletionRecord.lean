import Evidentrail.Snapshot.CompletionBody

/-!
# The completion record is lossless

The header says which completion it belongs to in three groups of fields: those of
every record (`Framed`), those of the completion (`CoreReads`) and the lengths of
its parts (`LengthsRead`). Together with the body they are what the decoder checks,
so it accepts the encodings of completions and nothing else
(`decodeCompletion_eq_ok`).
-/

namespace Evidentrail

open Rust Bytes

namespace Snapshot

namespace AcquisitionCompletion

/-! ## The header -/

section Header

variable {bytes : List UInt8} {offset n : Nat}

theorem slice_eq_u32Be_ofNat (h : offset + 4 ≤ bytes.length) (hn : n < 2 ^ 32) :
    slice bytes offset 4 = u32Be (.ofNat n) ↔ (readU32 bytes offset).toNat = n := by
  rw [slice_eq_u32Be h, ← UInt32.toNat_inj, UInt32.toNat_ofNat_of_lt' hn]

theorem slice_eq_u64Be_ofNat (h : offset + 8 ≤ bytes.length) (hn : n < u64Bound) :
    slice bytes offset 8 = u64Be (.ofNat n) ↔ (readU64 bytes offset).toNat = n := by
  rw [slice_eq_u64Be h, ← UInt64.toNat_inj, UInt64.toNat_ofNat_of_lt' hn]

theorem slice_eq_i128Be {t : UnixTimestampNanos} (h : offset + 16 ≤ bytes.length) :
    slice bytes offset 16 = i128Be t.get ↔ readTimestamp bytes offset = t := by
  have hread : (readTimestamp bytes offset).get = i128OfBe (slice bytes offset 16) := by
    change i128OfBe (readArray bytes offset : FixedBytes 16).asBytes = _
    rw [readArray, FixedBytes.asBytes_ofBytes (length_slice h)]
  constructor
  · intro hslice
    rw [hslice, i128OfBe_i128Be ⟨t.lower, t.upper⟩] at hread
    cases t
    cases hread
    rfl
  · rintro rfl
    rw [hread, i128Be_i128OfBe (length_slice h)]

/-- The ranges of the integers and the strings of a completion. -/
structure Typed (completion : FetchCompletion) : Prop where
  adapterKind : (Utf8.fromUtf8 completion.identity.adapter.kind.toList).isSome
  adapterVersion : (Utf8.fromUtf8 completion.identity.adapter.version.toList).isSome
  records : completion.acknowledged.records < u64Bound
  sourceBytes : completion.acknowledged.sourceBytes < u64Bound
  members : completion.members.attempted < u64Bound
  pages : completion.pages.attempted < u64Bound
  caps : ∀ usage ∈ completion.capUsage, CapTyped usage

/-- The first fields, the same in every record but for the flags. -/
@[mk_iff]
structure Framed (bytes : List UInt8) (flags : UInt16) : Prop where
  magic : slice bytes 0 8 = asciiBytes "EVRACM01"
  version : readU16 bytes 8 = acquisitionCompletionVersionV1
  schema : readU16 bytes 10 = acquisitionCompletionSchemaV1
  objectKind : readU16 bytes 12 = acquisitionCompletionObjectKindV1
  headerWidth : readU16 bytes 14 = .ofNat acquisitionCompletionHeaderBytesV1
  flags : readU16 bytes 16 = flags
  reserved : allZero (slice bytes 18 6) = true

/-- The fields of the completion that have one width. -/
@[mk_iff]
structure CoreReads (bytes : List UInt8) (completion : FetchCompletion) : Prop where
  retrievalId : readId bytes 24 = completion.identity.retrievalId
  planId : readId bytes 56 = completion.identity.planId
  planDigest : readId bytes 88 = completion.identity.planDigest
  startedAt : readTimestamp bytes 120 = completion.timing.startedAt
  endedAt : readTimestamp bytes 136 = completion.timing.endedAt
  records : (readU64 bytes 152).toNat = completion.acknowledged.records
  payloadBytes : (readU64 bytes 160).toNat = completion.acknowledged.payloadBytes
  sourceBytes : (readU64 bytes 168).toNat = completion.acknowledged.sourceBytes
  membersAttempted : (readU64 bytes 176).toNat = completion.members.attempted
  membersCompleted : (readU64 bytes 184).toNat = completion.members.completed
  pagesAttempted : (readU64 bytes 192).toNat = completion.pages.attempted
  pagesCompleted : (readU64 bytes 200).toNat = completion.pages.completed
  adapterOutcome : readU16 bytes 208 = encodeAdapterOutcome completion.adapterOutcome
  completenessKind : readU16 bytes 210 = (encodeCompleteness completion.completeness).1
  primaryTag : readU16 bytes 212 = (encodeCompleteness completion.completeness).2.tag
  primaryVersion : readU16 bytes 214 = (encodeCompleteness completion.completeness).2.version
  primaryCode : readU16 bytes 216 = (encodeCompleteness completion.completeness).2.code

/-- Lengths and counts as they stand in a header. -/
def declared (bytes : List UInt8) : DeclaredLengths where
  adapterKind := (readU32 bytes 220).toNat
  adapterVersion := (readU32 bytes 224).toNat
  firstCursor := (readU32 bytes 228).toNat
  finalCursor := (readU32 bytes 232).toNat
  continuation := (readU32 bytes 236).toNat
  highWaterCount := (readU32 bytes 240).toNat
  capUsageCount := (readU32 bytes 244).toNat
  errorCodeCount := (readU32 bytes 248).toNat
  partialReasonCount := (readU32 bytes 252).toNat
  highWaterSection := (readU32 bytes 256).toNat

/-- Lengths and counts of the parts of a completion. -/
def lengthsOf (completion : FetchCompletion) : DeclaredLengths where
  adapterKind := completion.identity.adapter.kind.length
  adapterVersion := completion.identity.adapter.version.length
  firstCursor := (optionalCursorBytes completion.boundaries.firstCursor).length
  finalCursor := (optionalCursorBytes completion.boundaries.finalCursor).length
  continuation := (optionalCursorBytes completion.completeness.continuation).length
  highWaterCount := completion.boundaries.highWaterMarks.length
  capUsageCount := completion.capUsage.length
  errorCodeCount := completion.errorCodes.length
  partialReasonCount := completion.completeness.partialReasons.length
  highWaterSection := marksLength completion.boundaries.highWaterMarks

/-- The header announces the parts of the completion. -/
@[mk_iff]
structure LengthsRead (bytes : List UInt8) (completion : FetchCompletion) : Prop where
  reserved : allZero (slice bytes 218 2) = true
  declared : declared bytes = lengthsOf completion
  total : (readU32 bytes 260).toNat = encodedLength completion
  unused : allZero (slice bytes 264 24) = true

theorem laid_completionHeader {completion : FetchCompletion} (hlength : 288 ≤ bytes.length)
    (hbounds : WithinBounds completion) (htyped : Typed completion) :
    Laid bytes 0 (completionHeader completion (headerLengths completion)) ↔
      Framed bytes (completionFlags completion) ∧ CoreReads bytes completion ∧
        LengthsRead bytes completion := by
  have hmagic : (asciiBytes "EVRACM01").length = 8 := by decide
  have hannounced := hbounds.announced_lt
  simp only [announced, List.forall_mem_cons] at hannounced
  obtain ⟨h1, h2, h3, h4, h5, h6, h7, h8, h9, h10, h11, _⟩ := hannounced
  have hpayload := completion.payload_le_source.trans_lt htyped.sourceBytes
  have hmembers := completion.members_completed_le.trans_lt htyped.members
  have hpages := completion.pages_completed_le.trans_lt htyped.pages
  simp only [completionHeader, headerLengths, announced, List.map_cons, List.map_nil,
    List.cons_append, List.nil_append, Laid, hmagic, length_u16Be, length_u32Be, length_u64Be,
    length_i128Be, length_zeros, HashId.length_asBytes, Nat.reduceAdd, and_true]
  rw [slice_eq_u16Be (by omega), slice_eq_u16Be (by omega), slice_eq_u16Be (by omega),
    slice_eq_u16Be (by omega), slice_eq_u16Be (by omega), slice_eq_zeros (by omega),
    slice_eq_idBytes (by omega), slice_eq_idBytes (by omega), slice_eq_idBytes (by omega),
    slice_eq_i128Be (by omega), slice_eq_i128Be (by omega),
    slice_eq_u64Be_ofNat (by omega) htyped.records, slice_eq_u64Be_ofNat (by omega) hpayload,
    slice_eq_u64Be_ofNat (by omega) htyped.sourceBytes,
    slice_eq_u64Be_ofNat (by omega) htyped.members, slice_eq_u64Be_ofNat (by omega) hmembers,
    slice_eq_u64Be_ofNat (by omega) htyped.pages, slice_eq_u64Be_ofNat (by omega) hpages,
    slice_eq_u16Be (by omega), slice_eq_u16Be (by omega), slice_eq_u16Be (by omega),
    slice_eq_u16Be (by omega), slice_eq_u16Be (by omega), slice_eq_zeros (by omega),
    slice_eq_u32Be_ofNat (by omega) h1, slice_eq_u32Be_ofNat (by omega) h2,
    slice_eq_u32Be_ofNat (by omega) h3, slice_eq_u32Be_ofNat (by omega) h4,
    slice_eq_u32Be_ofNat (by omega) h5, slice_eq_u32Be_ofNat (by omega) h6,
    slice_eq_u32Be_ofNat (by omega) h7, slice_eq_u32Be_ofNat (by omega) h8,
    slice_eq_u32Be_ofNat (by omega) h9, slice_eq_u32Be_ofNat (by omega) h10,
    slice_eq_u32Be_ofNat (by omega) h11, slice_eq_zeros (by omega)]
  simp only [framed_iff, coreReads_iff, lengthsRead_iff, declared, lengthsOf,
    DeclaredLengths.mk.injEq, and_assoc]

theorem length_completionHeader (completion : FetchCompletion) :
    (completionHeader completion (headerLengths completion)).flatten.length = 288 := by
  have hmagic : (asciiBytes "EVRACM01").length = 8 := by decide
  simp [completionHeader, headerLengths, announced, hmagic]

end Header

/-! ## The completion of a header and a body -/

theorem decodeCompleteness_eq_ok {kind : UInt16} {primary : EncodedCode}
    {partialReasons : List FetchPartialReason} {continuation : Option SourceCursor}
    {completeness : FetchCompleteness} :
    decodeCompleteness kind primary partialReasons continuation = .ok completeness ↔
      encodeCompleteness completeness = (kind, primary) ∧
        completeness.partialReasons = partialReasons ∧
        completeness.continuation = continuation := by
  obtain ⟨tag, version, code⟩ := primary
  unfold decodeCompleteness
  constructor
  · intro h
    split at h
    · rename_i hkind
      simp only [ite_error_eq_ok, except_map_eq_ok, not_or, not_not, Option.not_isSome_iff_eq_none,
        decodeCompletenessProof_eq_ok, ne_eq] at h
      obtain ⟨⟨rfl, rfl⟩, proof, hproof, rfl⟩ := h
      exact ⟨Prod.ext hkind.symm hproof, rfl, rfl⟩
    · split at h
      · rename_i hkind
        rw [ite_error_eq_ok] at h
        obtain ⟨hprimary, h⟩ := h
        simp only [not_or, not_not, ne_eq] at hprimary
        obtain ⟨rfl, rfl, rfl⟩ := hprimary
        cases partialReasons with
        | nil => cases h
        | cons first additional =>
            cases h
            exact ⟨Prod.ext hkind.symm rfl, rfl, rfl⟩
      · split at h
        · rename_i hkind
          simp only [ite_error_eq_ok, except_map_eq_ok, not_or, not_not,
            Option.not_isSome_iff_eq_none, decodeUnknownReason_eq_ok, ne_eq] at h
          obtain ⟨⟨rfl, rfl, rfl, rfl⟩, reason, rfl, rfl⟩ := h
          exact ⟨Prod.ext hkind.symm rfl, rfl, rfl⟩
        · cases h
  · rintro ⟨hencode, rfl, rfl⟩
    cases completeness with
    | complete proof =>
        obtain ⟨rfl, hproof⟩ := Prod.mk.inj hencode
        rw [if_pos rfl, if_neg (by simp [FetchCompleteness.partialReasons,
          FetchCompleteness.continuation]), decodeCompletenessProof_eq_ok.mpr hproof]
        rfl
    | partialFetch reasons continuation =>
        cases hencode
        rw [if_neg (by decide), if_pos rfl, if_neg (by decide)]
        rfl
    | unknown reason =>
        cases hencode
        rw [if_neg (by decide), if_neg (by decide), if_pos rfl,
          if_neg (by simp [FetchCompleteness.partialReasons, FetchCompleteness.continuation]),
          decodeUnknownReason_eq_ok.mpr rfl]
        rfl

theorem adapterIdentityOf_eq_ok {kind version : List UInt8} {adapter : AdapterIdentity} :
    adapterIdentityOf kind version = .ok adapter ↔
      adapter.kind.toList = kind ∧ adapter.version.toList = version := by
  unfold adapterIdentityOf
  constructor
  · intro h
    split at h
    · rename_i kindVec versionVec hkind hversion
      split at h
      · split at h
        · cases h
          exact ⟨toVec_eq_some.mp hkind, toVec_eq_some.mp hversion⟩
        · cases h
      · cases h
    · cases h
  · rintro ⟨rfl, rfl⟩
    have hkind : toVec adapter.kind.toList = some adapter.kind := toVec_eq_some.mpr rfl
    have hversion : toVec adapter.version.toList = some adapter.version := toVec_eq_some.mpr rfl
    rw [hkind, hversion]
    dsimp only
    rw [dif_pos adapter.kind_nonempty, dif_pos adapter.version_nonempty]

theorem completionOf_eq_ok {bytes : List UInt8} {body : CompletionBody}
    {completion : FetchCompletion} :
    completionOf bytes body = .ok completion ↔
      CoreReads bytes completion ∧ bodyOf completion = body := by
  simp only [completionOf, except_bind_eq_ok, mapError_eq_ok, decodeCompleteness_eq_ok,
    adapterIdentityOf_eq_ok, decodeAdapterOutcome_eq_ok, FetchCompletion.new_eq_ok]
  constructor
  · rintro ⟨_, ⟨hencode, hreasons, hcontinuation⟩, _, ⟨hkind, hversion⟩, _, houtcome, hidentity,
      htiming, hacknowledged, hmembers, hpages, hboundaries, hcaps, rfl, herrors, rfl⟩
    obtain ⟨hcompleteness, hprimary⟩ := Prod.mk.inj hencode.symm
    constructor
    · exact {
        retrievalId := congrArg FetchIdentity.retrievalId hidentity
        planId := congrArg FetchIdentity.planId hidentity
        planDigest := congrArg FetchIdentity.planDigest hidentity
        startedAt := congrArg FetchTiming.startedAt htiming
        endedAt := congrArg FetchTiming.endedAt htiming
        records := congrArg AcknowledgedCounts.records hacknowledged
        payloadBytes := congrArg AcknowledgedCounts.payloadBytes hacknowledged
        sourceBytes := congrArg AcknowledgedCounts.sourceBytes hacknowledged
        membersAttempted := congrArg AttemptCounts.attempted hmembers
        membersCompleted := congrArg AttemptCounts.completed hmembers
        pagesAttempted := congrArg AttemptCounts.attempted hpages
        pagesCompleted := congrArg AttemptCounts.completed hpages
        adapterOutcome := houtcome.symm
        completenessKind := hcompleteness
        primaryTag := congrArg EncodedCode.tag hprimary
        primaryVersion := congrArg EncodedCode.version hprimary
        primaryCode := congrArg EncodedCode.code hprimary }
    · obtain rfl := congrArg FetchIdentity.adapter hidentity
      cases body
      simp only [bodyOf, CompletionBody.mk.injEq]
      exact ⟨hkind, hversion, (congrArg FetchBoundaries.firstCursor hboundaries).symm,
        (congrArg FetchBoundaries.finalCursor hboundaries).symm, hcontinuation,
        (congrArg FetchBoundaries.highWaterMarks hboundaries).symm, hcaps.symm, herrors.symm,
        hreasons⟩
  · rintro ⟨hcore, rfl⟩
    refine ⟨completion.completeness, ⟨?_, rfl, rfl⟩, completion.identity.adapter, ⟨rfl, rfl⟩,
      completion.adapterOutcome, hcore.adapterOutcome.symm, ?_, ?_, ?_, ?_, ?_, rfl, rfl, rfl, rfl,
      rfl⟩
    · rw [hcore.completenessKind, hcore.primaryTag, hcore.primaryVersion, hcore.primaryCode]
    · rw [hcore.retrievalId, hcore.planId, hcore.planDigest]
    · rw [hcore.startedAt, hcore.endedAt]
    · rw [hcore.records, hcore.payloadBytes, hcore.sourceBytes]
    · rw [hcore.membersAttempted, hcore.membersCompleted]
    · rw [hcore.pagesAttempted, hcore.pagesCompleted]

/-! ## Lengths and flags -/

/-- What is checked of lengths, counts and the flags of the cursors. -/
structure Admissible (flags : UInt16) (lengths : DeclaredLengths) : Prop extends
    lengths.Capped where
  adapterKind : 0 < lengths.adapterKind ∧ lengths.adapterKind ≤ maxAcquisitionAdapterFieldBytesV1
  adapterVersion :
    0 < lengths.adapterVersion ∧ lengths.adapterVersion ≤ maxAcquisitionAdapterFieldBytesV1
  first : (flags &&& firstCursorPresent ≠ 0 ↔ lengths.firstCursor ≠ 0) ∧
    lengths.firstCursor ≤ maxAcquisitionCursorBytesV1
  final : (flags &&& finalCursorPresent ≠ 0 ↔ lengths.finalCursor ≠ 0) ∧
    lengths.finalCursor ≤ maxAcquisitionCursorBytesV1
  continuation : (flags &&& continuationPresent ≠ 0 ↔ lengths.continuation ≠ 0) ∧
    lengths.continuation ≤ maxAcquisitionCursorBytesV1

theorem checkedOptionalDeclaredLength_eq_ok {p : Prop} [Decidable p] {length : UInt32} {n : Nat} :
    checkedOptionalDeclaredLength (decide p) length = .ok n ↔
      ((p ↔ length.toNat ≠ 0) ∧ length.toNat ≤ maxAcquisitionCursorBytesV1) ∧
        length.toNat = n := by
  simp only [checkedOptionalDeclaredLength, ite_error_eq_ok, Except.ok.injEq, gt_iff_lt,
    Nat.not_lt, ne_eq, not_not, decide_eq_decide, and_assoc]

theorem checkedDeclaredCount_eq_ok {count : UInt32} {limit n : Nat} :
    checkedDeclaredCount count limit = .ok n ↔ count.toNat ≤ limit ∧ count.toNat = n := by
  simp only [checkedDeclaredCount, except_bind_eq_ok, Unique.exists_iff, PUnit.default_eq_unit,
    validateCount_eq_ok, Except.ok.injEq]

theorem readDeclaredLengths_eq_ok {bytes : List UInt8} {flags : UInt16}
    {lengths : DeclaredLengths} :
    readDeclaredLengths bytes flags = .ok lengths ↔
      Admissible flags lengths ∧ declared bytes = lengths := by
  simp only [readDeclaredLengths, except_bind_eq_ok, checkedNonemptyDeclaredLength_eq_ok,
    checkedOptionalDeclaredLength_eq_ok, checkedDeclaredCount_eq_ok, Except.ok.injEq]
  constructor
  · rintro ⟨_, ⟨hkind, rfl⟩, _, ⟨hversion, rfl⟩, _, ⟨hfirst, rfl⟩, _, ⟨hfinal, rfl⟩, _,
      ⟨hcontinuation, rfl⟩, _, ⟨hmarks, rfl⟩, _, ⟨hcaps, rfl⟩, _, ⟨herrors, rfl⟩, _,
      ⟨hreasons, rfl⟩, rfl⟩
    exact ⟨⟨⟨hmarks, hcaps, herrors, hreasons⟩, hkind, hversion, hfirst, hfinal,
      hcontinuation⟩, rfl⟩
  · rintro ⟨⟨⟨hmarks, hcaps, herrors, hreasons⟩, hkind, hversion, hfirst, hfinal, hcontinuation⟩,
      rfl⟩
    exact ⟨_, ⟨hkind, rfl⟩, _, ⟨hversion, rfl⟩, _, ⟨hfirst, rfl⟩, _, ⟨hfinal, rfl⟩, _,
      ⟨hcontinuation, rfl⟩, _, ⟨hmarks, rfl⟩, _, ⟨hcaps, rfl⟩, _, ⟨herrors, rfl⟩, _,
      ⟨hreasons, rfl⟩, rfl⟩

theorem expectedTotal_lengthsOf {completion : FetchCompletion} {n : Nat} :
    (lengthsOf completion).expectedTotal = some n ↔
      n = encodedLength completion ∧ n < u64Bound := by
  have hheader : acquisitionCompletionHeaderBytesV1 < u64Bound := by decide
  simp only [DeclaredLengths.expectedTotal, Option.bind_eq_bind, Option.bind_eq_some_iff,
    checkedMul_eq_some, foldlM_checkedAdd hheader, lengthsOf, List.sum_cons, List.sum_nil,
    encodedLength]
  constructor
  · rintro ⟨_, ⟨hcaps, rfl⟩, _, ⟨_, rfl⟩, _, ⟨_, rfl⟩, suffix, hsuffix, rfl, hlt⟩
    rw [foldlM_checkedAdd hcaps, List.sum_cons, List.sum_cons, List.sum_nil] at hsuffix
    omega
  · rintro ⟨rfl, hlt⟩
    refine ⟨_, ⟨by omega, rfl⟩, _, ⟨by omega, rfl⟩, _, ⟨by omega, rfl⟩, _,
      (foldlM_checkedAdd (by omega)).mpr ⟨rfl, ?_⟩, ?_, by omega⟩
    · rw [List.sum_cons, List.sum_cons, List.sum_nil]
      omega
    · rw [List.sum_cons, List.sum_cons, List.sum_nil]
      omega

theorem length_optionalCursorBytes_ne_zero {cursor : Option SourceCursor} :
    (optionalCursorBytes cursor).length ≠ 0 ↔ cursor.isSome = true := by
  cases cursor with
  | none => simp [optionalCursorBytes]
  | some cursor => simpa [optionalCursorBytes] using (length_asBytes_pos cursor).ne'

theorem flagsOf_present : ∀ first final continuation : Bool,
    flagsOf first final continuation &&& ~~~knownFlags = 0 ∧
      (flagsOf first final continuation &&& firstCursorPresent ≠ 0 ↔ first = true) ∧
      (flagsOf first final continuation &&& finalCursorPresent ≠ 0 ↔ final = true) ∧
      (flagsOf first final continuation &&& continuationPresent ≠ 0 ↔ continuation = true) := by
  decide

/-- Known flags are told by their bits. -/
theorem flags_eq {flags : UInt16} (h : flags &&& ~~~knownFlags = 0) :
    flags = flagsOf (flags &&& firstCursorPresent ≠ 0) (flags &&& finalCursorPresent ≠ 0)
      (flags &&& continuationPresent ≠ 0) := by
  have hall : ∀ n : Fin 8, UInt16.ofNat n =
      flagsOf (UInt16.ofNat n &&& firstCursorPresent ≠ 0)
        (UInt16.ofNat n &&& finalCursorPresent ≠ 0)
        (UInt16.ofNat n &&& continuationPresent ≠ 0) := by decide
  have hle : flags.toNat ≤ 7 := toNat_le_of_and_not h
  have hflags := hall ⟨flags.toNat, by omega⟩
  rwa [UInt16.ofNat_toNat] at hflags

theorem WithinBounds.admissible {completion : FetchCompletion} (h : WithinBounds completion) :
    Admissible (completionFlags completion) (lengthsOf completion) := by
  obtain ⟨_, hfirst, hfinal, hcontinuation⟩ := flagsOf_present
    completion.boundaries.firstCursor.isSome completion.boundaries.finalCursor.isSome
    completion.completeness.continuation.isSome
  exact {
    highWater := h.markCount
    capUsage := h.capCount
    errorCodes := h.errorCount
    partialReasons := h.reasonCount
    adapterKind :=
      ⟨List.length_pos_of_ne_nil completion.identity.adapter.kind_nonempty, h.adapterKind⟩
    adapterVersion :=
      ⟨List.length_pos_of_ne_nil completion.identity.adapter.version_nonempty, h.adapterVersion⟩
    first := ⟨hfirst.trans length_optionalCursorBytes_ne_zero.symm, h.firstCursor⟩
    final := ⟨hfinal.trans length_optionalCursorBytes_ne_zero.symm, h.finalCursor⟩
    continuation := ⟨hcontinuation.trans length_optionalCursorBytes_ne_zero.symm, h.continuation⟩ }

/-- Known flags that go with the lengths are the flags that are written. -/
theorem Admissible.flags_written {flags : UInt16} {completion : FetchCompletion}
    (h : Admissible flags (lengthsOf completion)) (hknown : flags &&& ~~~knownFlags = 0) :
    flags = completionFlags completion := by
  have hfirst := h.first.1.trans length_optionalCursorBytes_ne_zero
  have hfinal := h.final.1.trans length_optionalCursorBytes_ne_zero
  have hcontinuation := h.continuation.1.trans length_optionalCursorBytes_ne_zero
  rw [flags_eq hknown, completionFlags]
  simp only [hfirst, hfinal, hcontinuation, Bool.decide_eq_true]

/-! ## The record -/

theorem BodyMatches.lengths_eq {lengths : DeclaredLengths} {completion : FetchCompletion}
    (h : BodyMatches lengths (bodyOf completion)) : lengths = lengthsOf completion := by
  cases lengths
  simp only [lengthsOf, DeclaredLengths.mk.injEq]
  exact ⟨h.adapterKind.symm, h.adapterVersion.symm, h.firstCursor.symm, h.finalCursor.symm,
    h.continuation.symm, h.highWaterCount.symm, h.capUsageCount.symm, h.errorCodes.symm,
    h.partialReasons.symm, h.highWaterSection.symm⟩

theorem WithinBounds.bodyMatches {completion : FetchCompletion} (h : WithinBounds completion)
    (htyped : Typed completion) : BodyMatches (lengthsOf completion) (bodyOf completion) where
  kindUtf8 := htyped.adapterKind
  versionUtf8 := htyped.adapterVersion
  adapterKind := rfl
  adapterVersion := rfl
  firstCursor := rfl
  finalCursor := rfl
  continuation := rfl
  highWaterSection := rfl
  highWaterCount := rfl
  marks := h.marks
  capUsageCount := rfl
  capUsage := htyped.caps
  errorCodes := rfl
  partialReasons := rfl

/-- A completion that was read is within the bounds if its total is. -/
theorem Admissible.withinBounds {flags : UInt16} {completion : FetchCompletion}
    (h : Admissible flags (lengthsOf completion))
    (hmatches : BodyMatches (lengthsOf completion) (bodyOf completion))
    (htotal : encodedLength completion ≤ maxEncodedAcquisitionCompletionBytesV1) :
    WithinBounds completion where
  adapterKind := h.adapterKind.2
  adapterVersion := h.adapterVersion.2
  firstCursor := h.first.2
  finalCursor := h.final.2
  marks := hmatches.marks
  markCount := h.highWater
  capCount := h.capUsage
  errorCount := h.errorCodes
  reasonCount := h.partialReasons
  continuation := h.continuation.2
  total := htotal

/-- Values that were read are in the range of their type. -/
theorem CoreReads.typed {bytes : List UInt8} {completion : FetchCompletion}
    {lengths : DeclaredLengths} (h : CoreReads bytes completion)
    (hmatches : BodyMatches lengths (bodyOf completion)) : Typed completion where
  adapterKind := hmatches.kindUtf8
  adapterVersion := hmatches.versionUtf8
  records := h.records ▸ UInt64.toNat_lt _
  sourceBytes := h.sourceBytes ▸ UInt64.toNat_lt _
  members := h.membersAttempted ▸ UInt64.toNat_lt _
  pages := h.pagesAttempted ▸ UInt64.toNat_lt _
  caps := hmatches.capUsage

/-- The decoder accepts the encodings of completions and nothing else. -/
theorem decodeCompletion_eq_ok {bytes : List UInt8} {completion : FetchCompletion} :
    decodeCompletion bytes = .ok completion ↔
      encodeCompletion completion = .ok bytes ∧ Typed completion := by
  rw [encodeCompletion_eq_ok]
  simp only [decodeCompletion, ite_error_eq_ok, except_bind_eq_ok, okOr_eq_ok,
    readDeclaredLengths_eq_ok, Prod.exists, not_or, not_not, ne_eq, Nat.not_lt, gt_iff_lt,
    Bool.not_eq_false]
  constructor
  · rintro ⟨hlong, hmagic, hversion, hschema, hkind, hwidth, hflags, ⟨hone, htwo, hthree⟩, hcap,
      hlength, lengths, ⟨hadmissible, hdeclared⟩, _, htotal, rfl, body, _, hrun, rfl,
      hcompletion⟩
    obtain ⟨hcore, rfl⟩ := completionOf_eq_ok.mp hcompletion
    obtain ⟨hbody, hmatches⟩ := (reads_parseBody hadmissible.toCapped _ _ _).mp hrun
    obtain rfl := hmatches.lengths_eq
    obtain ⟨htotal, _⟩ := expectedTotal_lengthsOf.mp htotal
    have htyped := hcore.typed hmatches
    have hbounds := hadmissible.withinBounds hmatches (htotal ▸ hcap)
    rw [List.append_nil] at hbody
    refine ⟨⟨hbounds, (eq_flatten_append_iff (length_completionHeader completion)).mpr ⟨?_, hbody⟩⟩,
      htyped⟩
    rw [laid_completionHeader hlong hbounds htyped]
    exact ⟨⟨hmagic, hversion, hschema, hkind, UInt16.toNat_inj.mp hwidth,
      hadmissible.flags_written hflags, hone⟩, hcore, ⟨htwo, hdeclared, htotal, hthree⟩⟩
  · rintro ⟨⟨hbounds, hbytes⟩, htyped⟩
    have hlength : bytes.length = encodedLength completion := by
      rw [← hbytes, List.length_append, length_completionHeader]
      exact length_bodyBytes completion
    have hlong : 288 ≤ bytes.length := by
      rw [← hbytes, List.length_append, length_completionHeader]
      exact Nat.le_add_right _ _
    obtain ⟨hlaid, hbody⟩ := (eq_flatten_append_iff (length_completionHeader completion)).mp hbytes
    obtain ⟨hframed, hcore, hlengths⟩ := (laid_completionHeader hlong hbounds htyped).mp hlaid
    have hadmissible := hbounds.admissible
    rw [← hframed.flags] at hadmissible
    have hknown : readU16 bytes 16 &&& ~~~knownFlags = 0 := by
      rw [hframed.flags]
      exact (flagsOf_present _ _ _).1
    refine ⟨hlong, hframed.magic, hframed.version, hframed.schema, hframed.objectKind, ?_, hknown,
      ⟨hframed.reserved, hlengths.reserved, hlengths.unused⟩, hlengths.total.trans_le hbounds.total,
      hlengths.total.trans hlength.symm, lengthsOf completion, ⟨hadmissible, hlengths.declared⟩,
      encodedLength completion, ?_, hlengths.total.symm, bodyOf completion, [], ?_, rfl,
      completionOf_eq_ok.mpr ⟨hcore, rfl⟩⟩
    · rw [hframed.headerWidth]
      rfl
    · exact expectedTotal_lengthsOf.mpr ⟨rfl, hbounds.total.trans_lt (by decide)⟩
    · refine (reads_parseBody hadmissible.toCapped _ _ _).mpr ⟨?_, hbounds.bodyMatches htyped⟩
      rw [List.append_nil]
      exact hbody

/-- A completion within the bounds is written, in the length computed for it, and
read back; what is read is written back as it was. -/
theorem completion_record_lossless :
    (∀ completion, Typed completion → validateCompletionBounds completion = .ok () →
      ∃ bytes, encodeCompletion completion = .ok bytes ∧
        encodedLenFor completion = .ok bytes.length ∧
        decodeCompletion bytes = .ok completion) ∧
    ∀ bytes completion, decodeCompletion bytes = .ok completion →
      Typed completion ∧ validateCompletionBounds completion = .ok () ∧
        encodeCompletion completion = .ok bytes := by
  constructor
  · intro completion htyped hvalid
    have hbounds := validateCompletionBounds_eq_ok.mp hvalid
    have hencode := encodeCompletion_eq_ok.mpr ⟨hbounds, rfl⟩
    refine ⟨_, hencode, encodedLenFor_eq_ok.mpr ⟨?_, ?_⟩,
      decodeCompletion_eq_ok.mpr ⟨hencode, htyped⟩⟩
    · rw [List.length_append, length_completionHeader]
      exact length_bodyBytes completion
    · rw [List.length_append, length_completionHeader]
      exact ((length_bodyBytes completion).trans_le hbounds.total).trans_lt (by decide)
  · intro bytes completion hdecode
    obtain ⟨hencode, htyped⟩ := decodeCompletion_eq_ok.mp hdecode
    have hbounds := (encodeCompletion_eq_ok.mp hencode).1
    exact ⟨htyped, validateCompletionBounds_eq_ok.mpr hbounds, hencode⟩

/-- One byte as a value of an opaque type. -/
def opaqueByte {kind : OpaqueKind} (byte : UInt8) : OpaqueBytes kind :=
  ⟨Vec.singleton byte, List.cons_ne_nil byte []⟩

/-- A fetch that stopped in its second page: a cursor at one end, two marks of one
member, equal errors, and caps and reasons with codes of their own. -/
def stoppedCompletion : FetchCompletion where
  identity := replayIdentity
  timing := ⟨⟨-1777, by decide, by decide⟩, .epoch⟩
  acknowledged := ⟨3, 40, 43⟩
  members := ⟨3, 2⟩
  pages := ⟨2, 1⟩
  boundaries := ⟨some (opaqueByte 70), none,
    [⟨opaqueByte 71, opaqueByte 72⟩, ⟨opaqueByte 71, opaqueByte 73⟩]⟩
  capUsage := [⟨.pages, 2, 2, true⟩, ⟨.otherVersioned 3 4, 5, 9, false⟩]
  adapterOutcome := .sourceStopped
  errorCodes := [.networkFailure, .networkFailure]
  completeness := .partialFetch ⟨.pageCap, [.pageCap, .otherVersioned 1 7]⟩ (some (opaqueByte 74))
  started_le_ended := by decide
  members_completed_le := by decide
  pages_completed_le := by decide
  payload_le_source := by decide
  complete_finished h := Bool.noConfusion h

theorem completion_record_lossless_stopped :
    ∃ bytes, bytes.length = 452 ∧ encodeCompletion stoppedCompletion = .ok bytes ∧
      decodeCompletion bytes = .ok stoppedCompletion ∧ Typed stoppedCompletion := by
  have htyped : Typed stoppedCompletion := {
    adapterKind := by decide +kernel
    adapterVersion := by decide +kernel
    records := by decide
    sourceBytes := by decide
    members := by decide
    pages := by decide
    caps := by
      simp only [stoppedCompletion, List.forall_mem_cons]
      exact ⟨⟨by decide, by decide⟩, ⟨by decide, by decide⟩, List.forall_mem_nil _⟩ }
  obtain ⟨bytes, hencode, hlength, hdecode⟩ :=
    completion_record_lossless.1 stoppedCompletion htyped (by decide +kernel)
  have hcomputed : encodedLenFor stoppedCompletion = .ok 452 := by decide +kernel
  obtain ⟨_, _, hwritten⟩ := completion_record_lossless.2 bytes stoppedCompletion hdecode
  exact ⟨bytes, Except.ok.inj (hlength.symm.trans hcomputed), hwritten, hdecode, htyped⟩

end AcquisitionCompletion

end Snapshot

end Evidentrail
