import Evidentrail.Snapshot.AcquisitionCompletion

/-!
# The parts of a completion record

Behind the header the three traversals meet in two descriptions that do not
traverse: `bodyBytes` lays the parts behind each other, `encodedLength` adds their
lengths up. Within the bounds the writer writes the first
(`encodeCompletion_eq_ok`), and the parser reads it (`reads_parseBody`).
-/

namespace Evidentrail

open Rust Bytes

namespace Snapshot

namespace AcquisitionCompletion

/-! ## Lengths -/

def markLength (mark : HighWaterMark) : Nat :=
  acquisitionCompletionHighWaterPrefixBytesV1 + mark.member.asBytes.length +
    mark.cursor.asBytes.length

def marksLength (marks : List HighWaterMark) : Nat := (marks.map markLength).sum

/-- The length of the encoding of a completion. -/
def encodedLength (completion : FetchCompletion) : Nat :=
  acquisitionCompletionHeaderBytesV1 + completion.identity.adapter.kind.length +
    completion.identity.adapter.version.length +
    (optionalCursorBytes completion.boundaries.firstCursor).length +
    (optionalCursorBytes completion.boundaries.finalCursor).length +
    (optionalCursorBytes completion.completeness.continuation).length +
    marksLength completion.boundaries.highWaterMarks +
    completion.capUsage.length * acquisitionCompletionCapEntryBytesV1 +
    completion.errorCodes.length * acquisitionCompletionCodeEntryBytesV1 +
    completion.completeness.partialReasons.length * acquisitionCompletionCodeEntryBytesV1

theorem foldlM_checkedAdd {xs : List Nat} {start n : Nat} (hstart : start < u64Bound) :
    xs.foldlM checkedAdd start = some n ↔ n = start + xs.sum ∧ n < u64Bound := by
  induction xs generalizing start with
  | nil =>
      rw [List.foldlM_nil, List.sum_nil, Nat.add_zero]
      constructor
      · intro h
        cases h
        exact ⟨rfl, hstart⟩
      · rintro ⟨rfl, _⟩
        rfl
  | cons x rest ih =>
      rw [List.foldlM_cons, Option.bind_eq_bind, Option.bind_eq_some_iff, List.sum_cons]
      simp only [checkedAdd_eq_some]
      constructor
      · rintro ⟨_, ⟨hlt, rfl⟩, h⟩
        rw [ih hlt] at h
        omega
      · rintro ⟨rfl, hlt⟩
        exact ⟨start + x, ⟨by omega, rfl⟩, (ih (by omega)).mpr ⟨by omega, hlt⟩⟩

theorem addHighWaterMark_eq_some {length n : Nat} {mark : HighWaterMark} :
    addHighWaterMark length mark = some n ↔ n = length + markLength mark ∧ n < u64Bound := by
  simp only [addHighWaterMark, Option.bind_eq_bind, Option.bind_eq_some_iff, checkedAdd_eq_some,
    markLength]
  constructor
  · rintro ⟨_, ⟨_, rfl⟩, _, ⟨_, rfl⟩, hlt, rfl⟩
    omega
  · rintro ⟨rfl, hlt⟩
    exact ⟨_, ⟨by omega, rfl⟩, _, ⟨by omega, rfl⟩, by omega, by omega⟩

theorem foldlM_addHighWaterMark {marks : List HighWaterMark} {start n : Nat}
    (hstart : start < u64Bound) :
    marks.foldlM addHighWaterMark start = some n ↔
      n = start + marksLength marks ∧ n < u64Bound := by
  induction marks generalizing start with
  | nil =>
      rw [List.foldlM_nil, marksLength, List.map_nil, List.sum_nil, Nat.add_zero]
      constructor
      · intro h
        cases h
        exact ⟨rfl, hstart⟩
      · rintro ⟨rfl, _⟩
        rfl
  | cons mark rest ih =>
      rw [List.foldlM_cons, Option.bind_eq_bind, Option.bind_eq_some_iff, marksLength,
        List.map_cons, List.sum_cons, ← marksLength]
      simp only [addHighWaterMark_eq_some]
      constructor
      · rintro ⟨_, ⟨rfl, hlt⟩, h⟩
        rw [ih hlt] at h
        omega
      · rintro ⟨rfl, hlt⟩
        exact ⟨start + markLength mark, ⟨rfl, by omega⟩, (ih (by omega)).mpr ⟨by omega, hlt⟩⟩

theorem highWaterSectionLen_eq_ok {completion : FetchCompletion} {n : Nat} :
    highWaterSectionLen completion = .ok n ↔
      n = marksLength completion.boundaries.highWaterMarks ∧ n < u64Bound := by
  rw [highWaterSectionLen, okOr_eq_ok, foldlM_addHighWaterMark (by decide), Nat.zero_add]

theorem encodedLenFor_eq_ok {completion : FetchCompletion} {n : Nat} :
    encodedLenFor completion = .ok n ↔ n = encodedLength completion ∧ n < u64Bound := by
  have hheader : acquisitionCompletionHeaderBytesV1 < u64Bound := by decide
  simp only [encodedLenFor, okOr_eq_ok, Option.bind_eq_bind, Option.bind_eq_some_iff,
    foldlM_checkedAdd hheader, List.sum_cons, List.sum_nil, checkedMul_eq_some,
    checkedAdd_eq_some, encodedLength]
  constructor
  · rintro ⟨_, ⟨rfl, hfields⟩, _, hmarks, _, ⟨_, rfl⟩, _, ⟨_, rfl⟩, _, ⟨_, rfl⟩, _, ⟨_, rfl⟩, _,
      ⟨_, rfl⟩, hlt, rfl⟩
    rw [foldlM_addHighWaterMark hfields] at hmarks
    omega
  · rintro ⟨rfl, hlt⟩
    refine ⟨_, ⟨rfl, by omega⟩, _, (foldlM_addHighWaterMark (by omega)).mpr ⟨rfl, by omega⟩, _,
      ⟨by omega, rfl⟩, _, ⟨by omega, rfl⟩, _, ⟨by omega, rfl⟩, _, ⟨by omega, rfl⟩, _,
      ⟨by omega, rfl⟩, by omega, by omega⟩

/-! ## Bounds -/

/-- What `validate_completion_bounds` asks for. -/
structure WithinBounds (completion : FetchCompletion) : Prop where
  adapterKind : completion.identity.adapter.kind.length ≤ maxAcquisitionAdapterFieldBytesV1
  adapterVersion : completion.identity.adapter.version.length ≤ maxAcquisitionAdapterFieldBytesV1
  firstCursor :
    (optionalCursorBytes completion.boundaries.firstCursor).length ≤ maxAcquisitionCursorBytesV1
  finalCursor :
    (optionalCursorBytes completion.boundaries.finalCursor).length ≤ maxAcquisitionCursorBytesV1
  marks : ∀ mark ∈ completion.boundaries.highWaterMarks,
    mark.member.asBytes.length ≤ maxAcquisitionSourceMemberBytesV1 ∧
      mark.cursor.asBytes.length ≤ maxAcquisitionCursorBytesV1
  markCount : completion.boundaries.highWaterMarks.length ≤ maxAcquisitionHighWaterMarksV1
  capCount : completion.capUsage.length ≤ maxAcquisitionCapUsagesV1
  errorCount : completion.errorCodes.length ≤ maxAcquisitionErrorCodesV1
  reasonCount : completion.completeness.partialReasons.length ≤ maxAcquisitionPartialReasonsV1
  continuation :
    (optionalCursorBytes completion.completeness.continuation).length ≤ maxAcquisitionCursorBytesV1
  total : encodedLength completion ≤ maxEncodedAcquisitionCompletionBytesV1

theorem length_asBytes_pos {kind : OpaqueKind} (value : OpaqueBytes kind) :
    0 < value.asBytes.length :=
  List.length_pos_of_ne_nil value.nonempty

theorem validateNonemptyLength_eq_ok {length limit : Nat}
    {tooLong : AcquisitionCompletionRecordErrorV1} :
    validateNonemptyLength length limit tooLong = .ok () ↔ 0 < length ∧ length ≤ limit := by
  simp only [validateNonemptyLength, ite_error_eq_ok, gt_iff_lt, Nat.not_lt, and_true]
  omega

theorem validateOptionalCursor_eq_ok {cursor : Option SourceCursor} :
    validateOptionalCursor cursor = .ok () ↔
      (optionalCursorBytes cursor).length ≤ maxAcquisitionCursorBytesV1 := by
  cases cursor with
  | none => exact ⟨fun _ => Nat.zero_le _, fun _ => rfl⟩
  | some cursor =>
      rw [validateOptionalCursor, validateNonemptyLength_eq_ok]
      exact and_iff_right (length_asBytes_pos cursor)

theorem validateCount_eq_ok {count limit : Nat} :
    validateCount count limit = .ok () ↔ count ≤ limit := by
  rw [validateCount, ite_error_eq_ok, gt_iff_lt, Nat.not_lt, and_iff_left rfl]

theorem validateCompleteness_eq_ok {completeness : FetchCompleteness} :
    validateCompleteness completeness = .ok () ↔
      completeness.partialReasons.length ≤ maxAcquisitionPartialReasonsV1 ∧
        (optionalCursorBytes completeness.continuation).length ≤ maxAcquisitionCursorBytesV1 := by
  cases completeness with
  | complete proof => exact ⟨fun _ => ⟨Nat.zero_le _, Nat.zero_le _⟩, fun _ => rfl⟩
  | unknown reason => exact ⟨fun _ => ⟨Nat.zero_le _, Nat.zero_le _⟩, fun _ => rfl⟩
  | partialFetch reasons continuation =>
      rw [validateCompleteness, except_bind_eq_ok]
      simp only [validateCount_eq_ok, validateOptionalCursor_eq_ok,
        FetchCompleteness.partialReasons, FetchCompleteness.continuation, Unique.exists_iff,
        PUnit.default_eq_unit]

theorem validateCompletionBounds_eq_ok {completion : FetchCompletion} :
    validateCompletionBounds completion = .ok () ↔ WithinBounds completion := by
  have hkind := List.length_pos_of_ne_nil completion.identity.adapter.kind_nonempty
  have hversion := List.length_pos_of_ne_nil completion.identity.adapter.version_nonempty
  simp only [validateCompletionBounds, except_bind_eq_ok, Unique.exists_iff,
    PUnit.default_eq_unit, forM_eq_ok, validateNonemptyLength_eq_ok,
    validateOptionalCursor_eq_ok, validateCount_eq_ok, validateCompleteness_eq_ok,
    encodedLenFor_eq_ok, ite_error_eq_ok, gt_iff_lt, Nat.not_lt]
  constructor
  · rintro ⟨⟨_, hkind⟩, ⟨_, hversion⟩, hfirst, hfinal, hmarks, hmarkCount, hcaps, herrors,
      ⟨hreasons, hcontinuation⟩, _, ⟨rfl, _⟩, htotal, _⟩
    exact ⟨hkind, hversion, hfirst, hfinal, fun mark hmark =>
      ⟨(hmarks mark hmark).1.2, (hmarks mark hmark).2.2⟩, hmarkCount, hcaps, herrors, hreasons,
      hcontinuation, htotal⟩
  · intro h
    refine ⟨⟨hkind, h.adapterKind⟩, ⟨hversion, h.adapterVersion⟩, h.firstCursor, h.finalCursor,
      fun mark hmark => ⟨⟨length_asBytes_pos _, (h.marks mark hmark).1⟩, length_asBytes_pos _,
        (h.marks mark hmark).2⟩, h.markCount, h.capCount, h.errorCount,
      ⟨h.reasonCount, h.continuation⟩, _, ⟨rfl, ?_⟩, h.total, trivial⟩
    exact h.total.trans_lt (by decide)

/-! ## What is written -/

theorem usizeToU32_eq_ok {value : Nat} {x : UInt32} :
    usizeToU32 value = .ok x ↔ value < 2 ^ 32 ∧ UInt32.ofNat value = x := by
  unfold usizeToU32
  split <;> simp_all

theorem mapM_usizeToU32 {values : List Nat} {xs : List UInt32} :
    values.mapM usizeToU32 = .ok xs ↔ (∀ value ∈ values, value < 2 ^ 32) ∧
      values.map UInt32.ofNat = xs := by
  induction values generalizing xs with
  | nil => simp [pure, Except.pure]
  | cons value rest ih =>
      simp only [List.mapM_cons, except_bind_eq_ok, usizeToU32_eq_ok, ih, List.forall_mem_cons,
        List.map_cons]
      constructor
      · rintro ⟨_, ⟨hvalue, rfl⟩, _, ⟨hrest, rfl⟩, h⟩
        exact ⟨⟨hvalue, hrest⟩, Except.ok.inj h⟩
      · rintro ⟨⟨hvalue, hrest⟩, rfl⟩
        exact ⟨_, ⟨hvalue, rfl⟩, _, ⟨hrest, rfl⟩, rfl⟩

/-- The entry of a mark. -/
def markBytes (ordinal : Nat) (mark : HighWaterMark) : List UInt8 :=
  u32Be (.ofNat ordinal) ++ u32Be (.ofNat mark.member.asBytes.length)
    ++ u32Be (.ofNat mark.cursor.asBytes.length) ++ u32Be 0 ++ mark.member.asBytes
    ++ mark.cursor.asBytes

theorem length_markBytes (ordinal : Nat) (mark : HighWaterMark) :
    (markBytes ordinal mark).length = markLength mark := by
  simp only [markBytes, markLength, acquisitionCompletionHighWaterPrefixBytesV1,
    List.length_append, length_u32Be]

theorem length_listBytes_markBytes (ordinal : Nat) (marks : List HighWaterMark) :
    (Parser.listBytes markBytes ordinal marks).length = marksLength marks := by
  induction marks generalizing ordinal with
  | nil => rfl
  | cons mark rest ih =>
      rw [Parser.listBytes, List.length_append, length_markBytes, ih, marksLength, marksLength,
        List.map_cons, List.sum_cons]

theorem encodeHighWaterMarks_eq_ok {marks : List HighWaterMark} {ordinal : Nat}
    {bytes : List UInt8} :
    encodeHighWaterMarks ordinal marks = .ok bytes ↔
      (∀ mark ∈ marks, mark.member.asBytes.length < 2 ^ 32 ∧
        mark.cursor.asBytes.length < 2 ^ 32) ∧
      Parser.listBytes markBytes ordinal marks = bytes := by
  induction marks generalizing ordinal bytes with
  | nil => simp [encodeHighWaterMarks, Parser.listBytes]
  | cons mark rest ih =>
      simp only [encodeHighWaterMarks, except_bind_eq_ok, usizeToU32_eq_ok, ih,
        List.forall_mem_cons, Parser.listBytes, markBytes, Except.ok.injEq]
      constructor
      · rintro ⟨_, ⟨hmember, rfl⟩, _, ⟨hcursor, rfl⟩, _, ⟨hrest, rfl⟩, rfl⟩
        exact ⟨⟨⟨hmember, hcursor⟩, hrest⟩, rfl⟩
      · rintro ⟨⟨⟨hmember, hcursor⟩, hrest⟩, rfl⟩
        exact ⟨_, ⟨hmember, rfl⟩, _, ⟨hcursor, rfl⟩, _, ⟨hrest, rfl⟩, rfl⟩

def errorEntry (ordinal : Nat) (code : FetchErrorCode) : List UInt8 :=
  encodeCodeEntry ordinal (encodeErrorCode code)

def reasonEntry (ordinal : Nat) (reason : FetchPartialReason) : List UInt8 :=
  encodeCodeEntry ordinal (encodePartialReason reason)

/-- The parts of a completion behind the header. -/
def bodyOf (completion : FetchCompletion) : CompletionBody where
  adapterKind := completion.identity.adapter.kind.toList
  adapterVersion := completion.identity.adapter.version.toList
  firstCursor := completion.boundaries.firstCursor
  finalCursor := completion.boundaries.finalCursor
  continuation := completion.completeness.continuation
  highWaterMarks := completion.boundaries.highWaterMarks
  capUsage := completion.capUsage
  errorCodes := completion.errorCodes
  partialReasons := completion.completeness.partialReasons

def bodyBytes (body : CompletionBody) : List UInt8 :=
  body.adapterKind ++ (body.adapterVersion ++ (optionalCursorBytes body.firstCursor ++
    (optionalCursorBytes body.finalCursor ++ (optionalCursorBytes body.continuation ++
      (Parser.listBytes markBytes 0 body.highWaterMarks ++
        (Parser.listBytes encodeCapUsage 0 body.capUsage ++
          (Parser.listBytes errorEntry 0 body.errorCodes ++
            Parser.listBytes reasonEntry 0 body.partialReasons)))))))

/-- The lengths and counts in the header of a completion. -/
def headerLengths (completion : FetchCompletion) : List UInt32 :=
  (announced completion (marksLength completion.boundaries.highWaterMarks)
    (encodedLength completion)).map .ofNat

theorem length_encodeCapUsage (ordinal : Nat) (usage : CapUsage) :
    (encodeCapUsage ordinal usage).length = acquisitionCompletionCapEntryBytesV1 := by
  simp [encodeCapUsage, acquisitionCompletionCapEntryBytesV1]

theorem length_encodeCodeEntry (ordinal : Nat) (code : EncodedCode) :
    (encodeCodeEntry ordinal code).length = acquisitionCompletionCodeEntryBytesV1 := by
  simp [encodeCodeEntry, acquisitionCompletionCodeEntryBytesV1]

theorem length_errorEntry (ordinal : Nat) (code : FetchErrorCode) :
    (errorEntry ordinal code).length = acquisitionCompletionCodeEntryBytesV1 :=
  length_encodeCodeEntry ordinal _

theorem length_reasonEntry (ordinal : Nat) (reason : FetchPartialReason) :
    (reasonEntry ordinal reason).length = acquisitionCompletionCodeEntryBytesV1 :=
  length_encodeCodeEntry ordinal _

theorem length_bodyBytes (completion : FetchCompletion) :
    acquisitionCompletionHeaderBytesV1 + (bodyBytes (bodyOf completion)).length =
      encodedLength completion := by
  simp only [bodyBytes, bodyOf, List.length_append, length_listBytes_markBytes,
    Parser.length_listBytes length_encodeCapUsage, Parser.length_listBytes length_errorEntry,
    Parser.length_listBytes length_reasonEntry, encodedLength, Vec.length]
  omega

theorem WithinBounds.announced_lt {completion : FetchCompletion} (h : WithinBounds completion) :
    ∀ value ∈ announced completion (marksLength completion.boundaries.highWaterMarks)
      (encodedLength completion), value < 2 ^ 32 := by
  obtain ⟨_, _, _, _, _, hmarks, hcaps, herrors, hreasons, _, htotal⟩ := h
  simp only [maxAcquisitionHighWaterMarksV1, maxAcquisitionCapUsagesV1,
    maxAcquisitionErrorCodesV1, maxAcquisitionPartialReasonsV1,
    maxEncodedAcquisitionCompletionBytesV1] at hmarks hcaps herrors hreasons htotal
  have hsum := htotal
  simp only [encodedLength] at hsum
  simp only [announced, List.forall_mem_cons]
  refine ⟨?_, ?_, ?_, ?_, ?_, ?_, ?_, ?_, ?_, ?_, ?_, nofun⟩ <;> omega

theorem encodeCompletion_eq_ok {completion : FetchCompletion} {bytes : List UInt8} :
    encodeCompletion completion = .ok bytes ↔ WithinBounds completion ∧
      (completionHeader completion (headerLengths completion)).flatten ++
        bodyBytes (bodyOf completion) = bytes := by
  simp only [encodeCompletion, except_bind_eq_ok, Unique.exists_iff, PUnit.default_eq_unit,
    validateCompletionBounds_eq_ok, encodedLenFor_eq_ok, highWaterSectionLen_eq_ok,
    mapM_usizeToU32, encodeHighWaterMarks_eq_ok, Except.ok.injEq]
  constructor
  · rintro ⟨hbounds, _, ⟨rfl, _⟩, _, ⟨rfl, _⟩, _, ⟨_, rfl⟩, _, ⟨_, rfl⟩, rfl⟩
    refine ⟨hbounds, ?_⟩
    simp only [headerLengths, bodyBytes, bodyOf, List.append_assoc]
    rfl
  · rintro ⟨hbounds, rfl⟩
    have hannounced := hbounds.announced_lt
    have htotal := hannounced _ (by simp [announced] : encodedLength completion ∈ _)
    have hsection := hannounced _
      (by simp [announced] : marksLength completion.boundaries.highWaterMarks ∈ _)
    refine ⟨hbounds, _, ⟨rfl, htotal.trans (by decide)⟩, _, ⟨rfl, hsection.trans (by decide)⟩, _,
      ⟨hannounced, rfl⟩, _, ⟨fun mark hmark => ?_, rfl⟩, ?_⟩
    · obtain ⟨hmember, hcursor⟩ := hbounds.marks mark hmark
      simp only [maxAcquisitionSourceMemberBytesV1, maxAcquisitionCursorBytesV1] at hmember hcursor
      omega
    · simp only [headerLengths, bodyBytes, bodyOf, List.append_assoc]
      rfl

/-! ## What is read -/

section Read

open Parser

theorem toVec_eq_some {bytes : List UInt8} {vec : Vec UInt8} :
    toVec bytes = some vec ↔ vec.toList = bytes := by
  unfold toVec
  constructor
  · intro h
    split at h
    · cases h
      rfl
    · cases h
  · rintro rfl
    rw [dif_pos vec.length_lt]

theorem opaqueOf_eq_ok {kind : OpaqueKind} {bytes : List UInt8} {value : OpaqueBytes kind} :
    opaqueOf kind bytes = .ok value ↔ value.asBytes = bytes := by
  unfold opaqueOf
  constructor
  · intro h
    split at h
    · rename_i vec hvec
      split at h
      · cases h
        exact toVec_eq_some.mp hvec
      · cases h
    · cases h
  · rintro rfl
    have hvec : toVec value.asBytes = some value.bytes := toVec_eq_some.mpr rfl
    rw [hvec]
    exact dif_pos value.nonempty

theorem parseString_eq_ok {bytes parsed : List UInt8} :
    parseString bytes = .ok parsed ↔ (Utf8.fromUtf8 parsed).isSome ∧ parsed = bytes := by
  unfold parseString
  split
  · rename_i h
    constructor
    · intro hparsed
      cases hparsed
      exact ⟨h, rfl⟩
    · rintro ⟨_, rfl⟩
      rfl
  · rename_i h
    constructor
    · intro hparsed
      cases hparsed
    · rintro ⟨hvalid, rfl⟩
      exact absurd hvalid h

theorem checkedNonemptyDeclaredLength_eq_ok {length : UInt32} {limit n : Nat}
    {tooLong : AcquisitionCompletionRecordErrorV1} :
    checkedNonemptyDeclaredLength length limit tooLong = .ok n ↔
      (0 < length.toNat ∧ length.toNat ≤ limit) ∧ length.toNat = n := by
  simp only [checkedNonemptyDeclaredLength, except_bind_eq_ok, Unique.exists_iff,
    PUnit.default_eq_unit, validateNonemptyLength_eq_ok, Except.ok.injEq]

theorem reads_parseOptionalCursor (length : Nat) :
    Reads (parseOptionalCursor length) optionalCursorBytes
      fun cursor => (optionalCursorBytes cursor).length = length := by
  intro bytes cursor rest
  unfold parseOptionalCursor
  split
  · rename_i hzero
    rw [pure_eq_ok, hzero]
    constructor
    · rintro ⟨rfl, rfl⟩
      exact ⟨rfl, rfl⟩
    · rintro ⟨rfl, hlength⟩
      cases cursor with
      | none => exact ⟨rfl, rfl⟩
      | some cursor => exact absurd hlength (length_asBytes_pos cursor).ne'
  · rename_i hpositive
    simp only [take, bind_eq_ok, map_eq_ok, ofExcept_eq_ok, take_eq_ok, opaqueOf_eq_ok]
    constructor
    · rintro ⟨_, _, ⟨rfl, hlength⟩, cursor, ⟨rfl, rfl⟩, rfl⟩
      exact ⟨rfl, hlength⟩
    · rintro ⟨rfl, hlength⟩
      cases cursor with
      | none => exact absurd hlength.symm hpositive
      | some cursor => exact ⟨cursor.asBytes, rest, ⟨rfl, hlength⟩, cursor, ⟨rfl, rfl⟩, rfl⟩

/-- A length within its limit is announced as it is. -/
theorem declared_length {kind : OpaqueKind} {limit : Nat} (value : OpaqueBytes kind)
    (hvalue : value.asBytes.length ≤ limit) (hlimit : limit < 2 ^ 32) :
    (UInt32.ofNat value.asBytes.length).toNat = value.asBytes.length ∧
      (0 < (UInt32.ofNat value.asBytes.length).toNat ∧
        (UInt32.ofNat value.asBytes.length).toNat ≤ limit) := by
  rw [UInt32.toNat_ofNat_of_lt' (hvalue.trans_lt hlimit)]
  exact ⟨rfl, length_asBytes_pos value, hvalue⟩

/-- The lengths of a mark within their limits. -/
def MarkFits (mark : HighWaterMark) : Prop :=
  mark.member.asBytes.length ≤ maxAcquisitionSourceMemberBytesV1 ∧
    mark.cursor.asBytes.length ≤ maxAcquisitionCursorBytesV1

theorem reads_decodeHighWaterMark (ordinal : Nat) (hordinal : ordinal < 2 ^ 32) :
    Reads (decodeHighWaterMark ordinal) (markBytes ordinal) MarkFits := by
  rintro bytes ⟨member, cursor⟩ rest
  simp only [decodeHighWaterMark, take, takeU32, bind_eq_ok, ofExcept_eq_ok, ensure_eq_ok,
    take_eq_ok, takeU32_eq_ok, pure_eq_ok, usizeToU32_eq_ok, opaqueOf_eq_ok,
    checkedNonemptyDeclaredLength_eq_ok, HighWaterMark.mk.injEq]
  constructor
  · rintro ⟨_, _, rfl, _, _, ⟨⟨_, rfl⟩, rfl⟩, _, _, ⟨rfl, rfl⟩, memberLength, _, rfl, _, _,
      ⟨⟨hmember, rfl⟩, rfl⟩, cursorLength, _, rfl, _, _, ⟨⟨hcursor, rfl⟩, rfl⟩, _, _, rfl, _, _,
      ⟨rfl, rfl⟩, _, _, ⟨rfl, hmemberLength⟩, _, _, ⟨rfl, rfl⟩, _, _, ⟨rfl, hcursorLength⟩, _, _,
      ⟨rfl, rfl⟩, ⟨rfl, rfl⟩, rfl⟩
    refine ⟨?_, ?_, ?_⟩
    · rw [markBytes, hmemberLength, hcursorLength, UInt32.ofNat_toNat, UInt32.ofNat_toNat]
      simp only [List.append_assoc]
    · exact hmemberLength.trans_le hmember.2
    · exact hcursorLength.trans_le hcursor.2
  · rintro ⟨rfl, hmember, hcursor⟩
    obtain ⟨hmemberLength, hmemberFits⟩ := declared_length member hmember (by decide)
    obtain ⟨hcursorLength, hcursorFits⟩ := declared_length cursor hcursor (by decide)
    simp only [markBytes, List.append_assoc]
    exact ⟨_, _, rfl, _, _, ⟨⟨hordinal, rfl⟩, rfl⟩, (), _, ⟨rfl, rfl⟩, _, _, rfl, _, _,
      ⟨⟨hmemberFits, rfl⟩, rfl⟩, _, _, rfl, _, _, ⟨⟨hcursorFits, rfl⟩, rfl⟩, _, _, rfl, (), _,
      ⟨rfl, rfl⟩, _, _, ⟨rfl, hmemberLength.symm⟩, _, _, ⟨rfl, rfl⟩, _, _,
      ⟨rfl, hcursorLength.symm⟩, _, _, ⟨rfl, rfl⟩, ⟨rfl, rfl⟩, rfl⟩

/-! ### Flags -/

theorem toNat_le_of_and_not {flags mask : UInt16} (h : flags &&& ~~~mask = 0) :
    flags.toNat ≤ mask.toNat := by
  have hflags : flags = flags &&& mask := by
    apply UInt16.toBitVec_inj.mp
    have hbits := congrArg UInt16.toBitVec h
    ext i hi
    have hbit := congrArg (·.getLsbD i) hbits
    simp only [UInt16.toBitVec_and, UInt16.toBitVec_not, BitVec.getLsbD_and, BitVec.getLsbD_not,
      UInt16.toBitVec_ofNat, BitVec.getLsbD_zero, Bool.and_eq_false_imp, decide_eq_true_eq,
      Bool.not_eq_eq_eq_not, Bool.not_false, BitVec.getElem_and, Bool.eq_self_and] at hbit ⊢
    exact fun hflag => hbit hflag hi
  rw [hflags, UInt16.toNat_and]
  exact Nat.and_le_right

/-- Flags of which only the first can be set. -/
theorem reached_flags {flags : UInt16} :
    flags &&& ~~~1 = 0 ↔ flags = if flags &&& 1 ≠ 0 then 1 else 0 := by
  have hall : ∀ n : Fin 2,
      UInt16.ofNat n = if UInt16.ofNat n &&& 1 ≠ 0 then 1 else 0 := by decide
  constructor
  · intro h
    have hle : flags.toNat ≤ 1 := toNat_le_of_and_not h
    have hflags := hall ⟨flags.toNat, by omega⟩
    rwa [UInt16.ofNat_toNat] at hflags
  · intro h
    rw [h]
    split <;> decide

theorem reached_bit : ∀ reached : Bool, (if reached then 1 else 0 : UInt16) &&& ~~~1 = 0 ∧
    decide ((if reached then 1 else 0 : UInt16) &&& 1 ≠ 0) = reached := by
  decide

/-! ### Entries of fixed width -/

/-- The numbers of a cap are `u64`. -/
def CapTyped (usage : CapUsage) : Prop := usage.used < u64Bound ∧ usage.limit < u64Bound

theorem reads_decodeCapUsage (ordinal : Nat) (hordinal : ordinal < 2 ^ 32) :
    Reads (decodeCapUsage ordinal) (encodeCapUsage ordinal) CapTyped := by
  rintro bytes ⟨kind, used, limit, reached⟩ rest
  simp only [decodeCapUsage, takeU16, takeU32, takeU64, bind_eq_ok, ofExcept_eq_ok, ensure_eq_ok,
    takeU16_eq_ok, takeU32_eq_ok, takeU64_eq_ok, pure_eq_ok, usizeToU32_eq_ok,
    decodeCapKind_eq_ok, CapUsage.mk.injEq]
  constructor
  · rintro ⟨_, _, rfl, _, _, ⟨⟨_, rfl⟩, rfl⟩, _, _, ⟨rfl, rfl⟩, tag, _, rfl, flags, _, rfl, _, _,
      ⟨hflags, rfl⟩, version, _, rfl, code, _, rfl, _, _, rfl, _, _, ⟨rfl, rfl⟩, used, _, rfl,
      limit, _, rfl, kind, _, ⟨hkind, rfl⟩, ⟨rfl, rfl, rfl, rfl⟩, rfl⟩
    refine ⟨?_, used.toNat_lt, limit.toNat_lt⟩
    have hreached := reached_flags.mp hflags
    simp only [encodeCapUsage, hkind, UInt64.ofNat_toNat, decide_eq_true_eq, ← hreached,
      List.append_assoc]
  · rintro ⟨rfl, hused, hlimit⟩
    simp only [encodeCapUsage, List.append_assoc]
    refine ⟨_, _, rfl, _, _, ⟨⟨hordinal, rfl⟩, rfl⟩, (), _, ⟨rfl, rfl⟩, _, _, rfl, _, _, rfl, (),
      _, ⟨?_, rfl⟩, _, _, rfl, _, _, rfl, _, _, rfl, (), _, ⟨rfl, rfl⟩, _, _, rfl, _, _, rfl, kind,
      _, ⟨rfl, rfl⟩, ⟨rfl, ?_, ?_, ?_⟩, rfl⟩
    · exact (reached_bit reached).1
    · exact UInt64.toNat_ofNat_of_lt' hused
    · exact UInt64.toNat_ofNat_of_lt' hlimit
    · exact (reached_bit reached).2

theorem reads_decodeCoded {α : Type} {decode : EncodedCode → CompletionResult α}
    {encode : α → EncodedCode}
    (hcode : ∀ encoded value, decode encoded = .ok value ↔ encode value = encoded) (ordinal : Nat)
    (hordinal : ordinal < 2 ^ 32) :
    Reads (decodeCoded decode ordinal) (fun value => encodeCodeEntry ordinal (encode value))
      fun _ => True := by
  intro bytes value rest
  simp only [decodeCoded, decodeCodeEntry, takeU16, takeU32, bind_eq_ok, ofExcept_eq_ok,
    ensure_eq_ok, takeU16_eq_ok, takeU32_eq_ok, pure_eq_ok, usizeToU32_eq_ok, hcode, and_true]
  constructor
  · rintro ⟨_, _, ⟨_, _, rfl, _, _, ⟨⟨_, rfl⟩, rfl⟩, _, _, ⟨rfl, rfl⟩, tag, _, rfl, version, _, rfl,
      code, _, rfl, _, _, rfl, _, _, ⟨rfl, rfl⟩, rfl, rfl⟩, hvalue, rfl⟩
    simp only [encodeCodeEntry, hvalue, List.append_assoc]
  · rintro rfl
    simp only [encodeCodeEntry, List.append_assoc]
    exact ⟨_, _, ⟨_, _, rfl, _, _, ⟨⟨hordinal, rfl⟩, rfl⟩, (), _, ⟨rfl, rfl⟩, _, _, rfl, _, _, rfl,
      _, _, rfl, _, _, rfl, (), _, ⟨rfl, rfl⟩, rfl, rfl⟩, rfl, rfl⟩

/-! ### The body -/

/-- Counts that `decode_completion` lets through. -/
structure DeclaredLengths.Capped (lengths : DeclaredLengths) : Prop where
  highWater : lengths.highWaterCount ≤ maxAcquisitionHighWaterMarksV1
  capUsage : lengths.capUsageCount ≤ maxAcquisitionCapUsagesV1
  errorCodes : lengths.errorCodeCount ≤ maxAcquisitionErrorCodesV1
  partialReasons : lengths.partialReasonCount ≤ maxAcquisitionPartialReasonsV1

/-- A body with these lengths and counts. -/
structure BodyMatches (lengths : DeclaredLengths) (body : CompletionBody) : Prop where
  kindUtf8 : (Utf8.fromUtf8 body.adapterKind).isSome
  versionUtf8 : (Utf8.fromUtf8 body.adapterVersion).isSome
  adapterKind : body.adapterKind.length = lengths.adapterKind
  adapterVersion : body.adapterVersion.length = lengths.adapterVersion
  firstCursor : (optionalCursorBytes body.firstCursor).length = lengths.firstCursor
  finalCursor : (optionalCursorBytes body.finalCursor).length = lengths.finalCursor
  continuation : (optionalCursorBytes body.continuation).length = lengths.continuation
  highWaterSection : marksLength body.highWaterMarks = lengths.highWaterSection
  highWaterCount : body.highWaterMarks.length = lengths.highWaterCount
  marks : ∀ mark ∈ body.highWaterMarks, MarkFits mark
  capUsageCount : body.capUsage.length = lengths.capUsageCount
  capUsage : ∀ usage ∈ body.capUsage, CapTyped usage
  errorCodes : body.errorCodes.length = lengths.errorCodeCount
  partialReasons : body.partialReasons.length = lengths.partialReasonCount

theorem decodeHighWaterMarks_eq_ok {bytes : List UInt8} {count : Nat} {marks : List HighWaterMark}
    (hcount : count ≤ maxAcquisitionHighWaterMarksV1) :
    decodeHighWaterMarks bytes count = .ok marks ↔
      listBytes markBytes 0 marks = bytes ∧ marks.length = count ∧
        ∀ mark ∈ marks, MarkFits mark := by
  have hlist := Reads.list reads_decodeHighWaterMark 0 count (by
    unfold maxAcquisitionHighWaterMarksV1 at hcount
    omega)
  simp only [decodeHighWaterMarks, except_bind_eq_ok, ite_error_eq_ok, Prod.exists, hlist _ _ _,
    Except.ok.injEq, not_not, ne_eq]
  constructor
  · rintro ⟨_, _, ⟨rfl, hmarks⟩, rfl, rfl⟩
    exact ⟨(List.append_nil _).symm, hmarks⟩
  · rintro ⟨rfl, hmarks⟩
    exact ⟨marks, [], ⟨(List.append_nil _).symm, hmarks⟩, rfl, rfl⟩

theorem reads_parseBody {lengths : DeclaredLengths} (h : lengths.Capped) :
    Reads (parseBody lengths) bodyBytes (BodyMatches lengths) := by
  obtain ⟨hmarks, hcaps, herrors, hreasons⟩ := h
  have hcap := Reads.list reads_decodeCapUsage 0 lengths.capUsageCount (by
    unfold maxAcquisitionCapUsagesV1 at hcaps
    omega)
  have herror := Reads.list (reads_decodeCoded fun _ _ => decodeErrorCode_eq_ok) 0
    lengths.errorCodeCount (by
      unfold maxAcquisitionErrorCodesV1 at herrors
      omega)
  have hreason := Reads.list (reads_decodeCoded fun _ _ => decodePartialReason_eq_ok) 0
    lengths.partialReasonCount (by
      unfold maxAcquisitionPartialReasonsV1 at hreasons
      omega)
  intro bytes body rest
  simp only [parseBody, take, bind_eq_ok, ofExcept_eq_ok, take_eq_ok, pure_eq_ok,
    parseString_eq_ok, reads_parseOptionalCursor _ _ _ _, decodeHighWaterMarks_eq_ok hmarks,
    hcap _ _ _, herror _ _ _, hreason _ _ _]
  constructor
  · rintro ⟨kind, _, ⟨rfl, hkind⟩, _, _, ⟨⟨hkindUtf8, rfl⟩, rfl⟩, version, _, ⟨rfl, hversion⟩, _, _,
      ⟨⟨hversionUtf8, rfl⟩, rfl⟩, first, _, ⟨rfl, hfirst⟩, final, _, ⟨rfl, hfinal⟩, continuation, _,
      ⟨rfl, hcontinuation⟩, _, _, ⟨rfl, hlength⟩, marks, _, ⟨⟨rfl, hcount, hfit⟩, rfl⟩,
      caps, _, ⟨rfl, hcaps, htyped⟩, errors, _, ⟨rfl, herrors, _⟩, reasons, _,
      ⟨rfl, hreasons, _⟩, rfl, rfl⟩
    rw [length_listBytes_markBytes] at hlength
    refine ⟨?_, hkindUtf8, hversionUtf8, hkind, hversion, hfirst, hfinal, hcontinuation, hlength,
      hcount, hfit, hcaps, htyped, herrors, hreasons⟩
    simp only [bodyBytes, List.append_assoc]
    rfl
  · rintro ⟨rfl, hbody⟩
    simp only [bodyBytes, List.append_assoc]
    exact ⟨_, _, ⟨rfl, hbody.adapterKind⟩, _, _, ⟨⟨hbody.kindUtf8, rfl⟩, rfl⟩, _, _,
      ⟨rfl, hbody.adapterVersion⟩, _, _, ⟨⟨hbody.versionUtf8, rfl⟩, rfl⟩, _, _,
      ⟨rfl, hbody.firstCursor⟩, _, _, ⟨rfl, hbody.finalCursor⟩, _, _, ⟨rfl, hbody.continuation⟩,
      _, _, ⟨rfl, (length_listBytes_markBytes 0 _).trans hbody.highWaterSection⟩, _, _,
      ⟨⟨rfl, hbody.highWaterCount, hbody.marks⟩, rfl⟩, _, _,
      ⟨rfl, hbody.capUsageCount, hbody.capUsage⟩, _, _,
      ⟨rfl, hbody.errorCodes, fun _ _ => trivial⟩, _, _,
      ⟨rfl, hbody.partialReasons, fun _ _ => trivial⟩, rfl, rfl⟩

end Read

end AcquisitionCompletion

end Snapshot

end Evidentrail
