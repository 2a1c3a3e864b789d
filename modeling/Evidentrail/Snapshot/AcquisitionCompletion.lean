import Evidentrail.Lib.Parser
import Evidentrail.Lib.Utf8
import Evidentrail.Snapshot.CompletionCodes
import Evidentrail.Snapshot.Frame

/-!
# The record of an acquisition's completion

A header of 288 bytes with the lengths and counts of what follows it: the adapter,
three optional cursors, and four lists whose entries carry their positions. The
length of a record is computed a third time, apart from the writer and the parser.
-/

namespace Evidentrail

open Rust Bytes

namespace FetchCompleteness

def continuation : FetchCompleteness → Option SourceCursor
  | .partialFetch _ continuation => continuation
  | _ => none

def partialReasons : FetchCompleteness → List FetchPartialReason
  | .partialFetch reasons _ => reasons.toList
  | _ => []

end FetchCompleteness

namespace Snapshot

namespace AcquisitionCompletion

def acquisitionCompletionVersionV1 : UInt16 := 1
def acquisitionCompletionSchemaV1 : UInt16 := 1
def acquisitionCompletionObjectKindV1 : UInt16 := 1
def acquisitionCompletionHeaderBytesV1 : Nat := 288
def acquisitionCompletionHighWaterPrefixBytesV1 : Nat := 16
def acquisitionCompletionCapEntryBytesV1 : Nat := 32
def acquisitionCompletionCodeEntryBytesV1 : Nat := 12
def maxEncodedAcquisitionCompletionBytesV1 : Nat := 1024 * 1024
def maxAcquisitionAdapterFieldBytesV1 : Nat := 1024
def maxAcquisitionSourceMemberBytesV1 : Nat := 64 * 1024
def maxAcquisitionCursorBytesV1 : Nat := 64 * 1024
def maxAcquisitionHighWaterMarksV1 : Nat := 4096
def maxAcquisitionCapUsagesV1 : Nat := 256
def maxAcquisitionErrorCodesV1 : Nat := 256
def maxAcquisitionPartialReasonsV1 : Nat := 256

def firstCursorPresent : UInt16 := 1
def finalCursorPresent : UInt16 := 2
def continuationPresent : UInt16 := 4
def knownFlags : UInt16 := firstCursorPresent ||| finalCursorPresent ||| continuationPresent

def completenessComplete : UInt16 := 1
def completenessPartial : UInt16 := 2
def completenessUnknown : UInt16 := 3

abbrev CompletionResult (α : Type) := Except AcquisitionCompletionRecordErrorV1 α

abbrev CompletionParser (α : Type) := Parser AcquisitionCompletionRecordErrorV1 α

/-! ## Bounds -/

def validateNonemptyLength (length limit : Nat) (tooLong : AcquisitionCompletionRecordErrorV1) :
    CompletionResult Unit :=
  if length = 0 then .error .invalidField
  else if length > limit then .error tooLong
  else .ok ()

def validateOptionalCursor (cursor : Option SourceCursor) : CompletionResult Unit :=
  match cursor with
  | some cursor =>
      validateNonemptyLength cursor.asBytes.length maxAcquisitionCursorBytesV1 .cursorTooLong
  | none => .ok ()

def validateCount (count limit : Nat) : CompletionResult Unit :=
  if count > limit then .error .countCap else .ok ()

/-- The bytes of a cursor that may be missing. -/
def optionalCursorBytes (cursor : Option SourceCursor) : List UInt8 :=
  cursor.elim [] OpaqueBytes.asBytes

/-- The length of a mark's entry, added to what stands before it. -/
def addHighWaterMark (length : Nat) (mark : HighWaterMark) : Option Nat := do
  let length ← checkedAdd length acquisitionCompletionHighWaterPrefixBytesV1
  let length ← checkedAdd length mark.member.asBytes.length
  checkedAdd length mark.cursor.asBytes.length

def encodedLenFor (completion : FetchCompletion) : CompletionResult Nat :=
  okOr .arithmeticOverflow do
    let length ← [completion.identity.adapter.kind.length,
      completion.identity.adapter.version.length,
      (optionalCursorBytes completion.boundaries.firstCursor).length,
      (optionalCursorBytes completion.boundaries.finalCursor).length,
      (optionalCursorBytes completion.completeness.continuation).length].foldlM checkedAdd
        acquisitionCompletionHeaderBytesV1
    let length ← completion.boundaries.highWaterMarks.foldlM addHighWaterMark length
    let capBytes ← checkedMul completion.capUsage.length acquisitionCompletionCapEntryBytesV1
    let errorBytes ← checkedMul completion.errorCodes.length acquisitionCompletionCodeEntryBytesV1
    let reasonBytes ← checkedMul completion.completeness.partialReasons.length
      acquisitionCompletionCodeEntryBytesV1
    let length ← checkedAdd length capBytes
    let length ← checkedAdd length errorBytes
    checkedAdd length reasonBytes

def highWaterSectionLen (completion : FetchCompletion) : CompletionResult Nat :=
  okOr .arithmeticOverflow (completion.boundaries.highWaterMarks.foldlM addHighWaterMark 0)

/-- The reasons and the continuation of a partial fetch. -/
def validateCompleteness (completeness : FetchCompleteness) : CompletionResult Unit :=
  match completeness with
  | .partialFetch reasons continuation => do
      validateCount reasons.toList.length maxAcquisitionPartialReasonsV1
      validateOptionalCursor continuation
  | .complete _ => .ok ()
  | .unknown _ => .ok ()

def validateCompletionBounds (completion : FetchCompletion) : CompletionResult Unit := do
  validateNonemptyLength completion.identity.adapter.kind.length
    maxAcquisitionAdapterFieldBytesV1 .adapterFieldTooLong
  validateNonemptyLength completion.identity.adapter.version.length
    maxAcquisitionAdapterFieldBytesV1 .adapterFieldTooLong
  validateOptionalCursor completion.boundaries.firstCursor
  validateOptionalCursor completion.boundaries.finalCursor
  completion.boundaries.highWaterMarks.forM fun mark => do
    validateNonemptyLength mark.member.asBytes.length maxAcquisitionSourceMemberBytesV1
      .sourceMemberTooLong
    validateNonemptyLength mark.cursor.asBytes.length maxAcquisitionCursorBytesV1 .cursorTooLong
  validateCount completion.boundaries.highWaterMarks.length maxAcquisitionHighWaterMarksV1
  validateCount completion.capUsage.length maxAcquisitionCapUsagesV1
  validateCount completion.errorCodes.length maxAcquisitionErrorCodesV1
  validateCompleteness completion.completeness
  let encodedLen ← encodedLenFor completion
  if encodedLen > maxEncodedAcquisitionCompletionBytesV1 then .error .totalLengthCap else .ok ()

/-! ## Writing -/

def usizeToU32 (value : Nat) : CompletionResult UInt32 :=
  if value < 2 ^ 32 then .ok (.ofNat value) else .error .arithmeticOverflow

/-- Kind and code fields of the header. -/
def encodeCompleteness : FetchCompleteness → UInt16 × EncodedCode
  | .complete proof => (completenessComplete, encodeCompletenessProof proof)
  | .partialFetch _ _ => (completenessPartial, ⟨0, 0, 0⟩)
  | .unknown reason => (completenessUnknown, ⟨encodeUnknownReason reason, 0, 0⟩)

def flagsOf (first final continuation : Bool) : UInt16 :=
  (if first then firstCursorPresent else 0) ||| (if final then finalCursorPresent else 0) |||
    (if continuation then continuationPresent else 0)

def completionFlags (completion : FetchCompletion) : UInt16 :=
  flagsOf completion.boundaries.firstCursor.isSome completion.boundaries.finalCursor.isSome
    completion.completeness.continuation.isSome

/-- The lengths and counts that the header announces, in their order. -/
def announced (completion : FetchCompletion) (highWaterLength totalLength : Nat) : List Nat :=
  [completion.identity.adapter.kind.length, completion.identity.adapter.version.length,
    (optionalCursorBytes completion.boundaries.firstCursor).length,
    (optionalCursorBytes completion.boundaries.finalCursor).length,
    (optionalCursorBytes completion.completeness.continuation).length,
    completion.boundaries.highWaterMarks.length, completion.capUsage.length,
    completion.errorCodes.length, completion.completeness.partialReasons.length,
    highWaterLength, totalLength]

def completionHeader (completion : FetchCompletion) (lengths : List UInt32) :
    List (List UInt8) :=
  [asciiBytes "EVRACM01", u16Be acquisitionCompletionVersionV1,
    u16Be acquisitionCompletionSchemaV1, u16Be acquisitionCompletionObjectKindV1,
    u16Be (.ofNat acquisitionCompletionHeaderBytesV1), u16Be (completionFlags completion), zeros 6,
    completion.identity.retrievalId.asBytes, completion.identity.planId.asBytes,
    completion.identity.planDigest.asBytes, i128Be completion.timing.startedAt.get,
    i128Be completion.timing.endedAt.get, u64Be (.ofNat completion.acknowledged.records),
    u64Be (.ofNat completion.acknowledged.payloadBytes),
    u64Be (.ofNat completion.acknowledged.sourceBytes),
    u64Be (.ofNat completion.members.attempted), u64Be (.ofNat completion.members.completed),
    u64Be (.ofNat completion.pages.attempted), u64Be (.ofNat completion.pages.completed),
    u16Be (encodeAdapterOutcome completion.adapterOutcome),
    u16Be (encodeCompleteness completion.completeness).1,
    u16Be (encodeCompleteness completion.completeness).2.tag,
    u16Be (encodeCompleteness completion.completeness).2.version,
    u16Be (encodeCompleteness completion.completeness).2.code, zeros 2]
    ++ lengths.map u32Be ++ [zeros 24]

def encodeHighWaterMarks : Nat → List HighWaterMark → CompletionResult (List UInt8)
  | _, [] => .ok []
  | ordinal, mark :: rest => do
      let memberLength ← usizeToU32 mark.member.asBytes.length
      let cursorLength ← usizeToU32 mark.cursor.asBytes.length
      let others ← encodeHighWaterMarks (ordinal + 1) rest
      .ok (u32Be (.ofNat ordinal) ++ u32Be memberLength ++ u32Be cursorLength ++ u32Be 0
        ++ mark.member.asBytes ++ mark.cursor.asBytes ++ others)

def encodeCapUsage (ordinal : Nat) (usage : CapUsage) : List UInt8 :=
  let code := encodeCapKind usage.kind
  u32Be (.ofNat ordinal) ++ u16Be code.tag ++ u16Be (if usage.reached then 1 else 0)
    ++ u16Be code.version ++ u16Be code.code ++ u32Be 0 ++ u64Be (.ofNat usage.used)
    ++ u64Be (.ofNat usage.limit)

def encodeCodeEntry (ordinal : Nat) (code : EncodedCode) : List UInt8 :=
  u32Be (.ofNat ordinal) ++ u16Be code.tag ++ u16Be code.version ++ u16Be code.code ++ u16Be 0

def encodeCompletion (completion : FetchCompletion) : CompletionResult (List UInt8) := do
  validateCompletionBounds completion
  let totalLength ← encodedLenFor completion
  let highWaterLength ← highWaterSectionLen completion
  let lengths ← (announced completion highWaterLength totalLength).mapM usizeToU32
  let marks ← encodeHighWaterMarks 0 completion.boundaries.highWaterMarks
  .ok ((completionHeader completion lengths).flatten ++ completion.identity.adapter.kind.toList
    ++ completion.identity.adapter.version.toList
    ++ optionalCursorBytes completion.boundaries.firstCursor
    ++ optionalCursorBytes completion.boundaries.finalCursor
    ++ optionalCursorBytes completion.completeness.continuation
    ++ marks
    ++ Parser.listBytes encodeCapUsage 0 completion.capUsage
    ++ Parser.listBytes (fun ordinal code => encodeCodeEntry ordinal (encodeErrorCode code)) 0
      completion.errorCodes
    ++ Parser.listBytes (fun ordinal reason => encodeCodeEntry ordinal (encodePartialReason reason))
      0 completion.completeness.partialReasons)

/-! ## Reading -/

def checkedNonemptyDeclaredLength (length : UInt32) (limit : Nat)
    (tooLong : AcquisitionCompletionRecordErrorV1) : CompletionResult Nat := do
  validateNonemptyLength length.toNat limit tooLong
  .ok length.toNat

def checkedOptionalDeclaredLength (present : Bool) (length : UInt32) : CompletionResult Nat :=
  if present ≠ decide (length.toNat ≠ 0) then .error .noncanonicalOptionalField
  else if length.toNat > maxAcquisitionCursorBytesV1 then .error .cursorTooLong
  else .ok length.toNat

def checkedDeclaredCount (count : UInt32) (limit : Nat) : CompletionResult Nat := do
  validateCount count.toNat limit
  .ok count.toNat

def take (n : Nat) : CompletionParser (List UInt8) := Parser.take .invalidEncodedLength n
def takeU16 : CompletionParser UInt16 := Parser.takeU16 .invalidEncodedLength
def takeU32 : CompletionParser UInt32 := Parser.takeU32 .invalidEncodedLength
def takeU64 : CompletionParser UInt64 := Parser.takeU64 .invalidEncodedLength

/-- The `to_vec` of a part of a slice, which fits as the slice does. -/
def toVec (bytes : List UInt8) : Option (Vec UInt8) :=
  if h : bytes.length < 2 ^ 63 then some ⟨bytes, h⟩ else none

/-- `SourceMember::new` and `SourceCursor::new`. -/
def opaqueOf (kind : OpaqueKind) (bytes : List UInt8) : CompletionResult (OpaqueBytes kind) :=
  match toVec bytes with
  | some vec => if h : vec.toList ≠ [] then .ok ⟨vec, h⟩ else .error .invalidField
  | none => .error .invalidField

def parseString (bytes : List UInt8) : CompletionResult (List UInt8) :=
  if (Utf8.fromUtf8 bytes).isSome then .ok bytes else .error .invalidUtf8

def parseOptionalCursor (length : Nat) : CompletionParser (Option SourceCursor) :=
  if length = 0 then pure none
  else do
    let bytes ← take length
    some <$> Parser.ofExcept (opaqueOf .sourceCursor bytes)

def decodeHighWaterMark (expectedOrdinal : Nat) : CompletionParser HighWaterMark := do
  let ordinal ← takeU32
  let expected ← Parser.ofExcept (usizeToU32 expectedOrdinal)
  Parser.ensure .invalidListOrdinal (ordinal = expected)
  let memberLength ← takeU32
  let memberLen ← Parser.ofExcept (checkedNonemptyDeclaredLength memberLength
    maxAcquisitionSourceMemberBytesV1 .sourceMemberTooLong)
  let cursorLength ← takeU32
  let cursorLen ← Parser.ofExcept (checkedNonemptyDeclaredLength cursorLength
    maxAcquisitionCursorBytesV1 .cursorTooLong)
  let reserved ← takeU32
  Parser.ensure .nonzeroReserved (reserved = 0)
  let memberBytes ← take memberLen
  let member ← Parser.ofExcept (opaqueOf .sourceMember memberBytes)
  let cursorBytes ← take cursorLen
  let cursor ← Parser.ofExcept (opaqueOf .sourceCursor cursorBytes)
  pure ⟨member, cursor⟩

/-- The marks fill their section. -/
def decodeHighWaterMarks (bytes : List UInt8) (count : Nat) :
    CompletionResult (List HighWaterMark) := do
  let (marks, remaining) ← (Parser.list decodeHighWaterMark 0 count).run bytes
  if remaining ≠ [] then .error .highWaterSectionLengthMismatch else .ok marks

def decodeCapUsage (expectedOrdinal : Nat) : CompletionParser CapUsage := do
  let ordinal ← takeU32
  let expected ← Parser.ofExcept (usizeToU32 expectedOrdinal)
  Parser.ensure .invalidListOrdinal (ordinal = expected)
  let tag ← takeU16
  let flags ← takeU16
  Parser.ensure .unknownFlags (flags &&& ~~~1 = 0)
  let version ← takeU16
  let code ← takeU16
  let reserved ← takeU32
  Parser.ensure .nonzeroReserved (reserved = 0)
  let used ← takeU64
  let limit ← takeU64
  let kind ← Parser.ofExcept (decodeCapKind ⟨tag, version, code⟩)
  pure ⟨kind, used.toNat, limit.toNat, flags &&& 1 ≠ 0⟩

def decodeCodeEntry (expectedOrdinal : Nat) : CompletionParser EncodedCode := do
  let ordinal ← takeU32
  let expected ← Parser.ofExcept (usizeToU32 expectedOrdinal)
  Parser.ensure .invalidListOrdinal (ordinal = expected)
  let tag ← takeU16
  let version ← takeU16
  let code ← takeU16
  let reserved ← takeU16
  Parser.ensure .nonzeroReserved (reserved = 0)
  pure ⟨tag, version, code⟩

/-- The entries of `decode_error_codes` and `decode_partial_reasons`. -/
def decodeCoded {α : Type} (decode : EncodedCode → CompletionResult α) (expectedOrdinal : Nat) :
    CompletionParser α := do
  let code ← decodeCodeEntry expectedOrdinal
  Parser.ofExcept (decode code)

def decodeCompleteness (kind : UInt16) (primary : EncodedCode)
    (partialReasons : List FetchPartialReason) (continuation : Option SourceCursor) :
    CompletionResult FetchCompleteness :=
  if kind = completenessComplete then
    if partialReasons ≠ [] ∨ continuation.isSome then .error .noncanonicalCompletenessFields
    else (decodeCompletenessProof primary).map .complete
  else if kind = completenessPartial then
    if primary.tag ≠ 0 ∨ primary.version ≠ 0 ∨ primary.code ≠ 0 then
      .error .noncanonicalCompletenessFields
    else match partialReasons with
      | [] => .error .noncanonicalCompletenessFields
      | first :: additional => .ok (.partialFetch ⟨first, additional⟩ continuation)
  else if kind = completenessUnknown then
    if primary.version ≠ 0 ∨ primary.code ≠ 0 ∨ partialReasons ≠ [] ∨ continuation.isSome then
      .error .noncanonicalCompletenessFields
    else (decodeUnknownReason primary.tag).map .unknown
  else .error .unsupportedCompletenessKind

/-- What the header announces. -/
structure DeclaredLengths where
  adapterKind : Nat
  adapterVersion : Nat
  firstCursor : Nat
  finalCursor : Nat
  continuation : Nat
  highWaterCount : Nat
  capUsageCount : Nat
  errorCodeCount : Nat
  partialReasonCount : Nat
  highWaterSection : Nat
deriving DecidableEq

def readDeclaredLengths (encoded : List UInt8) (flags : UInt16) :
    CompletionResult DeclaredLengths := do
  let adapterKind ← checkedNonemptyDeclaredLength (readU32 encoded 220)
    maxAcquisitionAdapterFieldBytesV1 .adapterFieldTooLong
  let adapterVersion ← checkedNonemptyDeclaredLength (readU32 encoded 224)
    maxAcquisitionAdapterFieldBytesV1 .adapterFieldTooLong
  let firstCursor ← checkedOptionalDeclaredLength (flags &&& firstCursorPresent ≠ 0)
    (readU32 encoded 228)
  let finalCursor ← checkedOptionalDeclaredLength (flags &&& finalCursorPresent ≠ 0)
    (readU32 encoded 232)
  let continuation ← checkedOptionalDeclaredLength (flags &&& continuationPresent ≠ 0)
    (readU32 encoded 236)
  let highWaterCount ← checkedDeclaredCount (readU32 encoded 240) maxAcquisitionHighWaterMarksV1
  let capUsageCount ← checkedDeclaredCount (readU32 encoded 244) maxAcquisitionCapUsagesV1
  let errorCodeCount ← checkedDeclaredCount (readU32 encoded 248) maxAcquisitionErrorCodesV1
  let partialReasonCount ← checkedDeclaredCount (readU32 encoded 252)
    maxAcquisitionPartialReasonsV1
  .ok { adapterKind, adapterVersion, firstCursor, finalCursor, continuation, highWaterCount
        capUsageCount, errorCodeCount, partialReasonCount
        highWaterSection := (readU32 encoded 256).toNat }

/-- The length of a record with these parts. -/
def DeclaredLengths.expectedTotal (lengths : DeclaredLengths) : Option Nat := do
  let capBytes ← checkedMul lengths.capUsageCount acquisitionCompletionCapEntryBytesV1
  let errorBytes ← checkedMul lengths.errorCodeCount acquisitionCompletionCodeEntryBytesV1
  let reasonBytes ← checkedMul lengths.partialReasonCount acquisitionCompletionCodeEntryBytesV1
  let fixedSuffix ← [errorBytes, reasonBytes].foldlM checkedAdd capBytes
  [lengths.adapterKind, lengths.adapterVersion, lengths.firstCursor, lengths.finalCursor,
    lengths.continuation, lengths.highWaterSection, fixedSuffix].foldlM checkedAdd
      acquisitionCompletionHeaderBytesV1

/-- What stands behind the header. -/
structure CompletionBody where
  adapterKind : List UInt8
  adapterVersion : List UInt8
  firstCursor : Option SourceCursor
  finalCursor : Option SourceCursor
  continuation : Option SourceCursor
  highWaterMarks : List HighWaterMark
  capUsage : List CapUsage
  errorCodes : List FetchErrorCode
  partialReasons : List FetchPartialReason

def parseBody (lengths : DeclaredLengths) : CompletionParser CompletionBody := do
  let kindBytes ← take lengths.adapterKind
  let adapterKind ← Parser.ofExcept (parseString kindBytes)
  let versionBytes ← take lengths.adapterVersion
  let adapterVersion ← Parser.ofExcept (parseString versionBytes)
  let firstCursor ← parseOptionalCursor lengths.firstCursor
  let finalCursor ← parseOptionalCursor lengths.finalCursor
  let continuation ← parseOptionalCursor lengths.continuation
  let highWaterBytes ← take lengths.highWaterSection
  let highWaterMarks ← Parser.ofExcept (decodeHighWaterMarks highWaterBytes lengths.highWaterCount)
  let capUsage ← Parser.list decodeCapUsage 0 lengths.capUsageCount
  let errorCodes ← Parser.list (decodeCoded decodeErrorCode) 0 lengths.errorCodeCount
  let partialReasons ← Parser.list (decodeCoded decodePartialReason) 0 lengths.partialReasonCount
  pure { adapterKind, adapterVersion, firstCursor, finalCursor, continuation, highWaterMarks
         capUsage, errorCodes, partialReasons }

/-- `AdapterIdentity::new`. -/
def adapterIdentityOf (kind version : List UInt8) : CompletionResult AdapterIdentity :=
  match toVec kind, toVec version with
  | some kind, some version =>
      if hkind : kind.toList ≠ [] then
        if hversion : version.toList ≠ [] then .ok ⟨kind, version, hkind, hversion⟩
        else .error .invalidField
      else .error .invalidField
  | _, _ => .error .invalidField

/-- `UnixTimestampNanos::new` of an `i128`. -/
def readTimestamp (encoded : List UInt8) (offset : Nat) : UnixTimestampNanos :=
  let bytes : FixedBytes 16 := readArray encoded offset
  have h := isI128_i128OfBe bytes.length_asBytes
  ⟨i128OfBe bytes.asBytes, h.1, h.2⟩

/-- The completion of a header and a body. -/
def completionOf (encoded : List UInt8) (body : CompletionBody) :
    CompletionResult FetchCompletion := do
  let completeness ← decodeCompleteness (readU16 encoded 210)
    ⟨readU16 encoded 212, readU16 encoded 214, readU16 encoded 216⟩ body.partialReasons
    body.continuation
  let adapter ← adapterIdentityOf body.adapterKind body.adapterVersion
  let adapterOutcome ← decodeAdapterOutcome (readU16 encoded 208)
  (FetchCompletion.new
    ⟨readId encoded 24, readId encoded 56, readId encoded 88, adapter⟩
    ⟨readTimestamp encoded 120, readTimestamp encoded 136⟩
    ⟨(readU64 encoded 152).toNat, (readU64 encoded 160).toNat, (readU64 encoded 168).toNat⟩
    ⟨(readU64 encoded 176).toNat, (readU64 encoded 184).toNat⟩
    ⟨(readU64 encoded 192).toNat, (readU64 encoded 200).toNat⟩
    ⟨body.firstCursor, body.finalCursor, body.highWaterMarks⟩ body.capUsage adapterOutcome
    body.errorCodes completeness).mapError fun _ => .invalidFetchCompletion

def decodeCompletion (encoded : List UInt8) : CompletionResult FetchCompletion :=
  if encoded.length < acquisitionCompletionHeaderBytesV1 then .error .invalidEncodedLength
  else if slice encoded 0 8 ≠ asciiBytes "EVRACM01" then .error .invalidMagic
  else if readU16 encoded 8 ≠ acquisitionCompletionVersionV1 then .error .unsupportedVersion
  else if readU16 encoded 10 ≠ acquisitionCompletionSchemaV1 then .error .unsupportedSchema
  else if readU16 encoded 12 ≠ acquisitionCompletionObjectKindV1 then .error .unsupportedObjectKind
  else if (readU16 encoded 14).toNat ≠ acquisitionCompletionHeaderBytesV1 then
    .error .invalidHeaderWidth
  else
    let flags := readU16 encoded 16
    if flags &&& ~~~knownFlags ≠ 0 then .error .unknownFlags
    else if allZero (slice encoded 18 6) = false ∨ allZero (slice encoded 218 2) = false ∨
        allZero (slice encoded 264 24) = false then .error .nonzeroReserved
    else
      let declaredTotal := (readU32 encoded 260).toNat
      if declaredTotal > maxEncodedAcquisitionCompletionBytesV1 then .error .totalLengthCap
      else if declaredTotal ≠ encoded.length then .error .invalidEncodedLength
      else do
        let lengths ← readDeclaredLengths encoded flags
        let expectedTotal ← okOr .arithmeticOverflow lengths.expectedTotal
        if expectedTotal ≠ declaredTotal then .error .invalidEncodedLength
        else
          let (body, remaining) ←
            (parseBody lengths).run (encoded.drop acquisitionCompletionHeaderBytesV1)
          if remaining ≠ [] then .error .invalidEncodedLength
          else completionOf encoded body

end AcquisitionCompletion

end Snapshot

end Evidentrail
