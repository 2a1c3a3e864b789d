import Evidentrail.Lib.Layout
import Evidentrail.Schema.Fetch

/-!
# Codes of a fetch completion

Caps, errors, proofs and reasons are written as a tag with a version and a code.
A tag that stands for a value by itself has neither; one tag is left for the
values that carry a version and a code of their own. Each decoder is its table of
tags, and one lemma says what such a table accepts (`decodeCode_eq_ok`).
-/

namespace Evidentrail

open Rust Bytes

namespace Snapshot

inductive AcquisitionCompletionRecordErrorV1 where
  | invalidEncodedLength
  | invalidMagic
  | unsupportedVersion
  | unsupportedSchema
  | unsupportedObjectKind
  | invalidHeaderWidth
  | unknownFlags
  | nonzeroReserved
  | totalLengthCap
  | adapterFieldTooLong
  | sourceMemberTooLong
  | cursorTooLong
  | countCap
  | invalidUtf8
  | invalidField
  | noncanonicalOptionalField
  | invalidListOrdinal
  | highWaterSectionLengthMismatch
  | unsupportedAdapterOutcome
  | unsupportedCompletenessKind
  | unsupportedCapKind
  | unsupportedErrorCode
  | unsupportedCompletenessProof
  | unsupportedPartialReason
  | unsupportedUnknownReason
  | noncanonicalCodeFields
  | noncanonicalCompletenessFields
  | invalidFetchCompletion
  | arithmeticOverflow
deriving DecidableEq

structure EncodedCode where
  tag : UInt16
  version : UInt16
  code : UInt16
deriving DecidableEq

def otherVersionedTag : UInt16 := 65535

def simpleCode (tag : UInt16) : EncodedCode := ⟨tag, 0, 0⟩

def requireSimpleCode (encoded : EncodedCode) : Except AcquisitionCompletionRecordErrorV1 Unit :=
  if encoded.version ≠ 0 ∨ encoded.code ≠ 0 then .error .noncanonicalCodeFields else .ok ()

/-! ## Tables of tags -/

section Table

variable {α : Type}

/-- The value of a tag. -/
def decodeTag (known : List (UInt16 × α)) (unsupported : AcquisitionCompletionRecordErrorV1)
    (tag : UInt16) : Except AcquisitionCompletionRecordErrorV1 α :=
  okOr unsupported (known.lookup tag)

/-- The value of a code: of its tag, or of its version and code under the tag
that is left for them. -/
def decodeCode (known : List (UInt16 × α)) (other : UInt16 → UInt16 → α)
    (unsupported : AcquisitionCompletionRecordErrorV1) (encoded : EncodedCode) :
    Except AcquisitionCompletionRecordErrorV1 α :=
  if encoded.tag = otherVersionedTag then .ok (other encoded.version encoded.code)
  else do
    let value ← decodeTag known unsupported encoded.tag
    requireSimpleCode encoded
    .ok value

/-- A table lists the tags that the values are written with. -/
structure TagTable (known : List (UInt16 × α)) (encode : α → UInt16) : Prop where
  sound : known.all (fun entry => encode entry.2 == entry.1) = true
  complete : ∀ value, known.lookup (encode value) = some value

/-- A table lists the values that are written with a tag alone. -/
structure CodeTable (known : List (UInt16 × α)) (other : UInt16 → UInt16 → α)
    (encode : α → EncodedCode) : Prop where
  sound : known.all (fun entry => encode entry.2 == simpleCode entry.1) = true
  complete : ∀ value,
    known.lookup (encode value).tag = some value ∧ (encode value).tag ≠ otherVersionedTag ∨
      ∃ version code, other version code = value
  other : ∀ version code, encode (other version code) = ⟨otherVersionedTag, version, code⟩

theorem mem_of_lookup {known : List (UInt16 × α)} {tag : UInt16} {value : α}
    (h : known.lookup tag = some value) : (tag, value) ∈ known := by
  obtain ⟨front, back, rfl, _⟩ := List.lookup_eq_some_iff.mp h
  exact List.mem_append_right _ (List.mem_cons_self ..)

theorem decodeTag_eq_ok {known : List (UInt16 × α)} {encode : α → UInt16}
    (table : TagTable known encode) {unsupported : AcquisitionCompletionRecordErrorV1}
    {tag : UInt16} {value : α} :
    decodeTag known unsupported tag = .ok value ↔ encode value = tag := by
  rw [decodeTag, okOr_eq_ok]
  constructor
  · intro h
    exact beq_iff_eq.mp (List.all_eq_true.mp table.sound _ (mem_of_lookup h))
  · rintro rfl
    exact table.complete value

theorem decodeCode_eq_ok {known : List (UInt16 × α)} {other : UInt16 → UInt16 → α}
    {encode : α → EncodedCode} (table : CodeTable known other encode)
    {unsupported : AcquisitionCompletionRecordErrorV1} {encoded : EncodedCode} {value : α} :
    decodeCode known other unsupported encoded = .ok value ↔ encode value = encoded := by
  have hknown : ∀ tag value, known.lookup tag = some value → encode value = simpleCode tag :=
    fun tag value h => beq_iff_eq.mp (List.all_eq_true.mp table.sound _ (mem_of_lookup h))
  obtain ⟨tag, version, code⟩ := encoded
  by_cases htag : tag = otherVersionedTag
  · subst htag
    rw [decodeCode, if_pos rfl, Except.ok.injEq]
    constructor
    · rintro rfl
      exact table.other version code
    · intro h
      rcases table.complete value with ⟨_, hfree⟩ | ⟨version', code', rfl⟩
      · exact absurd (congrArg EncodedCode.tag h) hfree
      · rw [table.other] at h
        cases h
        rfl
  · rw [decodeCode, if_neg htag]
    simp only [except_bind_eq_ok, decodeTag, okOr_eq_ok, requireSimpleCode, ite_error_eq_ok,
      not_or, not_not, Except.ok.injEq]
    constructor
    · rintro ⟨value', hvalue, _, ⟨⟨rfl, rfl⟩, _⟩, rfl⟩
      exact hknown tag value' hvalue
    · intro h
      rcases table.complete value with ⟨hvalue, _⟩ | ⟨version', code', rfl⟩
      · have hsimple := hknown _ _ hvalue
        rw [h] at hvalue hsimple
        cases hsimple
        exact ⟨value, hvalue, (), ⟨⟨rfl, rfl⟩, trivial⟩, rfl⟩
      · rw [table.other] at h
        exact absurd (congrArg EncodedCode.tag h).symm htag

end Table

/-! ## The tables -/

def encodeAdapterOutcome : AdapterOutcome → UInt16
  | .finished => 1
  | .cancelled => 2
  | .deadlineExceeded => 3
  | .providerStopped => 4
  | .sourceStopped => 5
  | .sinkStopped => 6
  | .adapterStopped => 7

def adapterOutcomeTags : List (UInt16 × AdapterOutcome) :=
  [(1, .finished), (2, .cancelled), (3, .deadlineExceeded), (4, .providerStopped),
    (5, .sourceStopped), (6, .sinkStopped), (7, .adapterStopped)]

def decodeAdapterOutcome :
    UInt16 → Except AcquisitionCompletionRecordErrorV1 AdapterOutcome :=
  decodeTag adapterOutcomeTags .unsupportedAdapterOutcome

def encodeCapKind : CapKind → EncodedCode
  | .records => simpleCode 1
  | .sourceBytes => simpleCode 2
  | .expandedBytes => simpleCode 3
  | .pages => simpleCode 4
  | .members => simpleCode 5
  | .perRecordBytes => simpleCode 6
  | .inFlightBytes => simpleCode 7
  | .encryptedSpoolBytes => simpleCode 8
  | .wallTimeMillis => simpleCode 9
  | .diagnosticBytes => simpleCode 10
  | .otherVersioned version code => ⟨otherVersionedTag, version, code⟩

def capKindTags : List (UInt16 × CapKind) :=
  [(1, .records), (2, .sourceBytes), (3, .expandedBytes), (4, .pages), (5, .members),
    (6, .perRecordBytes), (7, .inFlightBytes), (8, .encryptedSpoolBytes), (9, .wallTimeMillis),
    (10, .diagnosticBytes)]

def decodeCapKind : EncodedCode → Except AcquisitionCompletionRecordErrorV1 CapKind :=
  decodeCode capKindTags .otherVersioned .unsupportedCapKind

def encodeErrorCode : FetchErrorCode → EncodedCode
  | .authenticationChanged => simpleCode 1
  | .permissionDenied => simpleCode 2
  | .sourceUnavailable => simpleCode 3
  | .sourceChanged => simpleCode 4
  | .providerFailure => simpleCode 5
  | .networkFailure => simpleCode 6
  | .childExitFailure => simpleCode 7
  | .childKilled => simpleCode 8
  | .malformedProviderFraming => simpleCode 9
  | .sourceReadFailure => simpleCode 10
  | .sinkFailure => simpleCode 11
  | .adapterInvariantViolation => simpleCode 12
  | .otherVersioned version code => ⟨otherVersionedTag, version, code⟩

def errorCodeTags : List (UInt16 × FetchErrorCode) :=
  [(1, .authenticationChanged), (2, .permissionDenied), (3, .sourceUnavailable),
    (4, .sourceChanged), (5, .providerFailure), (6, .networkFailure), (7, .childExitFailure),
    (8, .childKilled), (9, .malformedProviderFraming), (10, .sourceReadFailure),
    (11, .sinkFailure), (12, .adapterInvariantViolation)]

def decodeErrorCode : EncodedCode → Except AcquisitionCompletionRecordErrorV1 FetchErrorCode :=
  decodeCode errorCodeTags .otherVersioned .unsupportedErrorCode

def encodeCompletenessProof : CompletenessProof → EncodedCode
  | .fixedSnapshotVerified => simpleCode 1
  | .plannedUnixFileSnapshotVerifiedV1 => simpleCode 2
  | .providerBoundaryExhausted => simpleCode 3
  | .finalCursorVerified => simpleCode 4
  | .replayManifestVerified => simpleCode 5
  | .inMemoryFixtureExhausted => simpleCode 6
  | .otherVersioned version code => ⟨otherVersionedTag, version, code⟩

def completenessProofTags : List (UInt16 × CompletenessProof) :=
  [(1, .fixedSnapshotVerified), (2, .plannedUnixFileSnapshotVerifiedV1),
    (3, .providerBoundaryExhausted), (4, .finalCursorVerified), (5, .replayManifestVerified),
    (6, .inMemoryFixtureExhausted)]

def decodeCompletenessProof :
    EncodedCode → Except AcquisitionCompletionRecordErrorV1 CompletenessProof :=
  decodeCode completenessProofTags .otherVersioned .unsupportedCompletenessProof

def encodePartialReason : FetchPartialReason → EncodedCode
  | .rowCap => simpleCode 1
  | .recordCountCap => simpleCode 2
  | .sourceByteCap => simpleCode 3
  | .expandedByteCap => simpleCode 4
  | .pageCap => simpleCode 5
  | .wallTimeCap => simpleCode 6
  | .timeout => simpleCode 7
  | .cancelled => simpleCode 8
  | .backpressureLimit => simpleCode 9
  | .paginationIncomplete => simpleCode 10
  | .providerCap => simpleCode 11
  | .providerTruncation => simpleCode 12
  | .permissionLimited => simpleCode 13
  | .authenticationChanged => simpleCode 14
  | .retentionBoundary => simpleCode 15
  | .sourceChanged => simpleCode 16
  | .sourceDisappeared => simpleCode 17
  | .sourceReadError => simpleCode 18
  | .childExitFailure => simpleCode 19
  | .childKilled => simpleCode 20
  | .networkFailure => simpleCode 21
  | .malformedProviderFraming => simpleCode 22
  | .recordTruncated => simpleCode 23
  | .decompressionLimit => simpleCode 24
  | .sinkFailure => simpleCode 25
  | .otherVersioned version code => ⟨otherVersionedTag, version, code⟩

def partialReasonTags : List (UInt16 × FetchPartialReason) :=
  [(1, .rowCap), (2, .recordCountCap), (3, .sourceByteCap), (4, .expandedByteCap), (5, .pageCap),
    (6, .wallTimeCap), (7, .timeout), (8, .cancelled), (9, .backpressureLimit),
    (10, .paginationIncomplete), (11, .providerCap), (12, .providerTruncation),
    (13, .permissionLimited), (14, .authenticationChanged), (15, .retentionBoundary),
    (16, .sourceChanged), (17, .sourceDisappeared), (18, .sourceReadError),
    (19, .childExitFailure), (20, .childKilled), (21, .networkFailure),
    (22, .malformedProviderFraming), (23, .recordTruncated), (24, .decompressionLimit),
    (25, .sinkFailure)]

def decodePartialReason :
    EncodedCode → Except AcquisitionCompletionRecordErrorV1 FetchPartialReason :=
  decodeCode partialReasonTags .otherVersioned .unsupportedPartialReason

def encodeUnknownReason : FetchUnknownReason → UInt16
  | .providerHasNoCompletenessProof => 1
  | .retentionUnobservable => 2
  | .highWaterMarkUnverifiable => 3
  | .eventuallyConsistentWindow => 4
  | .liveStreamOpenEnded => 5
  | .adapterCapabilityLimit => 6

def unknownReasonTags : List (UInt16 × FetchUnknownReason) :=
  [(1, .providerHasNoCompletenessProof), (2, .retentionUnobservable),
    (3, .highWaterMarkUnverifiable), (4, .eventuallyConsistentWindow), (5, .liveStreamOpenEnded),
    (6, .adapterCapabilityLimit)]

def decodeUnknownReason :
    UInt16 → Except AcquisitionCompletionRecordErrorV1 FetchUnknownReason :=
  decodeTag unknownReasonTags .unsupportedUnknownReason

/-! ## What the decoders accept -/

theorem decodeAdapterOutcome_eq_ok {tag : UInt16} {outcome : AdapterOutcome} :
    decodeAdapterOutcome tag = .ok outcome ↔ encodeAdapterOutcome outcome = tag :=
  decodeTag_eq_ok {
    sound := by decide
    complete := fun outcome => by cases outcome <;> rfl }

theorem decodeUnknownReason_eq_ok {tag : UInt16} {reason : FetchUnknownReason} :
    decodeUnknownReason tag = .ok reason ↔ encodeUnknownReason reason = tag :=
  decodeTag_eq_ok {
    sound := by decide
    complete := fun reason => by cases reason <;> rfl }

theorem decodeCapKind_eq_ok {encoded : EncodedCode} {kind : CapKind} :
    decodeCapKind encoded = .ok kind ↔ encodeCapKind kind = encoded :=
  decodeCode_eq_ok {
    sound := by decide
    complete := fun kind => by
      cases kind with
      | otherVersioned version code => exact .inr ⟨version, code, rfl⟩
      | _ => exact .inl ⟨rfl, by decide⟩
    other := fun _ _ => rfl }

theorem decodeErrorCode_eq_ok {encoded : EncodedCode} {code : FetchErrorCode} :
    decodeErrorCode encoded = .ok code ↔ encodeErrorCode code = encoded :=
  decodeCode_eq_ok {
    sound := by decide
    complete := fun code => by
      cases code with
      | otherVersioned version code => exact .inr ⟨version, code, rfl⟩
      | _ => exact .inl ⟨rfl, by decide⟩
    other := fun _ _ => rfl }

theorem decodeCompletenessProof_eq_ok {encoded : EncodedCode} {proof : CompletenessProof} :
    decodeCompletenessProof encoded = .ok proof ↔ encodeCompletenessProof proof = encoded :=
  decodeCode_eq_ok {
    sound := by decide
    complete := fun proof => by
      cases proof with
      | otherVersioned version code => exact .inr ⟨version, code, rfl⟩
      | _ => exact .inl ⟨rfl, by decide⟩
    other := fun _ _ => rfl }

theorem decodePartialReason_eq_ok {encoded : EncodedCode} {reason : FetchPartialReason} :
    decodePartialReason encoded = .ok reason ↔ encodePartialReason reason = encoded :=
  decodeCode_eq_ok {
    sound := by decide
    complete := fun reason => by
      cases reason with
      | otherVersioned version code => exact .inr ⟨version, code, rfl⟩
      | _ => exact .inl ⟨rfl, by decide⟩
    other := fun _ _ => rfl }

end Snapshot

end Evidentrail
