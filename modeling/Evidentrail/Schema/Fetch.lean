import Evidentrail.Schema.Envelope

/-!
# Fetch completion

The terminal fact an adapter returns: what was acknowledged, how far it
got and whether the acquisition is complete. The constructor's checks
are the fields of `FetchCompletion`, so a contradictory completion
cannot be built.
-/

namespace Evidentrail

open Rust

structure FetchIdentity where
  retrievalId : RetrievalId
  planId : PlanId
  planDigest : PlanDigest
  adapter : AdapterIdentity
deriving DecidableEq

structure FetchTiming where
  startedAt : UnixTimestampNanos
  endedAt : UnixTimestampNanos
deriving DecidableEq

/-- Totals over the acknowledged envelopes, all `u64`. -/
structure AcknowledgedCounts where
  records : Nat
  payloadBytes : Nat
  sourceBytes : Nat
deriving DecidableEq

structure AttemptCounts where
  attempted : Nat
  completed : Nat
deriving DecidableEq

structure HighWaterMark where
  member : SourceMember
  cursor : SourceCursor
deriving DecidableEq

structure FetchBoundaries where
  firstCursor : Option SourceCursor := none
  finalCursor : Option SourceCursor := none
  highWaterMarks : List HighWaterMark := []
deriving DecidableEq

inductive CapKind where
  | records
  | sourceBytes
  | expandedBytes
  | pages
  | members
  | perRecordBytes
  | inFlightBytes
  | encryptedSpoolBytes
  | wallTimeMillis
  | diagnosticBytes
  | otherVersioned (version code : UInt16)
deriving DecidableEq

structure CapUsage where
  kind : CapKind
  used : Nat
  limit : Nat
  reached : Bool
deriving DecidableEq

inductive AdapterOutcome where
  | finished
  | cancelled
  | deadlineExceeded
  | providerStopped
  | sourceStopped
  | sinkStopped
  | adapterStopped
deriving DecidableEq

inductive FetchErrorCode where
  | authenticationChanged
  | permissionDenied
  | sourceUnavailable
  | sourceChanged
  | providerFailure
  | networkFailure
  | childExitFailure
  | childKilled
  | malformedProviderFraming
  | sourceReadFailure
  | sinkFailure
  | adapterInvariantViolation
  | otherVersioned (version code : UInt16)
deriving DecidableEq

inductive CompletenessProof where
  | fixedSnapshotVerified
  | plannedUnixFileSnapshotVerifiedV1
  | providerBoundaryExhausted
  | finalCursorVerified
  | replayManifestVerified
  | inMemoryFixtureExhausted
  | otherVersioned (version code : UInt16)
deriving DecidableEq

def CompletenessProof.code : CompletenessProof → String
  | .fixedSnapshotVerified => "fixed_snapshot_verified"
  | .plannedUnixFileSnapshotVerifiedV1 => "planned_unix_file_snapshot_verified_v1"
  | .providerBoundaryExhausted => "provider_boundary_exhausted"
  | .finalCursorVerified => "final_cursor_verified"
  | .replayManifestVerified => "replay_manifest_verified"
  | .inMemoryFixtureExhausted => "in_memory_fixture_exhausted"
  | .otherVersioned _ _ => "other_versioned"

inductive FetchPartialReason where
  | rowCap
  | recordCountCap
  | sourceByteCap
  | expandedByteCap
  | pageCap
  | wallTimeCap
  | timeout
  | cancelled
  | backpressureLimit
  | paginationIncomplete
  | providerCap
  | providerTruncation
  | permissionLimited
  | authenticationChanged
  | retentionBoundary
  | sourceChanged
  | sourceDisappeared
  | sourceReadError
  | childExitFailure
  | childKilled
  | networkFailure
  | malformedProviderFraming
  | recordTruncated
  | decompressionLimit
  | sinkFailure
  | otherVersioned (version code : UInt16)
deriving DecidableEq

def FetchPartialReason.code : FetchPartialReason → String
  | .rowCap => "row_cap"
  | .recordCountCap => "record_count_cap"
  | .sourceByteCap => "source_byte_cap"
  | .expandedByteCap => "expanded_byte_cap"
  | .pageCap => "page_cap"
  | .wallTimeCap => "wall_time_cap"
  | .timeout => "timeout"
  | .cancelled => "cancelled"
  | .backpressureLimit => "backpressure_limit"
  | .paginationIncomplete => "pagination_incomplete"
  | .providerCap => "provider_cap"
  | .providerTruncation => "provider_truncation"
  | .permissionLimited => "permission_limited"
  | .authenticationChanged => "authentication_changed"
  | .retentionBoundary => "retention_boundary"
  | .sourceChanged => "source_changed"
  | .sourceDisappeared => "source_disappeared"
  | .sourceReadError => "source_read_error"
  | .childExitFailure => "child_exit_failure"
  | .childKilled => "child_killed"
  | .networkFailure => "network_failure"
  | .malformedProviderFraming => "malformed_provider_framing"
  | .recordTruncated => "record_truncated"
  | .decompressionLimit => "decompression_limit"
  | .sinkFailure => "sink_failure"
  | .otherVersioned _ _ => "other_versioned"

/-- Structurally nonempty reasons. -/
structure FetchPartialReasons where
  first : FetchPartialReason
  additional : List FetchPartialReason := []
deriving DecidableEq

def FetchPartialReasons.toList (r : FetchPartialReasons) : List FetchPartialReason :=
  r.first :: r.additional

inductive FetchUnknownReason where
  | providerHasNoCompletenessProof
  | retentionUnobservable
  | highWaterMarkUnverifiable
  | eventuallyConsistentWindow
  | liveStreamOpenEnded
  | adapterCapabilityLimit
deriving DecidableEq

def FetchUnknownReason.code : FetchUnknownReason → String
  | .providerHasNoCompletenessProof => "provider_has_no_completeness_proof"
  | .retentionUnobservable => "retention_unobservable"
  | .highWaterMarkUnverifiable => "high_water_mark_unverifiable"
  | .eventuallyConsistentWindow => "eventually_consistent_window"
  | .liveStreamOpenEnded => "live_stream_open_ended"
  | .adapterCapabilityLimit => "adapter_capability_limit"

inductive FetchCompleteness where
  | complete (proof : CompletenessProof)
  | partialFetch (reasons : FetchPartialReasons) (continuation : Option SourceCursor)
  | unknown (reason : FetchUnknownReason)
deriving DecidableEq

/-- `provider_completeness().is_complete()`: the summary keeps the variant. -/
def FetchCompleteness.isComplete : FetchCompleteness → Bool
  | .complete _ => true
  | _ => false

structure FetchCompletion where
  identity : FetchIdentity
  timing : FetchTiming
  acknowledged : AcknowledgedCounts
  members : AttemptCounts
  pages : AttemptCounts
  boundaries : FetchBoundaries
  capUsage : List CapUsage
  adapterOutcome : AdapterOutcome
  errorCodes : List FetchErrorCode
  completeness : FetchCompleteness
  started_le_ended : timing.startedAt.get ≤ timing.endedAt.get
  members_completed_le : members.completed ≤ members.attempted
  pages_completed_le : pages.completed ≤ pages.attempted
  payload_le_source : acknowledged.payloadBytes ≤ acknowledged.sourceBytes
  complete_finished : completeness.isComplete = true →
    adapterOutcome = .finished ∧ errorCodes = [] ∧
      (∀ usage ∈ capUsage, usage.reached = false) ∧
      members.completed = members.attempted ∧ pages.completed = pages.attempted
deriving DecidableEq

inductive FetchConstructionError where
  | endedBeforeStarted
  | completedMembersExceedAttempted
  | completedPagesExceedAttempted
  | payloadBytesExceedSourceBytes
  | completeWithNonFinishedOutcome
  | completeWithErrorCodes
  | completeWithTerminatingCap
  | completeWithIncompleteMembers
  | completeWithIncompletePages
deriving DecidableEq

/-- `FetchCompletion::new`, check by check. -/
def FetchCompletion.new (identity : FetchIdentity) (timing : FetchTiming)
    (acknowledged : AcknowledgedCounts) (members pages : AttemptCounts)
    (boundaries : FetchBoundaries) (capUsage : List CapUsage) (adapterOutcome : AdapterOutcome)
    (errorCodes : List FetchErrorCode) (completeness : FetchCompleteness) :
    Except FetchConstructionError FetchCompletion :=
  if htiming : timing.endedAt.get < timing.startedAt.get then .error .endedBeforeStarted
  else if hmembers : members.completed > members.attempted then
    .error .completedMembersExceedAttempted
  else if hpages : pages.completed > pages.attempted then .error .completedPagesExceedAttempted
  else if hbytes : acknowledged.payloadBytes > acknowledged.sourceBytes then
    .error .payloadBytesExceedSourceBytes
  else if houtcome : completeness.isComplete = true ∧ adapterOutcome ≠ .finished then
    .error .completeWithNonFinishedOutcome
  else if hcodes : completeness.isComplete = true ∧ errorCodes ≠ [] then
    .error .completeWithErrorCodes
  else if hcap : completeness.isComplete = true ∧ capUsage.any CapUsage.reached = true then
    .error .completeWithTerminatingCap
  else if hincomplete : completeness.isComplete = true ∧ members.completed ≠ members.attempted then
    .error .completeWithIncompleteMembers
  else if hopen : completeness.isComplete = true ∧ pages.completed ≠ pages.attempted then
    .error .completeWithIncompletePages
  else .ok {
    identity, timing, acknowledged, members, pages, boundaries, capUsage, adapterOutcome,
    errorCodes, completeness
    started_le_ended := Int.not_lt.mp htiming
    members_completed_le := Nat.not_lt.mp hmembers
    pages_completed_le := Nat.not_lt.mp hpages
    payload_le_source := Nat.not_lt.mp hbytes
    complete_finished := fun hcomplete => by
      simp only [hcomplete, true_and, not_not, List.any_eq_true, not_exists, not_and,
        Bool.not_eq_true] at houtcome hcodes hcap hincomplete hopen
      exact ⟨houtcome, hcodes, hcap, hincomplete, hopen⟩ }

/-- The completion is the one with the given fields. -/
theorem FetchCompletion.new_eq_ok {identity : FetchIdentity} {timing : FetchTiming}
    {acknowledged : AcknowledgedCounts} {members pages : AttemptCounts}
    {boundaries : FetchBoundaries} {capUsage : List CapUsage} {adapterOutcome : AdapterOutcome}
    {errorCodes : List FetchErrorCode} {completeness : FetchCompleteness}
    {completion : FetchCompletion} :
    FetchCompletion.new identity timing acknowledged members pages boundaries capUsage
        adapterOutcome errorCodes completeness = .ok completion ↔
      identity = completion.identity ∧ timing = completion.timing ∧
        acknowledged = completion.acknowledged ∧ members = completion.members ∧
        pages = completion.pages ∧ boundaries = completion.boundaries ∧
        capUsage = completion.capUsage ∧ adapterOutcome = completion.adapterOutcome ∧
        errorCodes = completion.errorCodes ∧ completeness = completion.completeness := by
  simp only [FetchCompletion.new, dite_error_eq_ok, Except.ok.injEq]
  constructor
  · rintro ⟨_, _, _, _, _, _, _, _, _, rfl⟩
    exact ⟨rfl, rfl, rfl, rfl, rfl, rfl, rfl, rfl, rfl, rfl⟩
  · rintro ⟨rfl, rfl, rfl, rfl, rfl, rfl, rfl, rfl, rfl, rfl⟩
    have hcomplete := completion.complete_finished
    refine ⟨Int.not_lt.mpr completion.started_le_ended,
      Nat.not_lt.mpr completion.members_completed_le, Nat.not_lt.mpr completion.pages_completed_le,
      Nat.not_lt.mpr completion.payload_le_source, fun h => h.2 (hcomplete h.1).1,
      fun h => h.2 (hcomplete h.1).2.1, fun h => ?_, fun h => h.2 (hcomplete h.1).2.2.2.1,
      fun h => h.2 (hcomplete h.1).2.2.2.2, rfl⟩
    obtain ⟨usage, husage, hreached⟩ := List.any_eq_true.mp h.2
    rw [(hcomplete h.1).2.2.1 usage husage] at hreached
    cases hreached

/-- What the constructor asks for is what the fields say. -/
theorem FetchCompletion.exists_new {identity : FetchIdentity} {timing : FetchTiming}
    {acknowledged : AcknowledgedCounts} {members pages : AttemptCounts}
    {boundaries : FetchBoundaries} {capUsage : List CapUsage} {adapterOutcome : AdapterOutcome}
    {errorCodes : List FetchErrorCode} {completeness : FetchCompleteness}
    (htiming : timing.startedAt.get ≤ timing.endedAt.get)
    (hmembers : members.completed ≤ members.attempted)
    (hpages : pages.completed ≤ pages.attempted)
    (hbytes : acknowledged.payloadBytes ≤ acknowledged.sourceBytes)
    (hcomplete : completeness.isComplete = true →
      adapterOutcome = .finished ∧ errorCodes = [] ∧
        (∀ usage ∈ capUsage, usage.reached = false) ∧
        members.completed = members.attempted ∧ pages.completed = pages.attempted) :
    ∃ completion, FetchCompletion.new identity timing acknowledged members pages boundaries
      capUsage adapterOutcome errorCodes completeness = .ok completion ∧
        completion.completeness = completeness := by
  let completion : FetchCompletion := ⟨identity, timing, acknowledged, members, pages, boundaries,
    capUsage, adapterOutcome, errorCodes, completeness, htiming, hmembers, hpages, hbytes,
    hcomplete⟩
  exact ⟨completion, FetchCompletion.new_eq_ok.mpr
    ⟨rfl, rfl, rfl, rfl, rfl, rfl, rfl, rfl, rfl, rfl⟩, rfl⟩

/-! ## The completion of a replay -/

def replayIdentity : FetchIdentity :=
  ⟨.repeated 1, .repeated 2, .repeated 3, replayAdapter⟩

/-- A complete replay of this many records and bytes without terminators. -/
def replayCompletion (records bytes : Nat) : FetchCompletion where
  identity := replayIdentity
  timing := ⟨.epoch, .epoch⟩
  acknowledged := ⟨records, bytes, bytes⟩
  members := ⟨1, 1⟩
  pages := ⟨0, 0⟩
  boundaries := {}
  capUsage := []
  adapterOutcome := .finished
  errorCodes := []
  completeness := .complete .replayManifestVerified
  started_le_ended := le_refl _
  members_completed_le := le_refl _
  pages_completed_le := le_refl _
  payload_le_source := le_refl _
  complete_finished _ := ⟨rfl, rfl, nofun, rfl, rfl⟩

end Evidentrail
