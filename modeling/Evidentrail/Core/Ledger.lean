import Evidentrail.Core.Transformation
import Evidentrail.Schema.Fetch

/-!
# The ledger builder and the sealed ledger

`LedgerBuilder.accept` is the sole sink for raw envelopes: identity and
order checks, counters, the policy, persistence, then the writes. It
takes `&mut self`, so the model returns the builder beside the result,
also when the result is an error. `seal` turns a builder into an
`EventLedger`; `validateSealedLedger` re-derives everything a sealed
ledger states.
-/

namespace Evidentrail

open Rust Std

/-! ## Policy and events -/

inductive PolicyAuthorization where
  | sourceExact
  | postPolicy (authorizedRecord : RecordBytes) (policyDigest : PolicyDigest)
      (transformationReceiptId : TransformationReceiptId)
  | postPolicyReceipt (authorizedRecord : RecordBytes)
      (transformationReceipt : PreparedTransformationReceiptV1)
  | omittedByPolicy (policyDigest : PolicyDigest)
deriving DecidableEq

/-- `DeterministicPolicy::authorize`. -/
abbrev DeterministicPolicy := RawEnvelopeV1 → PolicyAuthorization

/-- An authorized event in persisted order. -/
structure Event where
  id : EventId
  sourceRecordId : SourceRecordId
  contentHash : ContentHash
  exactnessBasis : ExactnessBasis
  ordinal : Nat
  acquisitionSequence : AcquisitionSequence
  lane : LaneKey
  laneSequence : LaneSequence
  raw : List UInt8
  payloadLen : Nat
  terminatorLen : Option Nat
  nativeEventId : Option NativeEventId
  cursor : Option SourceCursor
  recordState : RecordState
  timestamps : EnvelopeTimestamps
  metadata : Option NativeMetadata
  providerAttestations : ProviderAttestationsV1
  hints : RecordHints

inductive LedgerBuildError where
  | retrievalMismatch
  | planIdMismatch
  | planDigestMismatch
  | adapterMismatch
  | sourceIdentityMismatch
  | unexpectedAcquisitionSequence (expected actual : Nat)
  | unexpectedLaneSequence (expected actual : Nat)
  | acquisitionSequenceOverflow
  | laneSequenceOverflow
  | eventCountOverflow
  | byteCountOverflow
  | sourceRecordIdCollision (id : SourceRecordId)
  | eventIdCollision (id : EventId)
  | transformationReceiptCollision
  | completionIdentityMismatch
  | completionRecordCountMismatch
  | completionPayloadByteCountMismatch
  | completionSourceByteCountMismatch
  | completeWithFragment
  | acquisitionReceiptInvalid (error : AcquisitionReceiptError)
deriving DecidableEq

/-! ## The builder -/

structure LedgerBuilder where
  identity : FetchIdentity
  sourceIdentityDigest : SourceIdentityDigest
  policy : DeterministicPolicy
  nextAcquisitionSequence : Nat := 0
  nextLaneSequences : ExtTreeMap LaneKey Nat := ∅
  sourceRecordIds : ExtTreeSet SourceRecordId := ∅
  expectedSourceRecords : List SourceRecordId := []
  acquisitionAssignments : List AcquisitionOutcomeAssignment := []
  transformationReceipts : ExtTreeMap TransformationReceiptId TransformationReceiptV1 := ∅
  events : List Event := []
  positions : ExtTreeMap EventId Nat := ∅
  acknowledgedRecords : Nat := 0
  acknowledgedPayloadBytes : Nat := 0
  acknowledgedSourceBytes : Nat := 0
  sawFragment : Bool := false
  analysisProjectionV3 : Bool := false

namespace LedgerBuilder

def new (identity : FetchIdentity) (sourceIdentityDigest : SourceIdentityDigest)
    (policy : DeterministicPolicy) : LedgerBuilder :=
  { identity, sourceIdentityDigest, policy }

/-- Like `new`, for a monotonic subset of an authenticated acquisition. -/
def newAnalysisProjectionV3 (identity : FetchIdentity)
    (sourceIdentityDigest : SourceIdentityDigest) (policy : DeterministicPolicy) :
    LedgerBuilder :=
  { new identity sourceIdentityDigest policy with analysisProjectionV3 := true }

def validateIdentity (b : LedgerBuilder) (envelope : RawEnvelopeV1) :
    Except LedgerBuildError Unit :=
  let identity := envelope.identity
  if identity.retrievalId ≠ b.identity.retrievalId then .error .retrievalMismatch
  else if identity.planId ≠ b.identity.planId then .error .planIdMismatch
  else if identity.planDigest ≠ b.identity.planDigest then .error .planDigestMismatch
  else if identity.adapter ≠ b.identity.adapter then .error .adapterMismatch
  else if identity.sourceIdentityDigest ≠ b.sourceIdentityDigest then
    .error .sourceIdentityMismatch
  else .ok ()

/-- Ordinary ingestion wants the very next sequence, an analysis
projection any later one. -/
def outOfOrder (projection : Bool) (expected actual : Nat) : Bool :=
  if projection then actual < expected else actual ≠ expected

/-- The lane's next sequence, zero for a lane not seen yet. -/
def expectedLane (b : LedgerBuilder) (lane : LaneKey) : Nat :=
  b.nextLaneSequences[lane]?.getD 0

/-- The two sequence checks; the next acquisition and lane sequences. -/
def nextSequences (b : LedgerBuilder) (envelope : RawEnvelopeV1) :
    Except LedgerBuildError (Nat × Nat) :=
  let actualAcquisition := envelope.ordering.acquisitionSequence.get
  if outOfOrder b.analysisProjectionV3 b.nextAcquisitionSequence actualAcquisition then
    .error (.unexpectedAcquisitionSequence b.nextAcquisitionSequence actualAcquisition)
  else match checkedAdd actualAcquisition 1 with
    | none => .error .acquisitionSequenceOverflow
    | some nextAcquisition =>
        let expectedLane := b.expectedLane envelope.ordering.lane
        let actualLane := envelope.ordering.laneSequence.get
        if outOfOrder b.analysisProjectionV3 expectedLane actualLane then
          .error (.unexpectedLaneSequence expectedLane actualLane)
        else match checkedAdd actualLane 1 with
          | none => .error .laneSequenceOverflow
          | some nextLane => .ok (nextAcquisition, nextLane)

/-- The counters after this envelope: records, payload and source bytes. -/
def nextCounts (b : LedgerBuilder) (envelope : RawEnvelopeV1) :
    Except LedgerBuildError AcknowledgedCounts :=
  match u64TryFrom envelope.record.payloadLen, u64TryFrom envelope.record.sourceLen with
  | some payloadBytes, some sourceBytes =>
      match checkedAdd b.acknowledgedRecords 1 with
      | none => .error .eventCountOverflow
      | some records =>
          match checkedAdd b.acknowledgedPayloadBytes payloadBytes,
            checkedAdd b.acknowledgedSourceBytes sourceBytes with
          | some payload, some source => .ok ⟨records, payload, source⟩
          | _, _ => .error .byteCountOverflow
  | _, _ => .error .byteCountOverflow

/-- What the policy's answer makes of the envelope. -/
structure Authorized where
  outcome : AcquisitionOutcome
  authorizedByteCount : Nat
  event : Option Event
  transformationReceipt : Option TransformationReceiptV1

variable [Sha256]

/-- The event id that `persist_authorized` derives. -/
def authorizedEventId (b : LedgerBuilder) (envelope : RawEnvelopeV1)
    (authorizedRecord : RecordBytes) (exactnessBasis : ExactnessBasis) : EventId :=
  eventId b.identity.retrievalId (sourceRecordId envelope)
    (authorizedContentHash authorizedRecord.exactBytes) exactnessBasis
    envelope.providerAttestations

/-- The event that `persist_authorized` builds. -/
def authorizedEvent (b : LedgerBuilder) (envelope : RawEnvelopeV1)
    (authorizedRecord : RecordBytes) (exactnessBasis : ExactnessBasis)
    (ordinal : Nat) : Event where
  id := b.authorizedEventId envelope authorizedRecord exactnessBasis
  sourceRecordId := sourceRecordId envelope
  contentHash := authorizedContentHash authorizedRecord.exactBytes
  exactnessBasis := exactnessBasis
  ordinal := ordinal
  acquisitionSequence := envelope.ordering.acquisitionSequence
  lane := envelope.ordering.lane
  laneSequence := envelope.ordering.laneSequence
  raw := authorizedRecord.exactBytes
  payloadLen := authorizedRecord.payloadLen
  terminatorLen := authorizedRecord.terminatorLen
  nativeEventId := envelope.nativeEventId
  cursor := envelope.cursor
  recordState := envelope.state
  timestamps := envelope.timestamps
  metadata := envelope.metadata
  providerAttestations := envelope.providerAttestations
  hints := envelope.hints

def persistAuthorized (b : LedgerBuilder) (envelope : RawEnvelopeV1)
    (authorizedRecord : RecordBytes) (exactnessBasis : ExactnessBasis) :
    Except LedgerBuildError (AcquisitionOutcome × Nat × Event) :=
  match u64TryFrom b.events.length, u64TryFrom authorizedRecord.exactBytes.length with
  | none, _ => .error .eventCountOverflow
  | some _, none => .error .byteCountOverflow
  | some ordinal, some authorizedByteCount =>
      let id := b.authorizedEventId envelope authorizedRecord exactnessBasis
      if id ∈ b.positions then .error (.eventIdCollision id)
      else
        .ok (.persisted id exactnessBasis, authorizedByteCount,
          b.authorizedEvent envelope authorizedRecord exactnessBasis ordinal)

/-- `with_receipt`. -/
def withReceipt (receipt : EventId → Option TransformationReceiptV1) :
    AcquisitionOutcome × Nat × Event → Authorized
  | (outcome, count, event) => ⟨outcome, count, some event, receipt event.id⟩

def authorize (b : LedgerBuilder) (envelope : RawEnvelopeV1) :
    Except LedgerBuildError Authorized :=
  match b.policy envelope with
  | .sourceExact =>
      (b.persistAuthorized envelope envelope.record .sourceExact).map
        (withReceipt fun _ => none)
  | .postPolicy authorizedRecord policyDigest transformationReceiptId =>
      (b.persistAuthorized envelope authorizedRecord
        (.postPolicy policyDigest transformationReceiptId)).map (withReceipt fun _ => none)
  | .postPolicyReceipt authorizedRecord receipt =>
      (b.persistAuthorized envelope authorizedRecord
        (.postPolicy receipt.policyDigest receipt.id)).map
        (withReceipt fun id => some (receipt.bind id))
  | .omittedByPolicy policyDigest =>
      .ok ⟨.omittedByPolicy policyDigest, 0, none, none⟩

/-- Everything `accept` works out before its first write. -/
structure Staged where
  nextAcquisition : Nat
  nextLane : Nat
  counts : AcknowledgedCounts
  authorized : Authorized

def stage (b : LedgerBuilder) (envelope : RawEnvelopeV1) :
    Except LedgerBuildError Staged :=
  match b.validateIdentity envelope with
  | .error error => .error error
  | .ok () =>
      match b.nextSequences envelope with
      | .error error => .error error
      | .ok (nextAcquisition, nextLane) =>
          match b.nextCounts envelope with
          | .error error => .error error
          | .ok counts =>
              if sourceRecordId envelope ∈ b.sourceRecordIds then
                .error (.sourceRecordIdCollision (sourceRecordId envelope))
              else
                match b.authorize envelope with
                | .error error => .error error
                | .ok authorized => .ok ⟨nextAcquisition, nextLane, counts, authorized⟩

/-- The writes behind the receipt map. -/
def record (b : LedgerBuilder) (envelope : RawEnvelopeV1) (s : Staged) :
    LedgerBuilder :=
  let id := sourceRecordId envelope
  { b with
    positions := match s.authorized.event with
      | some event => b.positions.insert event.id b.events.length
      | none => b.positions
    events := b.events ++ s.authorized.event.toList
    nextAcquisitionSequence := s.nextAcquisition
    nextLaneSequences := b.nextLaneSequences.insert envelope.ordering.lane s.nextLane
    sourceRecordIds := b.sourceRecordIds.insert id
    expectedSourceRecords := b.expectedSourceRecords ++ [id]
    acquisitionAssignments :=
      b.acquisitionAssignments ++ [⟨id, s.authorized.outcome⟩]
    acknowledgedRecords := s.counts.records
    acknowledgedPayloadBytes := s.counts.payloadBytes
    acknowledgedSourceBytes := s.counts.sourceBytes
    sawFragment := b.sawFragment || !envelope.state.isComplete }

def ack (b : LedgerBuilder) (envelope : RawEnvelopeV1) (s : Staged) : SinkAck :=
  ⟨b.identity.retrievalId, sourceRecordId envelope,
    envelope.ordering.acquisitionSequence, s.authorized.authorizedByteCount,
    s.authorized.outcome⟩

/-- The map update happens before its result is looked at: a receipt
under a known id replaces the stored one and the call then fails. -/
def insertReceipt (b : LedgerBuilder) (receipt : TransformationReceiptV1) :
    LedgerBuilder :=
  { b with transformationReceipts := b.transformationReceipts.insert receipt.id receipt }

def accept (b : LedgerBuilder) (envelope : RawEnvelopeV1) :
    Except LedgerBuildError SinkAck × LedgerBuilder :=
  match b.stage envelope with
  | .error error => (.error error, b)
  | .ok s =>
      match s.authorized.transformationReceipt with
      | some receipt =>
          if receipt.id ∈ b.transformationReceipts then
            (.error .transformationReceiptCollision, b.insertReceipt receipt)
          else
            (.ok (b.ack envelope s), (b.insertReceipt receipt).record envelope s)
      | none => (.ok (b.ack envelope s), b.record envelope s)

end LedgerBuilder

/-! ## The sealed ledger -/

structure EventLedger where
  retrievalId : RetrievalId
  planId : PlanId
  planDigest : PlanDigest
  sourceIdentityDigest : SourceIdentityDigest
  adapter : AdapterIdentity
  completion : FetchCompletion
  acquisitionReceiptId : AcquisitionReceiptId
  acquisitionReceipt : AcquisitionReceipt
  transformationReceipts : ExtTreeMap TransformationReceiptId TransformationReceiptV1
  events : List Event
  positions : ExtTreeMap EventId Nat
  lanePositions : ExtTreeMap LaneKey (List Nat)

/-- The lane index over events that start at `position`. -/
def lanePositionsFrom (index : ExtTreeMap LaneKey (List Nat)) (position : Nat) :
    List Event → ExtTreeMap LaneKey (List Nat)
  | [] => index
  | event :: rest =>
      lanePositionsFrom
        (index.insert event.lane (index[event.lane]?.getD [] ++ [position]))
        (position + 1) rest

def LedgerBuilder.seal [Sha256] (b : LedgerBuilder) (completion : FetchCompletion) :
    Except (Fault LedgerBuildError) EventLedger :=
  if completion.identity ≠ b.identity then
    .error (.err .completionIdentityMismatch)
  else if completion.acknowledged.records ≠ b.acknowledgedRecords then
    .error (.err .completionRecordCountMismatch)
  else if completion.acknowledged.payloadBytes ≠ b.acknowledgedPayloadBytes then
    .error (.err .completionPayloadByteCountMismatch)
  else if completion.acknowledged.sourceBytes ≠ b.acknowledgedSourceBytes then
    .error (.err .completionSourceByteCountMismatch)
  else if completion.completeness.isComplete && b.sawFragment then
    .error (.err .completeWithFragment)
  else
    match AcquisitionReceipt.reconcile b.identity.retrievalId b.expectedSourceRecords
        b.acquisitionAssignments with
    | .error fault => .error (fault.mapErr .acquisitionReceiptInvalid)
    | .ok receipt =>
        .ok {
          retrievalId := b.identity.retrievalId
          planId := b.identity.planId
          planDigest := b.identity.planDigest
          sourceIdentityDigest := b.sourceIdentityDigest
          adapter := b.identity.adapter
          completion
          acquisitionReceiptId := acquisitionReceiptId receipt
          acquisitionReceipt := receipt
          transformationReceipts := b.transformationReceipts
          events := b.events
          positions := b.positions
          lanePositions := lanePositionsFrom ∅ 0 b.events }

inductive LedgerLookupError where
  | unknownEvent (id : EventId)
  | invalidAnalysisProjection
deriving DecidableEq

namespace EventLedger

/-- `event`: look the position up, then index. `none` inside `ok` is the
panic of an index out of bounds. -/
def event (ledger : EventLedger) (id : EventId) :
    Except LedgerLookupError (Option Event) :=
  match ledger.positions[id]? with
  | none => .error (.unknownEvent id)
  | some position => .ok ledger.events[position]?

/-- Select positions in increasing order, renumbering the ordinals. -/
def projectEvents (events : List Event) (prior : Option Nat) (count : Nat) :
    List Nat → Except LedgerLookupError (List Event)
  | [] => .ok []
  | position :: rest =>
      match events[position]? with
      | none => .error .invalidAnalysisProjection
      | some event =>
          if prior.any (position ≤ ·) then .error .invalidAnalysisProjection
          else match u64TryFrom count with
            | none => .error .invalidAnalysisProjection
            | some ordinal => do
                let tail ← projectEvents events (some position) (count + 1) rest
                return { event with ordinal } :: tail

/-- The position index of a list of events. -/
def positionsFrom (index : ExtTreeMap EventId Nat) (position : Nat) :
    List Event → ExtTreeMap EventId Nat
  | [] => index
  | event :: rest => positionsFrom (index.insert event.id position) (position + 1) rest

def analysisProjectionV3 (ledger : EventLedger) (orderedPositions : List Nat) :
    Except LedgerLookupError EventLedger :=
  match projectEvents ledger.events none 0 orderedPositions with
  | .error error => .error error
  | .ok events =>
      if events = [] then .error .invalidAnalysisProjection
      else
        .ok { ledger with
          events
          positions := positionsFrom ∅ 0 events
          lanePositions := lanePositionsFrom ∅ 0 events }

end EventLedger

/-! ## Integrity of a sealed ledger -/

inductive LedgerIntegrityErrorV1 where
  | orderingMismatch
  | contentHashMismatch
  | eventIdentityMismatch
  | acquisitionReceiptMismatch
  | transformationReceiptMissing
  | transformationReceiptDuplicate
  | transformationReceiptMismatch
deriving DecidableEq

namespace EventLedger

variable [Sha256]

/-- First loop of `validate_sealed_ledger`: order and identity of every
event. Returns the event ids seen. -/
def validateEvents (ledger : EventLedger) (position : Nat) (prior : Option Nat)
    (seen : ExtTreeSet EventId) :
    List Event → Except (Fault LedgerIntegrityErrorV1) (ExtTreeSet EventId)
  | [] => .ok seen
  | event :: rest =>
      if event.ordinal ≠ position ∨ ledger.positions[event.id]? ≠ some position ∨
          prior.any (event.acquisitionSequence.get ≤ ·) then
        .error (.err .orderingMismatch)
      else if authorizedContentHash event.raw ≠ event.contentHash then
        .error (.err .contentHashMismatch)
      else if eventId ledger.retrievalId event.sourceRecordId event.contentHash
          event.exactnessBasis event.providerAttestations ≠ event.id then
        .error (.err .eventIdentityMismatch)
      else
        ledger.validateEvents (position + 1) (some event.acquisitionSequence.get)
          (seen.insert event.id) rest

/-- The join of a post-policy entry with its transformation receipt. -/
def validateTransformation (ledger : EventLedger) (eventId : EventId) (event : Event)
    (policyDigest : PolicyDigest) (transformationReceiptId : TransformationReceiptId)
    (receiptEvents : ExtTreeSet EventId) :
    Except (Fault LedgerIntegrityErrorV1) (ExtTreeSet EventId) :=
  match ledger.transformationReceipts[transformationReceiptId]? with
  | none => .error (.err .transformationReceiptMissing)
  | some receipt =>
      if receipt.resultingEventId ∈ receiptEvents then
        .error (.err .transformationReceiptDuplicate)
      else if receipt.resultingEventId ≠ eventId ∨
          receipt.prepared.policyDigest ≠ policyDigest ∨
          receipt.prepared.outputContentHash ≠ event.contentHash ∨
          receipt.prepared.outputLength ≠ event.raw.length ∨
          receipt.prepared.outputPayloadLength ≠ event.payloadLen ∨
          receipt.prepared.outputTerminatorLength ≠ event.terminatorLen then
        .error (.err .transformationReceiptMismatch)
      else .ok (receiptEvents.insert receipt.resultingEventId)

/-- Second loop: every persisted entry names an event, and its receipt
when it is post-policy. Returns the unseen events and the receipt events. -/
def validateEntries (ledger : EventLedger) (seen receiptEvents : ExtTreeSet EventId) :
    List AcquisitionReceiptEntry →
      Except (Fault LedgerIntegrityErrorV1) (ExtTreeSet EventId × ExtTreeSet EventId)
  | [] => .ok (seen, receiptEvents)
  | entry :: rest =>
      match entry.outcome with
      | .omittedByPolicy _ => ledger.validateEntries seen receiptEvents rest
      | .persisted eventId exactnessBasis =>
          match ledger.event eventId with
          | .error _ => .error (.err .acquisitionReceiptMismatch)
          | .ok none => .error .panicked
          | .ok (some event) =>
              if event.sourceRecordId ≠ entry.sourceRecordId ∨
                  event.exactnessBasis ≠ exactnessBasis then
                .error (.err .acquisitionReceiptMismatch)
              else
                match exactnessBasis with
                | .sourceExact =>
                    ledger.validateEntries (seen.erase eventId) receiptEvents rest
                | .postPolicy policyDigest transformationReceiptId =>
                    match ledger.validateTransformation eventId event policyDigest
                        transformationReceiptId receiptEvents with
                    | .error fault => .error fault
                    | .ok receiptEvents' =>
                        ledger.validateEntries (seen.erase eventId) receiptEvents' rest

def validateSealedLedger (ledger : EventLedger) :
    Except (Fault LedgerIntegrityErrorV1) Unit :=
  match ledger.validateEvents 0 none ∅ ledger.events with
  | .error fault => .error fault
  | .ok seen =>
      if Evidentrail.acquisitionReceiptId ledger.acquisitionReceipt
          ≠ ledger.acquisitionReceiptId then
        .error (.err .acquisitionReceiptMismatch)
      else
        match ledger.validateEntries seen ∅ ledger.acquisitionReceipt.entries with
        | .error fault => .error fault
        | .ok (unseen, receiptEvents) =>
            if unseen.isEmpty = false ∨
                receiptEvents.size ≠ ledger.transformationReceipts.size then
              .error (.err .acquisitionReceiptMismatch)
            else .ok ()

/-- The export view is the ledger itself, behind the check. -/
def checkedExportV1 (ledger : EventLedger) :
    Except (Fault LedgerIntegrityErrorV1) EventLedger :=
  ledger.validateSealedLedger.map fun _ => ledger

end EventLedger

def checkedSealedLedgerImportV1 [Sha256] (ledger : EventLedger) :
    Except (Fault LedgerIntegrityErrorV1) EventLedger :=
  ledger.validateSealedLedger.map fun _ => ledger

end Evidentrail
