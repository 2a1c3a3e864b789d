import Evidentrail.Core.Ack
import Evidentrail.Select.Types

/-!
# Streaming a local file

A file is read one byte at a time up to its high-water mark and offered to a
sink line by line. The deadline and the cancellation are looked at before and
after every read and every call of the sink, and whatever stops the stream, the
bytes that are buffered are still offered if the sink is there.

What comes from outside is given turn by turn: `Turn` holds the answers to
everything one pass of the loop may ask.
-/

namespace Evidentrail

open Rust Encoding

/-! ## Facts of the plan -/

structure LocalFilePlanCapsV1 where
  sourceBytes : Nat
  records : Nat
  perRecordBytes : Nat
  wallTimeMillis : Nat
  sourceBytes_pos : 0 < sourceBytes
  records_pos : 0 < records
  perRecordBytes_pos : 0 < perRecordBytes
  wallTimeMillis_pos : 0 < wallTimeMillis
  sourceBytes_le : sourceBytes ≤ jsonSafeIntegerMax
  records_le : records ≤ jsonSafeIntegerMax
  wallTimeMillis_le : wallTimeMillis ≤ jsonSafeIntegerMax
  perRecordBytes_le : perRecordBytes ≤ maxAuthorizedRecordBytes
  perRecordBytes_le_sourceBytes : perRecordBytes ≤ sourceBytes

/-- What preflight found, as far as the stream reads it. The high-water mark is
the size of the file, which the plan admits. -/
structure LocalFileExecutionFactsV1 where
  fetchIdentity : FetchIdentity
  sourceIdentityDigest : SourceIdentityDigest
  sourceMember : SourceMember
  highWaterExclusive : Nat
  caps : LocalFilePlanCapsV1
  highWater_le : highWaterExclusive ≤ caps.sourceBytes

/-! ## Checkpoints -/

inductive CooperativeStopV1 where
  | continue
  | cancelled
  | wallTimeCap
deriving DecidableEq

structure CheckpointV1 where
  stop : CooperativeStopV1
  elapsedMillis : Nat

structure FixedExecutionDeadlineV1 (I : Type) where
  startedAt : I
  deadline : I
  wallTimeMillis : Nat

/-- What a checkpoint observes. -/
structure Moment (I : Type) where
  cancelled : Bool
  now : I

/-- One execution: the facts, the clock and the deadline. -/
structure ExecutionV1 (I : Type) where
  facts : LocalFileExecutionFactsV1
  elapsedMillis : I → I → Option Nat
  deadline : FixedExecutionDeadlineV1 I

def ExecutionV1.checkpoint {I : Type} [LinearOrder I] (x : ExecutionV1 I) (m : Moment I) :
    CheckpointV1 :=
  if m.cancelled then ⟨.cancelled, 0⟩
  else
    match x.elapsedMillis x.deadline.startedAt m.now with
    | some elapsed =>
        ⟨if x.deadline.deadline ≤ m.now then .wallTimeCap else .continue,
          min elapsed x.deadline.wallTimeMillis⟩
    | none => ⟨.wallTimeCap, x.deadline.wallTimeMillis⟩

/-! ## State -/

structure StreamOutcomeV1 where
  bytesRead : Nat := 0
  maxRecordBytesUsed : Nat := 0
  elapsedMillis : Nat := 0
  sourceByteCap : Bool := false
  perRecordByteCap : Bool := false
  recordCountCap : Bool := false
  cancelled : Bool := false
  wallTimeCap : Bool := false
  readError : Bool := false
  unexpectedEof : Bool := false
  sawFragment : Bool := false
  sinkStopped : Bool := false
  adapterStopped : Bool := false
  postSnapshotVerified : Bool := false
  wallClockFailed : Bool := false

namespace StreamOutcomeV1

def observeCheckpoint (o : StreamOutcomeV1) (checkpoint : CheckpointV1) : StreamOutcomeV1 :=
  let o := { o with elapsedMillis := max o.elapsedMillis checkpoint.elapsedMillis }
  match checkpoint.stop with
  | .continue => o
  | .cancelled => { o with cancelled := true }
  | .wallTimeCap => { o with wallTimeCap := true }

def stopContentReads (o : StreamOutcomeV1) : Bool :=
  o.cancelled || o.wallTimeCap || o.readError || o.unexpectedEof || o.sinkStopped ||
    o.adapterStopped || o.sourceByteCap || o.perRecordByteCap || o.recordCountCap

/-- One more byte, in a record of this length. -/
def countByte (o : StreamOutcomeV1) (recordLength : Nat) : StreamOutcomeV1 :=
  { o with
    bytesRead := saturatingAdd o.bytesRead 1
    maxRecordBytesUsed := max o.maxRecordBytesUsed recordLength }

def sinkUnavailable (o : StreamOutcomeV1) : Bool := o.sinkStopped || o.adapterStopped

def fragmentReason (o : StreamOutcomeV1) : RecordFragmentReason :=
  if o.sourceByteCap then .sourceByteCap
  else if o.perRecordByteCap then .perRecordByteCap
  else if o.readError || o.unexpectedEof then .sourceReadError
  else if o.cancelled then .otherVersioned 1 2
  else if o.wallTimeCap then .otherVersioned 1 3
  else .otherVersioned 1 1

end StreamOutcomeV1

structure ExecutionAccountingV1 where
  acknowledgedRecords : Nat := 0
  acknowledgedPayloadBytes : Nat := 0
  acknowledgedSourceBytes : Nat := 0
  firstCursor : Option SourceCursor := none
  finalCursor : Option SourceCursor := none
  /-- The envelopes themselves, which are only counted. -/
  envelopes : List RawEnvelopeV1 := []

structure Session where
  outcome : StreamOutcomeV1 := {}
  accounting : ExecutionAccountingV1 := {}
  record : Vec UInt8 := .empty
  recordStart : Nat := 0
  /-- The bytes that were read, which are only counted. -/
  content : List UInt8 := []

/-- A flag of the outcome is raised. -/
def Session.mark (s : Session) (change : StreamOutcomeV1 → StreamOutcomeV1) : Session :=
  { s with outcome := change s.outcome }

def Session.observe (s : Session) (checkpoint : CheckpointV1) : Session :=
  s.mark fun o => o.observeCheckpoint checkpoint

def OpaqueBytes.new {kind : OpaqueKind} (bytes : Vec UInt8) : Option (OpaqueBytes kind) :=
  if h : bytes.toList ≠ [] then some ⟨bytes, h⟩ else none

def rangeCursor (start endExclusive : Nat) : Option SourceCursor :=
  OpaqueBytes.new ⟨asciiBytes "evidentrail-file-byte-range-v1" ++ [0] ++ leBytes 8 start ++
    leBytes 8 endExclusive, by simp [asciiBytes]; decide +kernel⟩

def positionCursor (position : Nat) : Option SourceCursor :=
  OpaqueBytes.new ⟨asciiBytes "evidentrail-file-position-v1" ++ [0] ++ leBytes 8 position, by
    simp [asciiBytes]; decide +kernel⟩

/-! ## Emitting a record -/

/-- What a call of the sink is answered with, and the checkpoints around it. -/
structure SinkTurn (I : Type) where
  before : Moment I
  accept : RawEnvelopeV1 → Option SinkAck
  after : Moment I

def lineFeed : UInt8 := 10

/-- Where the terminator of a record starts. -/
def terminatorStart (record : List UInt8) : Nat :=
  if [13, lineFeed] <:+ record then record.length - 2
  else if [lineFeed] <:+ record then record.length - 1
  else record.length

def frame (record : Vec UInt8) : RecordBytes :=
  .framed (record.take (terminatorStart record.toList))
    (record.drop (terminatorStart record.toList))

inductive SinkStep where
  | accepted (accounting : ExecutionAccountingV1)
  | sinkStopped
  | adapterStopped

def Session.afterSink (s : Session) : SinkStep → Session
  | .accepted accounting => { s with accounting }
  | .sinkStopped => s.mark fun o => { o with sinkStopped := true }
  | .adapterStopped => s.mark fun o => { o with adapterStopped := true }

section Hashing

variable [Sha256]

def sinkStep (a : ExecutionAccountingV1) (cursor : SourceCursor) (envelope : RawEnvelopeV1)
    (answer : Option SinkAck) : SinkStep :=
  match answer with
  | none => .sinkStopped
  | some ack =>
      match (PreparedSinkAckExpectation.fromEnvelope envelope).verify ack with
      | .error _ => .sinkStopped
      | .ok () =>
          match checkedAdd a.acknowledgedRecords 1,
            checkedAdd a.acknowledgedPayloadBytes envelope.record.payloadLen,
            checkedAdd a.acknowledgedSourceBytes envelope.record.sourceLen with
          | some records, some payloadBytes, some sourceBytes => .accepted {
              acknowledgedRecords := records
              acknowledgedPayloadBytes := payloadBytes
              acknowledgedSourceBytes := sourceBytes
              firstCursor := a.firstCursor <|> some cursor
              finalCursor := some cursor
              envelopes := a.envelopes ++ [envelope] }
          | _, _, _ => .adapterStopped

def LocalFileExecutionFactsV1.envelope (facts : LocalFileExecutionFactsV1) (sequence : Nat)
    (record : Vec UInt8) (state : RecordState) (cursor : SourceCursor) : RawEnvelopeV1 :=
  { RawEnvelopeV1.new
      ⟨facts.fetchIdentity.retrievalId, facts.fetchIdentity.planId, facts.fetchIdentity.planDigest,
        facts.fetchIdentity.adapter, facts.sourceIdentityDigest⟩
      ⟨⟨.ofNat sequence⟩, ⟨facts.sourceMember, .fileMember⟩, ⟨.ofNat sequence⟩⟩
      (frame record) state with
    cursor := some cursor }

variable {I : Type} [LinearOrder I]

def emitRecord (x : ExecutionV1 I) (turn : SinkTurn I) (state : RecordState) (s : Session) :
    Session :=
  let s := s.observe (x.checkpoint turn.before)
  if s.outcome.sinkUnavailable then s
  else
    match rangeCursor s.recordStart s.outcome.bytesRead with
    | none => s.mark fun o => { o with adapterStopped := true }
    | some cursor =>
        let envelope :=
          x.facts.envelope s.accounting.acknowledgedRecords s.record state cursor
        let taken := { s with record := .empty }
        (taken.afterSink (sinkStep s.accounting cursor envelope (turn.accept envelope))).observe
          (x.checkpoint turn.after)

/-! ## The loop -/

/-- What a read of one byte is answered with. -/
inductive ReadResult where
  | endOfFile
  | byte (value : UInt8)
  /-- A count that a buffer of one byte cannot give. -/
  | excess
  | interrupted
  | failed
deriving DecidableEq

structure Turn (I : Type) where
  beforeRead : Moment I
  read : ReadResult
  afterRead : Moment I
  sink : SinkTurn I

inductive Flow where
  | next (s : Session)
  | done (s : Session)

/-- The match on the result of a read. -/
def Session.applyRead (facts : LocalFileExecutionFactsV1) (s : Session) : ReadResult → Session
  | .endOfFile =>
      s.mark fun o => { o with unexpectedEof := o.bytesRead < facts.highWaterExclusive }
  | .byte value =>
      { s with
        recordStart := if s.record.toList.isEmpty then s.outcome.bytesRead else s.recordStart
        record := s.record.push value
        content := s.content ++ [value]
        outcome := s.outcome.countByte (s.record.push value).length }
  | .excess => s.mark fun o => { o with adapterStopped := true }
  | .interrupted => s
  | .failed => s.mark fun o => { o with readError := true }

/-- The buffer after a read. -/
def ReadResult.buffer : ReadResult → UInt8
  | .byte value => value
  | _ => 0

/-- A pass of the loop, from the read on. -/
def readOnce (x : ExecutionV1 I) (turn : Turn I) (s : Session) : Flow :=
  let s := (s.applyRead x.facts turn.read).observe (x.checkpoint turn.afterRead)
  if s.outcome.stopContentReads then .done s
  else if turn.read = .interrupted then .next s
  else if turn.read.buffer = lineFeed then
    let s := emitRecord x turn.sink .complete s
    if s.outcome.stopContentReads then .done s else .next s
  else if s.record.length ≥ x.facts.caps.perRecordBytes ∧
      s.outcome.bytesRead < x.facts.highWaterExclusive then
    .done (s.mark fun o => { o with perRecordByteCap := true })
  else .next s

/-- One pass of the loop. -/
def pass (x : ExecutionV1 I) (turn : Turn I) (s : Session) : Flow :=
  let highWater := x.facts.highWaterExclusive
  let readLimit := min highWater x.facts.caps.sourceBytes
  if s.outcome.bytesRead = highWater then .done s
  else if s.accounting.acknowledgedRecords ≥ x.facts.caps.records then
    .done (s.mark fun o => { o with recordCountCap := true })
  else if s.outcome.bytesRead = readLimit then
    .done (s.mark fun o => { o with sourceByteCap := readLimit < highWater })
  else
    let s := s.observe (x.checkpoint turn.beforeRead)
    if s.outcome.stopContentReads then .done s else readOnce x turn s

/-- As many passes as there is fuel for. -/
def passes (x : ExecutionV1 I) (turns : Nat → Turn I) : Nat → Nat → Session → Option Session
  | 0, _, _ => none
  | fuel + 1, n, s =>
      match pass x (turns n) s with
      | .done s => some s
      | .next s => passes x turns fuel (n + 1) s

/-- The record that is buffered when the loop ends. -/
def emitRest (x : ExecutionV1 I) (turn : SinkTurn I) (s : Session) : Session :=
  if s.record.toList.isEmpty || s.outcome.sinkUnavailable then s
  else if [lineFeed] <:+ s.record.toList ∨ (s.outcome.bytesRead = x.facts.highWaterExclusive ∧
      !s.outcome.sourceByteCap ∧ !s.outcome.perRecordByteCap ∧ !s.outcome.readError ∧
      !s.outcome.unexpectedEof) then
    emitRecord x turn .complete s
  else
    emitRecord x turn (.adapterFragment s.outcome.fragmentReason)
      (s.mark fun o => { o with sawFragment := true })

/-- Everything from outside that one stream may ask for. -/
structure StreamInputs (I : Type) where
  initial : Moment I
  turns : Nat → Turn I
  last : SinkTurn I

def streamExactSnapshot (x : ExecutionV1 I) (inputs : StreamInputs I) (fuel : Nat) :
    Option Session :=
  let s := ({} : Session).observe (x.checkpoint inputs.initial)
  if s.outcome.stopContentReads then some s
  else (passes x inputs.turns fuel 0 s).map (emitRest x inputs.last)

/-! ## Finishing -/

end Hashing

def StreamOutcomeV1.fullyAcquired (facts : LocalFileExecutionFactsV1)
    (accounting : ExecutionAccountingV1) (o : StreamOutcomeV1) : Bool :=
  o.bytesRead = facts.highWaterExclusive &&
    accounting.acknowledgedSourceBytes = facts.highWaterExclusive &&
    !o.sourceByteCap && !o.perRecordByteCap && !o.recordCountCap && !o.cancelled &&
    !o.wallTimeCap && !o.readError && !o.unexpectedEof && !o.sawFragment && !o.sinkStopped &&
    !o.adapterStopped && o.postSnapshotVerified && !o.wallClockFailed

/-- The entries whose condition holds, in order. -/
def raised {α : Type} (entries : List (Bool × α)) : List α :=
  entries.filterMap fun entry => if entry.1 then some entry.2 else none

def StreamOutcomeV1.reasons (o : StreamOutcomeV1) : FetchPartialReasons :=
  match raised [(o.sourceByteCap, FetchPartialReason.sourceByteCap),
      (o.recordCountCap, .recordCountCap), (o.wallTimeCap, .wallTimeCap),
      (o.cancelled, .cancelled), (o.readError || o.unexpectedEof, .sourceReadError),
      (!o.postSnapshotVerified, .sourceChanged),
      (o.sawFragment || o.perRecordByteCap, .recordTruncated), (o.sinkStopped, .sinkFailure),
      (o.adapterStopped || o.wallClockFailed, .otherVersioned 1 1)] with
  | [] => ⟨.sourceChanged, []⟩
  | first :: rest => ⟨first, rest⟩

def StreamOutcomeV1.errorCodes (o : StreamOutcomeV1) : List FetchErrorCode :=
  raised [(o.sinkStopped, FetchErrorCode.sinkFailure),
    (o.adapterStopped || o.wallClockFailed, .adapterInvariantViolation),
    (o.readError || o.unexpectedEof, .sourceReadFailure),
    (!o.postSnapshotVerified, .sourceChanged)]

def StreamOutcomeV1.adapterOutcome (o : StreamOutcomeV1) : AdapterOutcome :=
  if o.sinkStopped then .sinkStopped
  else if o.adapterStopped || o.wallClockFailed then .adapterStopped
  else if o.cancelled then .cancelled
  else if o.wallTimeCap then .deadlineExceeded
  else if o.readError || o.unexpectedEof || !o.postSnapshotVerified then .sourceStopped
  else .finished

def StreamOutcomeV1.capUsage (facts : LocalFileExecutionFactsV1)
    (accounting : ExecutionAccountingV1) (o : StreamOutcomeV1) : List CapUsage :=
  [⟨.sourceBytes, o.bytesRead, facts.caps.sourceBytes, o.sourceByteCap⟩,
    ⟨.perRecordBytes, o.maxRecordBytesUsed, facts.caps.perRecordBytes, o.perRecordByteCap⟩,
    ⟨.records, accounting.acknowledgedRecords, facts.caps.records, o.recordCountCap⟩,
    ⟨.wallTimeMillis, o.elapsedMillis, facts.caps.wallTimeMillis, o.wallTimeCap⟩]

def ExecutionAccountingV1.acknowledged (a : ExecutionAccountingV1) : AcknowledgedCounts :=
  ⟨a.acknowledgedRecords, a.acknowledgedPayloadBytes, a.acknowledgedSourceBytes⟩

def StreamOutcomeV1.completion (facts : LocalFileExecutionFactsV1)
    (accounting : ExecutionAccountingV1) (o : StreamOutcomeV1) (timing : FetchTiming)
    (highWaterMarks : List HighWaterMark) : Except FetchConstructionError FetchCompletion :=
  let boundaries := ⟨accounting.firstCursor, accounting.finalCursor, highWaterMarks⟩
  if o.fullyAcquired facts accounting then
    FetchCompletion.new facts.fetchIdentity timing accounting.acknowledged ⟨1, 1⟩ ⟨0, 0⟩ boundaries
      (o.capUsage facts accounting) .finished [] (.complete .plannedUnixFileSnapshotVerifiedV1)
  else
    FetchCompletion.new facts.fetchIdentity timing accounting.acknowledged ⟨1, 0⟩ ⟨0, 0⟩ boundaries
      (o.capUsage facts accounting) o.adapterOutcome o.errorCodes (.partialFetch o.reasons none)

/-- `None` is the panic of `expect`. -/
def finishExecution (facts : LocalFileExecutionFactsV1) (accounting : ExecutionAccountingV1)
    (o : StreamOutcomeV1) (timing : FetchTiming) :
    Option (Except FetchConstructionError FetchCompletion) :=
  if o.postSnapshotVerified then
    (positionCursor facts.highWaterExclusive).map fun cursor =>
      o.completion facts accounting timing [⟨facts.sourceMember, cursor⟩]
  else some (o.completion facts accounting timing [])

/-- What is asked for after the stream. -/
structure FinalInputs (I : Type) where
  /-- Whether the descriptors are still those of the plan, at this offset. -/
  descriptorsValid : Nat → Bool
  final : Moment I
  wallClock : Option UnixTimestampNanos

/-- The comparison of `execute_with` after the stream. -/
def StreamOutcomeV1.lostBytes (accounting : ExecutionAccountingV1) (o : StreamOutcomeV1) : Bool :=
  !o.sinkStopped && !o.adapterStopped && o.bytesRead ≠ accounting.acknowledgedSourceBytes

def endTiming (startedAt : UnixTimestampNanos) (observed : Option UnixTimestampNanos) :
    UnixTimestampNanos × Bool :=
  match observed with
  | some observed => if startedAt.get ≤ observed.get then (observed, false) else (startedAt, true)
  | none => (startedAt, true)

/-- `execute_with` behind the stream. -/
def finishStream {I : Type} [LinearOrder I] (x : ExecutionV1 I) (startedAt : UnixTimestampNanos)
    (inputs : FinalInputs I) (s : Session) :
    Option (Except FetchConstructionError FetchCompletion) :=
  let s := if s.outcome.lostBytes s.accounting then
      s.mark fun o => { o with adapterStopped := true } else s
  let s := s.mark fun o => { o with
    postSnapshotVerified := inputs.descriptorsValid o.bytesRead }
  let s := s.observe (x.checkpoint inputs.final)
  let ended := endTiming startedAt inputs.wallClock
  let s := s.mark fun o => { o with wallClockFailed := ended.2 }
  finishExecution x.facts s.accounting s.outcome ⟨startedAt, ended.1⟩

end Evidentrail
