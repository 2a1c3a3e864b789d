import Evidentrail.Ingest.Kubernetes
import Mathlib.Data.List.Lex

/-!
# A run of the Kubernetes adapter

After the members were read, the held records are sorted by a canonical
key, become envelopes with consecutive acquisition sequences and leave in
batches. What the run reports is put together from the session and the
state of the member loop.
-/

namespace Evidentrail

open Rust Encoding Std

/-! ## The canonical order -/

/-- The derived order of `KubernetesCanonicalKey`. -/
abbrev KubernetesCanonicalKey :=
  Bool ×ₗ ℤ ×ₗ List ℕ ×ₗ List ℕ ×ₗ ℕ ×ₗ ℕ ×ₗ ℕ ×ₗ ℕ ×ₗ ℕ

/-- A missing timestamp sorts behind every other and counts as zero. -/
def kubernetesCanonicalKey (pending : PendingKubernetesRecord) : KubernetesCanonicalKey :=
  toLex (pending.record.parsedTimestampNanos.isNone,
    toLex (pending.record.parsedTimestampNanos.elim 0 UnixTimestampNanos.get,
    toLex (pending.member.podUid.toList.map UInt8.toNat,
    toLex (pending.member.container.toList.map UInt8.toNat,
    toLex (pending.member.restartCount.toNat,
    toLex (pending.member.instanceKind.ctorIdx,
    toLex (pending.record.stream.ctorIdx,
    toLex (pending.responseOrdinal, pending.providerAcquisitionOrdinal))))))))

def canonicalOrder (pending : List PendingKubernetesRecord) : List PendingKubernetesRecord :=
  pending.insertionSort fun left right =>
    kubernetesCanonicalKey left ≤ kubernetesCanonicalKey right

/-! ## Envelopes -/

/-- `new` of an opaque byte type, on bytes that were allocated. -/
def newOpaque (kind : OpaqueKind) (bytes : List UInt8) :
    Except (Fault IngestError) (OpaqueBytes kind) :=
  if hempty : bytes = [] then .error (.err .providerInvariantViolation)
  else if hroom : bytes.length < 2 ^ 63 then .ok ⟨⟨bytes, hroom⟩, hempty⟩
  else .error .panicked

def kubernetesSourceMember (member : KubernetesContainerInstanceV1) :
    Except (Fault IngestError) SourceMember :=
  newOpaque .sourceMember (encodeFields (memberFields member))

def kubernetesTimestamps (record : KubernetesLogRecordV1) :
    Except (Fault IngestError) EnvelopeTimestamps :=
  match record.providerTimestamp with
  | some bytes => do
      let raw ← newOpaque .rawTimestamp bytes.toList
      .ok { source := some ⟨raw, record.parsedTimestampNanos⟩ }
  | none => .ok {}

def kubernetesMetadata (pending : PendingKubernetesRecord) : NativeMetadata where
  fields := [
    (⟨asciiBytes "provider_acquisition_ordinal", by decide⟩,
      .unsigned (UInt64.ofNat pending.providerAcquisitionOrdinal)),
    (⟨asciiBytes "response_ordinal", by decide⟩,
      .unsigned (UInt64.ofNat pending.responseOrdinal)),
    (⟨asciiBytes "container_instance", by decide⟩,
      .text ⟨asciiBytes pending.member.instanceKind.code,
        by cases pending.member.instanceKind <;> decide⟩)]
  length_lt := by simp
  addressable := rfl

def kubernetesCursorPreimage (bytes : List UInt8) : List UInt8 :=
  asciiBytes "evidentrail/kubernetes/cursor/v1" ++ field bytes

section Run

variable [Sha256]

def digestCursor (bytes : List UInt8) : Except (Fault IngestError) SourceCursor :=
  newOpaque .sourceCursor (Sha256.digest (kubernetesCursorPreimage bytes)).bytes

def kubernetesEnvelope (context : ExecutionContext) (pending : PendingKubernetesRecord)
    (member : SourceMember) (acquisitionSequence laneSequence : Nat) :
    Except (Fault IngestError) RawEnvelopeV1 := do
  let timestamps ← kubernetesTimestamps pending.record
  let nativeEventId ← newOpaque .nativeEventId pending.nativeIdentity
  let cursor ← digestCursor pending.nativeIdentity
  .ok {
    identity := context.envelopeIdentity
    ordering := ⟨⟨UInt64.ofNat acquisitionSequence⟩,
      ⟨member, pending.record.stream.sourceStream⟩, ⟨UInt64.ofNat laneSequence⟩⟩
    nativeEventId := some nativeEventId
    cursor := some cursor
    record := .framed pending.record.payload pending.record.terminator
    state := .complete
    timestamps := timestamps
    metadata := some (kubernetesMetadata pending)
    hints := ⟨some .plainText, some .utf8⟩ }

/-- The loop over the ordered records, from a position on. -/
def kubernetesEnvelopes (context : ExecutionContext) :
    Nat → ExtTreeMap LaneKey Nat → List PendingKubernetesRecord →
      Except (Fault IngestError) (List RawEnvelopeV1)
  | _, _, [] => .ok []
  | position, laneSequences, pending :: rest => do
      let acquisitionSequence ← okOr (.err .providerInvariantViolation) (u64TryFrom position)
      let member ← kubernetesSourceMember pending.member
      let lane : LaneKey := ⟨member, pending.record.stream.sourceStream⟩
      let laneSequence := laneSequences[lane]?.getD 0
      let envelope ← kubernetesEnvelope context pending member acquisitionSequence laneSequence
      let next ← okOr (.err .providerInvariantViolation) (checkedAdd laneSequence 1)
      let envelopes ← kubernetesEnvelopes context (position + 1)
        (laneSequences.insert lane next) rest
      .ok (envelope :: envelopes)

/-! ## Batches -/

def batchOf (context : ExecutionContext) (ordinal : Nat) (chunk : List RawEnvelopeV1) :
    Except (Fault IngestError) EnvelopeBatchV1 :=
  if hroom : chunk.length < 2 ^ 63 then
    (EnvelopeBatchV1.new context (UInt64.ofNat ordinal) ⟨chunk, hroom⟩).mapError
      fun _ => .err .invalidBatch
  else .error .panicked

/-- The loop over the chunks, from an ordinal on. -/
def offerBatches (context : ExecutionContext) (sink : EnvelopeBatchSinkV1) :
    Nat → List (List RawEnvelopeV1) → ExecutionSession → KubernetesState →
      Except (Fault IngestError) (ExecutionSession × KubernetesState)
  | _, [], session, s => .ok (session, s)
  | ordinal, chunk :: rest, session, s => do
      let batch ← batchOf context ordinal chunk
      let next ← okOr (.err .providerInvariantViolation) (checkedAdd ordinal 1)
      let (session, status) := session.acceptBatch sink batch
      match status with
      | .acknowledged => offerBatches context sink next rest session s
      | .sinkStopped => .ok (session, { s with
          partialReasons := s.partialReasons ++ [.sinkFailure]
          errors := s.errors ++ [.sinkFailure]
          outcome := .sinkStopped })
      | .adapterStopped => .ok (session, { s with
          partialReasons := s.partialReasons ++ [.otherVersioned 1 202]
          errors := s.errors ++ [.adapterInvariantViolation]
          outcome := .adapterStopped })

/-- The first occurrence of each value. -/
def deduplicateCopyValues {α : Type*} [DecidableEq α] (values : List α) : List α :=
  values.foldl (fun unique value => if value ∈ unique then unique else unique ++ [value]) []

/-- What the run reports. -/
def kubernetesCompletion (context : ExecutionContext) (plan : KubernetesPlanV1)
    (session : ExecutionSession) (s : KubernetesState) :
    Except (Fault IngestError) FetchCompletion :=
  let partialReasons := deduplicateCopyValues s.partialReasons
  let errors := deduplicateCopyValues s.errors
  let completeness := match partialReasons with
    | first :: additional => .partialFetch ⟨first, additional⟩ session.finalCursor
    | [] => .unknown .providerHasNoCompletenessProof
  let caps := plan.caps
  let capUsage := [
    ⟨.records, session.acknowledgedRecords, caps.maxRecords,
      decide (.recordCountCap ∈ partialReasons)⟩,
    ⟨.sourceBytes, session.acknowledgedSourceBytes, caps.maxSourceBytes,
      decide (.sourceByteCap ∈ partialReasons)⟩,
    ⟨.members, s.attemptedMembers, caps.maxMembers,
      decide (s.attemptedMembers = caps.maxMembers ∧
        s.attemptedMembers < plan.members.length)⟩,
    ⟨.perRecordBytes, 0, caps.maxRecordBytes, decide (.recordTruncated ∈ partialReasons)⟩]
  let epoch : UnixTimestampNanos := .epoch
  (FetchCompletion.new context.fetchIdentity ⟨epoch, epoch⟩ session.acknowledged
    ⟨s.attemptedMembers, s.completedMembers⟩ ⟨0, 0⟩
    ⟨session.firstCursor, session.finalCursor, []⟩ capUsage s.outcome errors
    completeness).mapError fun _ => .err .invalidFetchCompletion

def kubernetesAdapterKindV1 : String := "kubernetes-pod-logs"

def kubernetesAdapterVersionV1 : String := "1"

/-- `KubernetesAdapterV1::execute_batches`. -/
def executeBatches (plan : KubernetesPlanV1) (transport : KubernetesTransportV1)
    (context : ExecutionContext) (sink : EnvelopeBatchSinkV1) (isCancelled : Nat → Bool) :
    Except (Fault IngestError) FetchCompletion :=
  let adapter := context.fetchIdentity.adapter
  if adapter.kind.toList ≠ asciiBytes kubernetesAdapterKindV1 ∨
      adapter.version.toList ≠ asciiBytes kubernetesAdapterVersionV1 then
    .error (.err .adapterIdentityMismatch)
  else do
    let s ← KubernetesState.readMembers ⟨plan.caps, transport, isCancelled⟩
      plan.members.toList {}
    let envelopes ← kubernetesEnvelopes context 0 ∅ (canonicalOrder s.pending)
    let (session, s) ← offerBatches context sink 0
      (chunks maxEnvelopesPerBatchV1 envelopes) {} s
    kubernetesCompletion context plan session s

end Run

end Evidentrail
