import Evidentrail.Core.Hash
import Evidentrail.Schema.Fetch

/-!
# Envelope batches

An adapter hands its envelopes to a durable sink in batches. A batch
carries an operation id, which names the retrieval and the ordinal, and
a canonical digest of everything in it, so that a sink that sees an
operation id again can tell a replay from a changed batch. As in
`Core.Hash` the model follows the byte strings that are hashed.
-/

namespace Evidentrail

open Rust Encoding

/-! ## The execution an envelope belongs to -/

structure ExecutionContext where
  fetchIdentity : FetchIdentity
  sourceIdentityDigest : SourceIdentityDigest
deriving DecidableEq

namespace ExecutionContext

/-- The identity shared by every envelope of the execution. -/
def envelopeIdentity (context : ExecutionContext) : RawEnvelopeIdentityV1 where
  retrievalId := context.fetchIdentity.retrievalId
  planId := context.fetchIdentity.planId
  planDigest := context.fetchIdentity.planDigest
  adapter := context.fetchIdentity.adapter
  sourceIdentityDigest := context.sourceIdentityDigest

def matchesIdentity (context : ExecutionContext) (identity : RawEnvelopeIdentityV1) : Bool :=
  identity.retrievalId == context.fetchIdentity.retrievalId
    && identity.planId == context.fetchIdentity.planId
    && identity.planDigest == context.fetchIdentity.planDigest
    && identity.adapter == context.fetchIdentity.adapter
    && identity.sourceIdentityDigest == context.sourceIdentityDigest

theorem matchesIdentity_iff {context : ExecutionContext} {identity : RawEnvelopeIdentityV1} :
    context.matchesIdentity identity = true ↔ identity = context.envelopeIdentity := by
  rcases identity with ⟨r, p, d, a, s⟩
  simp only [matchesIdentity, envelopeIdentity, Bool.and_eq_true, beq_iff_eq,
    RawEnvelopeIdentityV1.mk.injEq, and_assoc]

end ExecutionContext

/-! ## The canonical digest -/

/-- `domain_hasher` of the batch module: any label as the first field. -/
def batchDomainHasher (label : String) : List UInt8 :=
  field (asciiBytes label)

def optionalI128 (value : Option UnixTimestampNanos) : List UInt8 :=
  marked (fun t => field (i128LeBytes t)) value

mutual

/-- The kind of the value, then what it holds; the lists are counted. -/
def hashMetadataValue (value : NativeMetadataValue) : List UInt8 :=
  field (asciiBytes value.kind) ++
    match value with
    | .null => []
    | .boolean value => [if value then 1 else 0]
    | .signed value => field (leBytes 8 value.toUInt64.toNat)
    | .unsigned value => field (leBytes 8 value.toNat)
    | .floatBits value => field (leBytes 8 value.toNat)
    | .text value => field value.toList
    | .bytes value => field value.toList
    | .sequence values => field (leBytes 8 values.length) ++ hashMetadataValues values
    | .map fields => field (leBytes 8 fields.length) ++ hashMetadataFields fields

def hashMetadataValues : List NativeMetadataValue → List UInt8
  | [] => []
  | value :: values => hashMetadataValue value ++ hashMetadataValues values

def hashMetadataFields : List (Vec UInt8 × NativeMetadataValue) → List UInt8
  | [] => []
  | (name, value) :: fields =>
      field name.toList ++ (hashMetadataValue value ++ hashMetadataFields fields)

end

def hashMetadata (metadata : NativeMetadata) : List UInt8 :=
  field (leBytes 8 metadata.fields.length) ++ hashMetadataFields metadata.fields

def RecordFormatHint.code : RecordFormatHint → String
  | .plainText => "plain_text"
  | .json => "json"
  | .logfmt => "logfmt"
  | .syslog => "syslog"
  | .stackTrace => "stack_trace"
  | .otherVersioned _ _ => "other_versioned"

def EncodingHint.code : EncodingHint → String
  | .utf8 => "utf8"
  | .utf16LittleEndian => "utf16_little_endian"
  | .utf16BigEndian => "utf16_big_endian"
  | .latin1 => "latin1"
  | .binary => "binary"
  | .otherVersioned _ _ => "other_versioned"

section Digests

variable [Sha256]

/-- What the loop hashes of one envelope. A hint is hashed by its code;
the version and the code number of a versioned hint are not. -/
def hashBatchEnvelope (envelope : RawEnvelopeV1) : List UInt8 :=
  let timestamps := envelope.timestamps
  field (sourceRecordId envelope).asBytes
    ++ field envelope.record.payload
    ++ optionalField envelope.record.terminator
    ++ optionalField (timestamps.source.map fun value => value.raw.asBytes)
    ++ optionalI128 (timestamps.source.bind fun value => value.parsed)
    ++ optionalI128 timestamps.providerObservedAt
    ++ optionalI128 timestamps.adapterEmittedAt
    ++ marked (fun value => field (leBytes 8 value.get.toNat)) timestamps.adapterMonotonicTime
    ++ marked hashMetadata envelope.metadata
    ++ counted hashAttestation envelope.providerAttestations.entries
    ++ field (envelope.hints.format.elim [] fun value => asciiBytes value.code)
    ++ field (envelope.hints.encoding.elim [] fun value => asciiBytes value.code)

def batchPreimage (context : ExecutionContext) (ordinal : UInt64)
    (envelopes : List RawEnvelopeV1) : List UInt8 :=
  batchDomainHasher "evidentrail/ingest/envelope-batch/v1"
    ++ field context.fetchIdentity.retrievalId.asBytes
    ++ field (leBytes 8 ordinal.toNat)
    ++ counted hashBatchEnvelope envelopes

def canonicalBatchDigest (context : ExecutionContext) (ordinal : UInt64)
    (envelopes : List RawEnvelopeV1) : Digest :=
  Sha256.digest (batchPreimage context ordinal envelopes)

def batchOperationPreimage (context : ExecutionContext) (ordinal : UInt64) : List UInt8 :=
  batchDomainHasher "evidentrail/ingest/batch-operation/v1"
    ++ field context.fetchIdentity.retrievalId.asBytes
    ++ field (leBytes 8 ordinal.toNat)

end Digests

/-! ## Construction -/

def maxEnvelopesPerBatchV1 : Nat := 4096

inductive BatchConstructionErrorV1 where
  | invalidEnvelopeCount
  | crossContextEnvelope
  | orderingOverflow
  | nonContiguousOrdering
deriving DecidableEq

/-- The loop over `windows(2)`. -/
def checkBatchOrdering : List RawEnvelopeV1 → Except BatchConstructionErrorV1 Unit
  | first :: second :: rest => do
      let next ← okOr .orderingOverflow
        (checkedAdd first.ordering.acquisitionSequence.get 1)
      if second.ordering.acquisitionSequence.get ≠ next then
        .error .nonContiguousOrdering
      else checkBatchOrdering (second :: rest)
  | _ => .ok ()

/-- Immutable, canonically committed batch supplied to a durable sink. -/
structure EnvelopeBatchV1 where
  operationId : Digest
  ordinal : UInt64
  canonicalDigest : Digest
  envelopes : Vec RawEnvelopeV1

def EnvelopeBatchV1.new [Sha256] (context : ExecutionContext) (ordinal : UInt64)
    (envelopes : Vec RawEnvelopeV1) : Except BatchConstructionErrorV1 EnvelopeBatchV1 :=
  if envelopes.toList = [] ∨ maxEnvelopesPerBatchV1 < envelopes.length then
    .error .invalidEnvelopeCount
  else if envelopes.toList.any (fun envelope => !context.matchesIdentity envelope.identity) then
    .error .crossContextEnvelope
  else do
    checkBatchOrdering envelopes.toList
    .ok ⟨Sha256.digest (batchOperationPreimage context ordinal), ordinal,
      canonicalBatchDigest context ordinal envelopes.toList, envelopes⟩

namespace EnvelopeBatchV1

/-- What `new` checked and computed. -/
theorem new_eq_ok [Sha256] {context : ExecutionContext} {ordinal : UInt64}
    {envelopes : Vec RawEnvelopeV1} {batch : EnvelopeBatchV1}
    (h : new context ordinal envelopes = .ok batch) :
    envelopes.toList ≠ [] ∧
      (∀ e ∈ envelopes.toList, e.identity = context.envelopeIdentity) ∧
      batch = ⟨Sha256.digest (batchOperationPreimage context ordinal), ordinal,
        canonicalBatchDigest context ordinal envelopes.toList, envelopes⟩ := by
  unfold new at h
  split at h
  · cases h
  rename_i hcount
  split at h
  · cases h
  rename_i hmatch
  cases hord : checkBatchOrdering envelopes.toList with
  | error fault => rw [hord] at h; cases h
  | ok _ =>
      rw [hord] at h
      obtain rfl := Except.ok.inj h
      refine ⟨fun hnil => hcount (.inl hnil), fun e he => ?_, rfl⟩
      rw [Bool.not_eq_true, List.any_eq_false] at hmatch
      have := hmatch e he
      rw [Bool.not_eq_true, Bool.not_eq_false'] at this
      exact ExecutionContext.matchesIdentity_iff.mp this

end EnvelopeBatchV1

end Evidentrail
