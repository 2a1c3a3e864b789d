import Evidentrail.Lib.Rust

/-!
# Acquisition vocabulary

Identities, lanes, record bytes and the raw envelope that an adapter
emits before any policy decision. A Rust `String` is its UTF-8 byte
string: nothing in the modelled code looks at characters.
-/

namespace Evidentrail

open Rust Std

/-! ## Identities -/

/-- Thirty-two bytes. -/
structure Digest where
  bytes : List UInt8
  length_eq : bytes.length = 32
deriving DecidableEq

theorem Digest.ext {a b : Digest} (h : a.bytes = b.bytes) : a = b := by
  cases a; cases b; cases h; rfl

/-- The family of `hash_id!` types, with the selection crate's two ids of the
same shape. -/
inductive IdKind where
  | retrieval
  | plan
  | planDigest
  | sourceIdentity
  | sourceRecord
  | event
  | block
  | content
  | policy
  | transformationReceipt
  | question
  | evidenceReference
  | pattern
  | acquisitionReceipt
  | presentationReceipt
  | result
  | attestationScope
  | artifact
  | packet
  | facet
deriving DecidableEq

/-- One `hash_id!` type. -/
structure HashId (kind : IdKind) where
  fromBytes ::
  digest : Digest
deriving DecidableEq

namespace HashId

variable {kind : IdKind}

def asBytes (id : HashId kind) : List UInt8 := id.digest.bytes

@[simp] theorem length_asBytes (id : HashId kind) : id.asBytes.length = 32 :=
  id.digest.length_eq

theorem asBytes_inj {a b : HashId kind} (h : a.asBytes = b.asBytes) : a = b := by
  cases a; cases b
  exact congrArg _ (Digest.ext h)

/-- `from_bytes([byte; 32])`. -/
def repeated (byte : UInt8) : HashId kind :=
  ⟨⟨List.replicate 32 byte, List.length_replicate⟩⟩

instance : Ord (HashId kind) := ⟨compareOn asBytes⟩

instance : TransOrd (HashId kind) := inferInstanceAs (TransCmp (compareOn asBytes))

instance : LawfulEqOrd (HashId kind) := lawfulEqCmp_compareOn fun _ _ => asBytes_inj

instance : LawfulBEq (HashId kind) := inferInstance

end HashId

abbrev RetrievalId := HashId .retrieval
abbrev PlanId := HashId .plan
abbrev PlanDigest := HashId .planDigest
abbrev SourceIdentityDigest := HashId .sourceIdentity
abbrev SourceRecordId := HashId .sourceRecord
abbrev EventId := HashId .event
abbrev BlockId := HashId .block
abbrev ContentHash := HashId .content
abbrev PolicyDigest := HashId .policy
abbrev TransformationReceiptId := HashId .transformationReceipt
abbrev QuestionDigest := HashId .question
abbrev EvidenceReferenceId := HashId .evidenceReference
abbrev PatternId := HashId .pattern
abbrev AcquisitionReceiptId := HashId .acquisitionReceipt
abbrev PresentationReceiptId := HashId .presentationReceipt
abbrev ResultId := HashId .result
abbrev ArtifactDigest := HashId .artifact
abbrev ProviderAttestationScopeDigestV1 := HashId .attestationScope

/-- The family of `opaque_bytes_type!` types. -/
inductive OpaqueKind where
  | sourceMember
  | nativeEventId
  | sourceCursor
  | rawTimestamp
deriving DecidableEq

/-- One `opaque_bytes_type!` type: exact bytes, never empty. -/
structure OpaqueBytes (kind : OpaqueKind) where
  bytes : Vec UInt8
  nonempty : bytes.toList ≠ []
deriving DecidableEq

namespace OpaqueBytes

variable {kind : OpaqueKind}

def asBytes (value : OpaqueBytes kind) : List UInt8 := value.bytes.toList

theorem asBytes_inj {a b : OpaqueBytes kind} (h : a.asBytes = b.asBytes) : a = b := by
  obtain ⟨a, ha⟩ := a
  obtain ⟨b, hb⟩ := b
  obtain rfl := Vec.ext h
  rfl

theorem length_asBytes_lt (value : OpaqueBytes kind) :
    value.asBytes.length < u64Bound :=
  value.bytes.length_lt_u64

end OpaqueBytes

abbrev SourceMember := OpaqueBytes .sourceMember
abbrev NativeEventId := OpaqueBytes .nativeEventId
abbrev SourceCursor := OpaqueBytes .sourceCursor
abbrev RawTimestamp := OpaqueBytes .rawTimestamp

/-! ## Ordering facts -/

/-- A `u64` position in one of the two orders of a retrieval. -/
structure AcquisitionSequence where
  value : UInt64
deriving DecidableEq

def AcquisitionSequence.get (s : AcquisitionSequence) : Nat := s.value.toNat

structure LaneSequence where
  value : UInt64
deriving DecidableEq

def LaneSequence.get (s : LaneSequence) : Nat := s.value.toNat

theorem LaneSequence.get_lt (s : LaneSequence) : s.get < u64Bound :=
  s.value.toNat_lt

inductive SourceStream where
  | stdout
  | stderr
  | container
  | journal
  | logStream
  | fileMember
  | otherVersioned (version code : UInt16)
deriving DecidableEq

namespace SourceStream

def code : SourceStream → String
  | .stdout => "stdout"
  | .stderr => "stderr"
  | .container => "container"
  | .journal => "journal"
  | .logStream => "log_stream"
  | .fileMember => "file_member"
  | .otherVersioned _ _ => "other_versioned"

/-- The derived order: by variant, then by payload. -/
def rank : SourceStream → List Nat
  | .stdout => [0]
  | .stderr => [1]
  | .container => [2]
  | .journal => [3]
  | .logStream => [4]
  | .fileMember => [5]
  | .otherVersioned version code => [6, version.toNat, code.toNat]

theorem rank_injective : Function.Injective rank := by
  intro a b h
  cases a <;> cases b <;> simp_all [rank, UInt16.toNat_inj]

end SourceStream

/-- A lane: one stream of one source member. -/
structure LaneKey where
  member : SourceMember
  stream : SourceStream
deriving DecidableEq

namespace LaneKey

def rank (lane : LaneKey) : List (List Nat) :=
  [lane.member.asBytes.map UInt8.toNat, lane.stream.rank]

theorem rank_injective : Function.Injective rank := by
  rintro ⟨m, s⟩ ⟨m', s'⟩ h
  simp only [rank, List.cons.injEq, and_true] at h
  have hbytes : m.asBytes = m'.asBytes :=
    (List.map_injective_iff.mpr fun _ _ => UInt8.toNat_inj.mp) h.1
  rw [OpaqueBytes.asBytes_inj hbytes, SourceStream.rank_injective h.2]

instance : Ord LaneKey := ⟨compareOn rank⟩

instance : TransOrd LaneKey := inferInstanceAs (TransCmp (compareOn rank))

instance : LawfulEqOrd LaneKey := lawfulEqCmp_compareOn rank_injective

end LaneKey

/-! ## Record bytes and state -/

inductive RecordBytes where
  | framed (payload terminator : Vec UInt8)
  | whole (payload : Vec UInt8)
deriving DecidableEq

namespace RecordBytes

def payload : RecordBytes → List UInt8
  | .framed payload _ => payload.toList
  | .whole payload => payload.toList

def terminator : RecordBytes → Option (List UInt8)
  | .framed _ terminator => some terminator.toList
  | .whole _ => none

def payloadLen (record : RecordBytes) : Nat := record.payload.length

def terminatorLen (record : RecordBytes) : Option Nat :=
  record.terminator.map List.length

def sourceLen (record : RecordBytes) : Nat :=
  saturatingAdd record.payloadLen (record.terminatorLen.getD 0)

def exactBytes (record : RecordBytes) : List UInt8 :=
  record.payload ++ record.terminator.getD []

theorem payloadLen_lt (record : RecordBytes) : record.payloadLen < 2 ^ 63 := by
  cases record with
  | framed payload terminator => exact payload.length_lt
  | whole payload => exact payload.length_lt

theorem length_exactBytes (record : RecordBytes) :
    record.exactBytes.length = record.payloadLen + record.terminatorLen.getD 0 := by
  cases record <;>
    simp [exactBytes, payloadLen, terminatorLen, payload, terminator]

/-- The saturating sum never saturates: both parts fit `isize`. -/
theorem length_exactBytes_lt (record : RecordBytes) :
    record.exactBytes.length < u64Bound := by
  cases record with
  | framed payload terminator =>
      have hp := payload.length_lt
      have ht := terminator.length_lt
      simp only [exactBytes, RecordBytes.payload, RecordBytes.terminator,
        Option.getD_some, List.length_append]
      unfold u64Bound
      omega
  | whole payload =>
      simpa [exactBytes, RecordBytes.payload, RecordBytes.terminator] using
        payload.length_lt_u64

theorem sourceLen_eq (record : RecordBytes) :
    record.sourceLen = record.exactBytes.length := by
  rw [length_exactBytes]
  exact saturatingAdd_of_lt (length_exactBytes record ▸ length_exactBytes_lt record)

end RecordBytes

inductive RecordFragmentReason where
  | providerTruncation
  | sourceByteCap
  | perRecordByteCap
  | sourceReadError
  | malformedProviderFraming
  | otherVersioned (version code : UInt16)
deriving DecidableEq

def RecordFragmentReason.code : RecordFragmentReason → String
  | .providerTruncation => "provider_truncation"
  | .sourceByteCap => "source_byte_cap"
  | .perRecordByteCap => "per_record_byte_cap"
  | .sourceReadError => "source_read_error"
  | .malformedProviderFraming => "malformed_provider_framing"
  | .otherVersioned _ _ => "other_versioned"

inductive RecordState where
  | complete
  | sourceTruncated (reason : RecordFragmentReason)
  | adapterFragment (reason : RecordFragmentReason)
deriving DecidableEq

namespace RecordState

def code : RecordState → String
  | .complete => "complete"
  | .sourceTruncated _ => "source_truncated"
  | .adapterFragment _ => "adapter_fragment"

def isComplete : RecordState → Bool
  | .complete => true
  | _ => false

end RecordState

/-! ## Timestamps, metadata and hints

Facts an envelope carries beside its bytes. The sink copies them into
the persisted event unread. -/

/-- An `i128` count of nanoseconds since the Unix epoch. -/
structure UnixTimestampNanos where
  get : Int
  lower : -2 ^ 127 ≤ get
  upper : get < 2 ^ 127
deriving DecidableEq

/-- The epoch itself. -/
def UnixTimestampNanos.epoch : UnixTimestampNanos := ⟨0, by decide, by decide⟩

structure MonotonicTimestampNanos where
  get : UInt64
deriving DecidableEq

structure SourceTimestamp where
  raw : RawTimestamp
  parsed : Option UnixTimestampNanos
deriving DecidableEq

structure EnvelopeTimestamps where
  source : Option SourceTimestamp := none
  providerObservedAt : Option UnixTimestampNanos := none
  adapterEmittedAt : Option UnixTimestampNanos := none
  adapterMonotonicTime : Option MonotonicTimestampNanos := none
deriving DecidableEq

inductive NativeMetadataValue where
  | null
  | boolean (value : Bool)
  | signed (value : Int64)
  | unsigned (value : UInt64)
  | floatBits (value : UInt64)
  | text (value : Vec UInt8)
  | bytes (value : Vec UInt8)
  | sequence (values : List NativeMetadataValue)
  | map (fields : List (Vec UInt8 × NativeMetadataValue))

def NativeMetadataValue.kind : NativeMetadataValue → String
  | .null => "null"
  | .boolean _ => "boolean"
  | .signed _ => "signed"
  | .unsigned _ => "unsigned"
  | .floatBits _ => "float_bits"
  | .text _ => "text"
  | .bytes _ => "bytes"
  | .sequence _ => "sequence"
  | .map _ => "map"

mutual

/-- Every list of the tree fits the address space, as a `Vec` does. -/
def NativeMetadataValue.addressable : NativeMetadataValue → Bool
  | .sequence values => decide (values.length < 2 ^ 63) && addressableValues values
  | .map fields => decide (fields.length < 2 ^ 63) && addressableFields fields
  | _ => true

def addressableValues : List NativeMetadataValue → Bool
  | [] => true
  | value :: values => value.addressable && addressableValues values

def addressableFields : List (Vec UInt8 × NativeMetadataValue) → Bool
  | [] => true
  | (_, value) :: fields => value.addressable && addressableFields fields

end

/-- Ordered native fields: a name in arbitrary bytes and its value. -/
structure NativeMetadata where
  fields : List (Vec UInt8 × NativeMetadataValue)
  length_lt : fields.length < 2 ^ 63
  addressable : addressableFields fields = true

inductive RecordFormatHint where
  | plainText
  | json
  | logfmt
  | syslog
  | stackTrace
  | otherVersioned (version code : UInt16)
deriving DecidableEq

inductive EncodingHint where
  | utf8
  | utf16LittleEndian
  | utf16BigEndian
  | latin1
  | binary
  | otherVersioned (version code : UInt16)
deriving DecidableEq

structure RecordHints where
  format : Option RecordFormatHint := none
  encoding : Option EncodingHint := none
deriving DecidableEq

/-! ## Provider attestations -/

inductive ProviderAttestedRelationKindV1 where
  | traceIdentity
  | requestIdentity
  | sessionIdentity
  | hostIdentity
  | containerIdentity
  | deploymentIdentity
  | serviceIdentity
deriving DecidableEq

def ProviderAttestedRelationKindV1.code : ProviderAttestedRelationKindV1 → String
  | .traceIdentity => "trace_identity"
  | .requestIdentity => "request_identity"
  | .sessionIdentity => "session_identity"
  | .hostIdentity => "host_identity"
  | .containerIdentity => "container_identity"
  | .deploymentIdentity => "deployment_identity"
  | .serviceIdentity => "service_identity"

inductive ProviderAttestationOriginV1 where
  | adapterNativeField
deriving DecidableEq

def ProviderAttestationOriginV1.code : ProviderAttestationOriginV1 → String
  | .adapterNativeField => "adapter_native_field"

/-- Largest one opaque adapter-attested correlation value. -/
def maxProviderAttestationValueBytesV1 : Nat := 4 * 1024

/-- Largest number of adapter-attested correlations on one event. -/
def maxProviderAttestationsPerEventV1 : Nat := 64

/-- Bounded opaque provider-native identity bytes. -/
structure ProviderAttestationValueV1 where
  bytes : List UInt8
  nonempty : bytes ≠ []
  length_le : bytes.length ≤ maxProviderAttestationValueBytesV1
deriving DecidableEq

theorem ProviderAttestationValueV1.ext {a b : ProviderAttestationValueV1}
    (h : a.bytes = b.bytes) : a = b := by
  cases a; cases b; cases h; rfl

structure ProviderAttestedCorrelationV1 where
  scopeDigest : ProviderAttestationScopeDigestV1
  relationKind : ProviderAttestedRelationKindV1
  origin : ProviderAttestationOriginV1 := .adapterNativeField
  value : ProviderAttestationValueV1
deriving DecidableEq

namespace ProviderAttestedCorrelationV1

/-- The derived order: scope, relation kind, origin, value. -/
def rank (a : ProviderAttestedCorrelationV1) : List (List Nat) :=
  [a.scopeDigest.asBytes.map UInt8.toNat, [a.relationKind.ctorIdx],
    [a.origin.ctorIdx], a.value.bytes.map UInt8.toNat]

end ProviderAttestedCorrelationV1

/-- Canonical attestations of one envelope: sorted, without duplicates
and bounded in number. -/
structure ProviderAttestationsV1 where
  entries : List ProviderAttestedCorrelationV1
  sorted : (entries.map ProviderAttestedCorrelationV1.rank).Pairwise (· < ·)
  length_le : entries.length ≤ maxProviderAttestationsPerEventV1
deriving DecidableEq

namespace ProviderAttestationsV1

def empty : ProviderAttestationsV1 := ⟨[], List.Pairwise.nil, Nat.zero_le _⟩

theorem ext {a b : ProviderAttestationsV1} (h : a.entries = b.entries) : a = b := by
  cases a; cases b; cases h; rfl

end ProviderAttestationsV1

/-! ## The envelope -/

/-- Adapter family and implementation version, both nonempty. -/
structure AdapterIdentity where
  kind : Vec UInt8
  version : Vec UInt8
  kind_nonempty : kind.toList ≠ []
  version_nonempty : version.toList ≠ []
deriving DecidableEq

structure RawEnvelopeIdentityV1 where
  retrievalId : RetrievalId
  planId : PlanId
  planDigest : PlanDigest
  adapter : AdapterIdentity
  sourceIdentityDigest : SourceIdentityDigest
deriving DecidableEq

structure EnvelopeOrdering where
  acquisitionSequence : AcquisitionSequence
  lane : LaneKey
  laneSequence : LaneSequence
deriving DecidableEq

structure RawEnvelopeV1 where
  identity : RawEnvelopeIdentityV1
  ordering : EnvelopeOrdering
  nativeEventId : Option NativeEventId := none
  cursor : Option SourceCursor := none
  record : RecordBytes
  state : RecordState
  timestamps : EnvelopeTimestamps := {}
  metadata : Option NativeMetadata := none
  providerAttestations : ProviderAttestationsV1 := .empty
  hints : RecordHints := {}

/-- `RawEnvelopeV1::new`: every optional fact absent. -/
def RawEnvelopeV1.new (identity : RawEnvelopeIdentityV1) (ordering : EnvelopeOrdering)
    (record : RecordBytes) (state : RecordState) : RawEnvelopeV1 :=
  { identity := identity, ordering := ordering, record := record, state := state }

/-- `RawEnvelopeV1::CONTRACT_VERSION`. -/
def RawEnvelopeV1.contractVersion (_ : RawEnvelopeV1) : Nat := 1

/-! ## Replay lanes

Envelopes of one retrieval, for concrete runs. -/

def replayAdapter : AdapterIdentity where
  kind := ⟨[114], by decide⟩
  version := ⟨[49], by decide⟩
  kind_nonempty := by decide
  version_nonempty := by decide

def replayLane : LaneKey where
  member := ⟨⟨[109], by decide⟩, by decide⟩
  stream := .stderr

def replayEnvelope (sequence : UInt64) (record : RecordBytes) (state : RecordState) :
    RawEnvelopeV1 :=
  .new ⟨.repeated 1, .repeated 2, .repeated 3, replayAdapter, .repeated 4⟩
    ⟨⟨sequence⟩, replayLane, ⟨sequence⟩⟩ record state

/-- A line of a stream, as the records of both streams come in. -/
def streamLine (acquisition : UInt64) (stream : SourceStream) (sequence : UInt64)
    (line : Vec UInt8) : RawEnvelopeV1 :=
  .new ⟨.repeated 1, .repeated 2, .repeated 3, replayAdapter, .repeated 4⟩
    ⟨⟨acquisition⟩, ⟨replayLane.member, stream⟩, ⟨sequence⟩⟩ (.framed line ⟨[], by decide⟩)
    .complete

end Evidentrail
