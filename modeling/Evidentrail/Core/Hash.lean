import Evidentrail.Lib.Encoding
import Evidentrail.Lib.Sha2
import Evidentrail.Schema.Acquisition

/-!
# Identity preimages

Every identity of the core is the SHA-256 digest of length-framed
fields under a domain label. The digest function comes from the `sha2`
crate and is a parameter here (`Sha256`); what the source decides, and
what these definitions follow line by line, is the byte string that is
hashed.
-/

namespace Evidentrail

open Rust Encoding

/-- The digest function of the `sha2` crate. -/
class Sha256 where
  digest : List UInt8 → Digest

/-- The function itself, as FIPS 180-4 defines it. -/
abbrev fips180 : Sha256 where
  digest message := ⟨Sha2.sha256 message, Sha2.length_sha256 message⟩

/-- The same function, for closed digests. -/
abbrev fips180Evaluated : Sha256 where
  digest message := ⟨Sha2.evaluated message, Sha2.length_evaluated message⟩

theorem fips180_eq : fips180 = fips180Evaluated := by
  simp only [fips180, fips180Evaluated, Sha2.sha256_eq_evaluated]

/-- `as_bytes` of an ASCII literal: one byte a character. -/
def asciiBytes (s : String) : List UInt8 := s.toByteArray.data.toList

/-- The domain labels. -/
inductive HashDomain where
  | question
  | sourceRecord
  | authorizedEvent
  | eventBlock
  | sameLaneBlock
  | acquisitionReceipt
  | presentationReceipt
  | transformationReceipt
  | evidenceReference
deriving DecidableEq

def HashDomain.label : HashDomain → String
  | .question => "evidentrail/question/v1"
  | .sourceRecord => "evidentrail/source-record/v1"
  | .authorizedEvent => "evidentrail/authorized-event/v2"
  | .eventBlock => "evidentrail/event-block/v1"
  | .sameLaneBlock => "evidentrail/event-block/same-lane/v1"
  | .acquisitionReceipt => "evidentrail/acquisition-receipt/v1"
  | .presentationReceipt => "evidentrail/presentation-receipt/v1"
  | .transformationReceipt => "evidentrail/transformation-receipt/v1"
  | .evidenceReference => "evidentrail/evidence-reference/v1"

def domainHasher (domain : HashDomain) : List UInt8 :=
  field (asciiBytes domain.label)

/-! ## Source records -/

def hashStream (stream : SourceStream) : List UInt8 :=
  field (asciiBytes stream.code) ++
    match stream with
    | .otherVersioned version code =>
        field (leBytes 2 version.toNat) ++ field (leBytes 2 code.toNat)
    | _ => []

/-- Only the reason's code is hashed, not what it carries. -/
def hashRecordState (state : RecordState) : List UInt8 :=
  field (asciiBytes state.code) ++
    match state with
    | .complete => []
    | .sourceTruncated reason => field (asciiBytes reason.code)
    | .adapterFragment reason => field (asciiBytes reason.code)

def sourceRecordPreimage (envelope : RawEnvelopeV1) : List UInt8 :=
  let identity := envelope.identity
  let ordering := envelope.ordering
  domainHasher .sourceRecord
    ++ field (leBytes 2 envelope.contractVersion)
    ++ field identity.retrievalId.asBytes
    ++ field identity.planId.asBytes
    ++ field identity.planDigest.asBytes
    ++ field identity.adapter.kind.toList
    ++ field identity.adapter.version.toList
    ++ field identity.sourceIdentityDigest.asBytes
    ++ field (leBytes 8 ordering.acquisitionSequence.get)
    ++ field ordering.lane.member.asBytes
    ++ hashStream ordering.lane.stream
    ++ field (leBytes 8 ordering.laneSequence.get)
    ++ optionalField (envelope.nativeEventId.map OpaqueBytes.asBytes)
    ++ optionalField (envelope.cursor.map OpaqueBytes.asBytes)
    ++ hashRecordState envelope.state

/-! ## Authorized events -/

def hashAttestation (attestation : ProviderAttestedCorrelationV1) : List UInt8 :=
  field attestation.scopeDigest.asBytes
    ++ field (asciiBytes attestation.relationKind.code)
    ++ field (asciiBytes attestation.origin.code)
    ++ field attestation.value.bytes

def hashPersistedProviderAttestations (attestations : ProviderAttestationsV1) :
    List UInt8 :=
  if attestations.entries = [] then []
  else
    field (asciiBytes "evidentrail/authorized-event/provider-attestations/v1")
      ++ counted hashAttestation attestations.entries

def hashExactnessBasis (basis : ExactnessBasis) : List UInt8 :=
  field (asciiBytes basis.code) ++
    match basis with
    | .sourceExact => []
    | .postPolicy policyDigest transformationReceiptId =>
        field policyDigest.asBytes ++ field transformationReceiptId.asBytes

def eventPreimage (retrievalId : RetrievalId) (sourceRecordId : SourceRecordId)
    (contentHash : ContentHash) (exactnessBasis : ExactnessBasis)
    (providerAttestations : ProviderAttestationsV1) : List UInt8 :=
  domainHasher .authorizedEvent
    ++ field retrievalId.asBytes
    ++ field sourceRecordId.asBytes
    ++ field contentHash.asBytes
    ++ hashExactnessBasis exactnessBasis
    ++ hashPersistedProviderAttestations providerAttestations

/-! ## Blocks -/

/-- Exact opaque identity of the framing policy behind a block. -/
structure FramingPolicy where
  policy : Vec UInt8
  version : Vec UInt8
deriving DecidableEq

def eventBlockPreimage (retrievalId : RetrievalId) (memberIds : List EventId)
    (framingPolicy : FramingPolicy) : List UInt8 :=
  domainHasher .eventBlock
    ++ field retrievalId.asBytes
    ++ counted (fun id : EventId => field id.asBytes) memberIds
    ++ field framingPolicy.policy.toList
    ++ field framingPolicy.version.toList

/-- The outer preimage of a same-lane block. The lane sequences carry no
count: nothing follows them. -/
def sameLaneBlockPreimage (membershipId : BlockId) (lane : LaneKey)
    (memberLaneSequences : List LaneSequence) : List UInt8 :=
  domainHasher .sameLaneBlock
    ++ field membershipId.asBytes
    ++ field lane.member.asBytes
    ++ hashStream lane.stream
    ++ memberLaneSequences.flatMap fun s => field (leBytes 8 s.get)

/-! ## Receipts and references -/

def hashAcquisitionOutcome (outcome : AcquisitionOutcome) : List UInt8 :=
  field (asciiBytes outcome.code) ++
    match outcome with
    | .persisted eventId .sourceExact => field eventId.asBytes
    | .persisted eventId (.postPolicy policyDigest transformationReceiptId) =>
        field eventId.asBytes ++ field policyDigest.asBytes
          ++ field transformationReceiptId.asBytes
    | .omittedByPolicy policyDigest => field policyDigest.asBytes

def hashAcquisitionEntry (entry : AcquisitionReceiptEntry) : List UInt8 :=
  field entry.sourceRecordId.asBytes ++ hashAcquisitionOutcome entry.outcome

def acquisitionReceiptPreimage (retrievalId : RetrievalId)
    (entries : List AcquisitionReceiptEntry) : List UInt8 :=
  domainHasher .acquisitionReceipt
    ++ field retrievalId.asBytes
    ++ entries.flatMap hashAcquisitionEntry

inductive PresentationDisposition where
  | shownVerbatim
  | patternRepresented (patternId : PatternId)
  | retainedRaw
deriving DecidableEq

structure PresentationReceiptEntry where
  eventId : EventId
  disposition : PresentationDisposition
deriving DecidableEq

/-- The word hashed for a disposition. It is not `code`. -/
def PresentationDisposition.hashWord : PresentationDisposition → String
  | .shownVerbatim => "shown-verbatim"
  | .patternRepresented _ => "pattern-represented"
  | .retainedRaw => "retained-raw"

def hashPresentationDisposition (disposition : PresentationDisposition) : List UInt8 :=
  field (asciiBytes disposition.hashWord) ++
    match disposition with
    | .patternRepresented patternId => field patternId.asBytes
    | _ => []

def hashPresentationEntry (entry : PresentationReceiptEntry) : List UInt8 :=
  field entry.eventId.asBytes ++ hashPresentationDisposition entry.disposition

def presentationReceiptPreimage (retrievalId : RetrievalId)
    (entries : List PresentationReceiptEntry) : List UInt8 :=
  domainHasher .presentationReceipt
    ++ field retrievalId.asBytes
    ++ entries.flatMap hashPresentationEntry

/-- One replaced byte range of a policy transformation. -/
structure ByteRangeReplacementV1 where
  start : UInt64
  stop : UInt64
  replacement : Vec UInt8
deriving DecidableEq

def hashReplacement (operation : ByteRangeReplacementV1) : List UInt8 :=
  field (leBytes 8 operation.start.toNat)
    ++ field (leBytes 8 operation.stop.toNat)
    ++ field operation.replacement.toList

def transformationReceiptPreimage (policy : PolicyDigest)
    (operations : List ByteRangeReplacementV1) (inputLength outputLength : Nat)
    (outputHash : ContentHash) (payloadLength : Nat)
    (terminatorLength : Option Nat) : List UInt8 :=
  domainHasher .transformationReceipt
    ++ field policy.asBytes
    ++ field (leBytes 8 inputLength)
    ++ field (leBytes 8 outputLength)
    ++ field outputHash.asBytes
    ++ field (leBytes 8 payloadLength)
    ++ optionalField (terminatorLength.map (leBytes 8))
    ++ counted hashReplacement operations

inductive EvidenceTargetRef where
  | event (id : EventId)
  | block (id : BlockId)
deriving DecidableEq

namespace EvidenceTargetRef

def code : EvidenceTargetRef → String
  | .event _ => "event"
  | .block _ => "block"

def hashBytes : EvidenceTargetRef → List UInt8
  | .event id => id.asBytes
  | .block id => id.asBytes

end EvidenceTargetRef

inductive ExpansionRelationV1 where
  | exact
  | sameLaneBeforeAfter
  | globalBeforeAfter
  | patternMembers
  | sameAttestedTrace
  | aroundOnset
deriving DecidableEq

def ExpansionRelationV1.code : ExpansionRelationV1 → String
  | .exact => "exact"
  | .sameLaneBeforeAfter => "same_lane_before_after"
  | .globalBeforeAfter => "global_before_after"
  | .patternMembers => "pattern_members"
  | .sameAttestedTrace => "same_attested_trace"
  | .aroundOnset => "around_onset"

/-- `to_le_bytes` of an `i128`: two's complement. -/
def i128LeBytes (t : UnixTimestampNanos) : List UInt8 :=
  leBytes 16 (t.get % 2 ^ 128).toNat

/-- `EvidenceReferenceV1::CONTRACT_VERSION`. -/
def evidenceReferenceContractVersion : Nat := 1

def evidenceReferencePreimage (resultId : ResultId)
    (targets : List EvidenceTargetRef) (allowedRelations : List ExpansionRelationV1)
    (issuedAt expiresAt : UnixTimestampNanos) : List UInt8 :=
  domainHasher .evidenceReference
    ++ field (leBytes 2 evidenceReferenceContractVersion)
    ++ field resultId.asBytes
    ++ field (i128LeBytes issuedAt)
    ++ field (i128LeBytes expiresAt)
    ++ counted (fun target : EvidenceTargetRef =>
        field (asciiBytes target.code) ++ field target.hashBytes) targets
    ++ counted (fun relation : ExpansionRelationV1 =>
        field (asciiBytes relation.code)) allowedRelations

/-! ## The identities -/

section Identities

variable [Sha256]

/-- Hash only bytes that the policy boundary authorized. -/
def authorizedContentHash (authorized : List UInt8) : ContentHash :=
  .fromBytes (Sha256.digest authorized)

def deriveQuestionDigestV1 (questionBytes : List UInt8) : QuestionDigest :=
  .fromBytes (Sha256.digest (domainHasher .question ++ field questionBytes))

def sourceRecordId (envelope : RawEnvelopeV1) : SourceRecordId :=
  .fromBytes (Sha256.digest (sourceRecordPreimage envelope))

def eventId (retrievalId : RetrievalId) (sourceRecordId : SourceRecordId)
    (contentHash : ContentHash) (exactnessBasis : ExactnessBasis)
    (providerAttestations : ProviderAttestationsV1) : EventId :=
  .fromBytes (Sha256.digest
    (eventPreimage retrievalId sourceRecordId contentHash exactnessBasis
      providerAttestations))

def blockId (retrievalId : RetrievalId) (memberIds : List EventId)
    (framingPolicy : FramingPolicy) : BlockId :=
  .fromBytes (Sha256.digest (eventBlockPreimage retrievalId memberIds framingPolicy))

def sameLaneBlockIdV1 (retrievalId : RetrievalId) (lane : LaneKey)
    (memberIds : List EventId) (memberLaneSequences : List LaneSequence)
    (framingPolicy : FramingPolicy) : BlockId :=
  .fromBytes (Sha256.digest
    (sameLaneBlockPreimage (blockId retrievalId memberIds framingPolicy) lane
      memberLaneSequences))

def acquisitionReceiptId (receipt : AcquisitionReceipt) : AcquisitionReceiptId :=
  .fromBytes (Sha256.digest
    (acquisitionReceiptPreimage receipt.retrievalId receipt.entries))

def presentationReceiptId (retrievalId : RetrievalId)
    (entries : List PresentationReceiptEntry) : PresentationReceiptId :=
  .fromBytes (Sha256.digest (presentationReceiptPreimage retrievalId entries))

def receiptId (policy : PolicyDigest) (operations : List ByteRangeReplacementV1)
    (inputLength outputLength : Nat) (outputHash : ContentHash)
    (payloadLength : Nat) (terminatorLength : Option Nat) :
    TransformationReceiptId :=
  .fromBytes (Sha256.digest
    (transformationReceiptPreimage policy operations inputLength outputLength
      outputHash payloadLength terminatorLength))

def evidenceReferenceId (resultId : ResultId) (targets : List EvidenceTargetRef)
    (allowedRelations : List ExpansionRelationV1)
    (issuedAt expiresAt : UnixTimestampNanos) : EvidenceReferenceId :=
  .fromBytes (Sha256.digest
    (evidenceReferencePreimage resultId targets allowedRelations issuedAt expiresAt))

end Identities

end Evidentrail
