import Evidentrail.Core.Reference
import Evidentrail.Evidence.Text
import Evidentrail.Select.Select

/-!
# Rendering a brief

The passthrough brief shows every event of the ledger, the compiled one the
events of the selected packets. Both are one text of fixed labels, numbers,
closed codes and escaped evidence, pushed piece by piece.
-/

namespace Evidentrail

open Rust Std

def maxWireObjectBytes : Nat := 16 * 1024 * 1024

/-- `ResultId::canonical_token`. -/
def ResultId.canonicalToken (id : ResultId) : List UInt8 :=
  asciiBytes "result_" ++
    id.asBytes.flatMap fun byte : UInt8 => [hexDigit (byte >>> 4), hexDigit (byte &&& 15)]

structure PresentationCounts where
  shownVerbatim : Nat := 0
  patternRepresented : Nat := 0
  retainedRaw : Nat := 0
deriving DecidableEq

/-! ## Shared pieces -/

/-- Codes with commas between them. -/
def commaSeparated : List String → List Piece
  | [] => []
  | [code] => [.str code]
  | code :: rest => .str code :: .str "," :: commaSeparated rest

def acquisitionPieces : FetchCompleteness → List Piece
  | .complete proof => [.str "COMPLETE (", .str proof.code, .str ")"]
  | .partialFetch reasons _ =>
      [.str "PARTIAL ("] ++ commaSeparated (reasons.toList.map FetchPartialReason.code)
        ++ [.str ")"]
  | .unknown reason => [.str "UNKNOWN (", .str reason.code, .str ")"]

/-- `STATUS` and `SCOPE`. The two renderers cut the first label differently
and differ in the selection word. -/
def headerPieces (ledger : EventLedger) (resultId : ResultId) (status : List Piece)
    (selection : String) : List Piece :=
  status ++ ([.text resultId.canonicalToken,
      .str "\n  untrusted_data: true\n  acquisition: "] : List Piece)
    ++ acquisitionPieces ledger.completion.completeness
    ++ ([.str selection, .str "SCOPE\n  acknowledged_records: ",
      .nat ledger.acquisitionReceipt.counts.acknowledged, .str "\n  persisted_events: ",
      .nat ledger.events.length, .str "\n  policy_omitted_records: ",
      .nat ledger.acquisitionReceipt.counts.omittedByPolicy, .str "\n\nEVIDENCE\n"] : List Piece)

def coveragePieces (ledger : EventLedger) (counts : PresentationCounts) : List Piece :=
  [.str "\nCOVERAGE\n  shown_verbatim: ", .nat counts.shownVerbatim,
    .str "\n  pattern_represented: ", .nat counts.patternRepresented,
    .str "\n  retained_raw: ", .nat counts.retainedRaw,
    .str "\n  source_exact_records: ", .nat ledger.acquisitionReceipt.counts.sourceExact,
    .str "\n  post_policy_records: ", .nat ledger.acquisitionReceipt.counts.postPolicy,
    .str "\n  policy_omitted_records: ",
    .nat ledger.acquisitionReceipt.counts.omittedByPolicy, .str "\n"]

/-- The placeholder of an empty evidence section. -/
def nonePieces {α : Type} (evidence : List α) : List Piece :=
  if evidence = [] then [.str "  (none)\n"] else []

/-! ## Passthrough -/

structure PassthroughEvidenceV1 where
  ordinal : Nat
  eventId : EventId
  reference : EvidenceReferenceV1
  exactnessBasis : ExactnessBasis
  stream : SourceStream
  authorizedBytes : List UInt8

/-- What the passthrough brief shows: every event, with its reference. -/
def passthroughEvidence (ledger : EventLedger) (references : List EvidenceReferenceV1) :
    List PassthroughEvidenceV1 :=
  (ledger.events.zipIdx.zip references).map fun ((event, ordinal), reference) =>
    ⟨ordinal, event.id, reference, event.exactnessBasis, event.lane.stream, event.raw⟩

def passthroughItemPieces (item : PassthroughEvidenceV1) : List Piece :=
  ([.str "  [E", .nat (item.ordinal + 1), .str "]\n    expand: E", .nat (item.ordinal + 1),
    .str " "] : List Piece)
    ++ commaSeparated (item.reference.allowedRelations.map ExpansionRelationV1.code)
    ++ ([.str "\n    exactness: ", .str item.exactnessBasis.code, .str "\n    stream: ",
      .str item.stream.code, .str "\n    data_encoding: ascii_byte_escape_v1\n    data: ",
      .escaped item.authorizedBytes, .str "\n"] : List Piece)

def passthroughPieces (ledger : EventLedger) (resultId : ResultId)
    (evidence : List PassthroughEvidenceV1) : List Piece :=
  headerPieces ledger resultId [.str "STATUS\n", .str "  result: "]
      "\n  selection: PASSTHROUGH\n\n"
    ++ nonePieces evidence ++ evidence.flatMap passthroughItemPieces
    ++ coveragePieces ledger ⟨ledger.events.length, 0, 0⟩

def renderText (text : BoundedText) (ledger : EventLedger) (resultId : ResultId)
    (evidence : List PassthroughEvidenceV1) : Except RenderLimitExceeded BoundedText :=
  text.pushAll (passthroughPieces ledger resultId evidence)

/-! ## Compiled -/

/-- What the renderer reads of one event. -/
structure CompiledEventRenderV1 where
  exactnessCode : String
  streamCode : String
  authorizedBytes : List UInt8

def PassthroughEvidenceV1.render (item : PassthroughEvidenceV1) : CompiledEventRenderV1 :=
  ⟨item.exactnessBasis.code, item.stream.code, item.authorizedBytes⟩

def compiledEventPieces (eventIndex : Nat) (event : CompiledEventRenderV1) : List Piece :=
  [.str "    event_", .nat (eventIndex + 1), .str ":\n      exactness: ",
    .str event.exactnessCode, .str "\n      stream: ", .str event.streamCode,
    .str "\n      data_encoding: ascii_byte_escape_v1\n      data: ",
    .escaped event.authorizedBytes, .str "\n"]

/-- Events from this index on. -/
def compiledEventsPieces (eventIndex : Nat) : List CompiledEventRenderV1 → List Piece
  | [] => []
  | event :: rest =>
      compiledEventPieces eventIndex event ++ compiledEventsPieces (eventIndex + 1) rest

/-- The two `checked_add(1)` of the source concern a packet ordinal and an
index into a slice, which are below `usize::MAX`. -/
def compiledPacketPieces (ordinal : Nat) (forcingCode : String)
    (marginalGainNumerator composableTokenUpperBound : Nat) (roleCodes : List String)
    (events : List CompiledEventRenderV1) : List Piece :=
  ([.str "  [E", .nat (ordinal + 1), .str "]\n    expand: E", .nat (ordinal + 1),
    .str " exact\n    forcing: ", .str forcingCode, .str "\n    marginal_gain_numerator: ",
    .nat marginalGainNumerator, .str "\n    composable_token_upper_bound: ",
    .nat composableTokenUpperBound, .str "\n    roles: "] : List Piece)
    ++ commaSeparated roleCodes
    ++ ([.str "\n    event_count: ", .nat events.length, .str "\n"] : List Piece)
    ++ compiledEventsPieces 0 events

structure CompiledEventEvidenceV1 where
  eventId : EventId
  exactnessBasis : ExactnessBasis
  stream : SourceStream
  authorizedBytes : List UInt8

def CompiledEventEvidenceV1.render (event : CompiledEventEvidenceV1) : CompiledEventRenderV1 :=
  ⟨event.exactnessBasis.code, event.stream.code, event.authorizedBytes⟩

/-- The events of a packet, in ledger order. -/
def compiledEvents (ledger : EventLedger) (packetSet : ExtTreeSet EventId) :
    List CompiledEventEvidenceV1 :=
  (ledger.events.filter fun event => event.id ∈ packetSet).map fun event =>
    ⟨event.id, event.exactnessBasis, event.lane.stream, event.raw⟩

structure CompiledEvidencePacketV1 where
  ordinal : Nat
  packetId : PacketIdV1
  reference : EvidenceReferenceV1
  canonicalEventIds : List EventId
  events : List CompiledEventEvidenceV1
  affinities : List FacetAffinityV1
  facetKinds : List ProductionFacetKindV1
  marginalGain : Nat
  forcingConstraint : SelectionConstraintV1
  composableTokenUpperBound : ComposablePacketCostV1

def CompiledEvidencePacketV1.pieces (packet : CompiledEvidencePacketV1) : List Piece :=
  compiledPacketPieces packet.ordinal packet.forcingConstraint.code packet.marginalGain
    packet.composableTokenUpperBound.upperBoundTokens
    (packet.facetKinds.map ProductionFacetKindV1.code)
    (packet.events.map CompiledEventEvidenceV1.render)

def compiledHeaderPieces (ledger : EventLedger) (resultId : ResultId) : List Piece :=
  headerPieces ledger resultId [.str "STATUS\n  result: "] "\n  selection: COMPILED\n\n"

def compiledPieces (ledger : EventLedger) (resultId : ResultId)
    (evidence : List CompiledEvidencePacketV1) (counts : PresentationCounts) : List Piece :=
  compiledHeaderPieces ledger resultId ++ nonePieces evidence
    ++ evidence.flatMap CompiledEvidencePacketV1.pieces ++ coveragePieces ledger counts

def renderCompiledText (text : BoundedText) (ledger : EventLedger) (resultId : ResultId)
    (evidence : List CompiledEvidencePacketV1) (counts : PresentationCounts) :
    Except RenderLimitExceeded BoundedText :=
  text.pushAll (compiledPieces ledger resultId evidence counts)

end Evidentrail
