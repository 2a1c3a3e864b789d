import Evidentrail.Candidates.Lexical
import Evidentrail.Lib.Bucket
import Evidentrail.Lib.Bytes
import Evidentrail.Lib.Window

/-!
# Provider correlations

Blocks that share what a provider said about their events: a native event id inside
its retrieval, member and stream, or an adapter attestation with its scope, kind and
value. Every such identity is a group under a digest. A group of two blocks or more
annotates each of them and joins neighbours of one lane by an edge. Payloads, metadata
and wall clocks are not read.
-/

namespace Evidentrail

open Rust Std Bytes Slice

/-! ## Bounds -/

def maxProviderIdentityBytesScannedV1 : Nat := 16 * 1024 * 1024
def maxProviderAttestationBytesScannedV1 : Nat := 16 * 1024 * 1024
def maxProviderAttestationsInspectedV1 : Nat := 65536
def maxProviderCorrelationKeysV1 : Nat := 4096
def maxProviderGraphNodesV1 : Nat := 8192
def maxProviderGraphEdgesV1 : Nat := 4096
def maxProviderRelationFanoutV1 : Nat := 64
def maxProviderGraphDegreeV1 : Nat := 64
def maxProviderGraphHopDepthV1 : Nat := 1
def maxProviderOutputFacetsV1 : Nat := 2048
def maxProviderOutputAffinitiesV1 : Nat := 4096

/-- `u16::try_from` of a wider integer. -/
def u16TryFrom (n : Nat) : Option Nat :=
  if n < 2 ^ 16 then some n else none

def checkedBoundedIncrement (current maximum : Nat) (capReason : CandidateNeedsMoreReasonV1) :
    Except CandidateNeedsMoreReasonV1 Nat := do
  let next ← okOr .arithmeticCapacity (checkedAdd current 1)
  if next > maximum then .error capReason else .ok next

def checkedBoundedU64Add (current additional maximum : Nat)
    (capReason : CandidateNeedsMoreReasonV1) : Except CandidateNeedsMoreReasonV1 Nat := do
  let next ← okOr .arithmeticCapacity (checkedAdd current additional)
  if next > maximum then .error capReason else .ok next

/-! ## Keys -/

/-- Opaque digest of one provider identity. -/
structure ProviderCorrelationKeyV1 where
  fromDerivedBytes ::
  digest : Digest
deriving DecidableEq

namespace ProviderCorrelationKeyV1

def asBytes (key : ProviderCorrelationKeyV1) : List UInt8 := key.digest.bytes

theorem asBytes_injective : Function.Injective asBytes := by
  rintro ⟨a⟩ ⟨b⟩ h
  exact congrArg _ (Digest.ext h)

instance : Ord ProviderCorrelationKeyV1 := ⟨compareOn asBytes⟩

instance : TransOrd ProviderCorrelationKeyV1 := inferInstanceAs (TransCmp (compareOn asBytes))

instance : LawfulEqOrd ProviderCorrelationKeyV1 := lawfulEqCmp_compareOn asBytes_injective

end ProviderCorrelationKeyV1

/-- `update_hash_field`: the length in big-endian order, then the bytes. -/
def updateHashField (field : List UInt8) : List UInt8 := beBytes 8 field.length ++ field

/-- The code of a stream, and behind it the numbers of a versioned one. -/
def streamHashFields (stream : SourceStream) : List UInt8 :=
  updateHashField (asciiBytes stream.code) ++ match stream with
    | .otherVersioned version code =>
        updateHashField (u16Be version) ++ updateHashField (u16Be code)
    | _ => []

/-- The two domains are raw labels with a trailing zero byte. -/
def nativeKeyPreimage (retrievalId : RetrievalId) (lane : LaneKey)
    (nativeEventId : NativeEventId) : List UInt8 :=
  asciiBytes "evidentrail/provider-correlation-key/native-event/v1" ++ [0]
    ++ updateHashField retrievalId.asBytes
    ++ updateHashField lane.member.asBytes
    ++ streamHashFields lane.stream
    ++ updateHashField nativeEventId.asBytes

def attestedKeyPreimage (attestation : ProviderAttestedCorrelationV1) : List UInt8 :=
  asciiBytes "evidentrail/provider-correlation-key/adapter-attestation/v1" ++ [0]
    ++ updateHashField attestation.scopeDigest.asBytes
    ++ updateHashField (asciiBytes attestation.relationKind.code)
    ++ updateHashField attestation.value.bytes

section Keys

variable [Sha256]

/-- An event without a native id has no such key: the source calls this after
`is_some`. -/
def nativeCorrelationKey (retrievalId : RetrievalId) (lane : LaneKey)
    (nativeEventId : NativeEventId) : ProviderCorrelationKeyV1 :=
  .fromDerivedBytes (Sha256.digest (nativeKeyPreimage retrievalId lane nativeEventId))

def attestedCorrelationKey (attestation : ProviderAttestedCorrelationV1) :
    ProviderCorrelationKeyV1 :=
  .fromDerivedBytes (Sha256.digest (attestedKeyPreimage attestation))

end Keys

/-! ## Answers -/

inductive ProviderRelationSourceV1 where
  | nativeEventId
  | adapterAttestation
deriving DecidableEq

inductive ProviderRelationKindV1 where
  | sharedNativeEventIdentity
  | sharedAdapterAttestedIdentity (kind : ProviderAttestedRelationKindV1)
deriving DecidableEq

/-- The derived order: by variant, then by kind. -/
def ProviderRelationKindV1.rank : ProviderRelationKindV1 → List Nat
  | .sharedNativeEventIdentity => [0]
  | .sharedAdapterAttestedIdentity kind => [1, kind.ctorIdx]

inductive ProviderOrderingBasisV1 where
  | laneSequence
  | laneSequenceWithAdapterMonotonic
deriving DecidableEq

structure ProviderCorrelationFacetV1 where
  facet : ProductionFacetV1
  correlationKey : ProviderCorrelationKeyV1
  source : ProviderRelationSourceV1
  relationKind : ProviderRelationKindV1
deriving DecidableEq

structure ProviderBlockRelationV1 where
  correlationKey : ProviderCorrelationKeyV1
  facetId : FacetIdV1
  source : ProviderRelationSourceV1
  relationKind : ProviderRelationKindV1
  groupBlockCount : Nat
deriving DecidableEq

/-- Two neighbours of a lane among the blocks of one identity, in the order they were
observed. -/
structure ProviderGraphEdgeV1 where
  earlierBlockId : BlockId
  laterBlockId : BlockId
  correlationKey : ProviderCorrelationKeyV1
  facetId : FacetIdV1
  source : ProviderRelationSourceV1
  relationKind : ProviderRelationKindV1
  orderingBasis : ProviderOrderingBasisV1
  hopDepth : Nat
deriving DecidableEq

/-- The derived order: the fields in their order. -/
def ProviderGraphEdgeV1.rank (edge : ProviderGraphEdgeV1) : List (List Nat) :=
  [edge.earlierBlockId.asBytes.map UInt8.toNat, edge.laterBlockId.asBytes.map UInt8.toNat,
    edge.correlationKey.asBytes.map UInt8.toNat, edge.facetId.asBytes.map UInt8.toNat,
    [edge.source.ctorIdx], edge.relationKind.rank, [edge.orderingBasis.ctorIdx], [edge.hopDepth]]

structure ProviderBlockAnnotationV1 where
  blockId : BlockId
  relations : List ProviderBlockRelationV1
  affinities : List FacetAffinityV1
deriving DecidableEq

structure ProviderCorrelationAccountingV1 where
  identityBytesScanned : Nat
  nativeIdentityBytesScanned : Nat
  attestationBytesScanned : Nat
  attestationCountInspected : Nat
  correlationKeyCount : Nat
  graphNodeCount : Nat
  graphEdgeCount : Nat
  emittedFacetCount : Nat
  emittedAffinityCount : Nat
  untypedMetadataEventCountIgnored : Nat
deriving DecidableEq

structure ProviderCorrelationUniverseV1 where
  retrievalId : RetrievalId
  facets : List ProviderCorrelationFacetV1
  annotations : List ProviderBlockAnnotationV1
  edges : List ProviderGraphEdgeV1
  accounting : ProviderCorrelationAccountingV1
deriving DecidableEq

inductive ProviderCorrelationGenerationDecisionV1 where
  | ready (correlations : ProviderCorrelationUniverseV1)
  | needsMore (needsMore : CandidateNeedsMoreV1)
deriving DecidableEq

/-! ## Groups -/

/-- A block in a group, by the first of its events with the identity. -/
structure NodeOccurrence where
  blockId : BlockId
  lane : LaneKey
  firstLaneSequence : Nat
  firstAdapterMonotonic : Option UInt64
deriving DecidableEq

def NodeOccurrence.of (blockId : BlockId) (event : Event) : NodeOccurrence where
  blockId
  lane := event.lane
  firstLaneSequence := event.laneSequence.get
  firstAdapterMonotonic := event.timestamps.adapterMonotonicTime.map (·.get)

structure CorrelationGroup where
  source : ProviderRelationSourceV1
  relationKind : ProviderRelationKindV1
  nodes : ExtTreeMap BlockId NodeOccurrence

def CorrelationGroup.new (source : ProviderRelationSourceV1)
    (relationKind : ProviderRelationKindV1) : CorrelationGroup :=
  ⟨source, relationKind, ∅⟩

abbrev CorrelationGroups := ExtTreeMap ProviderCorrelationKeyV1 CorrelationGroup

/-- An event with a lower sequence replaces what the node has of an event, but not
its lane. -/
def CorrelationGroup.occur (group : CorrelationGroup) (blockId : BlockId) (event : Event)
    (graphNodeCount : Nat) : Except CandidateNeedsMoreReasonV1 (CorrelationGroup × Nat) :=
  match group.nodes[blockId]? with
  | some existing =>
      if event.laneSequence.get < existing.firstLaneSequence then
        .ok ({ group with nodes := group.nodes.insert blockId { existing with
          firstLaneSequence := event.laneSequence.get
          firstAdapterMonotonic := event.timestamps.adapterMonotonicTime.map (·.get) } },
          graphNodeCount)
      else .ok (group, graphNodeCount)
  | none => do
      let graphNodeCount ← checkedBoundedIncrement graphNodeCount maxProviderGraphNodesV1
        .providerGraphNodeCap
      return ({ group with nodes := group.nodes.insert blockId (.of blockId event) },
        graphNodeCount)

/-- The group under a key, which must be of the same source and kind. -/
def groupEntry (groups : CorrelationGroups) (key : ProviderCorrelationKeyV1)
    (source : ProviderRelationSourceV1) (relationKind : ProviderRelationKindV1) :
    Except CandidateExit CorrelationGroup :=
  match groups[key]? with
  | none => .ok (.new source relationKind)
  | some group =>
      if group.source ≠ source ∨ group.relationKind ≠ relationKind then
        .error (.fault (.err .facetContractViolation))
      else .ok group

def registerOccurrence (groups : CorrelationGroups) (key : ProviderCorrelationKeyV1)
    (source : ProviderRelationSourceV1) (relationKind : ProviderRelationKindV1)
    (blockId : BlockId) (event : Event) (graphNodeCount : Nat) :
    Except CandidateExit (CorrelationGroups × Nat) :=
  if key ∉ groups ∧ groups.size ≥ maxProviderCorrelationKeysV1 then
    .error (.needsMore .providerCorrelationKeyCap)
  else do
    let group ← groupEntry groups key source relationKind
    let (group, graphNodeCount) ←
      (group.occur blockId event graphNodeCount).mapError .needsMore
    return (groups.insert key group, graphNodeCount)

/-! ## Reading the events -/

def sumMaterialBytes (lengths : List Nat) : Except CandidateNeedsMoreReasonV1 Nat :=
  lengths.foldlM (fun total length => do
    let length ← okOr .arithmeticCapacity (u64TryFrom length)
    okOr .arithmeticCapacity (checkedAdd total length)) 0

def streamMaterialBytes (stream : SourceStream) : Nat :=
  (asciiBytes stream.code).length + match stream with
    | .otherVersioned _ _ => 4
    | _ => 0

def nativeIdentityMaterialBytes (lane : LaneKey) (nativeEventId : NativeEventId) :
    Except CandidateNeedsMoreReasonV1 Nat :=
  sumMaterialBytes [32, lane.member.asBytes.length, streamMaterialBytes lane.stream,
    nativeEventId.asBytes.length]

def attestationMaterialBytes (attestation : ProviderAttestedCorrelationV1) :
    Except CandidateNeedsMoreReasonV1 Nat :=
  sumMaterialBytes [attestation.scopeDigest.asBytes.length,
    (asciiBytes attestation.relationKind.code).length, attestation.value.bytes.length]

/-- The groups and counters of the first pass. -/
structure ProviderScan where
  groups : CorrelationGroups := ∅
  nativeIdentityBytesScanned : Nat := 0
  attestationBytesScanned : Nat := 0
  attestationCountInspected : Nat := 0
  graphNodeCount : Nat := 0
  untypedMetadataEventCountIgnored : Nat := 0

/-- Of metadata only the presence counts. -/
def ignoreMetadata (event : Event) (scan : ProviderScan) : Except CandidateExit ProviderScan :=
  if event.metadata.isSome then do
    let untypedMetadataEventCountIgnored ← okOr (.needsMore .arithmeticCapacity)
      (checkedAdd scan.untypedMetadataEventCountIgnored 1)
    return { scan with untypedMetadataEventCountIgnored }
  else .ok scan

section Inspect

variable [Sha256]

def inspectNativeEventId (retrievalId : RetrievalId) (blockId : BlockId) (event : Event)
    (scan : ProviderScan) : Except CandidateExit ProviderScan :=
  match event.nativeEventId with
  | none => .ok scan
  | some nativeEventId => do
      let material ← (nativeIdentityMaterialBytes event.lane nativeEventId).mapError .needsMore
      let nativeIdentityBytesScanned ← (checkedBoundedU64Add scan.nativeIdentityBytesScanned
        material maxProviderIdentityBytesScannedV1
        .providerIdentityBytesScannedCap).mapError .needsMore
      let (groups, graphNodeCount) ← registerOccurrence scan.groups
        (nativeCorrelationKey retrievalId event.lane nativeEventId) .nativeEventId
        .sharedNativeEventIdentity blockId event scan.graphNodeCount
      return { scan with nativeIdentityBytesScanned, groups, graphNodeCount }

def inspectAttestation (blockId : BlockId) (event : Event) (scan : ProviderScan)
    (attestation : ProviderAttestedCorrelationV1) : Except CandidateExit ProviderScan := do
  let attestationCountInspected ← (checkedBoundedIncrement scan.attestationCountInspected
    maxProviderAttestationsInspectedV1 .providerAttestationCountCap).mapError .needsMore
  let material ← (attestationMaterialBytes attestation).mapError .needsMore
  let attestationBytesScanned ← (checkedBoundedU64Add scan.attestationBytesScanned material
    maxProviderAttestationBytesScannedV1
    .providerAttestationBytesScannedCap).mapError .needsMore
  let (groups, graphNodeCount) ← registerOccurrence scan.groups
    (attestedCorrelationKey attestation) .adapterAttestation
    (.sharedAdapterAttestedIdentity attestation.relationKind) blockId event scan.graphNodeCount
  return { scan with
    attestationCountInspected, attestationBytesScanned, groups, graphNodeCount }

def inspectEvent (retrievalId : RetrievalId) (blockId : BlockId) (scan : ProviderScan)
    (event : Event) : Except CandidateExit ProviderScan := do
  let scan ← ignoreMetadata event scan
  let scan ← inspectNativeEventId retrievalId blockId event scan
  event.providerAttestations.entries.foldlM (inspectAttestation blockId event) scan

def inspectBlock (blocks : BlockIndex) (scan : ProviderScan) (block : EventBlock) :
    Except CandidateExit ProviderScan := do
  let expansion ← (blocks.expandBlock block.id).mapError fun fault =>
    .fault (fault.mapErr fun _ => .blockIndexContractViolation)
  expansion.events.foldlM (inspectEvent blocks.ledger.retrievalId block.id) scan

end Inspect

/-! ## Relating the blocks -/

/-- The pair in a B-tree: the key, then the facet. -/
structure RelationKey where
  correlationKey : ProviderCorrelationKeyV1
  facetId : FacetIdV1
deriving DecidableEq

namespace RelationKey

def rank (key : RelationKey) : List (List UInt8) :=
  [key.correlationKey.asBytes, key.facetId.asBytes]

theorem rank_injective : Function.Injective rank := by
  rintro ⟨key, facet⟩ ⟨key', facet'⟩ h
  simp only [rank, List.cons.injEq, and_true] at h
  rw [ProviderCorrelationKeyV1.asBytes_injective h.1, HashId.asBytes_inj h.2]

instance : Ord RelationKey := ⟨compareOn rank⟩

instance : TransOrd RelationKey := inferInstanceAs (TransCmp (compareOn rank))

instance : LawfulEqOrd RelationKey := lawfulEqCmp_compareOn rank_injective

end RelationKey

/-- `(*key, facet_id)`. -/
def ProviderBlockRelationV1.relationKey (relation : ProviderBlockRelationV1) : RelationKey :=
  ⟨relation.correlationKey, relation.facetId⟩

structure WorkAnnotation where
  blockId : BlockId
  relations : ExtTreeMap RelationKey ProviderBlockRelationV1
  affinities : ExtTreeMap FacetIdV1 FacetAffinityV1

def WorkAnnotation.new (blockId : BlockId) : WorkAnnotation := ⟨blockId, ∅, ∅⟩

def WorkAnnotation.relate (entry : WorkAnnotation) (relation : ProviderBlockRelationV1)
    (fullAffinity : AffinityV1) : WorkAnnotation :=
  { entry with
    relations := entry.relations.insert relation.relationKey relation
    affinities := entry.affinities.insert relation.facetId ⟨relation.facetId, fullAffinity⟩ }

/-- What the second pass has emitted so far. -/
structure ProviderEmission where
  work : ExtTreeMap BlockId WorkAnnotation
  facets : ExtTreeMap FacetIdV1 ProviderCorrelationFacetV1 := ∅
  edges : List ProviderGraphEdgeV1 := []
  degrees : ExtTreeMap BlockId Nat := ∅
  affinityCount : Nat := 0

def annotateNode (relation : ProviderBlockRelationV1) (fullAffinity : AffinityV1)
    (emission : ProviderEmission) (node : NodeOccurrence) :
    Except CandidateExit ProviderEmission := do
  let affinityCount ← (checkedBoundedIncrement emission.affinityCount
    maxProviderOutputAffinitiesV1 .providerAffinityOutputCap).mapError .needsMore
  let entry ← okOr (.fault (.err .blockIndexContractViolation)) emission.work[node.blockId]?
  return { emission with
    affinityCount
    work := emission.work.insert node.blockId (entry.relate relation fullAffinity) }

def orderingBasis : Option UInt64 → Option UInt64 → ProviderOrderingBasisV1
  | some earlier, some later =>
      if earlier ≤ later then .laneSequenceWithAdapterMonotonic else .laneSequence
  | _, _ => .laneSequence

def incrementDegree (degrees : ExtTreeMap BlockId Nat) (blockId : BlockId) :
    Except CandidateNeedsMoreReasonV1 (ExtTreeMap BlockId Nat) := do
  let degree ← checkedBoundedIncrement (degrees[blockId]?.getD 0) maxProviderGraphDegreeV1
    .providerGraphDegreeCap
  return degrees.insert blockId degree

def edgeBetween (relation : ProviderBlockRelationV1) (earlier later : NodeOccurrence) :
    ProviderGraphEdgeV1 where
  earlierBlockId := earlier.blockId
  laterBlockId := later.blockId
  correlationKey := relation.correlationKey
  facetId := relation.facetId
  source := relation.source
  relationKind := relation.relationKind
  orderingBasis := orderingBasis earlier.firstAdapterMonotonic later.firstAdapterMonotonic
  hopDepth := maxProviderGraphHopDepthV1

def linkAdjacent (relation : ProviderBlockRelationV1) (emission : ProviderEmission)
    (adjacent : NodeOccurrence × NodeOccurrence) : Except CandidateExit ProviderEmission :=
  if emission.edges.length ≥ maxProviderGraphEdgesV1 then
    .error (.needsMore .providerGraphEdgeCap)
  else do
    let degrees ← (incrementDegree emission.degrees adjacent.1.blockId).mapError .needsMore
    let degrees ← (incrementDegree degrees adjacent.2.blockId).mapError .needsMore
    return { emission with
      degrees
      edges := emission.edges ++ [edgeBetween relation adjacent.1 adjacent.2] }

/-- The order of `sort_unstable_by`: no two nodes of a group compare equal. -/
def NodeOccurrence.rank (node : NodeOccurrence) : List (List Nat) :=
  [[node.firstLaneSequence], node.blockId.asBytes.map UInt8.toNat]

def linkLane (relation : ProviderBlockRelationV1) (emission : ProviderEmission)
    (laneNodes : List NodeOccurrence) : Except CandidateExit ProviderEmission :=
  (neighbours (sortByKey NodeOccurrence.rank laneNodes)).foldlM (linkAdjacent relation) emission

/-- `nodes_by_lane`. -/
def nodesByLane (nodes : List NodeOccurrence) : ExtTreeMap LaneKey (List NodeOccurrence) :=
  Bucket.distribute (·.lane) nodes

section Relate

variable [Sha256]

def relationFacet (key : ProviderCorrelationKeyV1) (endpointWeight : FacetWeightV1) :
    Except CandidateExit ProductionFacetV1 :=
  (ProductionFacetV1.new .providerAttestedGraphRelation key.asBytes endpointWeight).mapError
    fun _ => .fault (.err .facetContractViolation)

def relateGroup (endpointWeight : FacetWeightV1) (fullAffinity : AffinityV1)
    (emission : ProviderEmission) (entry : ProviderCorrelationKeyV1 × CorrelationGroup) :
    Except CandidateExit ProviderEmission :=
  let (key, group) := entry
  if group.nodes.size < 2 then .ok emission
  else if group.nodes.size > maxProviderRelationFanoutV1 then
    .error (.needsMore .providerRelationFanoutCap)
  else if emission.facets.size ≥ maxProviderOutputFacetsV1 then
    .error (.needsMore .providerFacetOutputCap)
  else do
    let facet ← relationFacet key endpointWeight
    if facet.id ∈ emission.facets then .error (.fault (.err .facetContractViolation))
    else
      let groupBlockCount ← okOr (.needsMore .arithmeticCapacity) (u16TryFrom group.nodes.size)
      let relation : ProviderBlockRelationV1 :=
        ⟨key, facet.id, group.source, group.relationKind, groupBlockCount⟩
      let nodes := group.nodes.toList.map Prod.snd
      let emission ← nodes.foldlM (annotateNode relation fullAffinity) { emission with
        facets := emission.facets.insert facet.id ⟨facet, key, group.source, group.relationKind⟩ }
      ((nodesByLane nodes).toList.map Prod.snd).foldlM (linkLane relation) emission

def ProviderEmission.annotations (emission : ProviderEmission) : List ProviderBlockAnnotationV1 :=
  (emission.work.toList.map Prod.snd).map fun entry =>
    ⟨entry.blockId, entry.relations.toList.map Prod.snd,
      entry.affinities.toList.map Prod.snd⟩

def buildProviderCorrelationsV1 (blocks : BlockIndex) :
    Except CandidateExit ProviderCorrelationUniverseV1 :=
  if blocks.blocks.length > maxPrimaryBlocksV1 then .error (.needsMore .primaryBlockCountCap)
  else do
    let work := blocks.blocks.foldl (fun work block => work.insert block.id (.new block.id)) ∅
    let scan ← blocks.blocks.foldlM (inspectBlock blocks) {}
    let endpointWeight ← (FixedPointV1.new providerRelationEndpointWeightMicrosV1).mapError
      fun _ => .fault (.err .fixedPointContractViolation)
    let fullAffinity ← (FixedPointV1.new affinityScaleV1).mapError
      fun _ => .fault (.err .fixedPointContractViolation)
    let emission ← scan.groups.toList.foldlM (relateGroup endpointWeight fullAffinity) { work }
    let identityBytesScanned ← okOr (.needsMore .arithmeticCapacity)
      (checkedAdd scan.nativeIdentityBytesScanned scan.attestationBytesScanned)
    return {
      retrievalId := blocks.ledger.retrievalId
      facets := emission.facets.toList.map Prod.snd
      annotations := emission.annotations
      edges := sortByKey ProviderGraphEdgeV1.rank emission.edges
      accounting := {
        identityBytesScanned
        nativeIdentityBytesScanned := scan.nativeIdentityBytesScanned
        attestationBytesScanned := scan.attestationBytesScanned
        attestationCountInspected := scan.attestationCountInspected
        correlationKeyCount := scan.groups.size
        graphNodeCount := scan.graphNodeCount
        graphEdgeCount := emission.edges.length
        emittedFacetCount := emission.facets.size
        emittedAffinityCount := emission.affinityCount
        untypedMetadataEventCountIgnored := scan.untypedMetadataEventCountIgnored } }

def generateProviderCorrelationsV1 (blocks : BlockIndex) :
    Except (Fault CandidateBuildErrorV1) ProviderCorrelationGenerationDecisionV1 :=
  match buildProviderCorrelationsV1 blocks with
  | .ok correlations => .ok (.ready correlations)
  | .error (.needsMore reason) => .ok (.needsMore ⟨reason⟩)
  | .error (.fault fault) => .error fault

end Relate

end Evidentrail
