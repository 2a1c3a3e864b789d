import Evidentrail.Candidates.ProviderGraph
import Evidentrail.Lib.Table
import Mathlib.Logic.Relation

/-!
# The provider graph is shared identity

Two blocks are related exactly if events of them share a native id or an attestation.
The edges of a key and a lane join the consecutive blocks of the key in that lane, so
they only go forward (`provider_graph_exact`). Payloads, metadata and wall clocks do
not matter.
-/

namespace Evidentrail

open Rust Std Slice Set

/-! ## What the graph is -/

/-- The same native id, in the same member and stream. -/
def SharesNativeId (index : BlockIndex) (a b : EventBlock) : Prop :=
  ∃ event ∈ index.members a, ∃ event' ∈ index.members b, ∃ nativeEventId,
    event.nativeEventId = some nativeEventId ∧ event'.nativeEventId = some nativeEventId ∧
      event.lane.member = event'.lane.member ∧ event.lane.stream = event'.lane.stream

def SharesAttestation (index : BlockIndex) (a b : EventBlock) : Prop :=
  ∃ event ∈ index.members a, ∃ event' ∈ index.members b,
    ∃ attestation ∈ event.providerAttestations.entries,
      ∃ attestation' ∈ event'.providerAttestations.entries,
        attestation.scopeDigest = attestation'.scopeDigest ∧
          attestation.relationKind = attestation'.relationKind ∧
          attestation.value = attestation'.value

section Statement

variable [Sha256]

/-- What is hashed for the identities of an index. -/
def providerPreimages (index : BlockIndex) : Set (List UInt8) :=
  {bytes | ∃ block ∈ index.blocks, ∃ event ∈ index.members block, ∃ identity ∈ event.identities,
    bytes = identity.preimage index.ledger.retrievalId}

/-- The blocks of a key in a lane, in lane order. -/
def keyBlocks (index : BlockIndex) (key : ProviderCorrelationKeyV1) (lane : LaneKey) :
    List EventBlock :=
  index.blocks.filter fun block => block.lane = lane ∧ index.carries key block = true

/-- The edges of a key that begin in a lane. -/
def edgesIn (index : BlockIndex) (edges : List ProviderGraphEdgeV1)
    (key : ProviderCorrelationKeyV1) (lane : LaneKey) : List (BlockId × BlockId) :=
  (edges.filter fun edge => edge.correlationKey = key ∧
    ∃ block ∈ index.blocks, block.id = edge.earlierBlockId ∧ block.lane = lane).map
      fun edge => (edge.earlierBlockId, edge.laterBlockId)

/-- Events that agree in what the pass may read: a change of payload bytes, of metadata
values or of a wall-clock timestamp keeps them alike. -/
structure Event.SameProvenance (a b : Event) : Prop where
  lane : a.lane = b.lane
  laneSequence : a.laneSequence = b.laneSequence
  nativeEventId : a.nativeEventId = b.nativeEventId
  attestations : a.providerAttestations = b.providerAttestations
  monotonic : a.timestamps.adapterMonotonicTime = b.timestamps.adapterMonotonicTime
  metadata : a.metadata.isSome = b.metadata.isSome

/-- Indexes with the same block ids over events that are alike. -/
structure BlockIndex.Alike (index index' : BlockIndex) : Prop where
  retrievalId : index.ledger.retrievalId = index'.ledger.retrievalId
  blocks : List.Forall₂ (fun block block' => block.id = block'.id ∧
    List.Forall₂ Event.SameProvenance (index.members block) (index'.members block'))
      index.blocks index'.blocks

structure SharedIdentity (index : BlockIndex) (correlations : ProviderCorrelationUniverseV1) :
    Prop where
  annotated : (correlations.annotations.map (·.blockId)).Perm (index.blocks.map (·.id))
  related : InjOn Sha256.digest (providerPreimages index) →
    ∀ a ∈ index.blocks, ∀ b ∈ index.blocks, a.id ≠ b.id →
      ∀ x ∈ correlations.annotations, x.blockId = a.id →
      ∀ y ∈ correlations.annotations, y.blockId = b.id →
        ((∃ r ∈ x.relations, ∃ s ∈ y.relations, r.correlationKey = s.correlationKey) ↔
          SharesNativeId index a b ∨ SharesAttestation index a b)
  edges : ∀ key lane, (edgesIn index correlations.edges key lane).Perm
    (neighbours ((keyBlocks index key lane).map (·.id)))
  forward : ∀ edge ∈ correlations.edges, ∃ a ∈ index.blocks, ∃ b ∈ index.blocks,
    a.id = edge.earlierBlockId ∧ b.id = edge.laterBlockId ∧ a.lane = b.lane ∧
      ∀ event ∈ index.members a, ∀ event' ∈ index.members b,
        event.laneSequence.get < event'.laneSequence.get
  acyclic : ∀ blockId, ¬ Relation.TransGen (fun x y => ∃ edge ∈ correlations.edges,
    edge.earlierBlockId = x ∧ edge.laterBlockId = y) blockId blockId

end Statement

/-! ## The nodes of a lane -/

section Graph

variable [Sha256] {index : BlockIndex} {groups : CorrelationGroups}
  {key : ProviderCorrelationKeyV1} {group : CorrelationGroup}

omit [Sha256] in
theorem lt_rank {a b : NodeOccurrence} (h : a.firstLaneSequence < b.firstLaneSequence) :
    compare a.rank b.rank = .lt := by
  rw [NodeOccurrence.rank, NodeOccurrence.rank, List.compare_cons_cons, List.compare_cons_cons,
    compare_lt_iff_lt.mpr h]
  rfl

/-- Nodes of a group, in lane order. -/
def laneNodes (index : BlockIndex) (groups : CorrelationGroups) (key : ProviderCorrelationKeyV1)
    (lane : LaneKey) : List NodeOccurrence :=
  (keyBlocks index key lane).filterMap fun block => nodeAt groups key block.id

variable (h : index.Reconciled) (hindexed : index.ledger.Indexed) (hlaned : index.ledger.Laned)
  (hgroups : Registered index.ledger.retrievalId
    (index.blocks.flatMap index.blockOccurrences) groups)

include h hgroups in
/-- A node stands for a block of its lane that has the key. -/
theorem exists_block_of_nodeAt {blockId : BlockId} {node : NodeOccurrence}
    (hnode : nodeAt groups key blockId = some node) :
    ∃ block ∈ index.blocks, block.id = blockId ∧ node.blockId = blockId ∧
      node.lane = block.lane ∧ index.carries key block = true ∧
      ∃ event ∈ index.members block, node.firstLaneSequence = event.laneSequence.get := by
  obtain ⟨block, hblock, hid, event, hevent, hcarries, rfl⟩ := hgroups.of_nodeAt h hnode
  exact ⟨block, hblock, hid, rfl, h.lane block hblock event hevent,
    List.any_eq_true.mpr ⟨event, hevent, hcarries⟩, event, hevent, rfl⟩

include h hgroups in
theorem map_blockId_laneNodes (lane : LaneKey) :
    (laneNodes index groups key lane).map (·.blockId) = (keyBlocks index key lane).map (·.id) := by
  rw [laneNodes, List.map_filterMap, ← List.filterMap_eq_map]
  refine List.filterMap_congr fun block hblock => ?_
  obtain ⟨hin, hcarries⟩ := List.mem_filter.mp hblock
  simp only [decide_eq_true_eq] at hcarries
  obtain ⟨node, hnode⟩ := hgroups.nodeAt_of_carries hin hcarries.2
  obtain ⟨_, _, _, hid, _⟩ := exists_block_of_nodeAt h hgroups hnode
  rw [hnode, Option.map_some, hid]
  rfl

include h hindexed hlaned hgroups in
theorem strictlySorted_laneNodes (lane : LaneKey) :
    StrictlySorted NodeOccurrence.rank (laneNodes index groups key lane) := by
  rw [StrictlySorted, laneNodes, List.pairwise_filterMap]
  refine ((h.sequenced hindexed hlaned).filter _).imp_of_mem ?_
  intro a b ha hb hab node hnode node' hnode'
  obtain ⟨hina, hlanea⟩ := List.mem_filter.mp ha
  obtain ⟨hinb, hlaneb⟩ := List.mem_filter.mp hb
  simp only [decide_eq_true_eq] at hlanea hlaneb
  obtain ⟨block, hblock, hid, _, _, _, event, hevent, hsequence⟩ :=
    exists_block_of_nodeAt h hgroups hnode
  obtain ⟨block', hblock', hid', _, _, _, event', hevent', hsequence'⟩ :=
    exists_block_of_nodeAt h hgroups hnode'
  obtain rfl := List.inj_on_of_nodup_map h.ids_nodup hblock hina hid
  obtain rfl := List.inj_on_of_nodup_map h.ids_nodup hblock' hinb hid'
  refine lt_rank ?_
  rw [hsequence, hsequence']
  exact hab (hlanea.1.trans hlaneb.1.symm) event hevent event' hevent'

include h hgroups in
theorem nodup_nodeList (hgroup : groups[key]? = some group) :
    (group.nodeList.map (·.blockId)).Nodup := by
  have hids : group.nodeList.map (·.blockId) = group.nodes.toList.map Prod.fst := by
    rw [CorrelationGroup.nodeList, List.map_map]
    refine List.map_congr_left fun entry hentry => ?_
    have hnode : nodeAt groups key entry.1 = some entry.2 := by
      rw [nodeAt, hgroup, Option.bind_some]
      exact ExtTreeMap.mem_toList_iff_getElem?_eq_some.mp hentry
    obtain ⟨_, _, _, hid, _⟩ := exists_block_of_nodeAt h hgroups hnode
    exact hid
  rw [hids, List.Nodup, List.pairwise_map]
  refine ExtTreeMap.distinct_keys_toList.imp fun hab heq => hab ?_
  rw [heq]
  exact ReflCmp.compare_self

include h hgroups in
/-- The nodes of a group in a lane, in whatever order. -/
theorem perm_laneNodes (hindexed : index.ledger.Indexed) (hlaned : index.ledger.Laned)
    (hgroup : groups[key]? = some group) (lane : LaneKey) :
    (group.nodeList.filter (·.lane = lane)).Perm (laneNodes index groups key lane) := by
  have hnodup := (nodup_nodeList h hgroups hgroup).of_map.filter (·.lane = lane)
  have hnodup' : (laneNodes index groups key lane).Nodup :=
    (strictlySorted_laneNodes h hindexed hlaned hgroups lane).nodup_map.of_map
  refine (List.perm_ext_iff_of_nodup hnodup hnodup').mpr fun node => ?_
  have hat : ∀ blockId : BlockId, group.nodes[blockId]? = nodeAt groups key blockId :=
    fun blockId => by rw [nodeAt, hgroup, Option.bind_some]
  simp only [List.mem_filter, decide_eq_true_eq, CorrelationGroup.mem_nodeList, hat, laneNodes,
    List.mem_filterMap, keyBlocks]
  constructor
  · rintro ⟨⟨blockId, hnode⟩, rfl⟩
    obtain ⟨block, hblock, rfl, _, hlane, hcarries, _⟩ := exists_block_of_nodeAt h hgroups hnode
    exact ⟨block, ⟨hblock, hlane.symm, hcarries⟩, hnode⟩
  · rintro ⟨block, ⟨hblock, hlane, _⟩, hnode⟩
    obtain ⟨other, hother, hid, _, hsame, _⟩ := exists_block_of_nodeAt h hgroups hnode
    obtain rfl := List.inj_on_of_nodup_map h.ids_nodup hother hblock hid
    exact ⟨⟨_, hnode⟩, hsame.trans hlane⟩

include h hindexed hlaned hgroups in
/-- Sorting puts them in the order of their blocks. -/
theorem map_blockId_sorted (hgroup : groups[key]? = some group) (lane : LaneKey) :
    (sortByKey NodeOccurrence.rank (group.nodeList.filter (·.lane = lane))).map (·.blockId) =
      (keyBlocks index key lane).map (·.id) := by
  have hperm := perm_laneNodes h hgroups hindexed hlaned hgroup lane
  have hstrict : StrictlySorted NodeOccurrence.rank (laneNodes index groups key lane) :=
    strictlySorted_laneNodes h hindexed hlaned hgroups lane
  have hsorted : sortByKey NodeOccurrence.rank (laneNodes index groups key lane) =
      laneNodes index groups key lane :=
    (sortByKey_eq_self_iff _).mpr (hstrict.imp fun hlt => by rw [hlt]; rfl)
  have hkeys : ((group.nodeList.filter (·.lane = lane)).map NodeOccurrence.rank).Nodup :=
    (hperm.map _).nodup_iff.mpr hstrict.nodup_map
  rw [sortByKey_perm _ hkeys hperm, hsorted, map_blockId_laneNodes h hgroups]

/-! ## The edges of a key and a lane -/

/-- The ends of an edge. -/
def ProviderGraphEdgeV1.ends (edge : ProviderGraphEdgeV1) : BlockId × BlockId :=
  (edge.earlierBlockId, edge.laterBlockId)

omit [Sha256] in
theorem map_ends_laneEdges (relation : ProviderBlockRelationV1) (nodes : List NodeOccurrence) :
    (laneEdges relation nodes).map (·.ends) =
      neighbours ((sortByKey NodeOccurrence.rank nodes).map (·.blockId)) := by
  rw [laneEdges, List.map_map, neighbours_map]
  rfl

omit [Sha256] in
theorem mem_laneEdges {relation : ProviderBlockRelationV1} {nodes : List NodeOccurrence}
    {edge : ProviderGraphEdgeV1} (hedge : edge ∈ laneEdges relation nodes) :
    edge.correlationKey = relation.correlationKey ∧
      ∃ node ∈ nodes, edge.earlierBlockId = node.blockId := by
  obtain ⟨adjacent, hadjacent, rfl⟩ := List.mem_map.mp hedge
  exact ⟨rfl, adjacent.1, (mem_sortByKey _).mp (mem_of_neighbours hadjacent).1, rfl⟩

theorem mem_groupEdges {entry : ProviderCorrelationKeyV1 × CorrelationGroup}
    {edge : ProviderGraphEdgeV1} (hedge : edge ∈ groupEdges entry) :
    edge.correlationKey = entry.1 ∧ ∃ node ∈ entry.2.nodeList,
      edge.earlierBlockId = node.blockId := by
  unfold groupEdges at hedge
  split at hedge
  · cases hedge
  rw [List.mem_flatMap] at hedge
  obtain ⟨nodes, hnodes, hedge⟩ := hedge
  obtain ⟨lane, hlane, rfl⟩ := List.mem_map.mp hnodes
  obtain ⟨hkey, node, hnode, hid⟩ := mem_laneEdges hedge
  rw [Bucket.mem_toList_distribute hlane] at hnode
  exact ⟨hkey, node, (List.mem_filter.mp hnode).1, hid⟩

include h hgroups in
/-- A node of a group is in the lane of its block. -/
theorem exists_block_of_mem (hgroup : groups[key]? = some group) {node : NodeOccurrence}
    (hnode : node ∈ group.nodeList) : ∃ block ∈ index.blocks, block.id = node.blockId ∧
      block.lane = node.lane ∧ index.carries key block = true := by
  obtain ⟨blockId, hnode⟩ := CorrelationGroup.mem_nodeList.mp hnode
  have hat : nodeAt groups key blockId = some node := by
    rw [nodeAt, hgroup, Option.bind_some, hnode]
  obtain ⟨block, hblock, hid, hid', hlane, hcarries, _⟩ := exists_block_of_nodeAt h hgroups hat
  exact ⟨block, hblock, hid.trans hid'.symm, hlane.symm, hcarries⟩

include hgroups in
/-- Without a group no block has the key. -/
theorem keyBlocks_eq_nil (hgroup : groups[key]? = none) (lane : LaneKey) :
    keyBlocks index key lane = [] := by
  rw [keyBlocks, List.filter_eq_nil_iff]
  intro block hblock hcarries
  simp only [decide_eq_true_eq] at hcarries
  obtain ⟨node, hnode⟩ := hgroups.nodeAt_of_carries hblock hcarries.2
  rw [nodeAt, hgroup, Option.bind_none] at hnode
  cases hnode

omit [Sha256] in
/-- The edges that begin in a lane, among the edges of a group. -/
theorem edgesIn_eq (edges : List ProviderGraphEdgeV1) (lane : LaneKey) :
    edgesIn index edges key lane = (edges.filter fun edge => edge.correlationKey = key ∧
      ∃ block ∈ index.blocks, block.id = edge.earlierBlockId ∧ block.lane = lane).map (·.ends) :=
  rfl

include h hindexed hlaned hgroups in
theorem edgesIn_groupEdges (hgroup : groups[key]? = some group) (lane : LaneKey) :
    edgesIn index (groupEdges (key, group)) key lane =
      neighbours ((keyBlocks index key lane).map (·.id)) := by
  have hsorted := map_blockId_sorted h hindexed hlaned hgroups hgroup lane
  unfold groupEdges
  split
  · rename_i hsmall
    -- A group of one block has no neighbours in any lane.
    have hlength : ((keyBlocks index key lane).map (·.id)).length ≤ group.nodes.size := by
      rw [← hsorted, List.length_map, length_sortByKey, ← group.length_nodeList]
      exact List.length_filter_le _ _
    rw [neighbours_eq_nil (Nat.lt_of_le_of_lt hlength hsmall)]
    rfl
  · have hhere : ∀ entry ∈ (nodesByLane group.nodeList).toList,
        ∀ edge ∈ laneEdges (relationOf (key, group)) entry.2, edge.correlationKey = key ∧
          ∃ block ∈ index.blocks, block.id = edge.earlierBlockId ∧ block.lane = entry.1 := by
      intro entry hentry edge hedge
      obtain ⟨hkey, node, hnode, hid⟩ := mem_laneEdges hedge
      rw [Bucket.mem_toList_distribute hentry] at hnode
      obtain ⟨hin, hlane⟩ := List.mem_filter.mp hnode
      obtain ⟨block, hblock, hsame, hblockLane, _⟩ := exists_block_of_mem h hgroups hgroup hin
      exact ⟨hkey, block, hblock, hsame.trans hid.symm,
        hblockLane.trans (of_decide_eq_true hlane)⟩
    rw [edgesIn_eq, List.flatMap_map, List.filter_flatMap, List.map_flatMap]
    rw [Bucket.flatMap_toList (k := lane)]
    · cases hbucket : (nodesByLane group.nodeList)[lane]? with
      | none =>
          have hempty := Bucket.getElem?_distribute (f := NodeOccurrence.lane)
            (l := group.nodeList) (k := lane)
          rw [show (Bucket.distribute NodeOccurrence.lane group.nodeList)[lane]? = none from
            hbucket, Option.getD_none] at hempty
          rw [← hsorted, ← hempty]
          rfl
      | some nodes =>
          have hentry := ExtTreeMap.mem_toList_iff_getElem?_eq_some.mpr hbucket
          have hall : (laneEdges (relationOf (key, group)) nodes).filter (fun edge =>
              edge.correlationKey = key ∧ ∃ block ∈ index.blocks,
                block.id = edge.earlierBlockId ∧ block.lane = lane) =
              laneEdges (relationOf (key, group)) nodes :=
            List.filter_eq_self.mpr fun edge hedge =>
              decide_eq_true (hhere (lane, nodes) hentry edge hedge)
          have hnodes : nodes = group.nodeList.filter (·.lane = lane) :=
            Bucket.mem_toList_distribute hentry
          rw [Option.map_some, Option.getD_some, hall, map_ends_laneEdges, ← hsorted, hnodes]
    · intro entry hentry hne
      rw [List.map_eq_nil_iff, List.filter_eq_nil_iff]
      intro edge hedge hother
      obtain ⟨_, block, hblock, hid, hlane⟩ := hhere entry hentry edge hedge
      obtain ⟨_, block', hblock', hid', hlane'⟩ := of_decide_eq_true hother
      obtain rfl := List.inj_on_of_nodup_map h.ids_nodup hblock hblock' (hid.trans hid'.symm)
      exact hne (hlane.symm.trans hlane')

include h hindexed hlaned hgroups in
theorem edgesIn_groups (key : ProviderCorrelationKeyV1) (lane : LaneKey) :
    edgesIn index (groups.toList.flatMap groupEdges) key lane =
      neighbours ((keyBlocks index key lane).map (·.id)) := by
  rw [edgesIn_eq, List.filter_flatMap, List.map_flatMap, Bucket.flatMap_toList (k := key)]
  · cases hgroup : groups[key]? with
    | none =>
        rw [keyBlocks_eq_nil hgroups hgroup]
        rfl
    | some group => exact edgesIn_groupEdges h hindexed hlaned hgroups hgroup lane
  · intro entry _ hne
    rw [List.map_eq_nil_iff, List.filter_eq_nil_iff]
    intro edge hedge hother
    exact hne ((mem_groupEdges hedge).1.symm.trans (of_decide_eq_true hother).1)

/-! ## Relations -/

/-- The work annotations at the start: one for every block. -/
def startWork (index : BlockIndex) : ExtTreeMap BlockId WorkAnnotation :=
  index.blocks.foldl (fun work block => work.insert block.id (.new block.id)) ∅

omit [Sha256] in
theorem getElem?_startWork (index : BlockIndex) (blockId : BlockId) :
    (startWork index)[blockId]? =
      if blockId ∈ index.blocks.map (·.id) then some (.new blockId) else none := by
  rw [startWork, Bucket.getElem?_collect (g := WorkAnnotation.new) (f := EventBlock.id),
    ExtTreeMap.getElem?_empty]

omit [Sha256] in
theorem relationAt_startWork (index : BlockIndex) (blockId : BlockId) (key : RelationKey) :
    relationAt (startWork index) blockId key = none := by
  rw [relationAt, getElem?_startWork]
  split
  · rw [Option.bind_some, WorkAnnotation.new, ExtTreeMap.getElem?_empty]
  · rw [Option.bind_none]

variable {emission : ProviderEmission}

omit [Sha256] in
/-- The annotations are those of the blocks. -/
theorem getElem?_work (hblocks : SameBlocks (startWork index) emission.work) (blockId : BlockId) :
    emission.work[blockId]?.map (·.blockId) =
      if blockId ∈ index.blocks.map (·.id) then some blockId else none := by
  rw [hblocks, getElem?_startWork]
  split
  · rfl
  · rfl

include h in
omit [Sha256] in
theorem perm_annotations (hblocks : SameBlocks (startWork index) emission.work) :
    (emission.annotations.map (·.blockId)).Perm (index.blocks.map (·.id)) := by
  have hids : emission.annotations.map (·.blockId) = emission.work.toList.map Prod.fst := by
    rw [ProviderEmission.annotations, List.map_map, List.map_map]
    refine List.map_congr_left fun entry hentry => ?_
    have hfound := getElem?_work hblocks entry.1
    rw [ExtTreeMap.mem_toList_iff_getElem?_eq_some.mp hentry, Option.map_some] at hfound
    split at hfound
    · exact Option.some.inj hfound
    · cases hfound
  have hnodup : (emission.work.toList.map Prod.fst).Nodup := by
    rw [List.Nodup, List.pairwise_map]
    refine ExtTreeMap.distinct_keys_toList.imp fun hab heq => hab ?_
    rw [heq]
    exact ReflCmp.compare_self
  rw [hids, List.perm_ext_iff_of_nodup hnodup h.ids_nodup]
  intro blockId
  have hfound := getElem?_work hblocks blockId
  constructor
  · intro hin
    obtain ⟨entry, hentry, rfl⟩ := List.mem_map.mp hin
    rw [ExtTreeMap.mem_toList_iff_getElem?_eq_some.mp hentry, Option.map_some] at hfound
    by_contra hnot
    rw [if_neg hnot] at hfound
    cases hfound
  · intro hin
    rw [if_pos hin, Option.map_eq_some_iff] at hfound
    obtain ⟨entry, hentry, _⟩ := hfound
    exact List.mem_map.mpr
      ⟨(blockId, entry), ExtTreeMap.mem_toList_iff_getElem?_eq_some.mpr hentry, rfl⟩

/-- The relations of a block are those of the groups it is in. -/
theorem mem_relations (hrelated : Related (startWork index) groups.toList emission)
    {noted : ProviderBlockAnnotationV1} (hnoted : noted ∈ emission.annotations)
    {relation : ProviderBlockRelationV1} : relation ∈ noted.relations ↔
      ∃ key group, groups[key]? = some group ∧ 2 ≤ group.nodes.size ∧
        (∃ node ∈ group.nodeList, node.blockId = noted.blockId) ∧
        relation = relationOf (key, group) := by
  obtain ⟨work, hwork, rfl⟩ := List.mem_map.mp hnoted
  obtain ⟨entry, hentry, rfl⟩ := List.mem_map.mp hwork
  have hlookup := ExtTreeMap.mem_toList_iff_getElem?_eq_some.mp hentry
  have hid : entry.2.blockId = entry.1 := by
    have hfound := getElem?_work hrelated.blocks entry.1
    rw [hlookup, Option.map_some] at hfound
    split at hfound
    · exact Option.some.inj hfound
    · cases hfound
  have hat : ∀ key, entry.2.relations[key]? = relationAt emission.work entry.1 key := by
    intro key
    rw [relationAt, hlookup, Option.bind_some]
  simp only [List.mem_map, Prod.exists, exists_eq_right,
    ExtTreeMap.mem_toList_iff_getElem?_eq_some, hat, hrelated.relations, hid]
  constructor
  · rintro ⟨_, key, group, hgroup, hsize, hnode, _, hrelation⟩
    exact ⟨key, group, hgroup, hsize, hnode, hrelation⟩
  · rintro ⟨key, group, hgroup, hsize, hnode, hrelation⟩
    exact ⟨_, key, group, hgroup, hsize, hnode, rfl, hrelation⟩

/-! ## Sharing -/

omit [Sha256] in
/-- Blocks with one identity in common, as it is read from their events. -/
theorem exists_identity_iff {a b : EventBlock} :
    (∃ event ∈ index.members a, ∃ event' ∈ index.members b, ∃ identity ∈ event.identities,
      identity ∈ event'.identities) ↔ SharesNativeId index a b ∨ SharesAttestation index a b := by
  simp only [Event.identities, List.mem_append, List.mem_map, Option.mem_toList]
  constructor
  · rintro ⟨event, hevent, event', hevent', _, ⟨native, hnative, rfl⟩ | ⟨attestation, hin, rfl⟩,
      ⟨native', hnative', heq⟩ | ⟨attestation', hin', heq⟩⟩
    · obtain ⟨hlane, rfl⟩ := ProviderIdentity.native.inj heq
      exact .inl ⟨event, hevent, event', hevent', _, hnative, hnative',
        congrArg LaneKey.member hlane.symm, congrArg LaneKey.stream hlane.symm⟩
    · cases heq
    · cases heq
    · obtain rfl := ProviderIdentity.attested.inj heq
      exact .inr ⟨event, hevent, event', hevent', _, hin, _, hin', rfl, rfl, rfl⟩
  · rintro (⟨event, hevent, event', hevent', native, hnative, hnative', hmember, hstream⟩ |
      ⟨event, hevent, event', hevent', attestation, hin, attestation', hin', hscope, hkind, hvalue⟩)
    · have hlane : event'.lane = event.lane := by
        cases hcase : event.lane with
        | mk member stream =>
            cases hcase' : event'.lane with
            | mk member' stream' =>
                rw [hcase, hcase'] at hmember hstream
                exact congrArg₂ LaneKey.mk hmember.symm hstream.symm
      exact ⟨event, hevent, event', hevent', _, .inl ⟨native, hnative, rfl⟩,
        .inl ⟨native, hnative', by rw [hlane]⟩⟩
    · have hsame : attestation' = attestation := by
        obtain ⟨scope, kind, ⟨⟩, value⟩ := attestation
        obtain ⟨scope', kind', ⟨⟩, value'⟩ := attestation'
        cases hscope
        cases hkind
        cases hvalue
        rfl
      exact ⟨event, hevent, event', hevent', _, .inr ⟨attestation, hin, rfl⟩,
        .inr ⟨attestation', hin', by rw [hsame]⟩⟩

/-- Blocks that carry one key have an identity in common. -/
theorem exists_identity_of_carries (hinjective : InjOn Sha256.digest (providerPreimages index))
    {a b : EventBlock} (ha : a ∈ index.blocks) (hb : b ∈ index.blocks)
    (hcarriesA : index.carries key a = true) (hcarriesB : index.carries key b = true) :
    ∃ event ∈ index.members a, ∃ event' ∈ index.members b, ∃ identity ∈ event.identities,
      identity ∈ event'.identities := by
  obtain ⟨event, hevent, hkey⟩ := List.any_eq_true.mp hcarriesA
  obtain ⟨identity, hidentity, hkey⟩ := List.any_eq_true.mp hkey
  obtain ⟨event', hevent', hkey'⟩ := List.any_eq_true.mp hcarriesB
  obtain ⟨identity', hidentity', hkey'⟩ := List.any_eq_true.mp hkey'
  have hkeys := (of_decide_eq_true hkey).trans (of_decide_eq_true hkey').symm
  have hpreimage := hinjective ⟨a, ha, event, hevent, identity, hidentity, rfl⟩
    ⟨b, hb, event', hevent', identity', hidentity', rfl⟩
    (congrArg ProviderCorrelationKeyV1.digest hkeys)
  obtain rfl := ProviderIdentity.preimage_injective _ hpreimage
  exact ⟨event, hevent, event', hevent', identity, hidentity, hidentity'⟩

include h hgroups in
/-- Different blocks that carry one key are two nodes of its group. -/
theorem exists_group_of_carries {a b : EventBlock} (ha : a ∈ index.blocks)
    (hb : b ∈ index.blocks) (hne : a.id ≠ b.id) (hcarriesA : index.carries key a = true)
    (hcarriesB : index.carries key b = true) :
    ∃ group, groups[key]? = some group ∧ 2 ≤ group.nodes.size ∧
      (∃ node ∈ group.nodeList, node.blockId = a.id) ∧
      ∃ node ∈ group.nodeList, node.blockId = b.id := by
  obtain ⟨node, hnode⟩ := hgroups.nodeAt_of_carries ha hcarriesA
  obtain ⟨node', hnode'⟩ := hgroups.nodeAt_of_carries hb hcarriesB
  obtain ⟨_, _, _, hid, _⟩ := exists_block_of_nodeAt h hgroups hnode
  obtain ⟨_, _, _, hid', _⟩ := exists_block_of_nodeAt h hgroups hnode'
  obtain ⟨group, hgroup, hin⟩ := Option.bind_eq_some_iff.mp hnode
  obtain ⟨group', hgroup', hin'⟩ := Option.bind_eq_some_iff.mp hnode'
  obtain rfl := Option.some.inj (hgroup.symm.trans hgroup')
  have hmem := CorrelationGroup.mem_nodeList.mpr ⟨_, hin⟩
  have hmem' := CorrelationGroup.mem_nodeList.mpr ⟨_, hin'⟩
  refine ⟨group, hgroup, ?_, ⟨node, hmem, hid⟩, node', hmem', hid'⟩
  rw [← CorrelationGroup.length_nodeList]
  by_contra hsmall
  obtain ⟨only, honly⟩ : ∃ only, ∀ n ∈ group.nodeList, n = only := by
    cases hlist : group.nodeList with
    | nil => exact ⟨node, fun n hn => absurd hn List.not_mem_nil⟩
    | cons first rest =>
        cases rest with
        | nil => exact ⟨first, fun n hn => List.mem_singleton.mp hn⟩
        | cons second rest =>
            rw [hlist] at hsmall
            exact absurd (by simp) hsmall
  refine hne ?_
  rw [← hid, ← hid', honly node hmem, honly node' hmem']

/-! ## Forward edges -/

omit [Sha256] in
/-- A relation that follows a strict order of the blocks has no cycle. -/
theorem acyclic_of_forward (h : index.Reconciled) {R : BlockId → BlockId → Prop}
    (hforward : ∀ x y, R x y → ∃ a ∈ index.blocks, ∃ b ∈ index.blocks, a.id = x ∧ b.id = y ∧
      a.memberPositions.headD 0 < b.memberPositions.headD 0) (blockId : BlockId) :
    ¬ Relation.TransGen R blockId blockId := by
  have hreach : ∀ x y, Relation.TransGen R x y → ∃ a ∈ index.blocks, ∃ b ∈ index.blocks,
      a.id = x ∧ b.id = y ∧ a.memberPositions.headD 0 < b.memberPositions.headD 0 := by
    intro x y hpath
    induction hpath with
    | single hstep => exact hforward _ _ hstep
    | tail _ hstep ih =>
        obtain ⟨a, ha, b, hb, hid, hmid, hlt⟩ := ih
        obtain ⟨b', hb', c, hc, hmid', hid', hlt'⟩ := hforward _ _ hstep
        obtain rfl := List.inj_on_of_nodup_map h.ids_nodup hb hb' (hmid.trans hmid'.symm)
        exact ⟨a, ha, c, hc, hid, hid', Nat.lt_trans hlt hlt'⟩
  intro hcycle
  obtain ⟨a, ha, b, hb, hid, hid', hlt⟩ := hreach _ _ hcycle
  obtain rfl := List.inj_on_of_nodup_map h.ids_nodup ha hb (hid.trans hid'.symm)
  exact Nat.lt_irrefl _ hlt

include h hindexed hlaned in
/-- Consecutive blocks of a key in a lane. -/
theorem forward_of_neighbours {lane : LaneKey} {pair : BlockId × BlockId}
    (hpair : pair ∈ neighbours ((keyBlocks index key lane).map (·.id))) :
    ∃ a ∈ index.blocks, ∃ b ∈ index.blocks, a.id = pair.1 ∧ b.id = pair.2 ∧ a.lane = b.lane ∧
      (∀ event ∈ index.members a, ∀ event' ∈ index.members b,
        event.laneSequence.get < event'.laneSequence.get) ∧
      a.memberPositions.headD 0 < b.memberPositions.headD 0 := by
  rw [neighbours_map] at hpair
  obtain ⟨⟨a, b⟩, hblocks, rfl⟩ := List.mem_map.mp hpair
  obtain ⟨ha, hb⟩ := mem_of_neighbours hblocks
  have hbefore := rel_of_neighbours
    (((h.sequenced hindexed hlaned).and h.ordered).filter _) _ hblocks
  obtain ⟨hina, hlaneA⟩ := List.mem_filter.mp ha
  obtain ⟨hinb, hlaneB⟩ := List.mem_filter.mp hb
  have hlane : a.lane = b.lane :=
    (of_decide_eq_true hlaneA).1.trans (of_decide_eq_true hlaneB).1.symm
  exact ⟨a, hina, b, hinb, rfl, rfl, hlane, hbefore.1 hlane, hbefore.2⟩

/-! ## A finished pass -/

theorem buildProviderCorrelationsV1_eq_ok {correlations : ProviderCorrelationUniverseV1}
    (hbuild : buildProviderCorrelationsV1 index = .ok correlations) :
    ∃ (scan : ProviderScan) (emission : ProviderEmission) (weight full : FixedPointV1),
      index.blocks.foldlM (inspectBlock index) {} = .ok scan ∧
      scan.groups.toList.foldlM (relateGroup weight full) { work := startWork index } =
        .ok emission ∧
      correlations.annotations = emission.annotations ∧
      correlations.edges = sortByKey ProviderGraphEdgeV1.rank emission.edges := by
  unfold buildProviderCorrelationsV1 at hbuild
  split at hbuild
  · cases hbuild
  obtain ⟨scan, hscan, hbuild⟩ := except_bind_eq_ok.mp hbuild
  obtain ⟨weight, _, hbuild⟩ := except_bind_eq_ok.mp hbuild
  obtain ⟨full, _, hbuild⟩ := except_bind_eq_ok.mp hbuild
  obtain ⟨emission, hemission, hbuild⟩ := except_bind_eq_ok.mp hbuild
  obtain ⟨bytes, _, hbuild⟩ := except_bind_eq_ok.mp hbuild
  cases hbuild
  exact ⟨scan, emission, weight, full, hscan, hemission, rfl, rfl⟩

include h hindexed hlaned in
theorem sharedIdentity_of_build {correlations : ProviderCorrelationUniverseV1}
    (hbuild : buildProviderCorrelationsV1 index = .ok correlations) :
    SharedIdentity index correlations := by
  obtain ⟨scan, emission, weight, full, hscan, hemission, hannotations, hedges⟩ :=
    buildProviderCorrelationsV1_eq_ok hbuild
  have hgroups := registered_inspectBlocks h hscan
  have hdistinct : scan.groups.toList.Pairwise fun a b => a.1 ≠ b.1 := by
    refine ExtTreeMap.distinct_keys_toList.imp fun hab heq => hab ?_
    rw [heq]
    exact ReflCmp.compare_self
  have hrelated := related_relateGroups (relationAt_startWork index) hdistinct hemission
  have hperm : correlations.edges.Perm (scan.groups.toList.flatMap groupEdges) := by
    rw [hedges, hrelated.edges]
    exact perm_sortByKey _ _
  have hlanes : ∀ key lane, (edgesIn index correlations.edges key lane).Perm
      (neighbours ((keyBlocks index key lane).map (·.id))) := by
    intro key lane
    rw [← edgesIn_groups h hindexed hlaned hgroups key lane]
    exact (hperm.filter _).map _
  have hforward : ∀ edge ∈ correlations.edges, ∃ a ∈ index.blocks, ∃ b ∈ index.blocks,
      a.id = edge.earlierBlockId ∧ b.id = edge.laterBlockId ∧ a.lane = b.lane ∧
        (∀ event ∈ index.members a, ∀ event' ∈ index.members b,
          event.laneSequence.get < event'.laneSequence.get) ∧
        a.memberPositions.headD 0 < b.memberPositions.headD 0 := by
    intro edge hedge
    obtain ⟨⟨key, group⟩, hentry, hin⟩ := List.mem_flatMap.mp (hperm.mem_iff.mp hedge)
    obtain ⟨hkey, node, hnode, hid⟩ := mem_groupEdges hin
    obtain ⟨block, hblock, hsame, _, _⟩ := exists_block_of_mem h hgroups
      (ExtTreeMap.mem_toList_iff_getElem?_eq_some.mp hentry) hnode
    have hends : edge.ends ∈ edgesIn index correlations.edges key block.lane :=
      List.mem_map_of_mem (List.mem_filter.mpr
        ⟨hedge, decide_eq_true ⟨hkey, block, hblock, hsame.trans hid.symm, rfl⟩⟩)
    exact forward_of_neighbours h hindexed hlaned ((hlanes key block.lane).mem_iff.mp hends)
  constructor
  · rw [hannotations]
    exact perm_annotations h hrelated.blocks
  · intro hinjective a ha b hb hne x hx hxid y hy hyid
    rw [hannotations] at hx hy
    rw [← exists_identity_iff]
    constructor
    · rintro ⟨r, hr, s, hs, hkey⟩
      obtain ⟨key, group, hgroup, _, ⟨node, hnode, hid⟩, rfl⟩ := (mem_relations hrelated hx).mp hr
      obtain ⟨key', group', hgroup', _, ⟨node', hnode', hid'⟩, rfl⟩ :=
        (mem_relations hrelated hy).mp hs
      obtain rfl : key = key' := hkey
      obtain ⟨a', ha', hsame, _, hcarries⟩ := exists_block_of_mem h hgroups hgroup hnode
      obtain ⟨b', hb', hsame', _, hcarries'⟩ := exists_block_of_mem h hgroups hgroup' hnode'
      obtain rfl := List.inj_on_of_nodup_map h.ids_nodup ha' ha (hsame.trans (hid.trans hxid))
      obtain rfl := List.inj_on_of_nodup_map h.ids_nodup hb' hb (hsame'.trans (hid'.trans hyid))
      exact exists_identity_of_carries hinjective ha hb hcarries hcarries'
    · rintro ⟨event, hevent, event', hevent', identity, hidentity, hidentity'⟩
      have hcarries : ∀ {block : EventBlock} {event : Event}, event ∈ index.members block →
          identity ∈ event.identities →
            index.carries (identity.key index.ledger.retrievalId) block = true :=
        fun hin hof => List.any_eq_true.mpr ⟨_, hin, List.any_eq_true.mpr ⟨_, hof, by simp⟩⟩
      obtain ⟨group, hgroup, hsize, hnode, hnode'⟩ := exists_group_of_carries h hgroups ha hb hne
        (hcarries hevent hidentity) (hcarries hevent' hidentity')
      refine ⟨relationOf (_, group), (mem_relations hrelated hx).mpr
        ⟨_, group, hgroup, hsize, hxid ▸ hnode, rfl⟩, relationOf (_, group),
        (mem_relations hrelated hy).mpr ⟨_, group, hgroup, hsize, hyid ▸ hnode', rfl⟩, rfl⟩
  · exact hlanes
  · intro edge hedge
    obtain ⟨a, ha, b, hb, hid, hid', hlane, hbefore, _⟩ := hforward edge hedge
    exact ⟨a, ha, b, hb, hid, hid', hlane, hbefore⟩
  · refine acyclic_of_forward h ?_
    rintro x y ⟨edge, hedge, rfl, rfl⟩
    obtain ⟨a, ha, b, hb, hid, hid', _, _, hlt⟩ := hforward edge hedge
    exact ⟨a, ha, b, hb, hid, hid', hlt⟩

/-! ## What is not read -/

omit [Sha256] in
theorem foldlM_alike {α β σ ε : Type} {R : α → β → Prop} {step : σ → α → Except ε σ}
    {step' : σ → β → Except ε σ} {l : List α} {l' : List β} (hlists : List.Forall₂ R l l')
    (hstep : ∀ s a b, R a b → a ∈ l → b ∈ l' → step s a = step' s b) (s : σ) :
    l.foldlM step s = l'.foldlM step' s := by
  induction hlists generalizing s with
  | nil => rfl
  | cons hhead _ ih =>
      rw [List.foldlM_cons, List.foldlM_cons,
        hstep s _ _ hhead (List.mem_cons_self ..) (List.mem_cons_self ..)]
      refine bind_congr fun next => ih (fun s a b hab ha hb => ?_) next
      exact hstep s a b hab (List.mem_cons_of_mem _ ha) (List.mem_cons_of_mem _ hb)

omit [Sha256] in
theorem Event.SameProvenance.registerOccurrence_eq {event event' : Event}
    (halike : event.SameProvenance event')
    (groups : CorrelationGroups) (key : ProviderCorrelationKeyV1)
    (source : ProviderRelationSourceV1) (relationKind : ProviderRelationKindV1)
    (blockId : BlockId) (count : Nat) :
    registerOccurrence groups key source relationKind blockId event count =
      registerOccurrence groups key source relationKind blockId event' count := by
  have hoccur : ∀ group : CorrelationGroup,
      group.occur blockId event count = group.occur blockId event' count := by
    intro group
    simp only [CorrelationGroup.occur, NodeOccurrence.of, halike.lane, halike.laneSequence,
      halike.monotonic]
  simp only [registerOccurrence, hoccur]

theorem Event.SameProvenance.inspectEvent_eq {event event' : Event}
    (halike : event.SameProvenance event')
    (retrievalId : RetrievalId) (blockId : BlockId) (scan : ProviderScan) :
    inspectEvent retrievalId blockId scan event = inspectEvent retrievalId blockId scan event' := by
  have hattestation : inspectAttestation blockId event = inspectAttestation blockId event' := by
    funext scan attestation
    simp only [inspectAttestation, halike.registerOccurrence_eq]
  simp only [inspectEvent, ignoreMetadata, halike.metadata, inspectNativeEventId,
    halike.nativeEventId, halike.lane, halike.registerOccurrence_eq, halike.attestations,
    hattestation]

/-- The pass reads what alike indexes agree in. -/
theorem generateProviderCorrelationsV1_alike {index' : BlockIndex} (h : index.Reconciled)
    (h' : index'.Reconciled) (halike : index.Alike index') :
    generateProviderCorrelationsV1 index = generateProviderCorrelationsV1 index' := by
  have hlength := halike.blocks.length_eq
  have hids : index.blocks.map (·.id) = index'.blocks.map (·.id) := by
    have hmapped : List.Forall₂ (fun a b : BlockId => a = b) (index.blocks.map (·.id))
        (index'.blocks.map (·.id)) := by
      rw [List.forall₂_map_left_iff, List.forall₂_map_right_iff]
      exact halike.blocks.imp fun _ _ hab => hab.1
    exact List.forall₂_eq_eq_eq ▸ hmapped
  have hwork : index.blocks.foldl (fun work block => work.insert block.id (.new block.id)) ∅ =
      index'.blocks.foldl (fun work block => work.insert block.id <| WorkAnnotation.new block.id)
        (∅ : ExtTreeMap BlockId WorkAnnotation) := by
    have hfold : ∀ blocks : List EventBlock,
        blocks.foldl (fun work block => work.insert block.id <| WorkAnnotation.new block.id)
          (∅ : ExtTreeMap BlockId WorkAnnotation) =
        (blocks.map (·.id)).foldl (fun work id => work.insert id (.new id)) ∅ :=
      fun blocks => by rw [List.foldl_map]
    rw [hfold, hfold, hids]
  have hscan : index.blocks.foldlM (inspectBlock index) {} =
      index'.blocks.foldlM (inspectBlock index') {} := by
    refine foldlM_alike halike.blocks (fun scan block block' hab hblock hblock' => ?_) _
    have hexpands := h'.expands block' hblock'
    rw [← hab.1] at hexpands
    simp only [inspectBlock, h.expands block hblock, hexpands, Except.mapError, except_bind_ok,
      ← hab.1, ← halike.retrievalId]
    exact foldlM_alike hab.2 (fun scan event event' hevents _ _ =>
      hevents.inspectEvent_eq _ _ scan) scan
  simp only [generateProviderCorrelationsV1, buildProviderCorrelationsV1, hlength, hwork, hscan,
    halike.retrievalId]

end Graph

/-! ## The graph of a ledger, and of two that are alike -/

section Exact

variable [Sha256]

/-- When the pass is ready, its relations are shared identity, its edges are the
consecutive blocks of a key in a lane, and they form no cycle. Its answer, ready or
not, is the same for every index with the same blocks over events that are alike. -/
theorem provider_graph_exact {ledger : EventLedger} (hledger : ledger.Obtained)
    {assignments : List BlockAssignment} {index : BlockIndex}
    (hindex : BlockIndex.reconcile ledger assignments = .ok index) :
    (∀ correlations, generateProviderCorrelationsV1 index = .ok (.ready correlations) →
      SharedIdentity index correlations) ∧
    ∀ (ledger' : EventLedger) (assignments' : List BlockAssignment) (index' : BlockIndex),
      ledger'.Obtained → BlockIndex.reconcile ledger' assignments' = .ok index' →
      index.Alike index' →
        generateProviderCorrelationsV1 index = generateProviderCorrelationsV1 index' := by
  obtain ⟨hreconciled, hsame⟩ := BlockIndex.Reconciled.of_reconcile hledger hindex
  constructor
  · intro correlations hready
    unfold generateProviderCorrelationsV1 at hready
    split at hready
    · rename_i built hbuild
      cases hready
      exact sharedIdentity_of_build hreconciled (hsame ▸ hledger.indexed) (hsame ▸ hledger.laned)
        hbuild
    · cases hready
    · cases hready
  · intro ledger' assignments' index' hledger' hindex' halike
    exact generateProviderCorrelationsV1_alike hreconciled
      (BlockIndex.Reconciled.of_reconcile hledger' hindex').1 halike

end Exact

/-! ## Two lanes and two identities -/

instance (a b : Event) : Decidable (a.SameProvenance b) :=
  decidable_of_iff (a.lane = b.lane ∧ a.laneSequence = b.laneSequence ∧
      a.nativeEventId = b.nativeEventId ∧ a.providerAttestations = b.providerAttestations ∧
      a.timestamps.adapterMonotonicTime = b.timestamps.adapterMonotonicTime ∧
      a.metadata.isSome = b.metadata.isSome)
    ⟨fun h => ⟨h.1, h.2.1, h.2.2.1, h.2.2.2.1, h.2.2.2.2.1, h.2.2.2.2.2⟩,
      fun h => ⟨h.lane, h.laneSequence, h.nativeEventId, h.attestations, h.monotonic, h.metadata⟩⟩

instance (index index' : BlockIndex) : Decidable (index.Alike index') :=
  decidable_of_iff (index.ledger.retrievalId = index'.ledger.retrievalId ∧
      List.Forall₂ (fun block block' => block.id = block'.id ∧
        List.Forall₂ Event.SameProvenance (index.members block) (index'.members block'))
          index.blocks index'.blocks)
    ⟨fun h => ⟨h.1, h.2⟩, fun h => ⟨h.retrievalId, h.blocks⟩⟩

/-- What is hashed for the identities of an index, as a list. -/
def listedPreimages (index : BlockIndex) : List (List UInt8) :=
  index.blocks.flatMap fun block => (index.members block).flatMap fun event =>
    event.identities.map (·.preimage index.ledger.retrievalId)

theorem mem_listedPreimages {index : BlockIndex} {bytes : List UInt8}
    (h : bytes ∈ providerPreimages index) : bytes ∈ listedPreimages index := by
  obtain ⟨block, hblock, event, hevent, identity, hidentity, rfl⟩ := h
  exact List.mem_flatMap.mpr ⟨block, hblock, List.mem_flatMap.mpr
    ⟨event, hevent, List.mem_map_of_mem hidentity⟩⟩

/-- The number of relations of each block, and of edges. -/
def ProviderCorrelationGenerationDecisionV1.counts :
    ProviderCorrelationGenerationDecisionV1 → Option (List Nat × Nat)
  | .ready correlations =>
      some (correlations.annotations.map (·.relations.length), correlations.edges.length)
  | .needsMore _ => none

def sharedNativeId : NativeEventId := ⟨⟨[110], by decide⟩, by decide⟩

def sharedTrace : ProviderAttestationsV1 where
  entries := [{
    scopeDigest := .repeated 5, relationKind := .traceIdentity
    value := ⟨[116], by decide, by decide⟩ }]
  sorted := List.pairwise_singleton ..
  length_le := by decide

/-- The first line shares its trace with the other stream and its native id with a later
line of its own. -/
def correlatedLines (adapterEmittedAt : Option UnixTimestampNanos) : List RawEnvelopeV1 :=
  [{ streamLine 0 .stderr 0 (.singleton 120) with
      nativeEventId := some sharedNativeId, providerAttestations := sharedTrace
      timestamps := { adapterEmittedAt } },
    { streamLine 1 .stdout 0 (.singleton 121) with
      providerAttestations := sharedTrace, timestamps := { adapterEmittedAt } },
    { streamLine 2 .stderr 1 (.singleton 122) with
      nativeEventId := some sharedNativeId, timestamps := { adapterEmittedAt } }]

/-- The trace relates the lanes, the native id draws the one edge, and the time of day
changes nothing. -/
theorem provider_graph_exact_two_lanes :
    letI := fips180
    ∃ (ledger ledger' : EventLedger) (index index' : BlockIndex)
      (correlations : ProviderCorrelationUniverseV1),
      BlockIndex.replayIndex (correlatedLines none) 3 = some (ledger, index) ∧
      BlockIndex.replayIndex (correlatedLines (some .epoch)) 3 = some (ledger', index') ∧
      generateProviderCorrelationsV1 index = .ok (.ready correlations) ∧
      generateProviderCorrelationsV1 index' = .ok (.ready correlations) ∧
      correlations.annotations.map (·.relations.length) = [1, 2, 1] ∧
      correlations.edges.length = 1 ∧ InjOn Sha256.digest (providerPreimages index) ∧
      SharedIdentity index correlations := by
  rw [fips180_eq]
  let := fips180Evaluated
  have hrun : ((BlockIndex.replayIndex (correlatedLines none) 3).bind fun first =>
      (BlockIndex.replayIndex (correlatedLines (some .epoch)) 3).map fun second => decide (
        first.2.Alike second.2 ∧
        (∀ a ∈ listedPreimages first.2, ∀ b ∈ listedPreimages first.2,
          Sha256.digest a = Sha256.digest b → a = b) ∧
        ((generateProviderCorrelationsV1 first.2).toOption.bind
          ProviderCorrelationGenerationDecisionV1.counts) = some ([1, 2, 1], 1))) =
      some true := by
    decide +kernel
  obtain ⟨first, hfirst, hrun⟩ := Option.bind_eq_some_iff.mp hrun
  obtain ⟨second, hsecond, hdecided⟩ := Option.map_eq_some_iff.mp hrun
  obtain ⟨halike, hinjective, hcounts⟩ := of_decide_eq_true hdecided
  obtain ⟨hledger, hindex⟩ := BlockIndex.of_replayIndex hfirst
  obtain ⟨hledger', hindex'⟩ := BlockIndex.of_replayIndex hsecond
  obtain ⟨hshared, hsame⟩ := provider_graph_exact hledger hindex
  obtain ⟨decision, hdecision, hcounts⟩ := Option.bind_eq_some_iff.mp hcounts
  have hready := toOption_eq_some.mp hdecision
  cases decision with
  | needsMore needsMore => cases hcounts
  | ready correlations =>
      simp only [ProviderCorrelationGenerationDecisionV1.counts, Option.some.injEq,
        Prod.mk.injEq] at hcounts
      exact ⟨first.1, second.1, first.2, second.2, correlations, hfirst, hsecond, hready,
        (hsame _ _ _ hledger' hindex' halike) ▸ hready, hcounts.1, hcounts.2,
        fun a ha b hb => hinjective a (mem_listedPreimages ha) b (mem_listedPreimages hb),
        hshared correlations hready⟩

end Evidentrail
