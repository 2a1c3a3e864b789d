import Evidentrail.Candidates.Occurrences

/-!
# Relations and edges of the groups

What the second pass emits is one relation for every node of a group of two, and the
edges of its lanes (`Related`). It is shared identity exactly
(`provider_graph_exact`).
-/

namespace Evidentrail

open Rust Std Slice

/-! ## Annotating nodes -/

/-- The relation under a key that a block has so far. -/
def relationAt (work : ExtTreeMap BlockId WorkAnnotation) (blockId : BlockId) (key : RelationKey) :
    Option ProviderBlockRelationV1 :=
  work[blockId]?.bind (·.relations[key]?)

/-- Whether two states annotate the same blocks, each under its own id. -/
def SameBlocks (work work' : ExtTreeMap BlockId WorkAnnotation) : Prop :=
  ∀ blockId : BlockId, work'[blockId]?.map (·.blockId) = work[blockId]?.map (·.blockId)

theorem annotateNode_eq_ok {relation : ProviderBlockRelationV1} {full : AffinityV1}
    {emission emission' : ProviderEmission} {node : NodeOccurrence}
    (h : annotateNode relation full emission node = .ok emission') :
    emission'.edges = emission.edges ∧ SameBlocks emission.work emission'.work ∧
      ∀ blockId key, relationAt emission'.work blockId key =
        if node.blockId = blockId ∧ key = relation.relationKey then some relation
        else relationAt emission.work blockId key := by
  obtain ⟨count, _, h⟩ := except_bind_eq_ok.mp h
  obtain ⟨entry, hentry, h⟩ := except_bind_eq_ok.mp h
  rw [okOr_eq_ok] at hentry
  cases h
  refine ⟨rfl, fun blockId => ?_, fun blockId key => ?_⟩
  · rw [getElem?_insert]
    split
    · rename_i hid
      rw [← hid, hentry]
      rfl
    · rfl
  · rw [relationAt, getElem?_insert]
    by_cases hid : node.blockId = blockId
    · rw [if_pos hid, Option.bind_some, WorkAnnotation.relate, getElem?_insert, relationAt, ← hid,
        hentry, Option.bind_some]
      by_cases hkey : key = relation.relationKey
      · rw [if_pos hkey.symm, if_pos ⟨rfl, hkey⟩]
      · rw [if_neg fun heq => hkey heq.symm, if_neg fun hboth => hkey hboth.2]
    · rw [if_neg hid, if_neg fun hboth => hid hboth.1, relationAt]

theorem annotateNodes_eq_ok {relation : ProviderBlockRelationV1} {full : AffinityV1}
    {emission emission' : ProviderEmission} {nodes : List NodeOccurrence}
    (h : nodes.foldlM (annotateNode relation full) emission = .ok emission') :
    emission'.edges = emission.edges ∧ SameBlocks emission.work emission'.work ∧
      ∀ blockId key, relationAt emission'.work blockId key =
        if (∃ node ∈ nodes, node.blockId = blockId) ∧ key = relation.relationKey then some relation
        else relationAt emission.work blockId key := by
  refine Loop.foldlM_invariant
    (I := fun nodes emission' => emission'.edges = emission.edges ∧
      SameBlocks emission.work emission'.work ∧ ∀ blockId key,
        relationAt emission'.work blockId key =
          if (∃ node ∈ nodes, node.blockId = blockId) ∧ key = relation.relationKey then
            some relation
          else relationAt emission.work blockId key) ?_ ?_ h
  · rintro seen node rest s s' _ ⟨hedges, hblocks, hrelations⟩ hstep
    obtain ⟨hedges', hblocks', hrelations'⟩ := annotateNode_eq_ok hstep
    refine ⟨hedges'.trans hedges, fun id => (hblocks' id).trans (hblocks id), fun id key => ?_⟩
    rw [hrelations', hrelations]
    by_cases hkey : key = relation.relationKey
    · by_cases hid : node.blockId = id
      · rw [if_pos ⟨hid, hkey⟩, if_pos ⟨⟨node, by simp, hid⟩, hkey⟩]
      · rw [if_neg fun hboth => hid hboth.1]
        refine if_congr ?_ rfl rfl
        simp [hid]
    · rw [if_neg fun hboth => hkey hboth.2, if_neg fun hboth => hkey hboth.2,
        if_neg fun hboth => hkey hboth.2]
  · exact ⟨rfl, fun _ => rfl, fun _ _ => by simp⟩

/-! ## Linking lanes -/

def laneEdges (relation : ProviderBlockRelationV1) (laneNodes : List NodeOccurrence) :
    List ProviderGraphEdgeV1 :=
  (neighbours (sortByKey NodeOccurrence.rank laneNodes)).map fun adjacent =>
    edgeBetween relation adjacent.1 adjacent.2

theorem linkAdjacent_eq_ok {relation : ProviderBlockRelationV1}
    {emission emission' : ProviderEmission} {adjacent : NodeOccurrence × NodeOccurrence}
    (h : linkAdjacent relation emission adjacent = .ok emission') :
    emission'.edges = emission.edges ++ [edgeBetween relation adjacent.1 adjacent.2] ∧
      emission'.work = emission.work := by
  unfold linkAdjacent at h
  split at h
  · cases h
  obtain ⟨_, _, h⟩ := except_bind_eq_ok.mp h
  obtain ⟨_, _, h⟩ := except_bind_eq_ok.mp h
  cases h
  exact ⟨rfl, rfl⟩

theorem linkLane_eq_ok {relation : ProviderBlockRelationV1}
    {emission emission' : ProviderEmission} {laneNodes : List NodeOccurrence}
    (h : linkLane relation emission laneNodes = .ok emission') :
    emission'.edges = emission.edges ++ laneEdges relation laneNodes ∧
      emission'.work = emission.work := by
  refine Loop.foldlM_invariant
    (I := fun adjacents emission' => emission'.edges = emission.edges ++
      adjacents.map (fun adjacent => edgeBetween relation adjacent.1 adjacent.2) ∧
        emission'.work = emission.work) ?_ ?_ h
  · rintro seen adjacent rest s s' _ ⟨hedges, hwork⟩ hstep
    obtain ⟨hedges', hwork'⟩ := linkAdjacent_eq_ok hstep
    refine ⟨?_, hwork'.trans hwork⟩
    rw [hedges', hedges, List.map_append, List.append_assoc, List.map_singleton]
  · exact ⟨by rw [List.map_nil, List.append_nil], rfl⟩

theorem linkLanes_eq_ok {relation : ProviderBlockRelationV1}
    {emission emission' : ProviderEmission} {lanes : List (List NodeOccurrence)}
    (h : lanes.foldlM (linkLane relation) emission = .ok emission') :
    emission'.edges = emission.edges ++ lanes.flatMap (laneEdges relation) ∧
      emission'.work = emission.work := by
  refine Loop.foldlM_invariant
    (I := fun lanes emission' => emission'.edges = emission.edges ++
      lanes.flatMap (laneEdges relation) ∧ emission'.work = emission.work) ?_ ?_ h
  · rintro seen laneNodes rest s s' _ ⟨hedges, hwork⟩ hstep
    obtain ⟨hedges', hwork'⟩ := linkLane_eq_ok hstep
    refine ⟨?_, hwork'.trans hwork⟩
    rw [hedges', hedges, List.flatMap_append, List.append_assoc, List.flatMap_singleton]
  · exact ⟨by rw [List.flatMap_nil, List.append_nil], rfl⟩

/-! ## One group -/

namespace CorrelationGroup

def nodeList (group : CorrelationGroup) : List NodeOccurrence := group.nodes.toList.map Prod.snd

theorem mem_nodeList {group : CorrelationGroup} {node : NodeOccurrence} :
    node ∈ group.nodeList ↔ ∃ blockId : BlockId, group.nodes[blockId]? = some node := by
  simp only [nodeList, List.mem_map, Prod.exists, exists_eq_right,
    ExtTreeMap.mem_toList_iff_getElem?_eq_some]

theorem length_nodeList (group : CorrelationGroup) : group.nodeList.length = group.nodes.size := by
  rw [nodeList, List.length_map, ExtTreeMap.length_toList]

end CorrelationGroup

section Relate

variable [Sha256]

def relationFacetId (key : ProviderCorrelationKeyV1) : FacetIdV1 :=
  ⟨Sha256.digest (facetPreimage .providerAttestedGraphRelation key.asBytes)⟩

/-- The relation of every block of a group. -/
def relationOf (entry : ProviderCorrelationKeyV1 × CorrelationGroup) : ProviderBlockRelationV1 :=
  ⟨entry.1, relationFacetId entry.1, entry.2.source, entry.2.relationKind, entry.2.nodes.size⟩

/-- The edges of a group, lane by lane. -/
def groupEdges (entry : ProviderCorrelationKeyV1 × CorrelationGroup) :
    List ProviderGraphEdgeV1 :=
  if entry.2.nodes.size < 2 then []
  else ((nodesByLane entry.2.nodeList).toList.map Prod.snd).flatMap (laneEdges (relationOf entry))

theorem relationFacet_eq_ok {key : ProviderCorrelationKeyV1} {weight : FacetWeightV1}
    {facet : ProductionFacetV1} (h : relationFacet key weight = .ok facet) :
    facet.id = relationFacetId key := by
  rw [relationFacet, mapError_eq_ok] at h
  unfold ProductionFacetV1.new at h
  split at h
  · cases h
  split at h
  · cases h
  split at h
  · cases h
  cases h
  rfl

theorem relateGroup_eq_ok {weight : FacetWeightV1} {full : AffinityV1}
    {emission emission' : ProviderEmission} {entry : ProviderCorrelationKeyV1 × CorrelationGroup}
    (h : relateGroup weight full emission entry = .ok emission') :
    emission'.edges = emission.edges ++ groupEdges entry ∧
      SameBlocks emission.work emission'.work ∧
      ∀ blockId key, relationAt emission'.work blockId key =
        if (2 ≤ entry.2.nodes.size ∧ ∃ node ∈ entry.2.nodeList, node.blockId = blockId) ∧
            key = (relationOf entry).relationKey then
          some (relationOf entry)
        else relationAt emission.work blockId key := by
  obtain ⟨key, group⟩ := entry
  unfold relateGroup at h
  simp only at h
  split at h
  · rename_i hsmall
    cases h
    refine ⟨?_, fun _ => rfl, fun blockId key => ?_⟩
    · rw [groupEdges, if_pos hsmall, List.append_nil]
    · rw [if_neg fun hboth => absurd hboth.1.1 (Nat.not_le.mpr hsmall)]
  rename_i hsize
  split at h
  · cases h
  split at h
  · cases h
  obtain ⟨facet, hfacet, h⟩ := except_bind_eq_ok.mp h
  split at h
  · cases h
  obtain ⟨count, hcount, h⟩ := except_bind_eq_ok.mp h
  obtain ⟨annotated, hannotated, hlinked⟩ := except_bind_eq_ok.mp h
  have hsame : count = group.nodes.size := by
    rw [okOr_eq_ok, u16TryFrom] at hcount
    split at hcount
    · exact (Option.some.inj hcount).symm
    · cases hcount
  rw [relationFacet_eq_ok hfacet, hsame] at hannotated hlinked
  obtain ⟨hedges, hblocks, hrelations⟩ := annotateNodes_eq_ok hannotated
  obtain ⟨hedges', hwork⟩ := linkLanes_eq_ok hlinked
  refine ⟨?_, ?_, fun blockId key' => ?_⟩
  · rw [hedges', hedges, groupEdges, if_neg hsize]
    rfl
  · rw [hwork]
    exact hblocks
  · rw [hwork, hrelations]
    refine if_congr ?_ rfl rfl
    refine and_congr ?_ Iff.rfl
    exact ⟨fun hnode => ⟨Nat.le_of_not_lt hsize, hnode⟩, fun hnode => hnode.2⟩

/-! ## All groups -/

/-- What the groups seen so far left. -/
structure Related (work : ExtTreeMap BlockId WorkAnnotation)
    (seen : List (ProviderCorrelationKeyV1 × CorrelationGroup)) (emission : ProviderEmission) :
    Prop where
  edges : emission.edges = seen.flatMap groupEdges
  blocks : SameBlocks work emission.work
  relations : ∀ blockId key relation, relationAt emission.work blockId key = some relation ↔
    ∃ entry ∈ seen, 2 ≤ entry.2.nodes.size ∧
      (∃ node ∈ entry.2.nodeList, node.blockId = blockId) ∧
      key = (relationOf entry).relationKey ∧ relation = relationOf entry

theorem related_relateGroups {weight : FacetWeightV1} {full : AffinityV1}
    {work : ExtTreeMap BlockId WorkAnnotation} {emission : ProviderEmission}
    {groups : List (ProviderCorrelationKeyV1 × CorrelationGroup)}
    (hempty : ∀ blockId key, relationAt work blockId key = none)
    (hkeys : groups.Pairwise fun a b => a.1 ≠ b.1)
    (h : groups.foldlM (relateGroup weight full) { work } = .ok emission) :
    Related work groups emission := by
  refine Loop.foldlM_invariant (I := Related work) ?_ ?_ h
  · intro seen entry rest s s' hall hseen hstep
    obtain ⟨hedges, hblocks, hrelations⟩ := relateGroup_eq_ok hstep
    have hfresh : ∀ old ∈ seen, (relationOf old).relationKey ≠ (relationOf entry).relationKey := by
      intro old hold heq
      rw [hall, List.pairwise_append] at hkeys
      exact hkeys.2.2 old hold entry (List.mem_cons_self ..)
        (congrArg RelationKey.correlationKey heq)
    refine ⟨?_, fun id => (hblocks id).trans (hseen.blocks id), fun blockId key relation => ?_⟩
    · rw [hedges, hseen.edges, List.flatMap_append, List.flatMap_singleton]
    · rw [hrelations]
      simp only [List.mem_append, List.mem_singleton, or_and_right, exists_or, exists_eq_left]
      rw [← hseen.relations]
      split
      · rename_i hhere
        obtain ⟨⟨hsize, hnode⟩, hkey⟩ := hhere
        constructor
        · intro heq
          exact .inr ⟨hsize, hnode, hkey, (Option.some.inj heq).symm⟩
        · rintro (hold | ⟨_, _, _, rfl⟩)
          · obtain ⟨old, hin, _, _, hkey', _⟩ := (hseen.relations _ _ _).mp hold
            exact absurd (hkey'.symm.trans hkey) (hfresh old hin)
          · rfl
      · rename_i hnot
        constructor
        · exact .inl
        · rintro (hold | ⟨hsize, hnode, hkey, _⟩)
          · exact hold
          · exact absurd ⟨⟨hsize, hnode⟩, hkey⟩ hnot
  · refine ⟨rfl, fun _ => rfl, fun blockId key relation => ?_⟩
    rw [hempty]
    simp

end Relate

end Evidentrail
