import Evidentrail.Candidates.ProviderKeys
import Evidentrail.Core.BlockOrder
import Evidentrail.Lib.Loop

/-!
# Groups of blocks

After the first pass the group of a key has a node for every block with an event
that has the identity, and the node is that of the first such event (`Registered`).
-/

namespace Evidentrail

open Rust Std

/-! ## Occurrences -/

/-- One identity of one event of a block. -/
structure Occurrence where
  identity : ProviderIdentity
  blockId : BlockId
  event : Event

def Event.occurrences (event : Event) (blockId : BlockId) : List Occurrence :=
  event.identities.map (⟨·, blockId, event⟩)

namespace BlockIndex

def blockOccurrences (index : BlockIndex) (block : EventBlock) : List Occurrence :=
  (index.members block).flatMap (·.occurrences block.id)

end BlockIndex

/-- What an occurrence makes of the node of its block. -/
def mergeOccurrence : Option NodeOccurrence → Occurrence → Option NodeOccurrence
  | some existing, o =>
      if o.event.laneSequence.get < existing.firstLaneSequence then
        some { existing with
          firstLaneSequence := o.event.laneSequence.get
          firstAdapterMonotonic := o.event.timestamps.adapterMonotonicTime.map (·.get) }
      else some existing
  | none, o => some (.of o.blockId o.event)

def mergeOccurrences (occurrences : List Occurrence) : Option NodeOccurrence :=
  occurrences.foldl mergeOccurrence none

/-- In the order of the lane the first occurrence stays. -/
theorem mergeOccurrences_eq {occurrences : List Occurrence}
    (h : occurrences.Pairwise fun a b => a.event.laneSequence.get ≤ b.event.laneSequence.get) :
    mergeOccurrences occurrences = occurrences.head?.map fun o => .of o.blockId o.event := by
  cases occurrences with
  | nil => rfl
  | cons first rest =>
      rw [List.pairwise_cons] at h
      have hstay : ∀ later : List Occurrence,
          (∀ o ∈ later, first.event.laneSequence.get ≤ o.event.laneSequence.get) →
            later.foldl mergeOccurrence (some (.of first.blockId first.event)) =
              some (.of first.blockId first.event) := by
        intro later hlater
        induction later with
        | nil => rfl
        | cons o later ih =>
            obtain ⟨ho, hlater⟩ := List.forall_mem_cons.mp hlater
            have hstays : ¬ o.event.laneSequence.get <
                (NodeOccurrence.of first.blockId first.event).firstLaneSequence :=
              Nat.not_lt.mpr ho
            rw [List.foldl_cons, mergeOccurrence, if_neg hstays]
            exact ih hlater
      exact hstay rest h.1

theorem exists_mergeOccurrences (first : Occurrence) (rest : List Occurrence) :
    ∃ node, mergeOccurrences (first :: rest) = some node := by
  suffices hrest : ∀ node, ∃ node', rest.foldl mergeOccurrence (some node) = some node' from
    hrest _
  induction rest with
  | nil => exact fun node => ⟨node, rfl⟩
  | cons o rest ih =>
      intro node
      rw [List.foldl_cons, mergeOccurrence]
      split
      · exact ih _
      · exact ih _

/-! ## One registration -/

/-- The node of a block in the group of a key. -/
def nodeAt (groups : CorrelationGroups) (key : ProviderCorrelationKeyV1) (blockId : BlockId) :
    Option NodeOccurrence :=
  groups[key]?.bind (·.nodes[blockId]?)

theorem groupEntry_eq_ok {groups : CorrelationGroups} {key : ProviderCorrelationKeyV1}
    {source : ProviderRelationSourceV1} {relationKind : ProviderRelationKindV1}
    {group : CorrelationGroup} (h : groupEntry groups key source relationKind = .ok group) :
    group.source = source ∧ group.relationKind = relationKind ∧
      (∀ blockId, group.nodes[blockId]? = nodeAt groups key blockId) ∧
      ∀ old, groups[key]? = some old → old = group := by
  unfold groupEntry at h
  split at h
  · rename_i hnone
    cases h
    refine ⟨rfl, rfl, fun blockId => ?_, fun old hold => ?_⟩
    · rw [nodeAt, hnone, Option.bind_none, CorrelationGroup.new, ExtTreeMap.getElem?_empty]
    · rw [hnone] at hold
      cases hold
  · rename_i found hfound
    split at h
    · cases h
    · rename_i hsame
      rw [not_or, not_not, not_not] at hsame
      cases h
      refine ⟨hsame.1, hsame.2, fun blockId => ?_, fun old hold => ?_⟩
      · rw [nodeAt, hfound, Option.bind_some]
      · exact Option.some.inj (hold.symm.trans hfound)

theorem occur_eq_ok {group group' : CorrelationGroup} {blockId : BlockId} {event : Event}
    {count count' : Nat} (identity : ProviderIdentity)
    (h : group.occur blockId event count = .ok (group', count')) :
    group'.source = group.source ∧ group'.relationKind = group.relationKind ∧
      ∀ other, group'.nodes[other]? = if blockId = other then
        mergeOccurrence group.nodes[other]? ⟨identity, blockId, event⟩
      else group.nodes[other]? := by
  unfold CorrelationGroup.occur at h
  split at h
  · rename_i existing hexisting
    split at h
    · rename_i hlower
      cases h
      refine ⟨rfl, rfl, fun other => ?_⟩
      rw [getElem?_insert]
      split
      · rename_i heq
        rw [← heq, hexisting, mergeOccurrence, if_pos hlower]
      · rfl
    · rename_i hlower
      cases h
      refine ⟨rfl, rfl, fun other => ?_⟩
      split
      · rename_i heq
        rw [← heq, hexisting, mergeOccurrence, if_neg hlower]
      · rfl
  · rename_i hnone
    obtain ⟨next, _, h⟩ := except_bind_eq_ok.mp h
    cases h
    refine ⟨rfl, rfl, fun other => ?_⟩
    rw [getElem?_insert]
    split
    · rename_i heq
      rw [← heq, hnone, mergeOccurrence]
    · rfl

/-- A registration changes the one node, and finds the group it belongs to. -/
theorem registerOccurrence_eq_ok {groups groups' : CorrelationGroups}
    {key : ProviderCorrelationKeyV1} {source : ProviderRelationSourceV1}
    {relationKind : ProviderRelationKindV1} {blockId : BlockId} {event : Event}
    {count count' : Nat} (identity : ProviderIdentity)
    (h : registerOccurrence groups key source relationKind blockId event count =
      .ok (groups', count')) :
    (∀ key' other, nodeAt groups' key' other = if key = key' ∧ blockId = other then
      mergeOccurrence (nodeAt groups key' other) ⟨identity, blockId, event⟩
        else nodeAt groups key' other) ∧
    (∃ group, groups'[key]? = some group ∧ group.source = source ∧
      group.relationKind = relationKind) ∧
    (∀ old, groups[key]? = some old → old.source = source ∧ old.relationKind = relationKind) ∧
    ∀ key', key ≠ key' → groups'[key']? = groups[key']? := by
  unfold registerOccurrence at h
  split at h
  · cases h
  obtain ⟨group, hentry, h⟩ := except_bind_eq_ok.mp h
  obtain ⟨⟨next, count''⟩, hoccur, h⟩ := except_bind_eq_ok.mp h
  cases h
  obtain ⟨hsource, hkind, hnodes, hold⟩ := groupEntry_eq_ok hentry
  obtain ⟨hsource', hkind', hnodes'⟩ :=
    occur_eq_ok identity (mapError_eq_ok.mp hoccur)
  refine ⟨fun key' other => ?_, ⟨next, ?_, hsource'.trans hsource, hkind'.trans hkind⟩, ?_, ?_⟩
  · rw [nodeAt, getElem?_insert]
    by_cases hkey : key = key'
    · rw [if_pos hkey, Option.bind_some, hnodes', hnodes, ← hkey]
      simp only [true_and]
    · rw [if_neg hkey, if_neg fun hboth => hkey hboth.1, nodeAt]
  · rw [getElem?_insert, if_pos rfl]
  · intro old hfound
    obtain rfl := hold old hfound
    exact ⟨hsource, hkind⟩
  · intro key' hkey
    rw [getElem?_insert, if_neg hkey]

/-! ## The first pass -/

section Pass

variable [Sha256] {retrievalId : RetrievalId}

/-- The occurrences of a key in a block. -/
def occurrencesOf (retrievalId : RetrievalId) (key : ProviderCorrelationKeyV1) (blockId : BlockId)
    (seen : List Occurrence) : List Occurrence :=
  seen.filter fun o => o.identity.key retrievalId = key ∧ o.blockId = blockId

/-- The groups of what was seen. -/
structure Registered (retrievalId : RetrievalId) (seen : List Occurrence)
    (groups : CorrelationGroups) : Prop where
  nodes : ∀ key blockId,
    nodeAt groups key blockId = mergeOccurrences (occurrencesOf retrievalId key blockId seen)
  described : ∀ o ∈ seen, ∃ group, groups[o.identity.key retrievalId]? = some group ∧
    group.source = o.identity.source ∧ group.relationKind = o.identity.relationKind

theorem registered_nil : Registered retrievalId [] ∅ :=
  ⟨fun key blockId => by rw [nodeAt, ExtTreeMap.getElem?_empty]; rfl,
    fun o ho => absurd ho List.not_mem_nil⟩

theorem Registered.register {seen : List Occurrence} {groups groups' : CorrelationGroups}
    {count count' : Nat} (identity : ProviderIdentity) {blockId : BlockId} {event : Event}
    (hseen : Registered retrievalId seen groups)
    (h : registerOccurrence groups (identity.key retrievalId) identity.source
      identity.relationKind blockId event count = .ok (groups', count')) :
    Registered retrievalId (seen ++ [⟨identity, blockId, event⟩]) groups' := by
  obtain ⟨hnodes, hgroup, hold, hother⟩ := registerOccurrence_eq_ok identity h
  constructor
  · intro key other
    rw [hnodes, hseen.nodes, occurrencesOf, occurrencesOf, mergeOccurrences, mergeOccurrences,
      List.filter_append, List.foldl_append]
    by_cases hhere : identity.key retrievalId = key ∧ blockId = other
    · rw [if_pos hhere, List.filter_cons_of_pos (by simpa using hhere), List.filter_nil,
        List.foldl_cons, List.foldl_nil]
    · rw [if_neg hhere, List.filter_cons_of_neg (by simpa using hhere), List.filter_nil,
        List.foldl_nil]
  · intro o ho
    rcases List.mem_append.mp ho with hbefore | hnew
    · obtain ⟨group, hgroup', hsource, hkind⟩ := hseen.described o hbefore
      by_cases hkey : identity.key retrievalId = o.identity.key retrievalId
      · obtain ⟨hsame, hsame'⟩ := hold group (hkey ▸ hgroup')
        obtain ⟨next, hnext, hnextSource, hnextKind⟩ := hgroup
        refine ⟨next, hkey ▸ hnext, ?_, ?_⟩
        · rw [hnextSource, ← hsame, hsource]
        · rw [hnextKind, ← hsame', hkind]
      · exact ⟨group, (hother _ hkey).trans hgroup', hsource, hkind⟩
    · rw [List.mem_singleton.mp hnew]
      exact hgroup

/-- The passes over metadata, ids and attestations register the identities of an event. -/
theorem Registered.inspectEvent {seen : List Occurrence} {scan scan' : ProviderScan}
    {blockId : BlockId} {event : Event} (hseen : Registered retrievalId seen scan.groups)
    (h : inspectEvent retrievalId blockId scan event = .ok scan') :
    Registered retrievalId (seen ++ event.occurrences blockId) scan'.groups := by
  obtain ⟨ignored, hmetadata, h⟩ := except_bind_eq_ok.mp h
  obtain ⟨native, hnative, hattested⟩ := except_bind_eq_ok.mp h
  have hignored : ignored.groups = scan.groups := by
    unfold ignoreMetadata at hmetadata
    split at hmetadata
    · obtain ⟨count, _, hmetadata⟩ := except_bind_eq_ok.mp hmetadata
      cases hmetadata
      rfl
    · cases hmetadata
      rfl
  rw [← hignored] at hseen
  have hids : Registered retrievalId (seen ++ (event.nativeEventId.toList.map
      (.native event.lane)).map (⟨·, blockId, event⟩)) native.groups := by
    unfold inspectNativeEventId at hnative
    split at hnative
    · rename_i hnone
      cases hnative
      rw [hnone, Option.toList_none, List.map_nil, List.map_nil, List.append_nil]
      exact hseen
    · rename_i nativeEventId hsome
      obtain ⟨_, _, hnative⟩ := except_bind_eq_ok.mp hnative
      obtain ⟨_, _, hnative⟩ := except_bind_eq_ok.mp hnative
      obtain ⟨⟨groups, count⟩, hregister, hnative⟩ := except_bind_eq_ok.mp hnative
      cases hnative
      rw [hsome, Option.toList_some, List.map_singleton, List.map_singleton]
      exact hseen.register (.native event.lane nativeEventId) hregister
  have hentries : (event.providerAttestations.entries.map ProviderIdentity.attested).map
      (fun identity => (⟨identity, blockId, event⟩ : Occurrence)) =
        event.providerAttestations.entries.map fun a => ⟨.attested a, blockId, event⟩ :=
    List.map_map
  rw [Event.occurrences, Event.identities, List.map_append, ← List.append_assoc, hentries]
  refine Loop.foldlM_invariant
    (I := fun attestations scan => Registered retrievalId (seen ++ (event.nativeEventId.toList.map
      (.native event.lane)).map (⟨·, blockId, event⟩) ++
      attestations.map fun a => ⟨.attested a, blockId, event⟩) scan.groups) ?_ ?_ hattested
  · intro attestations attestation _ scan next _ hbefore hstep
    obtain ⟨_, _, hstep⟩ := except_bind_eq_ok.mp hstep
    obtain ⟨_, _, hstep⟩ := except_bind_eq_ok.mp hstep
    obtain ⟨_, _, hstep⟩ := except_bind_eq_ok.mp hstep
    obtain ⟨⟨groups, count⟩, hregister, hstep⟩ := except_bind_eq_ok.mp hstep
    cases hstep
    rw [List.map_append, List.map_singleton, ← List.append_assoc]
    exact hbefore.register (.attested attestation) hregister
  · rw [List.map_nil, List.append_nil]
    exact hids

/-- The whole pass registers the identities of the members of every block. -/
theorem registered_inspectBlocks {index : BlockIndex} (h : index.Reconciled) {scan : ProviderScan}
    (hscan : index.blocks.foldlM (inspectBlock index) {} = .ok scan) :
    Registered index.ledger.retrievalId (index.blocks.flatMap index.blockOccurrences)
      scan.groups := by
  refine Loop.foldlM_invariant
    (I := fun blocks scan => Registered index.ledger.retrievalId
      (blocks.flatMap index.blockOccurrences) scan.groups) ?_ registered_nil hscan
  intro seen block rest scan next hall hseen hstep
  have hblock : block ∈ index.blocks := hall ▸ List.mem_append_right _ (List.mem_cons_self ..)
  obtain ⟨expansion, hexpansion, hstep⟩ := except_bind_eq_ok.mp hstep
  rw [h.expands block hblock, mapError_eq_ok, Except.ok.injEq] at hexpansion
  rw [← hexpansion] at hstep
  rw [List.flatMap_append, List.flatMap_singleton]
  refine Loop.foldlM_invariant
    (I := fun events scan => Registered index.ledger.retrievalId
      (seen.flatMap index.blockOccurrences ++ events.flatMap (·.occurrences block.id))
      scan.groups) ?_ ?_ hstep
  · intro events event _ scan next _ hbefore hevent
    rw [List.flatMap_append, List.flatMap_singleton, ← List.append_assoc]
    exact hbefore.inspectEvent hevent
  · rw [List.flatMap_nil, List.append_nil]
    exact hseen

/-! ## The nodes of a key -/

def Event.carries (event : Event) (retrievalId : RetrievalId) (key : ProviderCorrelationKeyV1) :
    Bool :=
  event.identities.any (·.key retrievalId = key)

/-- Whether a block has an event with the identity of a key. -/
def BlockIndex.carries (index : BlockIndex) (key : ProviderCorrelationKeyV1) (block : EventBlock) :
    Bool :=
  (index.members block).any (·.carries index.ledger.retrievalId key)

variable {index : BlockIndex}

omit [Sha256] in
theorem mem_blockOccurrences {block : EventBlock} {o : Occurrence} :
    o ∈ index.blockOccurrences block ↔
      o.blockId = block.id ∧ o.event ∈ index.members block ∧ o.identity ∈ o.event.identities := by
  simp only [BlockIndex.blockOccurrences, Event.occurrences, List.mem_flatMap, List.mem_map]
  constructor
  · rintro ⟨event, hevent, identity, hidentity, rfl⟩
    exact ⟨rfl, hevent, hidentity⟩
  · rintro ⟨hid, hevent, hidentity⟩
    exact ⟨o.event, hevent, o.identity, hidentity, by rw [← hid]⟩

omit [Sha256] in
/-- In a block the occurrences stand in the order of the lane. -/
theorem pairwise_occurrences (h : index.Reconciled) :
    (index.blocks.flatMap index.blockOccurrences).Pairwise fun a b =>
      a.blockId = b.blockId → a.event.laneSequence.get ≤ b.event.laneSequence.get := by
  rw [List.pairwise_flatMap]
  constructor
  · intro block hblock
    rw [BlockIndex.blockOccurrences, List.pairwise_flatMap]
    constructor
    · intro event _
      refine List.pairwise_of_forall_mem_list fun a ha b hb => ?_
      obtain ⟨_, _, rfl⟩ := List.mem_map.mp ha
      obtain ⟨_, _, rfl⟩ := List.mem_map.mp hb
      exact fun _ => Nat.le_refl _
    · refine (BlockIndex.pairwise_of_chained (h.chained block hblock)).imp fun hab => ?_
      intro a ha b hb _
      obtain ⟨_, _, rfl⟩ := List.mem_map.mp ha
      obtain ⟨_, _, rfl⟩ := List.mem_map.mp hb
      exact Nat.le_of_lt hab
  · have hids := h.ids_nodup
    rw [List.Nodup, List.pairwise_map] at hids
    refine hids.imp fun hne => ?_
    intro a ha b hb hsame
    rw [(mem_blockOccurrences.mp ha).1, (mem_blockOccurrences.mp hb).1] at hsame
    exact absurd hsame hne

variable {groups : CorrelationGroups} {key : ProviderCorrelationKeyV1}

/-- A node is that of a block with an event of the key. -/
theorem Registered.of_nodeAt (h : index.Reconciled)
    (hgroups : Registered index.ledger.retrievalId
      (index.blocks.flatMap index.blockOccurrences) groups)
    {blockId : BlockId} {node : NodeOccurrence} (hnode : nodeAt groups key blockId = some node) :
    ∃ block ∈ index.blocks, block.id = blockId ∧ ∃ event ∈ index.members block,
      event.carries index.ledger.retrievalId key = true ∧ node = .of blockId event := by
  have hpairs : (occurrencesOf index.ledger.retrievalId key blockId
      (index.blocks.flatMap index.blockOccurrences)).Pairwise fun a b =>
        a.event.laneSequence.get ≤ b.event.laneSequence.get := by
    refine ((pairwise_occurrences h).filter _).imp_of_mem fun {a b} ha hb hab => hab ?_
    have hida := (List.mem_filter.mp ha).2
    have hidb := (List.mem_filter.mp hb).2
    simp only [decide_eq_true_eq] at hida hidb
    rw [hida.2, hidb.2]
  rw [hgroups.nodes, mergeOccurrences_eq hpairs, Option.map_eq_some_iff] at hnode
  obtain ⟨o, ho, rfl⟩ := hnode
  obtain ⟨hall, hkey⟩ := List.mem_filter.mp (List.mem_of_mem_head? ho)
  simp only [decide_eq_true_eq] at hkey
  obtain ⟨block, hblock, hin⟩ := List.mem_flatMap.mp hall
  obtain ⟨hid, hevent, hidentity⟩ := mem_blockOccurrences.mp hin
  refine ⟨block, hblock, hid.symm.trans hkey.2, o.event, hevent, ?_, by rw [hkey.2]⟩
  exact List.any_eq_true.mpr ⟨o.identity, hidentity, by simpa using hkey.1⟩

/-- Every block with an event of the key has a node. -/
theorem Registered.nodeAt_of_carries
    (hgroups : Registered index.ledger.retrievalId
      (index.blocks.flatMap index.blockOccurrences) groups)
    {block : EventBlock} (hblock : block ∈ index.blocks)
    (hcarries : index.carries key block = true) :
    ∃ node, nodeAt groups key block.id = some node := by
  obtain ⟨event, hevent, hcarries⟩ := List.any_eq_true.mp hcarries
  obtain ⟨identity, hidentity, hkey⟩ := List.any_eq_true.mp hcarries
  have hin : (⟨identity, block.id, event⟩ : Occurrence) ∈ occurrencesOf index.ledger.retrievalId
      key block.id (index.blocks.flatMap index.blockOccurrences) := by
    refine List.mem_filter.mpr ⟨List.mem_flatMap.mpr ⟨block, hblock, ?_⟩, ?_⟩
    · exact mem_blockOccurrences.mpr ⟨rfl, hevent, hidentity⟩
    · simpa using hkey
  rw [hgroups.nodes]
  cases hoccurrences : occurrencesOf index.ledger.retrievalId key block.id
      (index.blocks.flatMap index.blockOccurrences) with
  | nil =>
      rw [hoccurrences] at hin
      cases hin
  | cons first rest => exact exists_mergeOccurrences first rest

end Pass

end Evidentrail
