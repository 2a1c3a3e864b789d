import Evidentrail.Select.Types
import Mathlib.Data.List.FinRange

/-!
# The selection problem

`SelectionProblemV1::new` sorts and checks a packet universe once; all that
selection later relies on is what `WellFormed` lists, and
`new_wellFormed` says that every accepted problem has it.
-/

namespace Evidentrail

open Rust Std Slice

inductive SelectionProblemConstructionError where
  | tooManyPackets
  | tooManyFacets
  | tooManyEvents
  | tooManyMandatoryPackets
  | duplicatePacketId
  | duplicateFacetId
  | overlappingEvent
  | unknownAffinityFacet
  | costModelMismatch
  | duplicateMandatoryPacket
  | unknownMandatoryPacket
  | unknownMandatoryFacet
  | mandatoryFacetNotValidatedIdentifier
  | mandatoryPacketLacksIdentifierAffinity
  | universeTokenCostOverflow
  | objectiveBoundOverflow
deriving DecidableEq

/-- Canonical, validated packet universe and strict token budget. -/
structure SelectionProblemV1 where
  facets : List ProductionFacetV1
  packets : List IntactPacketV1
  mandatory : List MandatoryPacketV1
  totalTokenBudget : TotalTokenBudgetV1
  reservedFixedOverhead : ReservedFixedOverheadV1
  mandatoryCost : Nat
deriving DecidableEq

namespace SelectionProblemV1

/-! ## The checks of `new` -/

/-- Weight times the largest total affinity the facet can reach. -/
def maximumContribution (facet : ProductionFacetV1) : Option Nat :=
  (checkedMul facet.weight.micros affinityScaleV1).bind
    (checkedMul · facet.kind.saturationCardinality.count)

/-- One facet of the objective bound. -/
def addContribution (bound : Nat) (facet : ProductionFacetV1) :
    Except SelectionProblemConstructionError Nat := do
  let contribution ← okOr .objectiveBoundOverflow (maximumContribution facet)
  okOr .objectiveBoundOverflow (checkedAdd bound contribution)

def objectiveBound (facets : List ProductionFacetV1) :
    Except SelectionProblemConstructionError Nat :=
  facets.foldlM addContribution 0

def packetPositions (packets : List IntactPacketV1) :
    ExtTreeMap PacketIdV1 (Fin packets.length) :=
  (List.finRange packets.length).foldl
    (fun positions position => positions.insert (packets.get position).id position) ∅

def admitEvents (allEvents : ExtTreeSet EventId) :
    List EventId → Except SelectionProblemConstructionError (ExtTreeSet EventId)
  | [] => .ok allEvents
  | eventId :: rest =>
      match insertNew allEvents eventId with
      | none => .error .overlappingEvent
      | some allEvents =>
          if allEvents.size > maxSelectionEventsV1 then .error .tooManyEvents
          else admitEvents allEvents rest

def admitAffinities (facets : List ProductionFacetV1) :
    List FacetAffinityV1 → Except SelectionProblemConstructionError Unit
  | [] => .ok ()
  | affinity :: rest =>
      match binarySearchByKey ProductionFacetV1.id affinity.facetId facets with
      | .error _ => .error .unknownAffinityFacet
      | .ok _ => admitAffinities facets rest

def admitPackets (facets : List ProductionFacetV1) (costModel : ComposableCostModelV1)
    (allEvents : ExtTreeSet EventId) (universeTokenCost : Nat) :
    List IntactPacketV1 → Except SelectionProblemConstructionError Unit
  | [] => .ok ()
  | packet :: rest =>
      if packet.composableTokenUpperBound.costModel ≠ costModel then
        .error .costModelMismatch
      else
        match checkedAdd universeTokenCost packet.cost with
        | none => .error .universeTokenCostOverflow
        | some universeTokenCost =>
            match admitEvents allEvents packet.eventIds with
            | .error error => .error error
            | .ok allEvents =>
                match admitAffinities facets packet.affinities with
                | .error error => .error error
                | .ok () => admitPackets facets costModel allEvents universeTokenCost rest

/-- One mandatory entry: the packet's cost, after all checks but the
duplicate one. -/
def admitMandatoryEntry (facets : List ProductionFacetV1) (packets : List IntactPacketV1)
    (entry : MandatoryPacketV1) : Except SelectionProblemConstructionError Nat :=
  match (packetPositions packets)[entry.packetId]? with
  | none => .error .unknownMandatoryPacket
  | some packetIndex =>
      match binarySearchByKey ProductionFacetV1.id entry.validatedIdentifierFacetId
          facets with
      | .error _ => .error .unknownMandatoryFacet
      | .ok facetIndex =>
          if (facets.get facetIndex).kind ≠ .validatedQueryIdentifier then
            .error .mandatoryFacetNotValidatedIdentifier
          else if (packets.get packetIndex).affinityFor entry.validatedIdentifierFacetId = none
          then .error .mandatoryPacketLacksIdentifierAffinity
          else .ok (packets.get packetIndex).cost

def admitMandatory (facets : List ProductionFacetV1) (packets : List IntactPacketV1)
    (seen : ExtTreeSet PacketIdV1) (mandatoryCost : Nat) :
    List MandatoryPacketV1 → Except SelectionProblemConstructionError Nat
  | [] => .ok mandatoryCost
  | entry :: rest =>
      match insertNew seen entry.packetId with
      | none => .error .duplicateMandatoryPacket
      | some seen =>
          match admitMandatoryEntry facets packets entry with
          | .error error => .error error
          | .ok cost =>
              match checkedAdd mandatoryCost cost with
              | none => .error .universeTokenCostOverflow
              | some mandatoryCost =>
                  admitMandatory facets packets seen mandatoryCost rest

/-- The sort key of a mandatory entry; `usize::MAX` for an unknown packet. -/
def mandatoryPosition (packets : List IntactPacketV1) (entry : MandatoryPacketV1) : Nat :=
  ((packetPositions packets)[entry.packetId]?.map Fin.val).getD (u64Bound - 1)

def new (facets : List ProductionFacetV1) (packets : List IntactPacketV1)
    (mandatory : List MandatoryPacketV1) (totalTokenBudget : TotalTokenBudgetV1)
    (reservedFixedOverhead : ReservedFixedOverheadV1) :
    Except SelectionProblemConstructionError SelectionProblemV1 := do
  if facets.length > maxSelectionFacetsV1 then .error .tooManyFacets
  else
    let facets := sortByKey ProductionFacetV1.id facets
    if hasEqualNeighbours ProductionFacetV1.id facets then .error .duplicateFacetId
    else
      let _ ← objectiveBound facets
      if packets.length > maxSelectionPacketsV1 then .error .tooManyPackets
      else
        let _ ← insertAllNew .duplicatePacketId ∅ (packets.map IntactPacketV1.id)
        -- Event membership, not the caller's label, fixes the canonical order.
        let packets := sortByKey IntactPacketV1.eventIds packets
        admitPackets facets reservedFixedOverhead.costModel ∅ 0 packets
        if mandatory.length > maxMandatoryPacketsV1 then .error .tooManyMandatoryPackets
        else
          let mandatoryCost ← admitMandatory facets packets ∅ 0 mandatory
          return {
            facets, packets, totalTokenBudget, reservedFixedOverhead, mandatoryCost
            mandatory := sortByKey (mandatoryPosition packets) mandatory }

/-! ## Lookups -/

section Lookups

variable (p : SelectionProblemV1)

def facetIndex (facetId : FacetIdV1) : Option (Fin p.facets.length) :=
  (binarySearchByKey ProductionFacetV1.id facetId p.facets).toOption

def packetIndex (packetId : PacketIdV1) : Option (Fin p.packets.length) :=
  (List.finRange p.packets.length).find? fun index => (p.packets.get index).id = packetId

def isMandatory (packetId : PacketIdV1) : Bool :=
  p.mandatory.any fun entry => entry.packetId = packetId

end Lookups

/-! ## What `new` accepts -/

/-- The cost of the packet with this id. -/
def costOf (packets : List IntactPacketV1) (packetId : PacketIdV1) : Nat :=
  ((packets.find? fun packet => packet.id = packetId).map IntactPacketV1.cost).getD 0

/-- A mandatory entry names a packet and an identifier facet of the packet. -/
structure Forced (facets : List ProductionFacetV1) (packets : List IntactPacketV1)
    (entry : MandatoryPacketV1) : Prop where
  packet : ∃ packet ∈ packets, packet.id = entry.packetId ∧
    ∃ affinity ∈ packet.affinities, affinity.facetId = entry.validatedIdentifierFacetId
  facet : ∃ facet ∈ facets, facet.id = entry.validatedIdentifierFacetId ∧
    facet.kind = .validatedQueryIdentifier

/-- The most one facet can add to the objective. -/
def maximumValue (facet : ProductionFacetV1) : Nat :=
  facet.weight.micros * (affinityScaleV1 * facet.kind.saturationCardinality.count)

/-- What a selection may rely on. -/
structure WellFormed (p : SelectionProblemV1) : Prop where
  facets_sorted : StrictlySorted ProductionFacetV1.id p.facets
  facets_le : p.facets.length ≤ maxSelectionFacetsV1
  objective_lt : (p.facets.map maximumValue).sum < u64Bound
  packets_le : p.packets.length ≤ maxSelectionPacketsV1
  packetIds_nodup : (p.packets.map IntactPacketV1.id).Nodup
  packets_sorted : p.packets.Pairwise fun a b => (compare a.eventIds b.eventIds).isLE
  costModel_eq : ∀ packet ∈ p.packets,
    packet.composableTokenUpperBound.costModel = p.reservedFixedOverhead.costModel
  universe_lt : (p.packets.map IntactPacketV1.cost).sum < u64Bound
  events_nodup : (p.packets.flatMap IntactPacketV1.eventIds).Nodup
  affinities_known : ∀ packet ∈ p.packets, ∀ affinity ∈ packet.affinities,
    ∃ facet ∈ p.facets, facet.id = affinity.facetId
  mandatory_le : p.mandatory.length ≤ maxMandatoryPacketsV1
  mandatory_nodup : (p.mandatory.map MandatoryPacketV1.packetId).Nodup
  mandatory_forced : ∀ entry ∈ p.mandatory, Forced p.facets p.packets entry
  mandatoryCost_eq :
    p.mandatoryCost = (p.mandatory.map fun entry => costOf p.packets entry.packetId).sum

theorem maximumContribution_eq_some {facet : ProductionFacetV1} {n : Nat}
    (h : maximumContribution facet = some n) : n = maximumValue facet := by
  simp only [maximumContribution, Option.bind_eq_some_iff, checkedMul_eq_some] at h
  obtain ⟨_, ⟨_, rfl⟩, _, rfl⟩ := h
  exact Nat.mul_assoc ..

theorem foldlM_addContribution_eq_ok {n : Nat} : ∀ {facets : List ProductionFacetV1}
    {bound : Nat}, bound < u64Bound → facets.foldlM addContribution bound = .ok n →
      bound + (facets.map maximumValue).sum < u64Bound
  | [], _, hlt, _ => by simpa using hlt
  | facet :: rest, bound, hlt, h => by
      rw [List.foldlM_cons] at h
      obtain ⟨bound', hfirst, hrest⟩ := except_bind_eq_ok.mp h
      obtain ⟨contribution, hmax, hadd⟩ := except_bind_eq_ok.mp hfirst
      have hvalue := maximumContribution_eq_some (okOr_eq_ok.mp hmax)
      obtain ⟨hlt', rfl⟩ := checkedAdd_eq_some.mp (okOr_eq_ok.mp hadd)
      have hsum := foldlM_addContribution_eq_ok hlt' hrest
      rw [List.map_cons, List.sum_cons]
      omega

theorem admitEvents_eq_ok {t : ExtTreeSet EventId} : ∀ {events : List EventId}
    {s : ExtTreeSet EventId}, admitEvents s events = .ok t →
      events.Nodup ∧ (∀ event ∈ events, event ∉ s) ∧
        ∀ event, event ∈ t ↔ event ∈ s ∨ event ∈ events
  | [], s, h => by
      cases h
      simp
  | event :: rest, s, h => by
      simp only [admitEvents] at h
      cases hnew : insertNew s event with
      | none => simp [hnew] at h
      | some s' =>
          simp only [hnew] at h
          split at h
          · cases h
          · obtain ⟨hfresh, rfl⟩ := insertNew_eq_some.mp hnew
            obtain ⟨hnodup, hout, hmem⟩ := admitEvents_eq_ok h
            refine ⟨List.nodup_cons.mpr ⟨fun hin => ?_, hnodup⟩, fun a ha => ?_, fun a => ?_⟩
            · exact hout event hin (mem_insert_set.mpr (.inl rfl))
            · rcases List.mem_cons.mp ha with rfl | ha
              · exact hfresh
              · exact fun has => hout a ha (mem_insert_set.mpr (.inr has))
            · rw [hmem, mem_insert_set, List.mem_cons]
              tauto

theorem admitAffinities_eq_ok {facets : List ProductionFacetV1}
    (hsorted : StrictlySorted ProductionFacetV1.id facets) :
    ∀ {affinities : List FacetAffinityV1}, admitAffinities facets affinities = .ok () →
      ∀ affinity ∈ affinities, ∃ facet ∈ facets, facet.id = affinity.facetId
  | [], _ => by simp
  | first :: rest, h => by
      simp only [admitAffinities] at h
      cases hsearch : binarySearchByKey ProductionFacetV1.id first.facetId facets with
      | error e => simp [hsearch] at h
      | ok index =>
          rw [hsearch] at h
          intro affinity haffinity
          rcases List.mem_cons.mp haffinity with rfl | hrest
          · exact ⟨_, List.getElem_mem _, hsorted.binarySearchByKey_eq_ok.mp hsearch⟩
          · exact admitAffinities_eq_ok hsorted h affinity hrest

/-- What the universe loop establishes for the packets it has seen. -/
theorem admitPackets_eq_ok {facets : List ProductionFacetV1}
    (hsorted : StrictlySorted ProductionFacetV1.id facets)
    {costModel : ComposableCostModelV1} : ∀ {packets : List IntactPacketV1}
    {s : ExtTreeSet EventId} {cost : Nat}, cost < u64Bound →
    admitPackets facets costModel s cost packets = .ok () →
      (∀ packet ∈ packets, packet.composableTokenUpperBound.costModel = costModel) ∧
      cost + (packets.map IntactPacketV1.cost).sum < u64Bound ∧
      (packets.flatMap IntactPacketV1.eventIds).Nodup ∧
      (∀ event ∈ packets.flatMap IntactPacketV1.eventIds, event ∉ s) ∧
      ∀ packet ∈ packets, ∀ affinity ∈ packet.affinities,
        ∃ facet ∈ facets, facet.id = affinity.facetId
  | [], _, _, hcost, _ => by simpa using hcost
  | packet :: rest, s, cost, hcost, h => by
      simp only [admitPackets] at h
      split at h
      · cases h
      · rename_i hmodel
        cases hadd : checkedAdd cost packet.cost with
        | none => simp [hadd] at h
        | some cost' =>
            cases hevents : admitEvents s packet.eventIds with
            | error e => simp [hadd, hevents] at h
            | ok t =>
                cases haff : admitAffinities facets packet.affinities with
                | error e => simp [hadd, hevents, haff] at h
                | ok u =>
                    simp only [hadd, hevents, haff] at h
                    obtain ⟨hlt, rfl⟩ := checkedAdd_eq_some.mp hadd
                    obtain ⟨hnodup, hout, hmem⟩ := admitEvents_eq_ok hevents
                    obtain ⟨hmodels, hsum, hrest, houtrest, hknown⟩ :=
                      admitPackets_eq_ok hsorted hlt h
                    simp only [List.forall_mem_cons, List.map_cons, List.sum_cons,
                      List.flatMap_cons, List.nodup_append, List.mem_append]
                    refine ⟨⟨not_not.mp hmodel, hmodels⟩, by omega, ⟨hnodup, hrest, ?_⟩, ?_,
                      admitAffinities_eq_ok hsorted haff, hknown⟩
                    · rintro a ha b hb rfl
                      exact houtrest a hb ((hmem a).mpr (.inr ha))
                    · rintro a (ha | ha)
                      · exact hout a ha
                      · exact fun has => houtrest a ha ((hmem a).mpr (.inl has))

theorem getElem?_packetPositions {packets : List IntactPacketV1} {packetId : PacketIdV1}
    {index : Fin packets.length} (h : (packetPositions packets)[packetId]? = some index) :
    (packets.get index).id = packetId := by
  have hfold : ∀ (indices : List (Fin packets.length))
      (m : ExtTreeMap PacketIdV1 (Fin packets.length)),
      (∀ (k : PacketIdV1) (i : Fin packets.length), m[k]? = some i → (packets.get i).id = k) →
      ∀ (k : PacketIdV1) (i : Fin packets.length),
        (indices.foldl (fun m i => m.insert (packets.get i).id i) m)[k]? = some i →
          (packets.get i).id = k := by
    intro indices
    induction indices with
    | nil => exact fun m hm => hm
    | cons first rest ih =>
        intro m hm
        refine ih _ fun k i hk => ?_
        rw [getElem?_insert] at hk
        split at hk
        · rename_i heq
          cases hk
          exact heq
        · exact hm k i hk
  exact hfold _ ∅ (by simp) packetId index h

theorem costOf_eq {packets : List IntactPacketV1} (h : (packets.map IntactPacketV1.id).Nodup)
    {packet : IntactPacketV1} (hmem : packet ∈ packets) :
    costOf packets packet.id = packet.cost := by
  rw [costOf, (Slice.find?_eq_some_iff h).mpr ⟨hmem, rfl⟩]
  rfl

theorem admitMandatoryEntry_eq_ok {facets : List ProductionFacetV1}
    {packets : List IntactPacketV1} (hsorted : StrictlySorted ProductionFacetV1.id facets)
    (hids : (packets.map IntactPacketV1.id).Nodup) {entry : MandatoryPacketV1} {cost : Nat}
    (h : admitMandatoryEntry facets packets entry = .ok cost) :
    Forced facets packets entry ∧ cost = costOf packets entry.packetId := by
  simp only [admitMandatoryEntry] at h
  cases hpos : (packetPositions packets)[entry.packetId]? with
  | none => simp [hpos] at h
  | some packetIndex =>
      cases hsearch : binarySearchByKey ProductionFacetV1.id entry.validatedIdentifierFacetId
          facets with
      | error e => simp [hpos, hsearch] at h
      | ok facetIndex =>
          simp only [hpos, hsearch] at h
          split at h
          · cases h
          · split at h
            · cases h
            · rename_i hkind haff
              cases h
              have hid := getElem?_packetPositions hpos
              have hmem : packets.get packetIndex ∈ packets := List.getElem_mem _
              refine ⟨⟨⟨_, hmem, hid, ?_⟩, _, List.getElem_mem _,
                hsorted.binarySearchByKey_eq_ok.mp hsearch, not_not.mp hkind⟩, ?_⟩
              · rw [IntactPacketV1.affinityFor] at haff
                split at haff
                · rename_i index hindex
                  have hsorted := (packets.get packetIndex).affinities_sorted
                  exact ⟨_, List.getElem_mem _, hsorted.binarySearchByKey_eq_ok.mp hindex⟩
                · exact absurd rfl haff
              · rw [← hid, costOf_eq hids hmem]

theorem admitMandatory_eq_ok {facets : List ProductionFacetV1}
    {packets : List IntactPacketV1} (hsorted : StrictlySorted ProductionFacetV1.id facets)
    (hids : (packets.map IntactPacketV1.id).Nodup) {n : Nat} :
    ∀ {mandatory : List MandatoryPacketV1} {s : ExtTreeSet PacketIdV1} {cost : Nat},
    admitMandatory facets packets s cost mandatory = .ok n →
      (mandatory.map MandatoryPacketV1.packetId).Nodup ∧
      (∀ entry ∈ mandatory, entry.packetId ∉ s) ∧
      (∀ entry ∈ mandatory, Forced facets packets entry) ∧
      n = cost + (mandatory.map fun entry => costOf packets entry.packetId).sum
  | [], _, _, h => by
      cases h
      simp
  | entry :: rest, s, cost, h => by
      simp only [admitMandatory] at h
      cases hnew : insertNew s entry.packetId with
      | none => simp [hnew] at h
      | some s' =>
          cases hentry : admitMandatoryEntry facets packets entry with
          | error e => simp [hnew, hentry] at h
          | ok c =>
              cases hadd : checkedAdd cost c with
              | none => simp [hnew, hentry, hadd] at h
              | some cost' =>
                  simp only [hnew, hentry, hadd] at h
                  obtain ⟨hfresh, rfl⟩ := insertNew_eq_some.mp hnew
                  obtain ⟨hforced, rfl⟩ := admitMandatoryEntry_eq_ok hsorted hids hentry
                  obtain ⟨_, rfl⟩ := checkedAdd_eq_some.mp hadd
                  obtain ⟨hnodup, hout, hrest, rfl⟩ := admitMandatory_eq_ok hsorted hids h
                  simp only [List.map_cons, List.nodup_cons, List.sum_cons,
                    List.forall_mem_cons]
                  refine ⟨⟨fun hin => ?_, hnodup⟩, ⟨hfresh, fun a ha has => ?_⟩,
                    ⟨hforced, hrest⟩, by omega⟩
                  · obtain ⟨other, hother, heq⟩ := List.mem_map.mp hin
                    exact hout other hother (mem_insert_set.mpr (.inl heq.symm))
                  · exact hout a ha (mem_insert_set.mpr (.inr has))

theorem new_wellFormed {facets : List ProductionFacetV1} {packets : List IntactPacketV1}
    {mandatory : List MandatoryPacketV1} {totalTokenBudget : TotalTokenBudgetV1}
    {reservedFixedOverhead : ReservedFixedOverheadV1} {p : SelectionProblemV1}
    (h : new facets packets mandatory totalTokenBudget reservedFixedOverhead = .ok p) :
    p.WellFormed := by
  simp only [new] at h
  split at h
  · cases h
  rename_i hfacets
  split at h
  · cases h
  rename_i hneighbours
  obtain ⟨bound, hbound, h⟩ := except_bind_eq_ok.mp h
  split at h
  · cases h
  rename_i hpackets
  obtain ⟨seen, hseen, h⟩ := except_bind_eq_ok.mp h
  obtain ⟨_, hadmitted, h⟩ := except_bind_eq_ok.mp h
  split at h
  · cases h
  rename_i hmandatory
  obtain ⟨cost, hcost, h⟩ := except_bind_eq_ok.mp h
  cases h
  have hsorted := strictlySorted_sortByKey ProductionFacetV1.id
    (Bool.eq_false_iff.mpr hneighbours)
  have hids : ((sortByKey IntactPacketV1.eventIds packets).map IntactPacketV1.id).Nodup :=
    ((perm_sortByKey _ packets).map _).nodup_iff.mpr (insertAllNew_eq_ok hseen).1
  obtain ⟨hmodels, huniverse, hevents, _, hknown⟩ :=
    admitPackets_eq_ok hsorted (Nat.two_pow_pos 64) hadmitted
  obtain ⟨hnodup, _, hforced, rfl⟩ := admitMandatory_eq_ok hsorted hids hcost
  have hperm := perm_sortByKey
    (mandatoryPosition (sortByKey IntactPacketV1.eventIds packets)) mandatory
  have hobjective := foldlM_addContribution_eq_ok (Nat.two_pow_pos 64) hbound
  rw [Nat.zero_add] at huniverse hobjective
  exact {
    facets_sorted := hsorted
    facets_le := by simpa using hfacets
    objective_lt := hobjective
    packets_le := by simpa using hpackets
    packetIds_nodup := hids
    packets_sorted := pairwise_sortByKey _ _
    costModel_eq := hmodels
    universe_lt := huniverse
    events_nodup := hevents
    affinities_known := hknown
    mandatory_le := by simpa using hmandatory
    mandatory_nodup := (hperm.map _).nodup_iff.mpr hnodup
    mandatory_forced := fun entry hentry => hforced entry (hperm.mem_iff.mp hentry)
    mandatoryCost_eq := by rw [Nat.zero_add, (hperm.map _).sum_nat] }

/-! ## Lookups in a well-formed problem -/

namespace WellFormed

variable {p : SelectionProblemV1}

theorem facetIndex_eq_some (wf : p.WellFormed) {facetId : FacetIdV1}
    {index : Fin p.facets.length} :
    p.facetIndex facetId = some index ↔ (p.facets.get index).id = facetId := by
  change _ ↔ p.facets[index].id = facetId
  rw [← wf.facets_sorted.binarySearchByKey_eq_ok, facetIndex]
  cases binarySearchByKey ProductionFacetV1.id facetId p.facets <;> simp [Except.toOption]

theorem packetIndex_eq_some (wf : p.WellFormed) {packetId : PacketIdV1}
    {index : Fin p.packets.length} :
    p.packetIndex packetId = some index ↔ (p.packets.get index).id = packetId := by
  have hnodup : ((List.finRange p.packets.length).map fun i => (p.packets.get i).id).Nodup := by
    have hids := wf.packetIds_nodup
    rwa [← List.map_getElem_finRange p.packets, List.map_map] at hids
  rw [packetIndex, Slice.find?_eq_some_iff hnodup]
  simp

end WellFormed

end SelectionProblemV1

end Evidentrail
