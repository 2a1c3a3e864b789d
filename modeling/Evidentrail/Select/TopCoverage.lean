import Evidentrail.Lib.TopSum
import Evidentrail.Select.Sound

/-!
# Coverage is a sum of largest affinities

The coverage of a facet keeps a largest and a second largest affinity and
moves them at every packet. What it adds up to is the sum of the one or two
largest affinities among the packets applied (`FacetCoverageV1.Covers`), so the
objective is a weighted sum of such sums (`value_applyPackets`).
-/

namespace Evidentrail

open Rust Std Slice TopSum

/-! ## One facet -/

namespace FacetCoverageV1

/-- A cell after these affinities. -/
structure Covers (c : FacetCoverageV1) (cardinality : FacetSaturationCardinalityV1)
    (affinities : List Nat) : Prop where
  largest : c.largestAffinity = kth 0 affinities
  second : cardinality = .two → c.secondLargestAffinity = kth 1 affinities

theorem covers_empty (cardinality : FacetSaturationCardinalityV1) :
    Covers empty cardinality [] :=
  ⟨rfl, fun _ => rfl⟩

theorem Covers.applyAffinity {c : FacetCoverageV1} {cardinality : FacetSaturationCardinalityV1}
    {affinities : List Nat} (h : c.Covers cardinality affinities) (affinity : AffinityV1) :
    (c.applyAffinity affinity cardinality).Covers cardinality (affinity.micros :: affinities) where
  largest := by rw [largest_applyAffinity, h.largest, kth_zero_cons]
  second := by
    rintro rfl
    rw [second_applyAffinity_two, h.largest, h.second rfl, kth_succ_cons]

theorem Covers.totalAffinity_eq {c : FacetCoverageV1}
    {cardinality : FacetSaturationCardinalityV1} {affinities : List Nat}
    (h : c.Covers cardinality affinities) :
    c.totalAffinity cardinality = topSum cardinality.count affinities := by
  cases cardinality with
  | one =>
      show c.largestAffinity = topSum 1 affinities
      rw [topSum_succ, topSum_zero, Nat.zero_add, h.largest]
  | two =>
      show c.largestAffinity + c.secondLargestAffinity = topSum 2 affinities
      rw [topSum_succ, topSum_succ, topSum_zero, Nat.zero_add, h.largest, h.second rfl]

end FacetCoverageV1

/-! ## The affinity of a packet -/

theorem IntactPacketV1.affinityFor_eq_some {packet : IntactPacketV1} {facetId : FacetIdV1}
    {affinity : AffinityV1} :
    packet.affinityFor facetId = some affinity ↔ ⟨facetId, affinity⟩ ∈ packet.affinities := by
  have hsorted := packet.affinities_sorted
  unfold affinityFor
  constructor
  · intro h
    split at h
    · rename_i index hindex
      have hid := hsorted.binarySearchByKey_eq_ok.mp hindex
      cases h
      rw [← hid]
      exact List.getElem_mem _
    · cases h
  · intro h
    obtain ⟨i, hi, hget⟩ := List.mem_iff_getElem.mp h
    have hkey : packet.affinities[(⟨i, hi⟩ : Fin packet.affinities.length)].facetId = facetId := by
      rw [Fin.getElem_fin, hget]
    rw [hsorted.binarySearchByKey_eq_ok.mpr hkey]
    simp only [Fin.getElem_fin, hget]

namespace SelectionProblemV1

variable {p : SelectionProblemV1}

/-- The affinities that packets have for a facet. -/
def facetAffinities (p : SelectionProblemV1) (index : Fin p.facets.length)
    (packets : List IntactPacketV1) : List Nat :=
  packets.filterMap fun packet =>
    (packet.affinityFor (p.facets.get index).id).map FixedPointV1.micros

/-- The weighted sum of the largest affinities of every facet. -/
def topCoverage (p : SelectionProblemV1) (packets : List IntactPacketV1) : Nat :=
  ∑ index, (p.facets.get index).weight.micros *
    topSum (p.cardinality index).count (p.facetAffinities index packets)

/-- Affinities for other facets leave a cell alone. -/
theorem foldl_applyFacetAffinity_of_ne (wf : p.WellFormed) {index : Fin p.facets.length}
    {affinities : List FacetAffinityV1} (coverage : Coverage p.facets.length)
    (h : ∀ affinity ∈ affinities, affinity.facetId ≠ (p.facets.get index).id) :
    (affinities.foldl p.applyFacetAffinity coverage) index = coverage index := by
  induction affinities generalizing coverage with
  | nil => rfl
  | cons affinity rest ih =>
      obtain ⟨hhead, htail⟩ := List.forall_mem_cons.mp h
      rw [List.foldl_cons, ih _ htail, applyFacetAffinity]
      cases hfound : p.facetIndex affinity.facetId with
      | none => rfl
      | some other =>
          have hid := wf.facetIndex_eq_some.mp hfound
          have hne : index ≠ other := by
            rintro rfl
            exact hhead hid.symm
          exact Function.update_of_ne hne ..

/-- Of a packet's affinities only the one for the facet counts. -/
theorem applyPacket_cell (wf : p.WellFormed) (coverage : Coverage p.facets.length)
    (packet : IntactPacketV1) (index : Fin p.facets.length) :
    p.applyPacket coverage packet index =
      match packet.affinityFor (p.facets.get index).id with
      | none => coverage index
      | some affinity => (coverage index).applyAffinity affinity (p.cardinality index) := by
  cases hfor : packet.affinityFor (p.facets.get index).id with
  | none =>
      refine foldl_applyFacetAffinity_of_ne wf coverage fun affinity haffinity hid => ?_
      have hsome : packet.affinityFor (p.facets.get index).id = some affinity.affinity := by
        rw [IntactPacketV1.affinityFor_eq_some, ← hid]
        exact haffinity
      rw [hfor] at hsome
      cases hsome
  | some affinity =>
      obtain ⟨before, after, hsplit⟩ :=
        List.append_of_mem (IntactPacketV1.affinityFor_eq_some.mp hfor)
      have hsorted := packet.affinities_sorted
      rw [hsplit] at hsorted
      obtain ⟨_, hafter, hbefore⟩ := List.pairwise_append.mp hsorted
      obtain ⟨hafter, _⟩ := List.pairwise_cons.mp hafter
      have hfound : p.facetIndex (p.facets.get index).id = some index :=
        wf.facetIndex_eq_some.mpr rfl
      rw [applyPacket, hsplit, List.foldl_append, List.foldl_cons,
        foldl_applyFacetAffinity_of_ne wf _ fun later hlater heq => ?_]
      · simp only [applyFacetAffinity, hfound, Function.update_self]
        rw [foldl_applyFacetAffinity_of_ne wf coverage fun earlier hearlier heq => ?_]
        have hlt := hbefore earlier hearlier _ (List.mem_cons_self ..)
        rw [heq, ReflOrd.compare_self] at hlt
        cases hlt
      · have hlt := hafter later hlater
        rw [heq, ReflOrd.compare_self] at hlt
        cases hlt

/-- A coverage after these packets, the last one first. -/
def CoversAll (p : SelectionProblemV1) (coverage : Coverage p.facets.length)
    (packets : List IntactPacketV1) : Prop :=
  ∀ index, (coverage index).Covers (p.cardinality index) (p.facetAffinities index packets)

theorem CoversAll.applyPacket (wf : p.WellFormed) {coverage : Coverage p.facets.length}
    {packets : List IntactPacketV1} (h : p.CoversAll coverage packets) (packet : IntactPacketV1) :
    p.CoversAll (p.applyPacket coverage packet) (packet :: packets) := by
  intro index
  rw [applyPacket_cell wf, facetAffinities, List.filterMap_cons]
  cases packet.affinityFor (p.facets.get index).id with
  | none => exact h index
  | some affinity => exact (h index).applyAffinity affinity

theorem CoversAll.foldl (wf : p.WellFormed) {coverage : Coverage p.facets.length}
    {packets : List IntactPacketV1} (h : p.CoversAll coverage packets)
    (later : List IntactPacketV1) :
    p.CoversAll (later.foldl p.applyPacket coverage) (later.reverse ++ packets) := by
  induction later generalizing coverage packets with
  | nil => exact h
  | cons packet rest ih =>
      rw [List.foldl_cons, List.reverse_cons, List.append_assoc]
      exact ih (h.applyPacket wf packet)

theorem CoversAll.value_eq {coverage : Coverage p.facets.length} {packets : List IntactPacketV1}
    (h : p.CoversAll coverage packets) : p.value coverage = p.topCoverage packets := by
  refine Finset.sum_congr rfl fun index _ => ?_
  rw [(h index).totalAffinity_eq]

/-! ## Lists of packets -/

theorem topCoverage_perm {xs ys : List IntactPacketV1} (h : xs.Perm ys) :
    p.topCoverage xs = p.topCoverage ys := by
  refine Finset.sum_congr rfl fun index _ => ?_
  exact congrArg _ (topSum_perm (h.filterMap _))

theorem topCoverage_le_append (ys xs : List IntactPacketV1) :
    p.topCoverage xs ≤ p.topCoverage (ys ++ xs) := by
  refine Finset.sum_le_sum fun index _ => Nat.mul_le_mul_left _ ?_
  rw [facetAffinities, facetAffinities, List.filterMap_append]
  exact topSum_le_append _ _ _

/-- Packets add less to more packets. -/
theorem topCoverage_submodular (zs ys xs : List IntactPacketV1) :
    p.topCoverage (zs ++ (ys ++ xs)) + p.topCoverage xs ≤
      p.topCoverage (zs ++ xs) + p.topCoverage (ys ++ xs) := by
  rw [topCoverage, topCoverage, topCoverage, topCoverage, ← Finset.sum_add_distrib,
    ← Finset.sum_add_distrib]
  refine Finset.sum_le_sum fun index _ => ?_
  rw [← Nat.mul_add, ← Nat.mul_add]
  refine Nat.mul_le_mul_left _ ?_
  simp only [facetAffinities, List.filterMap_append]
  exact topSum_submodular _ _ _ _

/-- The objective of packets applied in any order. -/
theorem value_applyPackets (wf : p.WellFormed) (packets : List IntactPacketV1) :
    p.value (packets.foldl p.applyPacket fun _ => .empty) = p.topCoverage packets := by
  have hempty : p.CoversAll (fun _ => .empty) [] := fun index =>
    FacetCoverageV1.covers_empty (p.cardinality index)
  rw [(hempty.foldl wf packets).value_eq, List.append_nil]
  exact topCoverage_perm packets.reverse_perm

/-- The mandatory packets, in their order. -/
def mandatoryPackets (p : SelectionProblemV1) : List IntactPacketV1 :=
  p.mandatoryIndices.map fun index => p.packets.get index

theorem mandatoryCoverage_eq :
    p.mandatoryCoverage = p.mandatoryPackets.foldl p.applyPacket fun _ => .empty := by
  rw [mandatoryCoverage, mandatoryPackets, mandatoryIndices, List.foldl_map, List.foldl_filterMap]
  congr 1
  funext coverage entry
  cases p.packetIndex entry.packetId <;> rfl

theorem value_mandatoryCoverage (wf : p.WellFormed) :
    p.value p.mandatoryCoverage = p.topCoverage p.mandatoryPackets := by
  rw [mandatoryCoverage_eq, value_applyPackets wf]

theorem value_applyItems (wf : p.WellFormed) (items : List (Fin p.packets.length)) :
    p.value (p.applyItems p.mandatoryCoverage items) =
      p.topCoverage (p.mandatoryPackets ++ items.map fun index => p.packets.get index) := by
  rw [applyItems, mandatoryCoverage_eq, ← List.foldl_append, value_applyPackets wf]

end SelectionProblemV1

end Evidentrail
