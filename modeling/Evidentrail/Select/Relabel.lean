import Evidentrail.Select.InputOrder
import Evidentrail.Select.Scan

/-!
# The labels of the packets do not matter

A packet's id is a label that the caller chose. Under an injective renaming of
the ids, applied to packets, mandatory entries and priorities alike, `new` makes
the renamed problem, and every step of the selection takes what it took before:
the comparisons see costs, gains and positions, and positions come from the
events.
-/

namespace Evidentrail

open Rust Std Slice Argmax

/-! ## Renaming -/

section Renaming

variable (r : PacketIdV1 → PacketIdV1)

def IntactPacketV1.rename (packet : IntactPacketV1) : IntactPacketV1 :=
  { packet with id := r packet.id }

def MandatoryPacketV1.rename (entry : MandatoryPacketV1) : MandatoryPacketV1 :=
  { entry with packetId := r entry.packetId }

def OptionalPacketPriorityV1.rename (priority : OptionalPacketPriorityV1) :
    OptionalPacketPriorityV1 :=
  { priority with packetId := r priority.packetId }

def SelectedPacketV1.rename (selected : SelectedPacketV1) : SelectedPacketV1 :=
  { selected with packet := selected.packet.rename r }

/-- The same events, costs and gains in the same order. -/
def SelectionDecisionV1.rename : SelectionDecisionV1 → SelectionDecisionV1
  | .selected s => .selected { s with packets := s.packets.map (SelectedPacketV1.rename r) }
  | .needsMore more => .needsMore more

abbrev SelectionProblemV1.rename (p : SelectionProblemV1) : SelectionProblemV1 :=
  { p with
    packets := p.packets.map (IntactPacketV1.rename r)
    mandatory := p.mandatory.map (MandatoryPacketV1.rename r) }

@[simp] theorem IntactPacketV1.cost_rename (packet : IntactPacketV1) :
    (packet.rename r).cost = packet.cost := rfl

@[simp] theorem IntactPacketV1.affinityFor_rename (packet : IntactPacketV1) (id : FacetIdV1) :
    (packet.rename r).affinityFor id = packet.affinityFor id := by
  simp only [affinityFor, rename]
  cases binarySearchByKey FacetAffinityV1.facetId id packet.affinities <;> rfl

@[simp] theorem MandatoryPacketV1.packetId_rename (entry : MandatoryPacketV1) :
    (entry.rename r).packetId = r entry.packetId := rfl

@[simp] theorem MandatoryPacketV1.validatedIdentifierFacetId_rename (entry : MandatoryPacketV1) :
    (entry.rename r).validatedIdentifierFacetId = entry.validatedIdentifierFacetId := rfl

end Renaming

/-- A candidate for a packet at another place. -/
def ScoredCandidate.move {n m : Nat} (f : Fin n → Fin m) (c : ScoredCandidate n) :
    ScoredCandidate m :=
  { c with packetIndex := f c.packetIndex }

def CandidatePlan.move {n m : Nat} (f : Fin n → Fin m) (plan : CandidatePlan n) :
    CandidatePlan m :=
  { plan with items := plan.items.map f }

namespace SelectionProblemV1

variable {r : PacketIdV1 → PacketIdV1}

/-! ## The checks of `new` -/

section Construction

variable {facets : List ProductionFacetV1} {packets : List IntactPacketV1}
  {mandatory : List MandatoryPacketV1}

theorem mem_packetPositions {packets : List IntactPacketV1} (i : Fin packets.length) :
    (packets.get i).id ∈ packetPositions packets := by
  have hfold : ∀ (indices : List (Fin packets.length))
      (m : ExtTreeMap PacketIdV1 (Fin packets.length)) (k : PacketIdV1),
      (k ∈ m ∨ ∃ i ∈ indices, (packets.get i).id = k) →
        k ∈ indices.foldl (fun m i => m.insert (packets.get i).id i) m := by
    intro indices
    induction indices with
    | nil =>
        rintro m k (hk | ⟨_, hmem, _⟩)
        · exact hk
        · cases hmem
    | cons first rest ih =>
        intro m k hk
        refine ih _ k ?_
        rcases hk with hk | ⟨i, hmem, hid⟩
        · exact .inl (mem_insert.mpr (.inr hk))
        · rcases List.mem_cons.mp hmem with rfl | hmem
          · exact .inl (mem_insert.mpr (.inl hid))
          · exact .inr ⟨i, hmem, hid⟩
  exact hfold _ ∅ _ (.inr ⟨i, List.mem_finRange i, rfl⟩)

/-- Unique ids have one position each. -/
theorem packetPositions_eq_some {packets : List IntactPacketV1}
    (h : (packets.map IntactPacketV1.id).Nodup) {id : PacketIdV1} {i : Fin packets.length} :
    (packetPositions packets)[id]? = some i ↔ (packets.get i).id = id := by
  refine ⟨getElem?_packetPositions, ?_⟩
  rintro rfl
  have hmem := mem_packetPositions i
  rw [ExtTreeMap.mem_iff_isSome_getElem?, Option.isSome_iff_exists] at hmem
  obtain ⟨j, hj⟩ := hmem
  have hid := getElem?_packetPositions hj
  have hij : j = i := by
    have hmap : (packets.map IntactPacketV1.id)[j.val]? =
        (packets.map IntactPacketV1.id)[i.val]? := by
      simpa using hid
    exact Fin.ext ((List.getElem?_inj (by simp) h).mp hmap)
  rw [hj, hij]

theorem nodup_map_rename (hr : Function.Injective r)
    (h : (packets.map IntactPacketV1.id).Nodup) :
    ((packets.map (IntactPacketV1.rename r)).map IntactPacketV1.id).Nodup := by
  have hmap := h.map hr
  rw [List.map_map] at hmap ⊢
  exact hmap

/-- The place of a packet among the renamed ones. -/
abbrev place (packets : List IntactPacketV1) (r : PacketIdV1 → PacketIdV1) :
    Fin packets.length → Fin (packets.map (IntactPacketV1.rename r)).length :=
  Fin.cast (List.length_map _).symm

theorem getElem_place (i : Fin packets.length) :
    (packets.map (IntactPacketV1.rename r)).get (place packets r i) = (packets.get i).rename r :=
  List.getElem_map ..

theorem exists_place (j : Fin (packets.map (IntactPacketV1.rename r)).length) :
    ∃ i, place packets r i = j :=
  ⟨Fin.cast (List.length_map _) j, rfl⟩

theorem place_inj {i j : Fin packets.length} (h : place packets r i = place packets r j) : i = j :=
  Fin.cast_injective _ h

theorem packetPositions_rename (hr : Function.Injective r)
    (h : (packets.map IntactPacketV1.id).Nodup) (id : PacketIdV1) :
    (packetPositions (packets.map (IntactPacketV1.rename r)))[r id]? =
      (packetPositions packets)[id]?.map (place packets r) := by
  refine Option.ext fun j => ?_
  obtain ⟨i, rfl⟩ := exists_place j
  rw [packetPositions_eq_some (nodup_map_rename hr h), getElem_place, Option.map_eq_some_iff]
  constructor
  · intro hid
    exact ⟨i, (packetPositions_eq_some h).mpr (hr hid), rfl⟩
  · rintro ⟨j, hj, hplace⟩
    rw [← place_inj hplace]
    exact congrArg r ((packetPositions_eq_some h).mp hj)

theorem admitPackets_rename {costModel : ComposableCostModelV1} (s : ExtTreeSet EventId)
    (cost : Nat) : admitPackets facets costModel s cost (packets.map (IntactPacketV1.rename r)) =
      admitPackets facets costModel s cost packets := by
  induction packets generalizing s cost with
  | nil => rfl
  | cons packet rest ih =>
      simp only [List.map_cons, admitPackets, ih]
      rfl

theorem admitMandatoryEntry_rename (hr : Function.Injective r)
    (h : (packets.map IntactPacketV1.id).Nodup) (entry : MandatoryPacketV1) :
    admitMandatoryEntry facets (packets.map (IntactPacketV1.rename r)) (entry.rename r) =
      admitMandatoryEntry facets packets entry := by
  have hposition := packetPositions_rename hr h entry.packetId
  unfold admitMandatoryEntry
  rw [MandatoryPacketV1.packetId_rename, hposition]
  cases (packetPositions packets)[entry.packetId]? with
  | none => rfl
  | some i => simp only [Option.map_some, getElem_place,
      MandatoryPacketV1.validatedIdentifierFacetId_rename, IntactPacketV1.affinityFor_rename,
      IntactPacketV1.cost_rename]

theorem mandatoryPosition_rename (hr : Function.Injective r)
    (h : (packets.map IntactPacketV1.id).Nodup) (entry : MandatoryPacketV1) :
    mandatoryPosition (packets.map (IntactPacketV1.rename r)) (entry.rename r) =
      mandatoryPosition packets entry := by
  rw [mandatoryPosition, MandatoryPacketV1.packetId_rename, packetPositions_rename hr h,
    mandatoryPosition, Option.map_map]
  rfl

theorem MandatoryFits.rename (hr : Function.Injective r)
    (hids : (packets.map IntactPacketV1.id).Nodup)
    (h : MandatoryFits facets packets ∅ 0 mandatory) :
    MandatoryFits facets (packets.map (IntactPacketV1.rename r)) ∅ 0
      (mandatory.map (MandatoryPacketV1.rename r)) where
  nodup := by
    have hmap := h.nodup.map hr
    rw [List.map_map] at hmap ⊢
    exact hmap
  fresh := by simp
  passes := by
    intro entry hentry
    obtain ⟨old, hold, rfl⟩ := List.mem_map.mp hentry
    rw [admitMandatoryEntry_rename hr hids]
    exact h.passes old hold
  sum_lt := by
    have hcost : (entryCost facets (packets.map (IntactPacketV1.rename r))) ∘
        MandatoryPacketV1.rename r = entryCost facets packets := by
      funext entry
      rw [Function.comp_apply, entryCost, admitMandatoryEntry_rename hr hids, entryCost]
    rw [List.map_map, hcost]
    exact h.sum_lt

/-- The renamed inputs make the renamed problem. -/
theorem new_rename (hr : Function.Injective r) {totalTokenBudget : TotalTokenBudgetV1}
    {reservedFixedOverhead : ReservedFixedOverheadV1} {p : SelectionProblemV1}
    (h : new facets packets mandatory totalTokenBudget reservedFixedOverhead = .ok p) :
    new facets (packets.map (IntactPacketV1.rename r))
      (mandatory.map (MandatoryPacketV1.rename r)) totalTokenBudget reservedFixedOverhead =
        .ok (p.rename r) := by
  obtain ⟨cost, haccepts, rfl⟩ := new_eq_ok.mp h
  have hsorted : sortByKey IntactPacketV1.eventIds (packets.map (IntactPacketV1.rename r)) =
      (sortByKey IntactPacketV1.eventIds packets).map (IntactPacketV1.rename r) :=
    (map_sortByKey fun _ _ => rfl).symm
  have hids : ((sortByKey IntactPacketV1.eventIds packets).map IntactPacketV1.id).Nodup :=
    ((perm_sortByKey _ packets).map _).nodup_iff.mpr haccepts.ids_nodup
  obtain ⟨_, hcost⟩ := (admitMandatory_iff (Nat.two_pow_pos 64)).mp haccepts.mandatory_pass
  have hfits := haccepts.mandatoryFits.rename hr hids
  refine new_eq_ok.mpr ⟨cost, ?_, ?_⟩
  · exact {
      facets_le := haccepts.facets_le
      facets_distinct := haccepts.facets_distinct
      bound := haccepts.bound
      packets_le := by rw [List.length_map]; exact haccepts.packets_le
      ids_nodup := nodup_map_rename hr haccepts.ids_nodup
      packets_pass := by rw [hsorted, admitPackets_rename]; exact haccepts.packets_pass
      mandatory_le := by rw [List.length_map]; exact haccepts.mandatory_le
      mandatory_pass := by
        rw [hsorted]
        refine (admitMandatory_iff (Nat.two_pow_pos 64)).mpr ⟨hfits, ?_⟩
        have hsame : (entryCost (sortByKey ProductionFacetV1.id facets)
            ((sortByKey IntactPacketV1.eventIds packets).map (IntactPacketV1.rename r))) ∘
              MandatoryPacketV1.rename r = entryCost (sortByKey ProductionFacetV1.id facets)
                (sortByKey IntactPacketV1.eventIds packets) := by
          funext entry
          rw [Function.comp_apply, entryCost, admitMandatoryEntry_rename hr hids, entryCost]
        rw [List.map_map, hsame]
        exact hcost }
  · have hmandatory : sortByKey (mandatoryPosition
        ((sortByKey IntactPacketV1.eventIds packets).map (IntactPacketV1.rename r)))
          (mandatory.map (MandatoryPacketV1.rename r)) =
        (sortByKey (mandatoryPosition (sortByKey IntactPacketV1.eventIds packets)) mandatory).map
          (MandatoryPacketV1.rename r) :=
      (map_sortByKey fun entry _ => mandatoryPosition_rename hr hids entry).symm
    simp only [sortedProblem, rename, hsorted, hmandatory]

end Construction

end SelectionProblemV1

end Evidentrail
