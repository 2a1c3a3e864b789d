import Evidentrail.Select.Sound

/-!
# The order of the input does not matter

`new` sorts its facets by id, its packets by their events and its mandatory
entries by their packet. The checks make each of these keys unique, so what is
sorted does not depend on the order it came in, and no check does either
(`new_perm`).
-/

namespace Evidentrail

open Rust Std Slice

namespace SelectionProblemV1

/-! ## Mandatory entries -/

/-- What an entry adds to the mandatory cost. -/
def entryCost (facets : List ProductionFacetV1) (packets : List IntactPacketV1)
    (entry : MandatoryPacketV1) : Nat :=
  (admitMandatoryEntry facets packets entry).toOption.getD 0

/-- Entries for different packets that all pass, and a sum that fits. -/
structure MandatoryFits (facets : List ProductionFacetV1) (packets : List IntactPacketV1)
    (seen : ExtTreeSet PacketIdV1) (cost : Nat) (entries : List MandatoryPacketV1) : Prop where
  nodup : (entries.map MandatoryPacketV1.packetId).Nodup
  fresh : ∀ entry ∈ entries, entry.packetId ∉ seen
  passes : ∀ entry ∈ entries, ∃ c, admitMandatoryEntry facets packets entry = .ok c
  sum_lt : cost + (entries.map (entryCost facets packets)).sum < u64Bound

section Mandatory

variable {facets : List ProductionFacetV1} {packets : List IntactPacketV1}
  {entries entries' : List MandatoryPacketV1} {seen : ExtTreeSet PacketIdV1} {cost : Nat}

theorem entryCost_eq {entry : MandatoryPacketV1} {c : Nat}
    (h : admitMandatoryEntry facets packets entry = .ok c) :
    entryCost facets packets entry = c := by
  rw [entryCost, h]
  rfl

theorem admitMandatory_iff (hcost : cost < u64Bound) {n : Nat} :
    admitMandatory facets packets seen cost entries = .ok n ↔
      MandatoryFits facets packets seen cost entries ∧
        n = cost + (entries.map (entryCost facets packets)).sum := by
  induction entries generalizing seen cost with
  | nil =>
      rw [admitMandatory, Except.ok.injEq]
      constructor
      · rintro rfl
        exact ⟨⟨by simp, by simp, by simp, by simpa using hcost⟩, rfl⟩
      · rintro ⟨_, rfl⟩
        rfl
  | cons entry rest ih =>
      constructor
      · intro h
        simp only [admitMandatory] at h
        cases hnew : insertNew seen entry.packetId with
        | none => simp [hnew] at h
        | some seen' =>
            cases hentry : admitMandatoryEntry facets packets entry with
            | error error => simp [hnew, hentry] at h
            | ok c =>
                cases hadd : checkedAdd cost c with
                | none => simp [hnew, hentry, hadd] at h
                | some cost' =>
                    simp only [hnew, hentry, hadd] at h
                    obtain ⟨hfresh, rfl⟩ := insertNew_eq_some.mp hnew
                    obtain ⟨hlt, rfl⟩ := checkedAdd_eq_some.mp hadd
                    obtain ⟨⟨hnodup, hrest, hpasses, hsum⟩, rfl⟩ := (ih hlt).mp h
                    rw [List.map_cons, List.sum_cons, entryCost_eq hentry]
                    refine ⟨⟨List.nodup_cons.mpr ⟨fun hmem => ?_, hnodup⟩, ?_, ?_, ?_⟩, by omega⟩
                    · obtain ⟨other, hother, heq⟩ := List.mem_map.mp hmem
                      exact hrest other hother (mem_insert_set.mpr (.inl heq.symm))
                    · exact List.forall_mem_cons.mpr ⟨hfresh, fun other hother hseen =>
                        hrest other hother (mem_insert_set.mpr (.inr hseen))⟩
                    · exact List.forall_mem_cons.mpr ⟨⟨c, hentry⟩, hpasses⟩
                    · rw [List.map_cons, List.sum_cons, entryCost_eq hentry]
                      omega
      · rintro ⟨⟨hnodup, hfresh, hpasses, hsum⟩, rfl⟩
        obtain ⟨hnotMem, hnodup⟩ := List.nodup_cons.mp hnodup
        obtain ⟨hhead, hfresh⟩ := List.forall_mem_cons.mp hfresh
        obtain ⟨⟨c, hentry⟩, hpasses⟩ := List.forall_mem_cons.mp hpasses
        rw [List.map_cons, List.sum_cons, entryCost_eq hentry] at hsum
        have hlt : cost + c < u64Bound := by omega
        have hseen : ∀ other ∈ rest, other.packetId ∉ seen.insert entry.packetId := by
          intro other hother hinsert
          rcases mem_insert_set.mp hinsert with heq | hold
          · exact hnotMem (List.mem_map.mpr ⟨other, hother, heq.symm⟩)
          · exact hfresh other hother hold
        simp only [admitMandatory, insertNew_eq_some.mpr ⟨hhead, rfl⟩, hentry,
          checkedAdd_of_lt hlt]
        refine (ih hlt).mpr ⟨⟨hnodup, hseen, hpasses, by omega⟩, ?_⟩
        rw [List.map_cons, List.sum_cons, entryCost_eq hentry, Nat.add_assoc]

theorem MandatoryFits.perm (h : MandatoryFits facets packets seen cost entries)
    (hperm : entries.Perm entries') : MandatoryFits facets packets seen cost entries' where
  nodup := (hperm.map _).nodup_iff.mp h.nodup
  fresh := fun entry hentry => h.fresh entry (hperm.mem_iff.mpr hentry)
  passes := fun entry hentry => h.passes entry (hperm.mem_iff.mpr hentry)
  sum_lt := by
    rw [← (hperm.map _).sum_nat]
    exact h.sum_lt

theorem admitMandatory_perm (hcost : cost < u64Bound) (hperm : entries.Perm entries') {n : Nat}
    (h : admitMandatory facets packets seen cost entries = .ok n) :
    admitMandatory facets packets seen cost entries' = .ok n := by
  obtain ⟨hfits, rfl⟩ := (admitMandatory_iff hcost).mp h
  rw [(hperm.map _).sum_nat]
  exact (admitMandatory_iff hcost).mpr ⟨hfits.perm hperm, rfl⟩

end Mandatory

/-! ## Unique keys -/

/-- Packets that share no event have different event lists. -/
theorem nodup_map_eventIds {packets : List IntactPacketV1}
    (h : (packets.flatMap IntactPacketV1.eventIds).Nodup) :
    (packets.map IntactPacketV1.eventIds).Nodup := by
  induction packets with
  | nil => exact List.nodup_nil
  | cons packet rest ih =>
      rw [List.flatMap_cons, List.nodup_append] at h
      obtain ⟨_, hrest, hdisjoint⟩ := h
      rw [List.map_cons, List.nodup_cons]
      refine ⟨fun hmem => ?_, ih hrest⟩
      obtain ⟨other, hother, heq⟩ := List.mem_map.mp hmem
      obtain ⟨event, hevent⟩ := List.exists_mem_of_ne_nil _ packet.eventIds_ne
      refine hdisjoint event hevent event ?_ rfl
      rw [← heq] at hevent
      exact List.mem_flatMap.mpr ⟨other, hother, hevent⟩

/-- Entries for different packets stand at different positions. -/
theorem nodup_map_mandatoryPosition {facets : List ProductionFacetV1}
    {packets : List IntactPacketV1} {entries : List MandatoryPacketV1}
    (hnodup : (entries.map MandatoryPacketV1.packetId).Nodup)
    (hpasses : ∀ entry ∈ entries, ∃ c, admitMandatoryEntry facets packets entry = .ok c) :
    (entries.map (mandatoryPosition packets)).Nodup := by
  refine (List.nodup_map_iff_inj_on (List.Nodup.of_map _ hnodup)).mpr ?_
  have hposition : ∀ entry ∈ entries, ∃ index : Fin packets.length,
      mandatoryPosition packets entry = index.val ∧ (packets.get index).id = entry.packetId := by
    intro entry hentry
    obtain ⟨c, hc⟩ := hpasses entry hentry
    rw [admitMandatoryEntry] at hc
    cases hfound : (packetPositions packets)[entry.packetId]? with
    | none => simp [hfound] at hc
    | some index =>
        refine ⟨index, ?_, getElem?_packetPositions hfound⟩
        rw [mandatoryPosition, hfound]
        rfl
  intro a ha b hb hab
  obtain ⟨i, hi, hia⟩ := hposition a ha
  obtain ⟨j, hj, hjb⟩ := hposition b hb
  obtain rfl : i = j := Fin.ext (hi.symm.trans (hab.trans hj))
  exact List.inj_on_of_nodup_map hnodup ha hb (hia.symm.trans hjb)

/-! ## The checks of `new` -/

/-- The checks of `new`, each on what it looks at, and the mandatory cost. -/
structure Accepts (facets : List ProductionFacetV1) (packets : List IntactPacketV1)
    (mandatory : List MandatoryPacketV1) (costModel : ComposableCostModelV1) (cost : Nat) :
    Prop where
  facets_le : ¬facets.length > maxSelectionFacetsV1
  facets_distinct :
    ¬hasEqualNeighbours ProductionFacetV1.id (sortByKey ProductionFacetV1.id facets) = true
  bound : ∃ n, objectiveBound (sortByKey ProductionFacetV1.id facets) = .ok n
  packets_le : ¬packets.length > maxSelectionPacketsV1
  ids_nodup : (packets.map IntactPacketV1.id).Nodup
  packets_pass : admitPackets (sortByKey ProductionFacetV1.id facets) costModel ∅ 0
    (sortByKey IntactPacketV1.eventIds packets) = .ok ()
  mandatory_le : ¬mandatory.length > maxMandatoryPacketsV1
  mandatory_pass : admitMandatory (sortByKey ProductionFacetV1.id facets)
    (sortByKey IntactPacketV1.eventIds packets) ∅ 0 mandatory = .ok cost

section Checks

variable {facets facets' : List ProductionFacetV1} {packets packets' : List IntactPacketV1}
  {mandatory mandatory' : List MandatoryPacketV1} {totalTokenBudget : TotalTokenBudgetV1}
  {reservedFixedOverhead : ReservedFixedOverheadV1} {p : SelectionProblemV1}

/-- The problem of sorted inputs. -/
def sortedProblem (facets : List ProductionFacetV1) (packets : List IntactPacketV1)
    (mandatory : List MandatoryPacketV1) (totalTokenBudget : TotalTokenBudgetV1)
    (reservedFixedOverhead : ReservedFixedOverheadV1) (cost : Nat) : SelectionProblemV1 where
  facets := sortByKey ProductionFacetV1.id facets
  packets := sortByKey IntactPacketV1.eventIds packets
  mandatory := sortByKey (mandatoryPosition (sortByKey IntactPacketV1.eventIds packets)) mandatory
  totalTokenBudget := totalTokenBudget
  reservedFixedOverhead := reservedFixedOverhead
  mandatoryCost := cost

theorem new_eq_ok :
    new facets packets mandatory totalTokenBudget reservedFixedOverhead = .ok p ↔
      ∃ cost, Accepts facets packets mandatory reservedFixedOverhead.costModel cost ∧
        p = sortedProblem facets packets mandatory totalTokenBudget reservedFixedOverhead cost := by
  constructor
  · intro h
    simp only [new] at h
    split at h
    · cases h
    rename_i hfacetCap
    split at h
    · cases h
    rename_i hneighbours
    obtain ⟨bound, hbound, h⟩ := except_bind_eq_ok.mp h
    split at h
    · cases h
    rename_i hpacketCap
    obtain ⟨seen, hseen, h⟩ := except_bind_eq_ok.mp h
    obtain ⟨_, hadmitted, h⟩ := except_bind_eq_ok.mp h
    split at h
    · cases h
    rename_i hmandatoryCap
    obtain ⟨cost, hcost, h⟩ := except_bind_eq_ok.mp h
    cases h
    exact ⟨cost, ⟨hfacetCap, hneighbours, ⟨bound, hbound⟩, hpacketCap,
      (insertAllNew_eq_ok hseen).1, hadmitted, hmandatoryCap, hcost⟩, rfl⟩
  · rintro ⟨cost, ⟨hfacetCap, hneighbours, ⟨bound, hbound⟩, hpacketCap, hids, hadmitted,
      hmandatoryCap, hcost⟩, rfl⟩
    obtain ⟨seen, hseen⟩ := insertAllNew_ok
      SelectionProblemConstructionError.duplicatePacketId ∅ hids (by simp)
    simp only [new, if_neg hfacetCap, hneighbours, hbound, except_bind_ok, if_neg hpacketCap, hseen,
      hadmitted, if_neg hmandatoryCap, hcost]
    rfl

theorem Accepts.facetIds_nodup {costModel : ComposableCostModelV1} {cost : Nat}
    (h : Accepts facets packets mandatory costModel cost) :
    (facets.map ProductionFacetV1.id).Nodup := by
  have hsorted := strictlySorted_sortByKey ProductionFacetV1.id
    (Bool.eq_false_iff.mpr h.facets_distinct)
  exact ((perm_sortByKey _ facets).map _).nodup_iff.mp hsorted.nodup_map

theorem Accepts.eventIds_nodup {costModel : ComposableCostModelV1} {cost : Nat}
    (h : Accepts facets packets mandatory costModel cost) :
    (packets.map IntactPacketV1.eventIds).Nodup := by
  have hsorted := strictlySorted_sortByKey ProductionFacetV1.id
    (Bool.eq_false_iff.mpr h.facets_distinct)
  obtain ⟨_, _, hevents, _⟩ := admitPackets_eq_ok hsorted (Nat.two_pow_pos 64) h.packets_pass
  exact ((perm_sortByKey _ packets).map _).nodup_iff.mp (nodup_map_eventIds hevents)

theorem Accepts.mandatoryFits {costModel : ComposableCostModelV1} {cost : Nat}
    (h : Accepts facets packets mandatory costModel cost) :
    MandatoryFits (sortByKey ProductionFacetV1.id facets)
      (sortByKey IntactPacketV1.eventIds packets) ∅ 0 mandatory :=
  ((admitMandatory_iff (Nat.two_pow_pos 64)).mp h.mandatory_pass).1

/-! ## The order of the input -/

/-- The same problem comes of the same facets, packets and entries in any order. -/
theorem new_perm (hfacets : facets.Perm facets') (hpackets : packets.Perm packets')
    (hmandatory : mandatory.Perm mandatory')
    (h : new facets packets mandatory totalTokenBudget reservedFixedOverhead = .ok p) :
    new facets' packets' mandatory' totalTokenBudget reservedFixedOverhead = .ok p := by
  obtain ⟨cost, haccepts, rfl⟩ := new_eq_ok.mp h
  have hsameFacets := sortByKey_perm ProductionFacetV1.id haccepts.facetIds_nodup hfacets
  have hsamePackets := sortByKey_perm IntactPacketV1.eventIds haccepts.eventIds_nodup hpackets
  have hsameMandatory := sortByKey_perm
    (mandatoryPosition (sortByKey IntactPacketV1.eventIds packets))
    (nodup_map_mandatoryPosition haccepts.mandatoryFits.nodup haccepts.mandatoryFits.passes)
    hmandatory
  refine new_eq_ok.mpr ⟨cost, ?_, ?_⟩
  · exact {
      facets_le := by rw [← hfacets.length_eq]; exact haccepts.facets_le
      facets_distinct := by rw [← hsameFacets]; exact haccepts.facets_distinct
      bound := by rw [← hsameFacets]; exact haccepts.bound
      packets_le := by rw [← hpackets.length_eq]; exact haccepts.packets_le
      ids_nodup := (hpackets.map _).nodup_iff.mp haccepts.ids_nodup
      packets_pass := by rw [← hsameFacets, ← hsamePackets]; exact haccepts.packets_pass
      mandatory_le := by rw [← hmandatory.length_eq]; exact haccepts.mandatory_le
      mandatory_pass := by
        rw [← hsameFacets, ← hsamePackets]
        exact admitMandatory_perm (Nat.two_pow_pos 64) hmandatory haccepts.mandatory_pass }
  · rw [sortedProblem, sortedProblem, ← hsameFacets, ← hsamePackets, hsameMandatory]

end Checks

end SelectionProblemV1

end Evidentrail
