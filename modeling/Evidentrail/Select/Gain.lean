import Evidentrail.Select.TopCoverage

/-!
# The gain of a set of packets

`normalized_gain` walks a set of optional packets in their canonical order and
adds up marginal gains. Each gain is the rise of the objective, so the sum
telescopes to what the set adds to the mandatory packets, whatever the order.
The gain that a selection reports is that of the optional packets in it.
-/

namespace Evidentrail

open Rust Std Slice TopSum

/-- Failure while evaluating an optional packet set. -/
inductive ObjectiveEvaluationError where
  | unknownPacket
  | duplicatePacket
  | mandatoryPacketIncluded
  | arithmeticInvariantViolation
deriving DecidableEq

namespace SelectionProblemV1

variable (p : SelectionProblemV1)

/-! ## The evaluation -/

def admitOptionalIds (seen : ExtTreeSet PacketIdV1) :
    List PacketIdV1 → Except ObjectiveEvaluationError (List (Fin p.packets.length))
  | [] => .ok []
  | packetId :: rest =>
      match insertNew seen packetId with
      | none => .error .duplicatePacket
      | some seen =>
          if p.isMandatory packetId then .error .mandatoryPacketIncluded
          else
            match p.packetIndex packetId with
            | none => .error .unknownPacket
            | some index =>
                match admitOptionalIds seen rest with
                | .error error => .error error
                | .ok indices => .ok (index :: indices)

/-- The loop over the sorted indices. -/
def sumGains (coverage : Coverage p.facets.length) (totalGain : Nat) :
    List (Fin p.packets.length) → Except (Fault ObjectiveEvaluationError) Nat
  | [] => .ok totalGain
  | index :: rest => do
      let marginal ← (p.marginalScore coverage (p.packets.get index)).mapError
        (Fault.mapErr fun _ => .arithmeticInvariantViolation)
      let totalGain ← okOr (.err .arithmeticInvariantViolation)
        (checkedAdd totalGain marginal.gain)
      sumGains (p.applyPacket coverage (p.packets.get index)) totalGain rest

def normalizedGain (optionalPacketIds : List PacketIdV1) :
    Except (Fault ObjectiveEvaluationError) Nat :=
  match p.admitOptionalIds ∅ optionalPacketIds with
  | .error error => .error (.err error)
  | .ok indices => p.sumGains p.mandatoryCoverage 0 (sortByKey Fin.val indices)

/-- The packets of a selection that nothing forced. -/
def optionalPacketIds (s : SelectionV1) : List PacketIdV1 :=
  (s.packets.map fun selected => selected.packet.id).filter fun id => !p.isMandatory id

/-! ## The same as a sum of largest affinities -/

/-- The packets with these ids, in their order. -/
def packetsOf (packetIds : List PacketIdV1) : List IntactPacketV1 :=
  packetIds.filterMap fun packetId => (p.packetIndex packetId).map fun index => p.packets.get index

/-- For each facet, its weight times what the packets add to the sum of its
largest affinities. -/
def facilityGain (packetIds : List PacketIdV1) : Nat :=
  ∑ index, (p.facets.get index).weight.micros *
    (topSum (p.cardinality index).count
        (p.facetAffinities index (p.mandatoryPackets ++ p.packetsOf packetIds)) -
      topSum (p.cardinality index).count (p.facetAffinities index p.mandatoryPackets))

/-- Packets of the problem, none of them mandatory and none twice. -/
structure OptionalSet (packetIds : List PacketIdV1) : Prop where
  nodup : packetIds.Nodup
  optional : ∀ id ∈ packetIds, p.isMandatory id = false
  known : ∀ id ∈ packetIds, ∃ packet ∈ p.packets, packet.id = id

variable {p}

theorem facilityGain_add (packetIds : List PacketIdV1) :
    p.facilityGain packetIds + p.topCoverage p.mandatoryPackets =
      p.topCoverage (p.mandatoryPackets ++ p.packetsOf packetIds) := by
  rw [facilityGain, topCoverage, topCoverage, ← Finset.sum_add_distrib]
  refine Finset.sum_congr rfl fun index _ => ?_
  have hle : topSum (p.cardinality index).count (p.facetAffinities index p.mandatoryPackets) ≤
      topSum (p.cardinality index).count
        (p.facetAffinities index (p.mandatoryPackets ++ p.packetsOf packetIds)) := by
    rw [facetAffinities, facetAffinities, List.filterMap_append,
      topSum_perm List.perm_append_comm]
    exact topSum_le_append _ _ _
  rw [← Nat.mul_add, Nat.sub_add_cancel hle]

/-! ## What the loops compute -/

theorem admitOptionalIds_eq_ok (wf : p.WellFormed) {packetIds : List PacketIdV1}
    {seen : ExtTreeSet PacketIdV1} {indices : List (Fin p.packets.length)}
    (h : p.admitOptionalIds seen packetIds = .ok indices) :
    p.OptionalSet packetIds ∧ (∀ id ∈ packetIds, id ∉ seen) ∧
      indices.map (fun index => p.packets.get index) = p.packetsOf packetIds := by
  induction packetIds generalizing seen indices with
  | nil =>
      cases h
      exact ⟨⟨List.nodup_nil, by simp, by simp⟩, by simp, rfl⟩
  | cons packetId rest ih =>
      simp only [admitOptionalIds] at h
      cases hnew : insertNew seen packetId with
      | none => simp [hnew] at h
      | some seen' =>
          obtain ⟨hfresh, rfl⟩ := insertNew_eq_some.mp hnew
          simp only [hnew] at h
          split at h
          · cases h
          · rename_i hoptional
            split at h
            · cases h
            · rename_i index hindex
              split at h
              · cases h
              · rename_i later hlater
                cases h
                obtain ⟨hset, hunseen, hmap⟩ := ih hlater
                have hid := wf.packetIndex_eq_some.mp hindex
                refine ⟨⟨List.nodup_cons.mpr ⟨fun hmem => ?_, hset.nodup⟩, ?_, ?_⟩, ?_, ?_⟩
                · exact hunseen packetId hmem (mem_insert_set.mpr (.inl rfl))
                · exact List.forall_mem_cons.mpr ⟨Bool.eq_false_iff.mpr hoptional, hset.optional⟩
                · exact List.forall_mem_cons.mpr ⟨⟨_, List.getElem_mem _, hid⟩, hset.known⟩
                · refine List.forall_mem_cons.mpr ⟨hfresh, fun id hmem hseen => ?_⟩
                  exact hunseen id hmem (mem_insert_set.mpr (.inr hseen))
                · rw [packetsOf, List.filterMap_cons, hindex, List.map_cons, hmap]
                  rfl

theorem admitOptionalIds_ok (wf : p.WellFormed) {packetIds : List PacketIdV1}
    (seen : ExtTreeSet PacketIdV1) (h : p.OptionalSet packetIds)
    (hseen : ∀ id ∈ packetIds, id ∉ seen) :
    ∃ indices, p.admitOptionalIds seen packetIds = .ok indices := by
  induction packetIds generalizing seen with
  | nil => exact ⟨[], rfl⟩
  | cons packetId rest ih =>
      obtain ⟨hfresh, hrest⟩ := List.forall_mem_cons.mp hseen
      obtain ⟨hnotMem, hnodup⟩ := List.nodup_cons.mp h.nodup
      obtain ⟨hoptional, hoptionals⟩ := List.forall_mem_cons.mp h.optional
      obtain ⟨⟨packet, hmem, hid⟩, hknown⟩ := List.forall_mem_cons.mp h.known
      obtain ⟨i, hi, rfl⟩ := List.mem_iff_getElem.mp hmem
      have hindex : p.packetIndex packetId = some ⟨i, hi⟩ := wf.packetIndex_eq_some.mpr hid
      obtain ⟨later, hlater⟩ := ih (seen.insert packetId)
        ⟨hnodup, hoptionals, hknown⟩ fun id hmem hinsert => by
          rcases mem_insert_set.mp hinsert with rfl | hold
          · exact hnotMem hmem
          · exact hrest id hmem hold
      refine ⟨⟨i, hi⟩ :: later, ?_⟩
      simp only [admitOptionalIds, insertNew_eq_some.mpr ⟨hfresh, rfl⟩, hoptional, hindex, hlater,
        Bool.false_eq_true, if_false]

theorem sumGains_spec (wf : p.WellFormed) {baseline : Coverage p.facets.length}
    (items : List (Fin p.packets.length)) {coverage : Coverage p.facets.length} {totalGain : Nat}
    (hgain : totalGain + p.value baseline = p.value coverage) :
    ∃ total, p.sumGains coverage totalGain items = .ok total ∧
      total + p.value baseline = p.value (p.applyItems coverage items) := by
  induction items generalizing coverage totalGain with
  | nil => exact ⟨totalGain, rfl, hgain⟩
  | cons index rest ih =>
      obtain ⟨marginal, hscore, hmarginal⟩ := wf.marginalScore_spec coverage
        (show p.packets.get index ∈ p.packets from List.getElem_mem _)
      have hvalue := wf.value_lt (p.applyPacket coverage (p.packets.get index))
      have hadd : checkedAdd totalGain marginal.gain = some (totalGain + marginal.gain) :=
        checkedAdd_of_lt (by omega)
      have hnext : totalGain + marginal.gain + p.value baseline =
          p.value (p.applyPacket coverage (p.packets.get index)) := by omega
      obtain ⟨total, hrest, htotal⟩ := ih hnext
      refine ⟨total, ?_, htotal⟩
      simp only [sumGains, hscore, Except.mapError, hadd, okOr_some, except_bind_ok, hrest]

/-- The gain of an optional set, and of nothing else. -/
theorem normalizedGain_eq_ok (wf : p.WellFormed) {packetIds : List PacketIdV1} {gain : Nat} :
    p.normalizedGain packetIds = .ok gain ↔
      p.OptionalSet packetIds ∧ gain = p.facilityGain packetIds := by
  have hvalue : ∀ {indices}, p.admitOptionalIds ∅ packetIds = .ok indices →
      p.normalizedGain packetIds = .ok (p.facilityGain packetIds) := by
    intro indices hadmitted
    obtain ⟨_, _, hmap⟩ := admitOptionalIds_eq_ok wf hadmitted
    obtain ⟨total, hsum, htotal⟩ := sumGains_spec wf (sortByKey Fin.val indices)
      (Nat.zero_add (p.value p.mandatoryCoverage))
    have hadd := facilityGain_add (p := p) packetIds
    rw [applyItems_perm (perm_sortByKey _ _), value_applyItems wf, hmap,
      value_mandatoryCoverage wf] at htotal
    obtain rfl : total = p.facilityGain packetIds := by omega
    simp only [normalizedGain, hadmitted, hsum]
  constructor
  · intro h
    cases hadmitted : p.admitOptionalIds ∅ packetIds with
    | error error => simp [normalizedGain, hadmitted] at h
    | ok indices =>
        rw [hvalue hadmitted] at h
        exact ⟨(admitOptionalIds_eq_ok wf hadmitted).1, (Except.ok.inj h).symm⟩
  · rintro ⟨hset, rfl⟩
    obtain ⟨indices, hadmitted⟩ := admitOptionalIds_ok wf ∅ hset (by simp)
    exact hvalue hadmitted

/-! ## Sets of packets -/

theorem packetsOf_append (xs ys : List PacketIdV1) :
    p.packetsOf (xs ++ ys) = p.packetsOf xs ++ p.packetsOf ys :=
  List.filterMap_append

theorem facilityGain_perm {xs ys : List PacketIdV1} (h : xs.Perm ys) :
    p.facilityGain xs = p.facilityGain ys := by
  have hperm : (p.mandatoryPackets ++ p.packetsOf xs).Perm (p.mandatoryPackets ++ p.packetsOf ys) :=
    (h.filterMap _).append_left _
  have hx := facilityGain_add (p := p) xs
  have hy := facilityGain_add (p := p) ys
  rw [topCoverage_perm hperm] at hx
  omega

/-- What is in a duplicate-free list can be moved to its end. -/
theorem perm_diff_append {xs ys : List PacketIdV1} (hxs : xs.Nodup) (hsub : xs ⊆ ys) :
    ∃ rest, ys.Perm (rest ++ xs) := by
  obtain ⟨l, hperm, hsublist⟩ := List.subperm_of_subset hxs hsub
  obtain ⟨rest, hrest⟩ := hsublist.exists_perm_append
  exact ⟨rest, (hrest.trans List.perm_append_comm).trans (hperm.append_left rest)⟩

theorem facilityGain_le_append (ys xs : List PacketIdV1) :
    p.facilityGain xs ≤ p.facilityGain (ys ++ xs) := by
  have hx := facilityGain_add (p := p) xs
  have hall := facilityGain_add (p := p) (ys ++ xs)
  have hle := topCoverage_le_append (p := p) (p.packetsOf ys)
    (p.mandatoryPackets ++ p.packetsOf xs)
  have hperm : (p.packetsOf ys ++ (p.mandatoryPackets ++ p.packetsOf xs)).Perm
      (p.mandatoryPackets ++ p.packetsOf (ys ++ xs)) := by
    rw [packetsOf_append, ← List.append_assoc, ← List.append_assoc]
    exact List.perm_append_comm.append_right _
  rw [topCoverage_perm hperm] at hle
  omega

/-- Further packets add less to a larger set. -/
theorem facilityGain_submodular (zs ys xs : List PacketIdV1) :
    p.facilityGain (zs ++ (ys ++ xs)) + p.facilityGain xs ≤
      p.facilityGain (zs ++ xs) + p.facilityGain (ys ++ xs) := by
  have hmove : ∀ l, p.facilityGain l + p.topCoverage p.mandatoryPackets =
      p.topCoverage (p.packetsOf l ++ p.mandatoryPackets) := by
    intro l
    rw [facilityGain_add, topCoverage_perm List.perm_append_comm]
  have h := topCoverage_submodular (p := p) (p.packetsOf zs) (p.packetsOf ys)
    (p.packetsOf xs ++ p.mandatoryPackets)
  simp only [← List.append_assoc, ← packetsOf_append, ← hmove] at h
  rw [← List.append_assoc]
  omega

/-! ## Reported gains -/

theorem Presents.optionalPacketIds_eq (wf : p.WellFormed) {items : List (Fin p.packets.length)}
    {s : SelectionV1} (h : p.Presents items s) :
    p.optionalPacketIds s = items.map fun index => (p.packets.get index).id := by
  have hmandatory : (p.mandatory.map MandatoryPacketV1.packetId).filter
      (fun id => !p.isMandatory id) = [] := by
    refine List.filter_eq_nil_iff.mpr fun id hid => ?_
    obtain ⟨entry, hentry, rfl⟩ := List.mem_map.mp hid
    have htrue : p.isMandatory entry.packetId = true :=
      List.any_eq_true.mpr ⟨entry, hentry, decide_eq_true rfl⟩
    rw [htrue]
    exact Bool.false_ne_true
  have hoptional : (items.map fun index => (p.packets.get index).id).filter
      (fun id => !p.isMandatory id) = items.map fun index => (p.packets.get index).id := by
    refine List.filter_eq_self.mpr fun id hid => ?_
    obtain ⟨index, hindex, rfl⟩ := List.mem_map.mp hid
    rw [h.items_optional index hindex]
    rfl
  rw [optionalPacketIds, h.ids_eq wf, List.filter_append, hmandatory, hoptional, List.nil_append]

/-- A selection reports the gain of its optional packets. -/
theorem Presents.normalizedGain_eq (wf : p.WellFormed) {items : List (Fin p.packets.length)}
    {s : SelectionV1} (h : p.Presents items s) :
    p.normalizedGain (p.optionalPacketIds s) = .ok s.normalizedGain := by
  have hnodup : (items.map fun index => (p.packets.get index).id).Nodup := by
    refine List.Nodup.map (fun i j hij => ?_) h.items_nodup
    have hi := wf.packetIndex_eq_some.mpr hij
    rw [wf.packetIndex_eq_some.mpr rfl] at hi
    exact (Option.some.inj hi).symm
  have hpackets : p.packetsOf (items.map fun index => (p.packets.get index).id) =
      items.map fun index => p.packets.get index := by
    rw [packetsOf, List.filterMap_map]
    have hsome : ((fun packetId => (p.packetIndex packetId).map fun index => p.packets.get index) ∘
        fun index : Fin p.packets.length => (p.packets.get index).id) =
          fun index => some (p.packets.get index) := by
      funext index
      rw [Function.comp_apply, wf.packetIndex_eq_some.mpr rfl]
      rfl
    rw [hsome, List.filterMap_eq_map']
  rw [h.optionalPacketIds_eq wf, normalizedGain_eq_ok wf]
  refine ⟨⟨hnodup, fun id hid => ?_, fun id hid => ?_⟩, ?_⟩
  · obtain ⟨index, hindex, rfl⟩ := List.mem_map.mp hid
    exact h.items_optional index hindex
  · obtain ⟨index, _, rfl⟩ := List.mem_map.mp hid
    exact ⟨_, List.getElem_mem _, rfl⟩
  · have hgain := h.gain_add
    have hadd := facilityGain_add (p := p) (items.map fun index => (p.packets.get index).id)
    rw [value_applyItems wf, value_mandatoryCoverage wf, ← hpackets] at hgain
    omega

theorem DecisionPresents.normalizedGain_eq (wf : p.WellFormed) {s : SelectionV1}
    (h : p.DecisionPresents (.selected s)) :
    p.normalizedGain (p.optionalPacketIds s) = .ok s.normalizedGain := by
  obtain ⟨_, hitems⟩ := h
  exact hitems.normalizedGain_eq wf

/-- The objective is the coverage of the `k` largest affinities of every facet:
in any order, more packets gain more, and further packets gain less the more
there are. The three selectors report it for the packets they return. -/
theorem objective_exact {facets : List ProductionFacetV1} {packets : List IntactPacketV1}
    {mandatory : List MandatoryPacketV1} {totalTokenBudget : TotalTokenBudgetV1}
    {reservedFixedOverhead : ReservedFixedOverheadV1} {p : SelectionProblemV1}
    (h : new facets packets mandatory totalTokenBudget reservedFixedOverhead = .ok p) :
    (∀ ids, p.OptionalSet ids → p.normalizedGain ids = .ok (p.facilityGain ids)) ∧
    (∀ ids ids', p.OptionalSet ids → ids.Perm ids' →
      p.normalizedGain ids' = p.normalizedGain ids) ∧
    (∀ ids more a b, ids ⊆ more → p.normalizedGain ids = .ok a → p.normalizedGain more = .ok b →
      a ≤ b) ∧
    (∀ ids more added a b c d, ids ⊆ more → p.normalizedGain ids = .ok a →
      p.normalizedGain more = .ok b → p.normalizedGain (added ++ ids) = .ok c →
      p.normalizedGain (added ++ more) = .ok d → d + a ≤ c + b) ∧
    (∀ s, p.select = .ok (.selected s) →
      p.normalizedGain (p.optionalPacketIds s) = .ok s.normalizedGain) ∧
    (∀ priorities s, p.selectWithOptionalPriorities priorities = .ok (.selected s) →
      p.normalizedGain (p.optionalPacketIds s) = .ok s.normalizedGain) ∧
    (∀ order s, p.selectInOptionalOrder order = .ok (.selected s) →
      p.normalizedGain (p.optionalPacketIds s) = .ok s.normalizedGain) := by
  have wf := new_wellFormed h
  refine ⟨fun ids hset => (normalizedGain_eq_ok wf).mpr ⟨hset, rfl⟩, ?_, ?_, ?_, ?_, ?_, ?_⟩
  · intro ids ids' hset hperm
    have hset' : p.OptionalSet ids' :=
      ⟨hperm.nodup_iff.mp hset.nodup, fun id hid => hset.optional id (hperm.mem_iff.mpr hid),
        fun id hid => hset.known id (hperm.mem_iff.mpr hid)⟩
    rw [(normalizedGain_eq_ok wf).mpr ⟨hset, rfl⟩, (normalizedGain_eq_ok wf).mpr ⟨hset', rfl⟩,
      facilityGain_perm hperm]
  · intro ids more a b hsub ha hb
    obtain ⟨hset, rfl⟩ := (normalizedGain_eq_ok wf).mp ha
    obtain ⟨_, rfl⟩ := (normalizedGain_eq_ok wf).mp hb
    obtain ⟨rest, hperm⟩ := perm_diff_append hset.nodup hsub
    rw [facilityGain_perm hperm]
    exact facilityGain_le_append rest ids
  · intro ids more added a b c d hsub ha hb hc hd
    obtain ⟨hset, rfl⟩ := (normalizedGain_eq_ok wf).mp ha
    obtain ⟨_, rfl⟩ := (normalizedGain_eq_ok wf).mp hb
    obtain ⟨_, rfl⟩ := (normalizedGain_eq_ok wf).mp hc
    obtain ⟨_, rfl⟩ := (normalizedGain_eq_ok wf).mp hd
    obtain ⟨rest, hperm⟩ := perm_diff_append hset.nodup hsub
    have hless := facilityGain_submodular (p := p) added rest ids
    rw [facilityGain_perm hperm, facilityGain_perm (hperm.append_left added)]
    omega
  · intro s hselect
    obtain ⟨decision, hspec, hitems⟩ := selectWithPriorityMap_spec wf ∅
    rw [select, hspec] at hselect
    cases hselect
    exact hitems.normalizedGain_eq wf
  · intro priorities s hselect
    cases hadmitted : p.admitPriorities ∅ priorities with
    | error error => simp [selectWithOptionalPriorities, hadmitted] at hselect
    | ok m =>
        obtain ⟨decision, hspec, hitems⟩ := selectWithOptionalPriorities_spec wf hadmitted
        rw [hspec] at hselect
        cases hselect
        exact hitems.normalizedGain_eq wf
  · intro order s hselect
    cases hvalid : p.validateOrder order with
    | error error => simp [selectInOptionalOrder, hvalid] at hselect
    | ok indices =>
        obtain ⟨decision, hspec, hitems⟩ := selectInOptionalOrder_spec wf hvalid
        rw [hspec] at hselect
        cases hselect
        exact hitems.normalizedGain_eq wf

theorem objective_exact_sample : ∃ p s s' s'', sampleProblem = .ok p ∧
    (p.select = .ok (.selected s) ∧
      p.normalizedGain (p.optionalPacketIds s) = .ok s.normalizedGain) ∧
    (p.selectWithOptionalPriorities samplePriorities = .ok (.selected s') ∧
      p.normalizedGain (p.optionalPacketIds s') = .ok s'.normalizedGain) ∧
    p.selectInOptionalOrder sampleOrder = .ok (.selected s'') ∧
      p.normalizedGain (p.optionalPacketIds s'') = .ok s''.normalizedGain := by
  obtain ⟨p, hp, hplain, hassisted, hordered⟩ := sampleProblem_presented
  obtain ⟨s, hs, _⟩ := exists_of_presentedIds hplain (by simp)
  obtain ⟨s', hs', _⟩ := exists_of_presentedIds hassisted (by simp)
  obtain ⟨s'', hs'', _⟩ := exists_of_presentedIds hordered (by simp)
  obtain ⟨_, _, _, _, hselect, hpriorities, horder⟩ := objective_exact hp
  exact ⟨p, s, s', s'', hp, ⟨hs, hselect s hs⟩, ⟨hs', hpriorities _ s' hs'⟩, hs'',
    horder _ s'' hs''⟩

end SelectionProblemV1

end Evidentrail
