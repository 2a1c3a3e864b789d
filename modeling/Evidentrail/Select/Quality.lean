import Evidentrail.Select.Scan

/-!
# The quality bound

The chosen plan gains at least what the best single packet gains. The best
single packet is one of largest assisted gain; a bonus is at most a hundredth of
the gain it is for, so no packet that fits gains more than a hundred and first
part above it.
-/

namespace Evidentrail

open Rust Std Slice Argmax

/-! ## The bonus -/

/-- The bonus of an affinity in range is at most a hundredth of the gain. -/
theorem priorityBonusV1_le {packetId : PacketIdV1} {gain : Nat}
    {priorities : ExtTreeMap PacketIdV1 Nat}
    (h : priorities[packetId]?.getD 0 ≤ affinityScaleV1) :
    100 * priorityBonusV1 packetId gain priorities ≤ gain := by
  have hproduct : gain * priorities[packetId]?.getD 0 ≤ gain * 1000000 :=
    Nat.mul_le_mul_left gain h
  have hbonus : min (gain * priorities[packetId]?.getD 0) (2 ^ 128 - 1) / 100000000 ≤
      gain * 1000000 / 100000000 :=
    Nat.div_le_div_right ((Nat.min_le_left ..).trans hproduct)
  have hclamp : ∀ n : Nat, (u64TryFrom n).getD (u64Bound - 1) ≤ n := by
    intro n
    unfold u64TryFrom
    split
    · exact Nat.le_refl n
    · rw [Option.getD_none]
      omega
  have hle : priorityBonusV1 packetId gain priorities ≤ gain * 1000000 / 100000000 :=
    (hclamp _).trans hbonus
  omega

theorem priorityBonusV1_empty (packetId : PacketIdV1) (gain : Nat) :
    priorityBonusV1 packetId gain ∅ = 0 := by
  simp [priorityBonusV1, u64TryFrom]

namespace ScoredCandidate

variable {n : Nat} (c : ScoredCandidate n)

theorem assistedGain_le : c.assistedGain ≤ c.gain + c.priorityBonus := Nat.min_le_left ..

theorem le_assistedGain (h : c.gain < u64Bound) : c.gain ≤ c.assistedGain :=
  Nat.le_min.mpr ⟨Nat.le_add_right .., Nat.le_sub_one_of_lt h⟩

end ScoredCandidate

namespace SelectionProblemV1

variable {p : SelectionProblemV1}

/-! ## The plans -/

theorem totalGain_le_choosePlan {n : Nat} (greedy single : CandidatePlan n) :
    single.totalGain ≤ (choosePlan greedy (some single)).totalGain := by
  rw [choosePlan]
  split
  · exact Nat.le_refl _
  · rename_i hworse
    by_contra hlt
    refine hworse ?_
    rw [planIsBetter, Nat.compare_eq_gt.mpr (Nat.lt_of_not_le hlt)]

theorem presentPlan_gain {baseline : Coverage p.facets.length} {limit : Nat}
    {chosen : CandidatePlan p.packets.length} {s : SelectionV1}
    (h : p.presentPlan baseline limit chosen = .ok s) : s.normalizedGain = chosen.totalGain := by
  obtain ⟨_, _, h⟩ := except_bind_eq_ok.mp h
  obtain ⟨⟨total, optional⟩, _, h⟩ := except_bind_eq_ok.mp h
  dsimp only at h
  split at h
  · cases h
  · obtain ⟨_, _, h⟩ := except_bind_eq_ok.mp h
    obtain ⟨_, _, h⟩ := except_bind_eq_ok.mp h
    cases h
    rfl

/-- A selection presents a plan that both strategies had a say in. -/
theorem selectWithPriorityMap_selected {priorities : ExtTreeMap PacketIdV1 Nat} {s : SelectionV1}
    (h : p.selectWithPriorityMap priorities = .ok (.selected s)) :
    ∃ budget greedy single, p.optionalBudget = .ok budget ∧
      p.bestSingle p.mandatoryCoverage budget
        (budget / coverageOnlyOptionalBudgetDenominatorV1) priorities = .ok single ∧
      s.normalizedGain = (choosePlan greedy single).totalGain := by
  unfold selectWithPriorityMap at h
  split at h
  · cases h
  · rename_i budget hbudget
    obtain ⟨greedy, _, h⟩ := except_bind_eq_ok.mp h
    obtain ⟨single, hsingle, h⟩ := except_bind_eq_ok.mp h
    obtain ⟨selection, hpresent, h⟩ := except_bind_eq_ok.mp h
    cases h
    exact ⟨budget, greedy, single, hbudget, hsingle, presentPlan_gain hpresent⟩

/-- An optional packet that fits the optional budget, and its slice if it gains
only coverage, with what it gains over the mandatory packets. -/
structure FitsAlone (p : SelectionProblemV1) (index : Fin p.packets.length)
    (marginal : MarginalScore) : Prop where
  optional : p.isMandatory (p.packets.get index).id = false
  scored : p.marginalScore p.mandatoryCoverage (p.packets.get index) = .ok marginal
  cost_le : (p.packets.get index).cost ≤
    p.totalTokenBudget.tokens - p.reservedFixedOverhead.upperBoundTokens - p.mandatoryCost
  coverageOnly_le : marginal.coverageOnly = true → (p.packets.get index).cost ≤
    (p.totalTokenBudget.tokens - p.reservedFixedOverhead.upperBoundTokens - p.mandatoryCost) /
      coverageOnlyOptionalBudgetDenominatorV1

/-- The best single packet has the largest assisted gain, and the selection
gains what it gains. -/
theorem FitsAlone.assisted (wf : p.WellFormed) {index : Fin p.packets.length}
    {marginal : MarginalScore} (hfits : p.FitsAlone index marginal) (hpos : 0 < marginal.gain)
    {priorities : ExtTreeMap PacketIdV1 Nat} {s : SelectionV1}
    (h : p.selectWithPriorityMap priorities = .ok (.selected s)) :
    ∃ packetId gain, gain ≤ s.normalizedGain ∧
      marginal.gain ≤ gain + priorityBonusV1 packetId gain priorities := by
  obtain ⟨budget, greedy, single, hbudget, hsingle, hgain⟩ := selectWithPriorityMap_selected h
  obtain ⟨_, hdef⟩ := optionalBudget_eq_ok hbudget
  set candidate : ScoredCandidate p.packets.length := ⟨index, marginal.gain,
    priorityBonusV1 (p.packets.get index).id marginal.gain priorities, marginal.coverageOnly⟩
    with hcandidate
  have hmem : candidate ∈ p.candidates p.mandatoryCoverage
      (fun index => p.isMandatory (p.packets.get index).id) budget
      (budget / coverageOnlyOptionalBudgetDenominatorV1) priorities := by
    refine mem_candidates.mpr ⟨⟨hfits.optional, hfits.scored, ?_, ?_⟩, hpos, rfl⟩
    · rw [hdef]
      exact hfits.cost_le
    · rw [hdef]
      exact hfits.coverageOnly_le
  have hbound : marginal.gain < u64Bound := by
    obtain ⟨score, hscore, hvalue⟩ := wf.marginalScore_spec p.mandatoryCoverage
      (show p.packets.get index ∈ p.packets from List.getElem_mem _)
    rw [hfits.scored] at hscore
    cases hscore
    have hlt := wf.value_lt (p.applyPacket p.mandatoryCoverage (p.packets.get index))
    omega
  unfold bestSingle at hsingle
  rw [scanCandidates_eq wf] at hsingle
  cases hbest : (p.candidates p.mandatoryCoverage
      (fun index => p.isMandatory (p.packets.get index).id) budget
      (budget / coverageOnlyOptionalBudgetDenominatorV1) priorities).foldl
        (pick singleCandidateIsBetter) none with
  | none =>
      rw [none_gainsMost hbest] at hmem
      cases hmem
  | some best =>
      rw [hbest] at hsingle
      cases hsingle
      have hbestOf := gainsMost hbest
      have hle := assistedGain_le_of_singleKey (hbestOf.le candidate hmem)
      have hbonus := (mem_candidates.mp hbestOf.mem).bonus_eq
      have hassisted := best.assistedGain_le
      have hown := candidate.le_assistedGain hbound
      refine ⟨(p.packets.get best.packetIndex).id, best.gain, ?_, ?_⟩
      · rw [hgain]
        exact totalGain_le_choosePlan greedy ⟨.bestSingle, [best.packetIndex], best.gain, _, _⟩
      · rw [← hbonus]
        exact hown.trans (hle.trans hassisted)

/-! ## The bound -/

/-- Priorities that are taken are in range. -/
theorem admitPriorities_le {priorities : List OptionalPacketPriorityV1}
    {m accepted : ExtTreeMap PacketIdV1 Nat}
    (hm : ∀ id : PacketIdV1, m[id]?.getD 0 ≤ affinityScaleV1)
    (h : p.admitPriorities m priorities = .ok accepted) (id : PacketIdV1) :
    accepted[id]?.getD 0 ≤ affinityScaleV1 := by
  induction priorities generalizing m with
  | nil =>
      cases h
      exact hm id
  | cons priority rest ih =>
      simp only [admitPriorities] at h
      split at h
      · cases h
      · split at h
        · cases h
        · rename_i hrange
          split at h
          · cases h
          · split at h
            · cases h
            · split at h
              · cases h
              · refine ih (fun other => ?_) h
                rw [getElem?_insert]
                split
                · exact Nat.le_of_not_gt (not_or.mp hrange).2
                · exact hm other

/-- A selection gains at least as much as any single packet that fits, and with
priorities at least a hundred parts in a hundred and one of it. -/
theorem selection_quality {facets : List ProductionFacetV1} {packets : List IntactPacketV1}
    {mandatory : List MandatoryPacketV1} {totalTokenBudget : TotalTokenBudgetV1}
    {reservedFixedOverhead : ReservedFixedOverheadV1} {p : SelectionProblemV1}
    (h : new facets packets mandatory totalTokenBudget reservedFixedOverhead = .ok p) :
    (∀ s, p.select = .ok (.selected s) →
      ∀ index marginal, p.FitsAlone index marginal → marginal.gain ≤ s.normalizedGain) ∧
    (∀ priorities s, p.selectWithOptionalPriorities priorities = .ok (.selected s) →
      ∀ index marginal, p.FitsAlone index marginal →
        100 * marginal.gain ≤ 101 * s.normalizedGain) := by
  have wf := new_wellFormed h
  constructor
  · intro s hselect index marginal hfits
    rcases Nat.eq_zero_or_pos marginal.gain with hzero | hpos
    · rw [hzero]
      exact Nat.zero_le _
    · obtain ⟨packetId, gain, hle, hassisted⟩ := hfits.assisted wf hpos hselect
      rw [priorityBonusV1_empty] at hassisted
      omega
  · intro priorities s hselect index marginal hfits
    rcases Nat.eq_zero_or_pos marginal.gain with hzero | hpos
    · rw [hzero]
      exact Nat.zero_le _
    · unfold selectWithOptionalPriorities at hselect
      split at hselect
      · cases hselect
      · rename_i accepted haccepted
        obtain ⟨packetId, gain, hle, hassisted⟩ :=
          hfits.assisted wf hpos (mapError_eq_ok.mp hselect)
        have hrange := admitPriorities_le (fun id => by simp) haccepted packetId
        have hbonus : 100 * priorityBonusV1 packetId gain accepted ≤ gain :=
          priorityBonusV1_le hrange
        omega

theorem selection_quality_sample : ∃ p s s', sampleProblem = .ok p ∧
    p.select = .ok (.selected s) ∧
    p.selectWithOptionalPriorities samplePriorities = .ok (.selected s') ∧
    ∀ index marginal, p.FitsAlone index marginal →
      marginal.gain ≤ s.normalizedGain ∧ 100 * marginal.gain ≤ 101 * s'.normalizedGain := by
  obtain ⟨p, hp, hplain, hassisted, _⟩ := sampleProblem_presented
  obtain ⟨s, hs, _⟩ := exists_of_presentedIds hplain (by simp)
  obtain ⟨s', hs', _⟩ := exists_of_presentedIds hassisted (by simp)
  obtain ⟨hquality, hpriorities⟩ := selection_quality hp
  exact ⟨p, s, s', hp, hs, hs', fun index marginal hfits =>
    ⟨hquality s hs index marginal hfits, hpriorities _ s' hs' index marginal hfits⟩⟩

end SelectionProblemV1

end Evidentrail
