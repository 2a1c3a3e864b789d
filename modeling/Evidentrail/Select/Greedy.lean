import Evidentrail.Select.Scan

/-!
# The greedy plan

Every packet that `density_greedy` takes is the unique maximum, by density and
its ties, of what it could still take, and it stops when there is nothing left
to take. The packets taken so far say what that is (`Remaining`): they fix the
coverage, the budget and the slice for packets without a primary gain.
-/

namespace Evidentrail

open Rust Std Slice Argmax

namespace SelectionProblemV1

variable {p : SelectionProblemV1}

/-! ## What is left to take -/

/-- Whether a packet gains only coverage. -/
def gainsOnlyCoverage (p : SelectionProblemV1) (coverage : Coverage p.facets.length)
    (packet : IntactPacketV1) : Bool :=
  match p.marginalScore coverage packet with
  | .ok marginal => marginal.coverageOnly
  | .error _ => false

/-- What packets taken in this order cost the coverage-only slice. -/
def coverageOnlyCost (p : SelectionProblemV1) (coverage : Coverage p.facets.length) :
    List (Fin p.packets.length) → Nat
  | [] => 0
  | index :: rest =>
      (if p.gainsOnlyCoverage coverage (p.packets.get index) then (p.packets.get index).cost
        else 0) + coverageOnlyCost p (p.applyPacket coverage (p.packets.get index)) rest

theorem coverageOnlyCost_concat (coverage : Coverage p.facets.length)
    (items : List (Fin p.packets.length)) (index : Fin p.packets.length) :
    p.coverageOnlyCost coverage (items ++ [index]) = p.coverageOnlyCost coverage items +
      if p.gainsOnlyCoverage (p.applyItems coverage items) (p.packets.get index) then
        (p.packets.get index).cost else 0 := by
  induction items generalizing coverage with
  | nil => exact Nat.add_comm ..
  | cons first rest ih =>
      rw [List.cons_append, coverageOnlyCost, ih, coverageOnlyCost, Nat.add_assoc]
      rfl

/-- A packet that may be taken behind `taken`: neither mandatory nor taken,
within what is left of the two budgets, and with something to gain. -/
structure Remaining (p : SelectionProblemV1) (baseline : Coverage p.facets.length)
    (budget limit : Nat) (priorities : ExtTreeMap PacketIdV1 Nat)
    (taken : List (Fin p.packets.length)) (c : ScoredCandidate p.packets.length) : Prop where
  optional : p.isMandatory (p.packets.get c.packetIndex).id = false
  fresh : c.packetIndex ∉ taken
  scored : p.marginalScore (p.applyItems baseline taken) (p.packets.get c.packetIndex) =
    .ok ⟨c.gain, c.coverageOnly⟩
  gain_pos : 0 < c.gain
  cost_le : p.itemsCost taken + (p.packets.get c.packetIndex).cost ≤ budget
  slice_le : c.coverageOnly = true →
    p.coverageOnlyCost baseline taken + (p.packets.get c.packetIndex).cost ≤ limit
  bonus_eq : c.priorityBonus = priorityBonusV1 (p.packets.get c.packetIndex).id c.gain priorities

/-- The packet `index` is the only maximum of what may be taken. -/
def IsUniqueBest (p : SelectionProblemV1) (baseline : Coverage p.facets.length)
    (budget limit : Nat) (priorities : ExtTreeMap PacketIdV1 Nat)
    (taken : List (Fin p.packets.length)) (index : Fin p.packets.length) : Prop :=
  ∃ best, best.packetIndex = index ∧ p.Remaining baseline budget limit priorities taken best ∧
    ∀ c, p.Remaining baseline budget limit priorities taken c → c.packetIndex ≠ index →
      densityKey p.packets c < densityKey p.packets best

/-- Every item was the only maximum when it was taken. -/
def IsArgmaxRun (p : SelectionProblemV1) (baseline : Coverage p.facets.length)
    (budget limit : Nat) (priorities : ExtTreeMap PacketIdV1 Nat)
    (items : List (Fin p.packets.length)) : Prop :=
  ∀ taken index later, items = taken ++ index :: later →
    p.IsUniqueBest baseline budget limit priorities taken index

theorem isArgmaxRun_nil {baseline : Coverage p.facets.length} {budget limit : Nat}
    {priorities : ExtTreeMap PacketIdV1 Nat} :
    p.IsArgmaxRun baseline budget limit priorities [] := by
  intro taken index later h
  cases taken <;> cases h

theorem IsArgmaxRun.concat {baseline : Coverage p.facets.length} {budget limit : Nat}
    {priorities : ExtTreeMap PacketIdV1 Nat} {items : List (Fin p.packets.length)}
    {index : Fin p.packets.length} (h : p.IsArgmaxRun baseline budget limit priorities items)
    (hbest : p.IsUniqueBest baseline budget limit priorities items index) :
    p.IsArgmaxRun baseline budget limit priorities (items ++ [index]) := by
  intro taken next later hsplit
  rcases List.eq_nil_or_concat later with rfl | ⟨front, last, rfl⟩
  · obtain ⟨rfl, hlast⟩ := List.append_inj' hsplit rfl
    cases hlast
    exact hbest
  · rw [List.concat_eq_append, ← List.cons_append, ← List.append_assoc] at hsplit
    obtain ⟨hfront, _⟩ := List.append_inj' hsplit rfl
    exact h taken next front hfront

/-! ## The loop -/

/-- The budgets of the loop are those that the taken packets leave. -/
structure Loops (p : SelectionProblemV1) (baseline : Coverage p.facets.length)
    (budget limit : Nat) (s : Spending p.facets.length) (chosen : Fin p.packets.length → Bool)
    (items : List (Fin p.packets.length)) : Prop where
  spent : p.Spent baseline budget limit 0 items s
  slice : s.coverageOnlyTokenCost = p.coverageOnlyCost baseline items
  chosen_iff : ∀ i, chosen i = true ↔ p.isMandatory (p.packets.get i).id = true ∨ i ∈ items

theorem Loops.isCandidate_iff {baseline : Coverage p.facets.length} {budget limit : Nat}
    {priorities : ExtTreeMap PacketIdV1 Nat} {s : Spending p.facets.length}
    {chosen : Fin p.packets.length → Bool} {items : List (Fin p.packets.length)}
    (h : p.Loops baseline budget limit s chosen items) {c : ScoredCandidate p.packets.length} :
    p.IsCandidate s.coverage chosen s.remaining s.remainingCoverageOnly priorities c ↔
      p.Remaining baseline budget limit priorities items c := by
  have hcoverage := h.spent.coverage_eq
  have hremaining := h.spent.remaining_add
  have honly := h.spent.coverageOnly_add
  have hslice := h.slice
  have hchosen := h.chosen_iff c.packetIndex
  constructor
  · rintro ⟨⟨hfree, hscored, hcost, hcoverageOnly⟩, hpos, hbonus⟩
    rw [hfree] at hchosen
    simp only [Bool.false_eq_true, false_iff, not_or, Bool.not_eq_true] at hchosen
    rw [hcoverage] at hscored
    exact ⟨hchosen.1, hchosen.2, hscored, hpos, by omega,
      fun hc => by have hle := hcoverageOnly hc; omega, hbonus⟩
  · rintro ⟨hoptional, hfresh, hscored, hpos, hcost, hsliceLe, hbonus⟩
    rw [← hcoverage] at hscored
    refine ⟨⟨?_, hscored, by omega, fun hc => by have hle := hsliceLe hc; omega⟩, hpos, hbonus⟩
    rw [Bool.eq_false_iff]
    intro hmark
    rcases hchosen.mp hmark with hmandatory | hmem
    · rw [hoptional] at hmandatory
      cases hmandatory
    · exact hfresh hmem

/-- What taking a packet does to the slice. -/
theorem take_coverageOnlyTokenCost {s s' : Spending p.facets.length} {packet : IntactPacketV1}
    {gain : Nat} {coverageOnly : Bool} (h : p.take s packet gain coverageOnly = .ok s') :
    s'.coverageOnlyTokenCost =
      s.coverageOnlyTokenCost + if coverageOnly then packet.cost else 0 := by
  obtain ⟨_, _, h⟩ := except_bind_eq_ok.mp h
  cases coverageOnly with
  | false =>
      obtain ⟨_, hsame, h⟩ := except_bind_eq_ok.mp h
      cases hsame
      obtain ⟨_, _, h⟩ := except_bind_eq_ok.mp h
      obtain ⟨_, _, h⟩ := except_bind_eq_ok.mp h
      cases h
      rfl
  | true =>
      obtain ⟨_, _, h⟩ := except_bind_eq_ok.mp h
      obtain ⟨_, hadd, h⟩ := except_bind_eq_ok.mp h
      obtain ⟨_, hsame, h⟩ := except_bind_eq_ok.mp h
      cases hsame
      obtain ⟨_, _, h⟩ := except_bind_eq_ok.mp h
      obtain ⟨_, _, h⟩ := except_bind_eq_ok.mp h
      cases h
      exact (checkedAdd_eq_some.mp (okOr_eq_ok.mp hadd)).2

/-- A pass takes the only maximum. -/
theorem Loops.step (wf : p.WellFormed) {baseline : Coverage p.facets.length} {budget limit : Nat}
    (hbudget : budget < u64Bound) (hlimit : limit < u64Bound)
    {priorities : ExtTreeMap PacketIdV1 Nat} {s s' : Spending p.facets.length}
    {chosen : Fin p.packets.length → Bool} {items : List (Fin p.packets.length)}
    (h : p.Loops baseline budget limit s chosen items) {best : ScoredCandidate p.packets.length}
    (hscan : p.scanCandidates s.coverage chosen s.remaining s.remainingCoverageOnly priorities
      densityCandidateIsBetter = .ok (some best))
    (htake : p.take s (p.packets.get best.packetIndex) best.gain best.coverageOnly = .ok s') :
    p.IsUniqueBest baseline budget limit priorities items best.packetIndex ∧
      p.Loops baseline budget limit s' (Function.update chosen best.packetIndex true)
        (items ++ [best.packetIndex]) := by
  rw [scanCandidates_eq wf] at hscan
  have hbest := densest (Except.ok.inj hscan)
  have hcandidate := mem_candidates.mp hbest.mem
  have hremaining := h.isCandidate_iff.mp hcandidate
  refine ⟨⟨best, rfl, hremaining, fun c hc hne => ?_⟩, ?_, ?_, ?_⟩
  · have hle := hbest.le c (mem_candidates.mpr (h.isCandidate_iff.mpr hc))
    exact hle.lt_of_ne fun heq => hne (packetIndex_of_densityKey heq)
  · obtain ⟨s'', htake', hspent⟩ := h.spent.take wf (by omega) hlimit hcandidate.fits.scored
      hcandidate.fits.cost_le hcandidate.fits.coverageOnly_le
    rw [htake] at htake'
    cases htake'
    exact hspent
  · have hgains : p.gainsOnlyCoverage (p.applyItems baseline items)
        (p.packets.get best.packetIndex) = best.coverageOnly := by
      rw [gainsOnlyCoverage, hremaining.scored]
    rw [take_coverageOnlyTokenCost htake, h.slice, coverageOnlyCost_concat, hgains]
  · intro i
    rw [List.mem_append, List.mem_singleton, ← or_assoc, ← h.chosen_iff]
    by_cases hi : i = best.packetIndex
    · simp [hi]
    · simp [hi]

/-- The whole loop. -/
theorem greedyLoop_argmax (wf : p.WellFormed) {baseline : Coverage p.facets.length}
    {budget limit : Nat} (hbudget : budget < u64Bound) (hlimit : limit < u64Bound)
    {priorities : ExtTreeMap PacketIdV1 Nat} {fuel : Nat} {s : Spending p.facets.length}
    {chosen : Fin p.packets.length → Bool} {items : List (Fin p.packets.length)}
    (h : p.Loops baseline budget limit s chosen items)
    (hrun : p.IsArgmaxRun baseline budget limit priorities items)
    {s' : Spending p.facets.length} {items' : List (Fin p.packets.length)}
    (hloop : p.greedyLoop priorities fuel s chosen items = .ok (s', items')) :
    p.IsArgmaxRun baseline budget limit priorities items' ∧
      ∀ c, ¬p.Remaining baseline budget limit priorities items' c := by
  induction fuel generalizing s chosen items with
  | zero => cases hloop
  | succ fuel ih =>
      cases hscan : p.scanCandidates s.coverage chosen s.remaining s.remainingCoverageOnly
          priorities densityCandidateIsBetter with
      | error fault => simp [greedyLoop, hscan] at hloop
      | ok best =>
          cases best with
          | none =>
              simp only [greedyLoop, hscan] at hloop
              cases hloop
              rw [scanCandidates_eq wf] at hscan
              have hnone := none_densest (Except.ok.inj hscan)
              refine ⟨hrun, fun c hc => ?_⟩
              have hmem := mem_candidates.mpr (h.isCandidate_iff.mpr hc)
              rw [hnone] at hmem
              cases hmem
          | some best =>
              cases htake :
                p.take s (p.packets.get best.packetIndex) best.gain best.coverageOnly with
              | error fault =>
                  simp only [greedyLoop, hscan, htake] at hloop
                  cases hloop
              | ok next =>
                  simp only [greedyLoop, hscan, htake] at hloop
                  obtain ⟨hbest, hnext⟩ := h.step wf hbudget hlimit hscan htake
                  exact ih hnext (hrun.concat hbest) hloop

theorem loops_start (wf : p.WellFormed) (baseline : Coverage p.facets.length) (budget limit : Nat) :
    ∃ chosen, p.chooseMandatory (fun _ => false) p.mandatory = .ok chosen ∧
      p.Loops baseline budget limit ⟨baseline, budget, limit, 0, 0, 0⟩ chosen [] := by
  obtain ⟨chosen, hchoose, hchosen⟩ := chooseMandatory_spec wf p.mandatory (fun _ => false)
    fun _ h => h
  refine ⟨chosen, hchoose, spent_nil baseline budget limit 0, rfl, fun i => ?_⟩
  rw [hchosen, isMandatory, List.any_eq_true]
  simp only [decide_eq_true_eq, Bool.false_eq_true, false_or, List.not_mem_nil, or_false]

/-- `density_greedy` takes the unique maximum at every step, and stops when no
packet is left that fits and gains, unless it gains only coverage and is too
large for its slice. The comparisons do not overflow. -/
theorem density_greedy_argmax {facets : List ProductionFacetV1} {packets : List IntactPacketV1}
    {mandatory : List MandatoryPacketV1} {totalTokenBudget : TotalTokenBudgetV1}
    {reservedFixedOverhead : ReservedFixedOverheadV1} {p : SelectionProblemV1}
    (h : new facets packets mandatory totalTokenBudget reservedFixedOverhead = .ok p)
    (baseline : Coverage p.facets.length) {budget limit : Nat} (hbudget : budget < u64Bound)
    (hlimit : limit < u64Bound) (priorities : ExtTreeMap PacketIdV1 Nat) :
    ∃ plan, p.densityGreedy baseline budget limit priorities = .ok plan ∧
      p.IsArgmaxRun baseline budget limit priorities plan.items ∧
      (∀ index marginal, p.isMandatory (p.packets.get index).id = false → index ∉ plan.items →
        p.itemsCost plan.items + (p.packets.get index).cost ≤ budget →
        p.marginalScore (p.applyItems baseline plan.items) (p.packets.get index) = .ok marginal →
        0 < marginal.gain →
        marginal.coverageOnly = true ∧
          limit < p.coverageOnlyCost baseline plan.items + (p.packets.get index).cost) ∧
      ∀ a b : ScoredCandidate p.packets.length,
        a.assistedGain * (p.packets.get b.packetIndex).cost < 2 ^ 128 := by
  have wf := new_wellFormed h
  obtain ⟨plan, hplan, _⟩ := densityGreedy_spec wf baseline hbudget hlimit priorities
  obtain ⟨chosen, hchoose, hstart⟩ := loops_start wf baseline budget limit
  have hitems := hplan
  simp only [densityGreedy, hchoose] at hitems
  cases hloop : p.greedyLoop priorities (p.packets.length + 1)
      ⟨baseline, budget, limit, 0, 0, 0⟩ chosen [] with
  | error fault => simp [hloop] at hitems
  | ok found =>
      obtain ⟨s, items⟩ := found
      rw [hloop] at hitems
      cases hitems
      obtain ⟨hrun, hstop⟩ := greedyLoop_argmax wf hbudget hlimit hstart isArgmaxRun_nil hloop
      refine ⟨_, hplan, hrun, ?_, fun a b => crossProduct_lt⟩
      intro index marginal hoptional hfresh hcost hscored hpos
      by_contra hnot
      refine hstop ⟨index, marginal.gain,
        priorityBonusV1 (p.packets.get index).id marginal.gain priorities, marginal.coverageOnly⟩
        ⟨hoptional, hfresh, hscored, hpos, hcost, fun honly => ?_, rfl⟩
      exact Nat.le_of_not_lt fun hlt => hnot ⟨honly, hlt⟩

/-- The two denser packets first, then one of the two that are alike, and what coverage
may still use. -/
theorem density_greedy_argmax_sample : ∃ p plan, sampleProblem = .ok p ∧
    p.densityGreedy p.mandatoryCoverage 10 1 ∅ = .ok plan ∧
    plan.items.map (fun index => (p.packets.get index).id) =
      [.repeated 6, .repeated 2, .repeated 5, .repeated 4] ∧
    p.IsArgmaxRun p.mandatoryCoverage 10 1 ∅ plan.items := by
  have hitems : (sampleProblem.toOption.any fun p =>
      (p.densityGreedy p.mandatoryCoverage 10 1 ∅).toOption.any fun plan =>
        plan.items.map (fun index => (p.packets.get index).id) =
          [.repeated 6, .repeated 2, .repeated 5, .repeated 4]) = true := by
    decide +kernel
  obtain ⟨p, hp, _⟩ := sampleProblem_presented
  obtain ⟨plan, hplan, hrun, _⟩ := density_greedy_argmax hp p.mandatoryCoverage
    (show 10 < u64Bound by decide) (show 1 < u64Bound by decide) ∅
  rw [hp] at hitems
  simp only [Except.toOption, Option.any_some, hplan, decide_eq_true_eq] at hitems
  exact ⟨p, plan, hp, hplan, hitems, hrun⟩

end SelectionProblemV1

end Evidentrail
