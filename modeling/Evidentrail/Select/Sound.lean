import Evidentrail.Select.Select

/-!
# Selection stays in budget

For every problem that `new` accepts, each of the three entry points ends
in a decision: the defensive errors, the unchecked subtractions and the
unbounded loop are all discharged by one invariant of spending (`Spent`)
and by the exactness of the marginal gains.
-/

namespace Evidentrail

open Rust Std Slice

namespace SelectionProblemV1

/-! ## What a selection must satisfy -/

/-- A selection that keeps the problem's contract. -/
structure Sound (p : SelectionProblemV1) (s : SelectionV1) : Prop where
  accounted_eq : s.accountedTokenUpperBound = p.reservedFixedOverhead.upperBoundTokens +
    (s.packets.map fun selected => selected.packet.cost).sum
  accounted_le : s.accountedTokenUpperBound ≤ p.totalTokenBudget.tokens
  mandatory_once : ∀ entry ∈ p.mandatory,
    (s.packets.map fun selected => selected.packet.id).count entry.packetId = 1
  packets_nodup : (s.packets.map fun selected => selected.packet.id).Nodup
  packets_intact : ∀ selected ∈ s.packets, selected.packet ∈ p.packets
  coverageOnly_le : s.coverageOnlyTokenCost ≤
    (p.totalTokenBudget.tokens - p.reservedFixedOverhead.upperBoundTokens -
      p.mandatoryCost) / coverageOnlyOptionalBudgetDenominatorV1

/-- The contract of a decision. -/
def DecisionSound (p : SelectionProblemV1) : SelectionDecisionV1 → Prop
  | .selected s => p.Sound s
  | .needsMore _ => True

variable {p : SelectionProblemV1}

/-- Packets taken in this order. -/
def applyItems (p : SelectionProblemV1) (coverage : Coverage p.facets.length)
    (items : List (Fin p.packets.length)) : Coverage p.facets.length :=
  (items.map fun index => p.packets.get index).foldl p.applyPacket coverage

/-- What these packets cost. -/
def itemsCost (p : SelectionProblemV1) (items : List (Fin p.packets.length)) : Nat :=
  (items.map fun index => (p.packets.get index).cost).sum

theorem itemsCost_append (xs ys : List (Fin p.packets.length)) :
    p.itemsCost (xs ++ ys) = p.itemsCost xs + p.itemsCost ys := by
  simp [itemsCost]

theorem applyItems_concat (coverage : Coverage p.facets.length)
    (items : List (Fin p.packets.length)) (index : Fin p.packets.length) :
    p.applyItems coverage (items ++ [index]) =
      p.applyPacket (p.applyItems coverage items) (p.packets.get index) := by
  simp [applyItems]

theorem applyItems_perm {coverage : Coverage p.facets.length}
    {xs ys : List (Fin p.packets.length)} (h : xs.Perm ys) :
    p.applyItems coverage xs = p.applyItems coverage ys :=
  (h.map _).foldl_eq coverage

/-! ## The scan -/

/-- A candidate that a scan may return. -/
structure Fits (p : SelectionProblemV1) (coverage : Coverage p.facets.length)
    (excluded : Fin p.packets.length → Bool) (budget coverageBudget : Nat)
    (c : ScoredCandidate p.packets.length) : Prop where
  free : excluded c.packetIndex = false
  scored : p.marginalScore coverage (p.packets.get c.packetIndex) = .ok ⟨c.gain, c.coverageOnly⟩
  cost_le : (p.packets.get c.packetIndex).cost ≤ budget
  coverageOnly_le : c.coverageOnly = true → (p.packets.get c.packetIndex).cost ≤ coverageBudget

theorem scanCandidate_spec (wf : p.WellFormed) {coverage : Coverage p.facets.length}
    {excluded : Fin p.packets.length → Bool} {budget coverageBudget : Nat}
    {priorities : ExtTreeMap PacketIdV1 Nat}
    {isBetter : ScoredCandidate p.packets.length → ScoredCandidate p.packets.length → Bool}
    {best : Option (ScoredCandidate p.packets.length)}
    (hbest : ∀ c ∈ best, p.Fits coverage excluded budget coverageBudget c)
    (packetIndex : Fin p.packets.length) :
    ∃ best', p.scanCandidate coverage excluded budget coverageBudget priorities isBetter best
        packetIndex = .ok best' ∧
      ∀ c ∈ best', p.Fits coverage excluded budget coverageBudget c := by
  obtain ⟨marginal, hscore, _⟩ := wf.marginalScore_spec coverage
    (List.getElem_mem packetIndex.isLt)
  have hscore' : p.marginalScore coverage (p.packets.get packetIndex) = .ok marginal := hscore
  simp only [scanCandidate, hscore', orViolation, Except.mapError]
  split
  · exact ⟨best, rfl, hbest⟩
  · rename_i hfree
    split
    · exact ⟨best, rfl, hbest⟩
    · rename_i hgain
      simp only [Bool.or_eq_true, decide_eq_true_eq, not_or, Bool.not_eq_true] at hfree
      simp only [Bool.or_eq_true, decide_eq_true_eq, not_or, Bool.and_eq_true, not_and]
        at hgain
      have hfits : p.Fits coverage excluded budget coverageBudget ⟨packetIndex, marginal.gain,
          priorityBonusV1 (p.packets.get packetIndex).id marginal.gain priorities,
          marginal.coverageOnly⟩ :=
        ⟨hfree.1, hscore', Nat.le_of_not_gt hfree.2,
          fun honly => Nat.le_of_not_gt (hgain.2 honly)⟩
      cases best with
      | none =>
          refine ⟨_, rfl, fun c hc => ?_⟩
          cases hc
          exact hfits
      | some current =>
          refine ⟨_, rfl, fun c hc => ?_⟩
          cases hc
          split
          · exact hfits
          · exact hbest current rfl

theorem scanCandidates_spec (wf : p.WellFormed) (coverage : Coverage p.facets.length)
    (excluded : Fin p.packets.length → Bool) (budget coverageBudget : Nat)
    (priorities : ExtTreeMap PacketIdV1 Nat)
    (isBetter : ScoredCandidate p.packets.length → ScoredCandidate p.packets.length → Bool) :
    ∃ best, p.scanCandidates coverage excluded budget coverageBudget priorities isBetter =
        .ok best ∧
      ∀ c ∈ best, p.Fits coverage excluded budget coverageBudget c := by
  refine foldlM_eq_ok
    (fun best => ∀ c ∈ best, p.Fits coverage excluded budget coverageBudget c)
    (fun best index hbest => scanCandidate_spec wf hbest index) _ none ?_
  exact fun c hc => nomatch hc

/-! ## Spending -/

/-- The packets `items` have been taken from the two budgets. -/
structure Spent (p : SelectionProblemV1) (baseline : Coverage p.facets.length)
    (budget limit start : Nat) (items : List (Fin p.packets.length))
    (s : Spending p.facets.length) : Prop where
  coverage_eq : s.coverage = p.applyItems baseline items
  remaining_add : s.remaining + p.itemsCost items = budget
  packetCost_eq : s.packetCost = start + p.itemsCost items
  coverageOnly_add : s.remainingCoverageOnly + s.coverageOnlyTokenCost = limit
  gain_add : s.totalGain + p.value baseline = p.value s.coverage

theorem spent_nil (baseline : Coverage p.facets.length) (budget limit start : Nat) :
    p.Spent baseline budget limit start [] ⟨baseline, budget, limit, start, 0, 0⟩ :=
  ⟨rfl, rfl, rfl, rfl, Nat.zero_add _⟩

/-- Taking a packet that fits succeeds and is accounted for. -/
theorem Spent.take (wf : p.WellFormed) {baseline : Coverage p.facets.length}
    {budget limit start : Nat} {items : List (Fin p.packets.length)}
    {s : Spending p.facets.length} (h : p.Spent baseline budget limit start items s)
    (hbudget : start + budget < u64Bound) (hlimit : limit < u64Bound)
    {index : Fin p.packets.length} {gain : Nat} {coverageOnly : Bool}
    (hscore : p.marginalScore s.coverage (p.packets.get index) = .ok ⟨gain, coverageOnly⟩)
    (hcost : (p.packets.get index).cost ≤ s.remaining)
    (honly : coverageOnly = true → (p.packets.get index).cost ≤ s.remainingCoverageOnly) :
    ∃ s', p.take s (p.packets.get index) gain coverageOnly = .ok s' ∧
      p.Spent baseline budget limit start (items ++ [index]) s' := by
  obtain ⟨score, hscore', hgain⟩ := wf.marginalScore_spec s.coverage
    (List.getElem_mem index.isLt)
  rw [show p.marginalScore s.coverage p.packets[index.val] = _ from hscore] at hscore'
  cases hscore'
  replace hgain : gain + p.value s.coverage =
    p.value (p.applyPacket s.coverage (p.packets.get index)) := hgain
  have hvalue := wf.value_lt (p.applyPacket s.coverage (p.packets.get index))
  have hremaining := h.remaining_add
  have hpacket := h.packetCost_eq
  have htotal := h.gain_add
  have hcov := h.coverageOnly_add
  have hcostsum : p.itemsCost [index] = (p.packets.get index).cost := by simp [itemsCost]
  have hpacketCost : checkedAdd s.packetCost (p.packets.get index).cost =
      some (s.packetCost + (p.packets.get index).cost) := checkedAdd_of_lt (by omega)
  have htotalGain : checkedAdd s.totalGain gain = some (s.totalGain + gain) :=
    checkedAdd_of_lt (by omega)
  have hcoverage : p.applyPacket s.coverage (p.packets.get index) =
      p.applyItems baseline (items ++ [index]) := by
    rw [applyItems_concat, h.coverage_eq]
  cases coverageOnly with
  | false =>
      simp only [SelectionProblemV1.take, checkedSub_of_le hcost, hpacketCost, htotalGain,
        okOr_some, except_bind_ok]
      refine ⟨_, rfl, hcoverage, ?_, ?_, hcov, ?_⟩ <;>
        simp only [itemsCost_append, hcostsum] <;> omega
  | true =>
      have hle := honly rfl
      have hadd : checkedAdd s.coverageOnlyTokenCost (p.packets.get index).cost =
          some (s.coverageOnlyTokenCost + (p.packets.get index).cost) :=
        checkedAdd_of_lt (by omega)
      simp only [SelectionProblemV1.take, checkedSub_of_le hcost, checkedSub_of_le hle, hadd,
        hpacketCost, htotalGain, okOr_some, except_bind_ok, if_true]
      refine ⟨_, rfl, hcoverage, ?_, ?_, ?_, ?_⟩ <;>
        simp only [itemsCost_append, hcostsum] <;> omega

/-! ## Density greedy -/

theorem WellFormed.exists_packetIndex (wf : p.WellFormed) {entry : MandatoryPacketV1}
    (h : entry ∈ p.mandatory) :
    ∃ index, p.packetIndex entry.packetId = some index ∧
      (p.packets.get index).id = entry.packetId := by
  obtain ⟨packet, hmem, hid, _⟩ := (wf.mandatory_forced entry h).packet
  obtain ⟨i, hi, rfl⟩ := List.mem_iff_getElem.mp hmem
  exact ⟨⟨i, hi⟩, wf.packetIndex_eq_some.mpr hid, hid⟩

theorem chooseMandatory_spec (wf : p.WellFormed) : ∀ (entries : List MandatoryPacketV1)
    (chosen : Fin p.packets.length → Bool), (∀ entry ∈ entries, entry ∈ p.mandatory) →
    ∃ chosen', p.chooseMandatory chosen entries = .ok chosen' ∧
      ∀ i, chosen' i = true ↔ chosen i = true ∨
        ∃ entry ∈ entries, entry.packetId = (p.packets.get i).id
  | [], chosen, _ => ⟨chosen, rfl, by simp⟩
  | entry :: rest, chosen, hmem => by
      obtain ⟨index, hindex, hid⟩ := wf.exists_packetIndex (hmem entry (List.mem_cons_self ..))
      obtain ⟨chosen', hrest, hspec⟩ := chooseMandatory_spec wf rest
        (Function.update chosen index true)
        fun later hlater => hmem later (List.mem_cons_of_mem _ hlater)
      refine ⟨chosen', by simp only [chooseMandatory, hindex, hrest], fun i => ?_⟩
      rw [hspec, List.exists_mem_cons_iff]
      by_cases hi : i = index
      · subst hi
        rw [Function.update_self]
        exact ⟨fun _ => .inr (.inl hid.symm), fun _ => .inl rfl⟩
      · have hne : entry.packetId ≠ (p.packets.get i).id := by
          intro heq
          have hi' := wf.packetIndex_eq_some.mpr heq.symm
          rw [hindex] at hi'
          exact hi (Option.some.inj hi').symm
        rw [Function.update_of_ne hi]
        tauto

/-- A plan that may be presented. -/
structure PlanSound (p : SelectionProblemV1) (baseline : Coverage p.facets.length)
    (budget limit : Nat) (plan : CandidatePlan p.packets.length) : Prop where
  items_nodup : plan.items.Nodup
  items_optional : ∀ i ∈ plan.items, p.isMandatory (p.packets.get i).id = false
  strategy_eq : plan.items ≠ [] → plan.strategy = .densityGreedy ∨ plan.strategy = .bestSingle
  gain_add : plan.totalGain + p.value baseline = p.value (p.applyItems baseline plan.items)
  tokenCost_eq : plan.tokenCost = p.itemsCost plan.items
  tokenCost_le : plan.tokenCost ≤ budget
  coverageOnly_le : plan.coverageOnlyTokenCost ≤ limit

/-- The greedy loop: `chosen` marks the mandatory packets and the items. -/
theorem greedyLoop_spec (wf : p.WellFormed) {baseline : Coverage p.facets.length}
    {budget limit : Nat} (hbudget : budget < u64Bound) (hlimit : limit < u64Bound)
    (priorities : ExtTreeMap PacketIdV1 Nat) : ∀ (fuel : Nat) (s : Spending p.facets.length)
    (chosen : Fin p.packets.length → Bool) (items : List (Fin p.packets.length)),
    p.packets.length < items.length + fuel → items.Nodup →
    (∀ i, chosen i = true ↔ p.isMandatory (p.packets.get i).id = true ∨ i ∈ items) →
    (∀ i ∈ items, p.isMandatory (p.packets.get i).id = false) →
    p.Spent baseline budget limit 0 items s →
    ∃ s' items', p.greedyLoop priorities fuel s chosen items = .ok (s', items') ∧
      items'.Nodup ∧ (∀ i ∈ items', p.isMandatory (p.packets.get i).id = false) ∧
      p.Spent baseline budget limit 0 items' s'
  | 0, s, chosen, items, hfuel, hnodup, _, _, _ => by
      have hlength := hnodup.length_le_card
      rw [Fintype.card_fin] at hlength
      omega
  | fuel + 1, s, chosen, items, hfuel, hnodup, hchosen, hoptional, hspent => by
      obtain ⟨best, hscan, hfits⟩ := scanCandidates_spec wf s.coverage chosen s.remaining
        s.remainingCoverageOnly priorities densityCandidateIsBetter
      cases best with
      | none => exact ⟨s, items, by simp only [greedyLoop, hscan], hnodup, hoptional, hspent⟩
      | some c =>
          have hc := hfits c rfl
          obtain ⟨s', htake, hspent'⟩ := hspent.take wf (by omega) hlimit hc.scored hc.cost_le
            hc.coverageOnly_le
          have hfree : ¬ (p.isMandatory (p.packets.get c.packetIndex).id = true ∨
              c.packetIndex ∈ items) := by
            rw [← hchosen, hc.free]
            exact Bool.false_ne_true
          rw [not_or, Bool.not_eq_true] at hfree
          obtain ⟨s'', items'', hloop, hrest⟩ := greedyLoop_spec wf hbudget hlimit priorities
            fuel s' (Function.update chosen c.packetIndex true) (items ++ [c.packetIndex])
            (by rw [List.length_append, List.length_singleton]; omega)
            (List.nodup_append_comm.mp (List.nodup_cons.mpr ⟨hfree.2, hnodup⟩))
            (fun i => by
              rw [List.mem_append, List.mem_singleton, ← or_assoc, ← hchosen]
              by_cases hi : i = c.packetIndex
              · simp [hi]
              · simp [hi])
            (fun i hi => by
              rcases List.mem_append.mp hi with hi | hi
              · exact hoptional i hi
              · rw [List.mem_singleton.mp hi]
                exact hfree.1)
            hspent'
          exact ⟨s'', items'', by simp only [greedyLoop, hscan, htake, hloop], hrest⟩

theorem densityGreedy_spec (wf : p.WellFormed) (baseline : Coverage p.facets.length)
    {budget limit : Nat} (hbudget : budget < u64Bound) (hlimit : limit < u64Bound)
    (priorities : ExtTreeMap PacketIdV1 Nat) :
    ∃ plan, p.densityGreedy baseline budget limit priorities = .ok plan ∧
      p.PlanSound baseline budget limit plan := by
  obtain ⟨chosen, hchoose, hchosen⟩ := chooseMandatory_spec wf p.mandatory (fun _ => false)
    fun _ h => h
  have hmark : ∀ i, chosen i = true ↔
      p.isMandatory (p.packets.get i).id = true ∨ i ∈ ([] : List (Fin p.packets.length)) := by
    intro i
    rw [hchosen, isMandatory, List.any_eq_true]
    simp only [decide_eq_true_eq, Bool.false_eq_true, false_or, List.not_mem_nil, or_false]
  obtain ⟨s, items, hloop, hnodup, hoptional, hspent⟩ := greedyLoop_spec wf hbudget hlimit
    priorities (p.packets.length + 1) ⟨baseline, budget, limit, 0, 0, 0⟩ chosen []
    (by simp) List.nodup_nil hmark (by simp)
    (spent_nil baseline budget limit 0)
  refine ⟨_, by simp only [densityGreedy, hchoose, hloop]; rfl, ?_⟩
  have hcoverage := hspent.coverage_eq
  have hgain := hspent.gain_add
  have hremaining := hspent.remaining_add
  have hcost := hspent.packetCost_eq
  have honly := hspent.coverageOnly_add
  exact {
    items_nodup := hnodup
    items_optional := hoptional
    strategy_eq := fun hne => .inl (if_neg hne)
    gain_add := by rw [← hcoverage]; exact hgain
    tokenCost_eq := by rw [hcost, Nat.zero_add]
    tokenCost_le := by show s.packetCost ≤ budget; omega
    coverageOnly_le := by show s.coverageOnlyTokenCost ≤ limit; omega }

/-! ## Best single -/

theorem bestSingle_spec (wf : p.WellFormed) (baseline : Coverage p.facets.length)
    (budget limit : Nat) (priorities : ExtTreeMap PacketIdV1 Nat) :
    ∃ plan, p.bestSingle baseline budget limit priorities = .ok plan ∧
      ∀ single ∈ plan, p.PlanSound baseline budget limit single := by
  obtain ⟨best, hscan, hfits⟩ := scanCandidates_spec wf baseline
    (fun index => p.isMandatory (p.packets.get index).id) budget limit priorities
    singleCandidateIsBetter
  cases best with
  | none => exact ⟨none, by simp only [bestSingle, hscan], fun _ h => nomatch h⟩
  | some c =>
      refine ⟨_, by simp only [bestSingle, hscan]; rfl, fun single hsingle => ?_⟩
      cases hsingle
      have hc := hfits c rfl
      obtain ⟨score, hscore, hgain⟩ := wf.marginalScore_spec baseline
        (List.getElem_mem c.packetIndex.isLt)
      rw [show p.marginalScore baseline p.packets[c.packetIndex.val] = _ from hc.scored]
        at hscore
      cases hscore
      exact {
        items_nodup := List.nodup_singleton _
        items_optional := fun i hi => by rw [List.mem_singleton.mp hi]; exact hc.free
        strategy_eq := fun _ => .inr rfl
        gain_add := hgain
        tokenCost_eq := by simp [itemsCost]
        tokenCost_le := hc.cost_le
        coverageOnly_le := by
          show (if c.coverageOnly then _ else _) ≤ limit
          split
          · exact hc.coverageOnly_le ‹_›
          · exact Nat.zero_le _ }

/-! ## Presentation -/

theorem presentedPacket_spec (wf : p.WellFormed) {packet : IntactPacketV1}
    (hpacket : packet ∈ p.packets) (gain : Nat) (constraint : SelectionConstraintV1) :
    ∃ selected, p.presentedPacket packet gain constraint = .ok selected ∧
      selected.packet = packet := by
  have hkinds : ∀ affinities : List FacetAffinityV1,
      (∀ affinity ∈ affinities, ∃ facet ∈ p.facets, facet.id = affinity.facetId) →
      ∃ kinds, (affinities.mapM fun affinity => (p.facetIndex affinity.facetId).map
        fun index => (p.facets.get index).kind) = some kinds := by
    intro affinities
    induction affinities with
    | nil => exact fun _ => ⟨[], rfl⟩
    | cons affinity rest ih =>
        intro hknown
        obtain ⟨facet, hmem, hid⟩ := hknown affinity (List.mem_cons_self ..)
        obtain ⟨i, hi, rfl⟩ := List.mem_iff_getElem.mp hmem
        have hindex : p.facetIndex affinity.facetId = some ⟨i, hi⟩ :=
          wf.facetIndex_eq_some.mpr hid
        obtain ⟨kinds, hrest⟩ := ih fun later hlater =>
          hknown later (List.mem_cons_of_mem _ hlater)
        exact ⟨_, by rw [List.mapM_cons, hindex, hrest]; rfl⟩
  obtain ⟨kinds, hsome⟩ := hkinds packet.affinities (wf.affinities_known packet hpacket)
  exact ⟨_, by simp only [presentedPacket, packetFacetKinds, hsome, Option.map_some]; rfl, rfl⟩

/-- The mandatory packets, in their order. -/
def mandatoryIndices (p : SelectionProblemV1) : List (Fin p.packets.length) :=
  p.mandatory.filterMap fun entry => p.packetIndex entry.packetId

theorem presentMandatory_spec (wf : p.WellFormed) : ∀ (entries : List MandatoryPacketV1),
    (∀ entry ∈ entries, entry ∈ p.mandatory) →
    ∃ selected, p.presentMandatory entries = .ok selected ∧
      selected.map (·.packet) = (entries.filterMap fun entry =>
        p.packetIndex entry.packetId).map fun index => p.packets.get index
  | [], _ => ⟨[], rfl, rfl⟩
  | entry :: rest, hmem => by
      obtain ⟨index, hindex, _⟩ := wf.exists_packetIndex (hmem entry (List.mem_cons_self ..))
      obtain ⟨first, hfirst, hpacket⟩ := presentedPacket_spec wf
        (show p.packets.get index ∈ p.packets from List.getElem_mem _) 0
        (.mandatoryValidatedIdentifier entry.validatedIdentifierFacetId)
      obtain ⟨later, hlater, hpackets⟩ := presentMandatory_spec wf rest
        fun later hlater => hmem later (List.mem_cons_of_mem _ hlater)
      refine ⟨first :: later, ?_, ?_⟩
      · simp only [presentMandatory, hindex, okOr_some, except_bind_ok, hfirst, hlater]
        rfl
      · simp only [List.map_cons, hpacket, hpackets, List.filterMap_cons, hindex]

/-- Presenting the packets in any order yields the gain of the whole set. -/
theorem presentItems_spec (wf : p.WellFormed) {strategy : SelectionStrategyV1}
    (baseline : Coverage p.facets.length) : ∀ (items : List (Fin p.packets.length))
    (coverage : Coverage p.facets.length) (totalGain : Nat),
    (items ≠ [] → strategy = .densityGreedy ∨ strategy = .bestSingle) →
    totalGain + p.value baseline = p.value coverage →
    ∃ total selected, p.presentItems strategy coverage totalGain items =
        .ok (total, selected) ∧
      total + p.value baseline = p.value (p.applyItems coverage items) ∧
      selected.map (·.packet) = items.map fun index => p.packets.get index
  | [], coverage, totalGain, _, hgain => ⟨totalGain, [], rfl, hgain, rfl⟩
  | index :: rest, coverage, totalGain, hstrategy, hgain => by
      have hmem : p.packets.get index ∈ p.packets := List.getElem_mem _
      obtain ⟨constraint, hconstraint⟩ : ∃ constraint,
          planConstraint strategy = .ok constraint := by
        rcases hstrategy (List.cons_ne_nil _ _) with rfl | rfl
        · exact ⟨_, rfl⟩
        · exact ⟨_, rfl⟩
      obtain ⟨marginal, hscore, hmarginal⟩ := wf.marginalScore_spec coverage hmem
      have hvalue := wf.value_lt (p.applyPacket coverage (p.packets.get index))
      have hadd : checkedAdd totalGain marginal.gain = some (totalGain + marginal.gain) :=
        checkedAdd_of_lt (by omega)
      obtain ⟨first, hfirst, hpacket⟩ :=
        presentedPacket_spec wf hmem marginal.gain constraint
      obtain ⟨total, later, hlater, htotal, hpackets⟩ := presentItems_spec wf baseline rest
        (p.applyPacket coverage (p.packets.get index)) (totalGain + marginal.gain)
        (fun _ => hstrategy (List.cons_ne_nil _ _)) (by omega)
      refine ⟨total, first :: later, ?_, htotal, by rw [List.map_cons, hpacket, hpackets]; rfl⟩
      simp only [presentItems, hconstraint, hscore, orViolation, Except.mapError, hadd,
        okOr_some, except_bind_ok, hfirst, hlater]
      rfl

theorem perm_presentationItems (items : List (Fin p.packets.length)) :
    (p.presentationItems items).Perm items := by
  have hperm := (List.perm_insertionSort (fun a b =>
    (compareLex
      (compareOn fun x : Fin p.packets.length × Nat =>
        p.packetPresentationPriority (p.packets.get x.1))
      (compareOn Prod.snd) a b).isLE) items.zipIdx).map Prod.fst
  rwa [List.zipIdx_map_fst] at hperm

theorem presentOrder_spec (wf : p.WellFormed) : ∀ (taken : List (Fin p.packets.length × Nat)),
    ∃ selected, p.presentOrder taken = .ok selected ∧
      selected.map (·.packet) = (taken.map Prod.fst).map fun index => p.packets.get index
  | [] => ⟨[], rfl, rfl⟩
  | (index, gain) :: rest => by
      obtain ⟨first, hfirst, hpacket⟩ := presentedPacket_spec wf
        (show p.packets.get index ∈ p.packets from List.getElem_mem _) gain .externalOrderBudgetPack
      obtain ⟨later, hlater, hpackets⟩ := presentOrder_spec wf rest
      refine ⟨first :: later, ?_, by rw [List.map_cons, hpacket, hpackets]; rfl⟩
      simp only [presentOrder, hfirst, except_bind_ok, hlater]
      rfl

/-! ## The mandatory packets -/

theorem map_filterMap_packetIndex (wf : p.WellFormed) : ∀ (entries : List MandatoryPacketV1),
    (∀ entry ∈ entries, entry ∈ p.mandatory) →
    (entries.filterMap fun entry => p.packetIndex entry.packetId).map
      (fun index => (p.packets.get index).id) = entries.map MandatoryPacketV1.packetId ∧
    p.itemsCost (entries.filterMap fun entry => p.packetIndex entry.packetId) =
      (entries.map fun entry => costOf p.packets entry.packetId).sum
  | [], _ => ⟨rfl, rfl⟩
  | entry :: rest, hmem => by
      obtain ⟨index, hindex, hid⟩ := wf.exists_packetIndex (hmem entry (List.mem_cons_self ..))
      obtain ⟨hids, hcosts⟩ := map_filterMap_packetIndex wf rest
        fun later hlater => hmem later (List.mem_cons_of_mem _ hlater)
      have hcost : costOf p.packets entry.packetId = (p.packets.get index).cost := by
        rw [← hid]
        exact costOf_eq wf.packetIds_nodup (List.getElem_mem _)
      simp only [itemsCost] at hcosts
      simp only [itemsCost, List.filterMap_cons, hindex, List.map_cons, List.sum_cons, hcosts,
        hids, hid, hcost, and_self]

theorem WellFormed.map_mandatoryIndices (wf : p.WellFormed) :
    p.mandatoryIndices.map (fun index => (p.packets.get index).id) =
      p.mandatory.map MandatoryPacketV1.packetId :=
  (map_filterMap_packetIndex wf p.mandatory fun _ h => h).1

theorem WellFormed.itemsCost_mandatoryIndices (wf : p.WellFormed) :
    p.itemsCost p.mandatoryIndices = p.mandatoryCost :=
  (map_filterMap_packetIndex wf p.mandatory fun _ h => h).2.trans wf.mandatoryCost_eq.symm

/-- A selection of the mandatory packets and these items behind them. -/
structure Presents (p : SelectionProblemV1) (items : List (Fin p.packets.length))
    (s : SelectionV1) : Prop where
  items_nodup : items.Nodup
  items_optional : ∀ i ∈ items, p.isMandatory (p.packets.get i).id = false
  packets_eq : s.packets.map (·.packet) =
    (p.mandatoryIndices ++ items).map fun index => p.packets.get index
  accounted_eq : s.accountedTokenUpperBound =
    p.reservedFixedOverhead.upperBoundTokens + (p.mandatoryCost + p.itemsCost items)
  accounted_le : s.accountedTokenUpperBound ≤ p.totalTokenBudget.tokens
  coverageOnly_le : s.coverageOnlyTokenCost ≤
    (p.totalTokenBudget.tokens - p.reservedFixedOverhead.upperBoundTokens -
      p.mandatoryCost) / coverageOnlyOptionalBudgetDenominatorV1
  gain_add : s.normalizedGain + p.value p.mandatoryCoverage =
    p.value (p.applyItems p.mandatoryCoverage items)

/-- What a decision presents. -/
def DecisionPresents (p : SelectionProblemV1) : SelectionDecisionV1 → Prop
  | .selected s => ∃ items, p.Presents items s
  | .needsMore _ => True

theorem Presents.ids_eq (wf : p.WellFormed) {items : List (Fin p.packets.length)}
    {s : SelectionV1} (h : p.Presents items s) :
    s.packets.map (fun selected => selected.packet.id) =
      p.mandatory.map MandatoryPacketV1.packetId ++
        items.map fun index => (p.packets.get index).id := by
  have h := congrArg (List.map IntactPacketV1.id) h.packets_eq
  rw [List.map_map, List.map_map, List.map_append] at h
  rw [← wf.map_mandatoryIndices]
  exact h

theorem Presents.sound (wf : p.WellFormed) {items : List (Fin p.packets.length)}
    {s : SelectionV1} (h : p.Presents items s) : p.Sound s := by
  have hids := h.ids_eq wf
  have hcosts : (s.packets.map fun selected => selected.packet.cost).sum =
      p.mandatoryCost + p.itemsCost items := by
    have hsum := congrArg (fun l => (l.map IntactPacketV1.cost).sum) h.packets_eq
    simp only [List.map_map] at hsum
    rw [← wf.itemsCost_mandatoryIndices, ← itemsCost_append]
    exact hsum
  -- No optional packet carries a mandatory id.
  have hdisjoint : ∀ entry ∈ p.mandatory,
      entry.packetId ∉ items.map fun index => (p.packets.get index).id := by
    intro entry hentry hin
    obtain ⟨i, hi, hid⟩ := List.mem_map.mp hin
    have hfree := h.items_optional i hi
    rw [hid, isMandatory, List.any_eq_false] at hfree
    exact hfree entry hentry (decide_eq_true rfl)
  have hitems : (items.map fun index => (p.packets.get index).id).Nodup := by
    refine List.Nodup.map (fun i j hij => ?_) h.items_nodup
    have hi := wf.packetIndex_eq_some.mpr hij
    rw [wf.packetIndex_eq_some.mpr rfl] at hi
    exact (Option.some.inj hi).symm
  have hall : (s.packets.map fun selected => selected.packet.id).Nodup := by
    rw [hids, List.nodup_append]
    refine ⟨wf.mandatory_nodup, hitems, ?_⟩
    rintro a ha b hb rfl
    obtain ⟨entry, hentry, rfl⟩ := List.mem_map.mp ha
    exact hdisjoint entry hentry hb
  exact {
    accounted_eq := by rw [hcosts, h.accounted_eq]
    accounted_le := h.accounted_le
    mandatory_once := fun entry hentry => by
      refine List.count_eq_one_of_mem hall ?_
      rw [hids]
      exact List.mem_append_left _ (List.mem_map_of_mem hentry)
    packets_nodup := hall
    packets_intact := fun selected hselected => by
      have hmem : selected.packet ∈ s.packets.map (·.packet) := List.mem_map_of_mem hselected
      rw [h.packets_eq] at hmem
      obtain ⟨index, _, heq⟩ := List.mem_map.mp hmem
      exact heq ▸ List.getElem_mem _
    coverageOnly_le := h.coverageOnly_le }

/-! ## The three entry points -/

theorem optionalBudget_eq_ok {budget : Nat} (h : p.optionalBudget = .ok budget) :
    p.reservedFixedOverhead.upperBoundTokens + (p.mandatoryCost + budget) =
        p.totalTokenBudget.tokens ∧
      budget = p.totalTokenBudget.tokens - p.reservedFixedOverhead.upperBoundTokens -
        p.mandatoryCost := by
  simp only [optionalBudget] at h
  split at h
  · cases h
  · split at h
    · cases h
    · cases h
      omega

theorem account_eq_ok {budget : Nat} (hbudget : p.optionalBudget = .ok budget) (cost : Nat)
    (hcost : cost ≤ p.mandatoryCost + budget) :
    p.account cost = .ok (p.reservedFixedOverhead.upperBoundTokens + cost) ∧
      p.reservedFixedOverhead.upperBoundTokens + cost ≤ p.totalTokenBudget.tokens := by
  obtain ⟨htotal, _⟩ := optionalBudget_eq_ok hbudget
  have hmax := p.totalTokenBudget.le_max
  have hsafe : jsonSafeIntegerMax < u64Bound := by decide
  have hle : p.reservedFixedOverhead.upperBoundTokens + cost ≤ p.totalTokenBudget.tokens := by
    omega
  refine ⟨?_, hle⟩
  simp only [account, checkedAdd_of_lt (show p.reservedFixedOverhead.upperBoundTokens + cost <
    u64Bound by omega), okOr_some, except_bind_ok]
  rw [if_neg (Nat.not_lt.mpr hle)]
  rfl

/-- Every sound plan can be presented. -/
theorem presentPlan_spec (wf : p.WellFormed) {budget : Nat}
    (hbudget : p.optionalBudget = .ok budget) {chosen : CandidatePlan p.packets.length}
    (hchosen : p.PlanSound p.mandatoryCoverage budget
      (budget / coverageOnlyOptionalBudgetDenominatorV1) chosen) :
    ∃ s, p.presentPlan p.mandatoryCoverage (budget / coverageOnlyOptionalBudgetDenominatorV1)
        chosen = .ok s ∧ p.Presents (p.presentationItems chosen.items) s := by
  obtain ⟨htotal, hdef⟩ := optionalBudget_eq_ok hbudget
  have hmax := p.totalTokenBudget.le_max
  have hsafe : jsonSafeIntegerMax < u64Bound := by decide
  have hcost := hchosen.tokenCost_eq
  have hcostLe := hchosen.tokenCost_le
  have hperm := perm_presentationItems (p := p) chosen.items
  have hstrategy : p.presentationItems chosen.items ≠ [] →
      chosen.strategy = .densityGreedy ∨ chosen.strategy = .bestSingle := by
    intro hne
    refine hchosen.strategy_eq fun hnil => hne ?_
    rw [hnil] at hperm ⊢
    exact hperm.eq_nil
  obtain ⟨mandatory, hmandatory, hmandatoryPackets⟩ :=
    presentMandatory_spec wf p.mandatory fun _ h => h
  obtain ⟨total, optional, hpresent, hgain, hoptionalPackets⟩ :=
    presentItems_spec wf p.mandatoryCoverage (p.presentationItems chosen.items)
      p.mandatoryCoverage 0 hstrategy (Nat.zero_add _)
  -- The order of presentation changes single gains, not their sum.
  have htotalGain : total = chosen.totalGain := by
    have hplan := hchosen.gain_add
    rw [applyItems_perm hperm] at hgain
    omega
  have hselected : checkedAdd p.mandatoryCost chosen.tokenCost =
      some (p.mandatoryCost + chosen.tokenCost) := checkedAdd_of_lt (by omega)
  obtain ⟨haccount, hle⟩ := account_eq_ok hbudget
    (p.mandatoryCost + chosen.tokenCost) (by omega)
  simp only [presentPlan, hmandatory, hpresent, htotalGain, hselected, haccount, okOr_some,
    except_bind_ok, ne_eq, not_true_eq_false, if_false]
  refine ⟨_, rfl, ?_⟩
  exact {
    items_nodup := hperm.nodup_iff.mpr hchosen.items_nodup
    items_optional := fun i hi => hchosen.items_optional i (hperm.mem_iff.mp hi)
    packets_eq := by
      rw [List.map_append, List.map_append, hmandatoryPackets, hoptionalPackets]
      rfl
    accounted_eq := by
      show _ + (_ + chosen.tokenCost) = _
      rw [hcost, itemsCost, itemsCost, (hperm.map _).sum_nat]
    accounted_le := hle
    coverageOnly_le := by
      rw [← hdef]
      exact hchosen.coverageOnly_le
    gain_add := by
      rw [applyItems_perm hperm]
      exact hchosen.gain_add }

theorem DecisionPresents.sound (wf : p.WellFormed) {decision : SelectionDecisionV1}
    (h : p.DecisionPresents decision) : p.DecisionSound decision := by
  cases decision with
  | needsMore needsMore => trivial
  | selected s =>
      obtain ⟨_, hitems⟩ := h
      exact hitems.sound wf

theorem selectWithPriorityMap_spec (wf : p.WellFormed)
    (priorities : ExtTreeMap PacketIdV1 Nat) :
    ∃ decision, p.selectWithPriorityMap priorities = .ok decision ∧
      p.DecisionPresents decision := by
  cases hbudget : p.optionalBudget with
  | error needsMore =>
      exact ⟨.needsMore needsMore, by simp only [selectWithPriorityMap, hbudget], trivial⟩
  | ok budget =>
      obtain ⟨htotal, _⟩ := optionalBudget_eq_ok hbudget
      have hmax := p.totalTokenBudget.le_max
      have hsafe : jsonSafeIntegerMax < u64Bound := by decide
      have hlimit : budget / coverageOnlyOptionalBudgetDenominatorV1 ≤ budget :=
        Nat.div_le_self ..
      obtain ⟨greedy, hgreedy, hgreedySound⟩ := densityGreedy_spec wf p.mandatoryCoverage
        (show budget < u64Bound by omega)
        (Nat.lt_of_le_of_lt hlimit (by omega)) priorities
      obtain ⟨single, hsingle, hsingleSound⟩ := bestSingle_spec wf p.mandatoryCoverage budget
        (budget / coverageOnlyOptionalBudgetDenominatorV1) priorities
      have hchosen : p.PlanSound p.mandatoryCoverage budget
          (budget / coverageOnlyOptionalBudgetDenominatorV1) (choosePlan greedy single) := by
        cases single with
        | none => exact hgreedySound
        | some single =>
            rw [choosePlan]
            split
            · exact hsingleSound single rfl
            · exact hgreedySound
      obtain ⟨s, hpresent, hitems⟩ := presentPlan_spec wf hbudget hchosen
      refine ⟨.selected s, ?_, _, hitems⟩
      simp only [selectWithPriorityMap, hbudget, hgreedy, hsingle, hpresent, except_bind_ok]
      rfl

theorem packOrder_spec (wf : p.WellFormed) {baseline : Coverage p.facets.length}
    {budget limit start : Nat} (hbudget : start + budget < u64Bound)
    (hlimit : limit < u64Bound) : ∀ (indices : List (Fin p.packets.length))
    (s : Spending p.facets.length) (taken : List (Fin p.packets.length × Nat)),
    p.Spent baseline budget limit start (taken.map Prod.fst) s →
    ∃ s' taken', p.packOrder s taken indices = .ok (s', taken') ∧
      (taken'.map Prod.fst).Sublist (taken.map Prod.fst ++ indices) ∧
      p.Spent baseline budget limit start (taken'.map Prod.fst) s'
  | [], s, taken, hspent => ⟨s, taken, rfl, by simp, hspent⟩
  | index :: rest, s, taken, hspent => by
      obtain ⟨marginal, hscore, _⟩ := wf.marginalScore_spec s.coverage
        (show p.packets.get index ∈ p.packets from List.getElem_mem _)
      -- A packet that is passed over leaves the budgets alone.
      have hskip : ∃ s' taken', p.packOrder s taken rest = .ok (s', taken') ∧
          (taken'.map Prod.fst).Sublist (taken.map Prod.fst ++ index :: rest) ∧
          p.Spent baseline budget limit start (taken'.map Prod.fst) s' := by
        obtain ⟨s', taken', hpack, hsub, hspent'⟩ :=
          packOrder_spec wf hbudget hlimit rest s taken hspent
        exact ⟨s', taken', hpack,
          hsub.trans ((List.Sublist.refl _).append (List.sublist_cons_self ..)), hspent'⟩
      simp only [packOrder, hscore, orViolation, Except.mapError]
      split
      · exact hskip
      · rename_i hcost
        split
        · exact hskip
        · rename_i hgain
          simp only [Bool.or_eq_true, decide_eq_true_eq, not_or, Bool.and_eq_true, not_and]
            at hgain
          obtain ⟨s', htake, hspent'⟩ := hspent.take wf hbudget hlimit hscore
            (Nat.le_of_not_gt hcost) fun honly => Nat.le_of_not_gt (hgain.2 honly)
          have hconcat : (taken ++ [(index, marginal.gain)]).map Prod.fst =
              taken.map Prod.fst ++ [index] := by
            rw [List.map_append, List.map_singleton]
          obtain ⟨s'', taken', hpack, hsub, hspent''⟩ := packOrder_spec wf hbudget hlimit rest
            s' (taken ++ [(index, marginal.gain)]) (by rw [hconcat]; exact hspent')
          refine ⟨s'', taken', by rw [htake]; exact hpack, ?_, hspent''⟩
          rwa [hconcat, List.append_assoc, List.singleton_append] at hsub

theorem selectValidatedOptionalOrder_spec (wf : p.WellFormed)
    {indices : List (Fin p.packets.length)} (hnodup : indices.Nodup)
    (hoptional : ∀ i ∈ indices, p.isMandatory (p.packets.get i).id = false) :
    ∃ decision, p.selectValidatedOptionalOrder indices = .ok decision ∧
      p.DecisionPresents decision := by
  cases hbudget : p.optionalBudget with
  | error needsMore =>
      exact ⟨.needsMore needsMore, by simp only [selectValidatedOptionalOrder, hbudget],
        trivial⟩
  | ok budget =>
      obtain ⟨htotal, hdef⟩ := optionalBudget_eq_ok hbudget
      have hmax := p.totalTokenBudget.le_max
      have hsafe : jsonSafeIntegerMax < u64Bound := by decide
      have hlimit : budget / coverageOnlyOptionalBudgetDenominatorV1 ≤ budget :=
        Nat.div_le_self ..
      obtain ⟨s, taken, hpack, hsub, hspent⟩ := packOrder_spec wf
        (show p.mandatoryCost + budget < u64Bound by omega)
        (Nat.lt_of_le_of_lt hlimit (by omega)) indices _ []
        (spent_nil p.mandatoryCoverage budget
          (budget / coverageOnlyOptionalBudgetDenominatorV1) p.mandatoryCost)
      have hremaining := hspent.remaining_add
      have hcost := hspent.packetCost_eq
      have honly := hspent.coverageOnly_add
      obtain ⟨mandatory, hmandatory, hmandatoryPackets⟩ :=
        presentMandatory_spec wf p.mandatory fun _ h => h
      obtain ⟨optional, hoptionalOk, hoptionalPackets⟩ := presentOrder_spec wf taken
      obtain ⟨haccount, hle⟩ := account_eq_ok hbudget s.packetCost (by omega)
      simp only [selectValidatedOptionalOrder, hbudget, hpack, hmandatory, hoptionalOk,
        haccount, except_bind_ok]
      refine ⟨_, rfl, taken.map Prod.fst, ?_⟩
      exact {
        items_nodup := hnodup.sublist hsub
        items_optional := fun i hi => hoptional i (hsub.subset hi)
        packets_eq := by
          rw [List.map_append, List.map_append, hmandatoryPackets, hoptionalPackets]
          rfl
        accounted_eq := by
          show _ + s.packetCost = _
          rw [hcost]
        accounted_le := hle
        coverageOnly_le := by
          rw [← hdef]
          show s.coverageOnlyTokenCost ≤ _
          omega
        gain_add := by
          rw [← hspent.coverage_eq]
          exact hspent.gain_add }

theorem admitPriorities_error {error : OptionalPacketPriorityErrorV1} :
    ∀ {priorities : List OptionalPacketPriorityV1} {m : ExtTreeMap PacketIdV1 Nat},
    p.admitPriorities m priorities = .error error → error ≠ .selectionInvariant
  | [], _, h => by cases h
  | priority :: rest, m, h => by
      simp only [admitPriorities] at h
      repeat' split at h
      · cases h; decide
      · cases h; decide
      · cases h; decide
      · cases h; decide
      · cases h; decide
      · exact admitPriorities_error h

theorem admitOrder_error {error : OptionalPacketOrderErrorV1} :
    ∀ {packetIds : List PacketIdV1} {seen : ExtTreeSet PacketIdV1},
    p.admitOrder seen packetIds = .error error → error ≠ .selectionInvariant
  | [], _, h => by cases h
  | packetId :: rest, seen, h => by
      simp only [admitOrder] at h
      split at h
      · cases h; decide
      · split at h
        · cases h; decide
        · split at h
          · cases h; decide
          · split at h
            · rename_i hrest
              cases h
              exact admitOrder_error hrest
            · cases h

theorem admitOrder_eq_ok (wf : p.WellFormed) : ∀ {packetIds : List PacketIdV1}
    {seen : ExtTreeSet PacketIdV1} {indices : List (Fin p.packets.length)},
    p.admitOrder seen packetIds = .ok indices →
      indices.Nodup ∧
      ∀ i ∈ indices, p.isMandatory (p.packets.get i).id = false ∧ (p.packets.get i).id ∉ seen
  | [], _, _, h => by
      cases h
      simp
  | packetId :: rest, seen, indices, h => by
      simp only [admitOrder] at h
      cases hnew : insertNew seen packetId with
      | none => simp [hnew] at h
      | some seen' =>
          obtain ⟨hfresh, rfl⟩ := insertNew_eq_some.mp hnew
          simp only [hnew] at h
          split at h
          · cases h
          · rename_i hoptional
            split at h
            · cases h
            · rename_i index hindex
              split at h
              · cases h
              · rename_i later hlater
                cases h
                have hid := wf.packetIndex_eq_some.mp hindex
                obtain ⟨hnodup, hrest⟩ := admitOrder_eq_ok wf hlater
                refine ⟨List.nodup_cons.mpr ⟨fun hin => ?_, hnodup⟩, fun i hi => ?_⟩
                · exact (hrest index hin).2 (mem_insert_set.mpr (.inl hid.symm))
                · rcases List.mem_cons.mp hi with rfl | hi
                  · rw [hid]
                    exact ⟨Bool.eq_false_iff.mpr hoptional, hfresh⟩
                  · refine ⟨(hrest i hi).1, fun hseen => (hrest i hi).2 ?_⟩
                    exact mem_insert_set.mpr (.inr hseen)

/-- What each entry point answers for an argument that it takes. -/
theorem selectWithOptionalPriorities_spec (wf : p.WellFormed)
    {priorities : List OptionalPacketPriorityV1} {m : ExtTreeMap PacketIdV1 Nat}
    (hadmitted : p.admitPriorities ∅ priorities = .ok m) :
    ∃ decision, p.selectWithOptionalPriorities priorities = .ok decision ∧
      p.DecisionPresents decision := by
  obtain ⟨decision, hselect, hitems⟩ := selectWithPriorityMap_spec wf m
  exact ⟨decision, by simp only [selectWithOptionalPriorities, hadmitted, hselect,
    Except.mapError], hitems⟩

theorem selectInOptionalOrder_spec (wf : p.WellFormed) {packetIds : List PacketIdV1}
    {indices : List (Fin p.packets.length)} (hvalid : p.validateOrder packetIds = .ok indices) :
    ∃ decision, p.selectInOptionalOrder packetIds = .ok decision ∧
      p.DecisionPresents decision := by
  have hadmitted := hvalid
  rw [validateOrder] at hadmitted
  split at hadmitted
  · cases hadmitted
  · obtain ⟨hnodup, hfree⟩ := admitOrder_eq_ok wf hadmitted
    obtain ⟨decision, hselect, hitems⟩ := selectValidatedOptionalOrder_spec wf hnodup
      fun i hi => (hfree i hi).1
    exact ⟨decision, by simp only [selectInOptionalOrder, hvalid, hselect,
      Except.mapError], hitems⟩

/-- No entry point of the selector spends too much or meets its defensive
error: for every accepted problem and every argument the answer is a sound
decision, or the refusal of the argument itself. -/
theorem selection_sound {facets : List ProductionFacetV1} {packets : List IntactPacketV1}
    {mandatory : List MandatoryPacketV1} {totalTokenBudget : TotalTokenBudgetV1}
    {reservedFixedOverhead : ReservedFixedOverheadV1} {p : SelectionProblemV1}
    (h : new facets packets mandatory totalTokenBudget reservedFixedOverhead = .ok p) :
    (∃ decision, p.select = .ok decision ∧ p.DecisionSound decision) ∧
    (∀ priorities,
      match p.admitPriorities ∅ priorities with
      | .error error => error ≠ .selectionInvariant ∧
          p.selectWithOptionalPriorities priorities = .error (.err error)
      | .ok _ => ∃ decision, p.selectWithOptionalPriorities priorities = .ok decision ∧
          p.DecisionSound decision) ∧
    (∀ orderedPacketIds,
      match p.validateOrder orderedPacketIds with
      | .error error => error ≠ .selectionInvariant ∧
          p.selectInOptionalOrder orderedPacketIds = .error (.err error)
      | .ok _ => ∃ decision, p.selectInOptionalOrder orderedPacketIds = .ok decision ∧
          p.DecisionSound decision) := by
  have wf := new_wellFormed h
  refine ⟨?_, fun priorities => ?_, fun packetIds => ?_⟩
  · obtain ⟨decision, hselect, hitems⟩ := selectWithPriorityMap_spec wf ∅
    exact ⟨decision, hselect, hitems.sound wf⟩
  · cases hadmitted : p.admitPriorities ∅ priorities with
    | error error =>
        exact ⟨admitPriorities_error hadmitted, by rw [selectWithOptionalPriorities, hadmitted]⟩
    | ok m =>
        obtain ⟨decision, hselect, hitems⟩ := selectWithOptionalPriorities_spec wf hadmitted
        exact ⟨decision, hselect, hitems.sound wf⟩
  · cases hvalid : p.validateOrder packetIds with
    | error error =>
        refine ⟨?_, by rw [selectInOptionalOrder, hvalid]⟩
        rw [validateOrder] at hvalid
        split at hvalid
        · cases hvalid
          decide
        · exact admitOrder_error hvalid
    | ok indices =>
        obtain ⟨decision, hselect, hitems⟩ := selectInOptionalOrder_spec wf hvalid
        exact ⟨decision, hselect, hitems.sound wf⟩

/-! ## Seven packets for one budget -/

/-- What the packets cover; the fourth facet is for coverage only. -/
def sampleFacets : List ProductionFacetV1 :=
  [⟨.repeated 1, .validatedQueryIdentifier, ⟨1000000, by decide, by decide⟩⟩,
    ⟨.repeated 2, .queryTerm, ⟨500000, by decide, by decide⟩⟩,
    ⟨.repeated 3, .failureRole, ⟨800000, by decide, by decide⟩⟩,
    ⟨.repeated 4, .timeCoverageStratum, ⟨100000, by decide, by decide⟩⟩,
    ⟨.repeated 5, .providerAttestedGraphRelation, ⟨500000, by decide, by decide⟩⟩]

def sampleAffinity (facet : UInt8) (tenths : Fin 10) : FacetAffinityV1 :=
  ⟨.repeated facet, ⟨(tenths.val + 1) * 100000, by omega, by unfold affinityScaleV1; omega⟩⟩

def samplePacket (byte : UInt8) (tokens : Fin 10) (affinities : List FacetAffinityV1)
    (h : affinities ≠ [] ∧ affinities.length ≤ maxSelectionFacetsV1 ∧
      affinities.Pairwise fun a b => compare a.facetId b.facetId = .lt) : IntactPacketV1 where
  id := .repeated byte
  eventIds := [.repeated byte]
  composableTokenUpperBound := ⟨⟨.repeated 0⟩, tokens.val + 1, Nat.succ_pos _,
    Nat.le_trans tokens.isLt (by decide)⟩
  affinities := affinities
  eventIds_ne := by simp
  eventIds_le := by simp [maxPacketEventsV1]
  eventIds_sorted := List.pairwise_singleton _ _
  affinities_ne := h.1
  affinities_le := h.2.1
  affinities_sorted := h.2.2

def samplePackets : List IntactPacketV1 :=
  [samplePacket 3 7 [sampleAffinity 2 9, sampleAffinity 3 4] (by decide),
    samplePacket 1 2 [sampleAffinity 1 9, sampleAffinity 2 2] (by decide),
    samplePacket 2 1 [sampleAffinity 2 8] (by decide),
    samplePacket 4 0 [sampleAffinity 4 9] (by decide),
    samplePacket 5 2 [sampleAffinity 2 1, sampleAffinity 5 5] (by decide),
    samplePacket 6 3 [sampleAffinity 3 8, sampleAffinity 5 9] (by decide),
    samplePacket 7 2 [sampleAffinity 2 1, sampleAffinity 5 5] (by decide)]

def sampleMandatory : List MandatoryPacketV1 := [⟨.repeated 1, .repeated 1⟩]

/-- The mandatory packet leaves ten tokens for six optional packets of twenty-one. -/
def sampleProblem : Except SelectionProblemConstructionError SelectionProblemV1 :=
  new sampleFacets samplePackets sampleMandatory ⟨14, by decide⟩ ⟨⟨.repeated 0⟩, 1, by decide⟩

/-- For one of the two packets that are alike. -/
def samplePriorities : List OptionalPacketPriorityV1 := [⟨.repeated 7, 1000000⟩]

def sampleOrder : List PacketIdV1 := [.repeated 4, .repeated 3, .repeated 2]

/-- The packets of a selection as they are presented. -/
def presentedIds {ε : Type} : Except ε SelectionDecisionV1 → List PacketIdV1
  | .ok (.selected s) => s.packets.map fun selected => selected.packet.id
  | _ => []

theorem exists_of_presentedIds {ε : Type} {decision : Except ε SelectionDecisionV1}
    {ids : List PacketIdV1} (h : presentedIds decision = ids) (hne : ids ≠ []) :
    ∃ s, decision = .ok (.selected s) ∧
      s.packets.map (fun selected => selected.packet.id) = ids := by
  unfold presentedIds at h
  split at h
  · exact ⟨_, rfl, h⟩
  · exact absurd h.symm hne

/-- The priority decides between the two that are alike; the order leaves no
tokens for the last of its three. -/
theorem sampleProblem_presented : ∃ p, sampleProblem = .ok p ∧
    presentedIds p.select = [.repeated 1, .repeated 6, .repeated 2, .repeated 5, .repeated 4] ∧
    presentedIds (p.selectWithOptionalPriorities samplePriorities) =
      [.repeated 1, .repeated 6, .repeated 2, .repeated 7, .repeated 4] ∧
    presentedIds (p.selectInOptionalOrder sampleOrder) =
      [.repeated 1, .repeated 4, .repeated 3] := by
  have hpresented : (sampleProblem.toOption.any fun p =>
      presentedIds p.select =
          [.repeated 1, .repeated 6, .repeated 2, .repeated 5, .repeated 4] ∧
        presentedIds (p.selectWithOptionalPriorities samplePriorities) =
          [.repeated 1, .repeated 6, .repeated 2, .repeated 7, .repeated 4] ∧
        presentedIds (p.selectInOptionalOrder sampleOrder) =
          [.repeated 1, .repeated 4, .repeated 3]) = true := by
    decide +kernel
  cases hp : sampleProblem with
  | error error => simp [hp, Except.toOption] at hpresented
  | ok p =>
      rw [hp] at hpresented
      exact ⟨p, rfl, of_decide_eq_true hpresented⟩

theorem selection_sound_sample : ∃ p s s' s'', sampleProblem = .ok p ∧
    (p.select = .ok (.selected s) ∧ p.Sound s) ∧
    (p.selectWithOptionalPriorities samplePriorities = .ok (.selected s') ∧ p.Sound s') ∧
    p.selectInOptionalOrder sampleOrder = .ok (.selected s'') ∧ p.Sound s'' := by
  obtain ⟨p, hp, hplain, hassisted, hordered⟩ := sampleProblem_presented
  obtain ⟨s, hs, _⟩ := exists_of_presentedIds hplain (by simp)
  obtain ⟨s', hs', _⟩ := exists_of_presentedIds hassisted (by simp)
  obtain ⟨s'', hs'', _⟩ := exists_of_presentedIds hordered (by simp)
  obtain ⟨hselect, hpriorities, horder⟩ := selection_sound hp
  have hpriorities := hpriorities samplePriorities
  have horder := horder sampleOrder
  refine ⟨p, s, s', s'', hp, ⟨hs, ?_⟩, ⟨hs', ?_⟩, hs'', ?_⟩
  · obtain ⟨decision, hdecision, hsound⟩ := hselect
    cases hs.symm.trans hdecision
    exact hsound
  · split at hpriorities
    · cases hs'.symm.trans hpriorities.2
    · obtain ⟨decision, hdecision, hsound⟩ := hpriorities
      cases hs'.symm.trans hdecision
      exact hsound
  · split at horder
    · cases hs''.symm.trans horder.2
    · obtain ⟨decision, hdecision, hsound⟩ := horder
      cases hs''.symm.trans hdecision
      exact hsound

end SelectionProblemV1

end Evidentrail
