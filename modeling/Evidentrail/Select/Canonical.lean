import Evidentrail.Select.Relabel

/-!
# Selection is canonical

Step by step the selection of the renamed problem is the renamed selection. With
`new_perm` and `new_rename` this says that a decision depends neither on the
order of the input nor on the labels in it.
-/

namespace Evidentrail

open Rust Std Slice Argmax

namespace SelectionProblemV1

variable {r : PacketIdV1 → PacketIdV1} {p : SelectionProblemV1}

/-! ## Facets and gains -/

theorem applyFacetAffinity_rename (coverage : Coverage p.facets.length)
    (affinity : FacetAffinityV1) :
    (p.rename r).applyFacetAffinity coverage affinity = p.applyFacetAffinity coverage affinity := by
  have hindex : (p.rename r).facetIndex affinity.facetId = p.facetIndex affinity.facetId := rfl
  simp only [applyFacetAffinity, hindex]
  cases p.facetIndex affinity.facetId <;> rfl

theorem applyPacket_rename (coverage : Coverage p.facets.length) (packet : IntactPacketV1) :
    (p.rename r).applyPacket coverage (packet.rename r) = p.applyPacket coverage packet := by
  have hstep : (p.rename r).applyFacetAffinity = p.applyFacetAffinity := by
    funext coverage affinity
    exact applyFacetAffinity_rename (p := p) coverage affinity
  rw [applyPacket, hstep]
  rfl

theorem scoreAffinities_rename (coverage : Coverage p.facets.length) (gain : Nat)
    (hasPrimaryGain : Bool) (affinities : List FacetAffinityV1) :
    (p.rename r).scoreAffinities coverage gain hasPrimaryGain affinities =
      p.scoreAffinities coverage gain hasPrimaryGain affinities := by
  induction affinities generalizing gain hasPrimaryGain with
  | nil => rfl
  | cons affinity rest ih =>
      have hindex : (p.rename r).facetIndex affinity.facetId = p.facetIndex affinity.facetId := rfl
      simp only [scoreAffinities, hindex]
      cases p.facetIndex affinity.facetId with
      | none => rfl
      | some index =>
          have hcardinality : (p.rename r).cardinality index = p.cardinality index := rfl
          simp only [hcardinality, ih]

theorem marginalScore_rename (coverage : Coverage p.facets.length) (packet : IntactPacketV1) :
    (p.rename r).marginalScore coverage (packet.rename r) = p.marginalScore coverage packet := by
  have haffinities : (packet.rename r).affinities = packet.affinities := rfl
  simp only [marginalScore, scoreAffinities_rename, haffinities]

theorem take_rename (s : Spending p.facets.length) (packet : IntactPacketV1) (gain : Nat)
    (coverageOnly : Bool) :
    (p.rename r).take s (packet.rename r) gain coverageOnly =
      p.take s packet gain coverageOnly := by
  simp only [take, applyPacket_rename, IntactPacketV1.cost_rename]

/-! ## Places -/

/-- The place of a packet in the renamed problem. -/
abbrev placed (p : SelectionProblemV1) (r : PacketIdV1 → PacketIdV1) :
    Fin p.packets.length → Fin (p.rename r).packets.length :=
  place p.packets r

theorem getElem_placed (i : Fin p.packets.length) :
    (p.rename r).packets.get (p.placed r i) = (p.packets.get i).rename r :=
  getElem_place i

theorem finRange_rename : List.finRange (p.rename r).packets.length =
    (List.finRange p.packets.length).map (p.placed r) := by
  refine List.ext_getElem (by simp [rename]) fun i _ _ => ?_
  rw [List.getElem_map, List.getElem_finRange, List.getElem_finRange]
  rfl

theorem isMandatory_rename (hr : Function.Injective r) (id : PacketIdV1) :
    (p.rename r).isMandatory (r id) = p.isMandatory id := by
  rw [isMandatory, isMandatory, rename, List.any_map]
  congr 1
  funext entry
  simp [hr.eq_iff]

theorem packetIndex_rename (hr : Function.Injective r) (wf : p.WellFormed)
    (wf' : (p.rename r).WellFormed) (id : PacketIdV1) :
    (p.rename r).packetIndex (r id) = (p.packetIndex id).map (p.placed r) := by
  refine Option.ext fun j => ?_
  obtain ⟨i, rfl⟩ := exists_place j
  rw [wf'.packetIndex_eq_some, Option.map_eq_some_iff]
  have hid : ((p.rename r).packets.get (place p.packets r i)).id = r (p.packets.get i).id :=
    congrArg IntactPacketV1.id (getElem_placed i)
  rw [hid]
  constructor
  · intro heq
    exact ⟨i, wf.packetIndex_eq_some.mpr (hr heq), rfl⟩
  · rintro ⟨j, hj, hplace⟩
    obtain rfl : j = i := place_inj hplace
    exact congrArg r (wf.packetIndex_eq_some.mp hj)

theorem applyMandatory_rename (hr : Function.Injective r) (wf : p.WellFormed)
    (wf' : (p.rename r).WellFormed) : (p.rename r).mandatoryCoverage = p.mandatoryCoverage := by
  rw [mandatoryCoverage, mandatoryCoverage,
    show (p.rename r).mandatory = p.mandatory.map (MandatoryPacketV1.rename r) from rfl,
    List.foldl_map]
  congr 1
  funext coverage entry
  rw [MandatoryPacketV1.packetId_rename, packetIndex_rename hr wf wf']
  cases p.packetIndex entry.packetId with
  | none => rfl
  | some index =>
      rw [Option.map_some]
      dsimp only
      rw [getElem_placed, applyPacket_rename]

/-! ## Scans -/

/-- Priorities for the renamed packets. -/
def SamePriorities (r : PacketIdV1 → PacketIdV1) (m m' : ExtTreeMap PacketIdV1 Nat) : Prop :=
  ∀ id : PacketIdV1, m'[r id]? = m[id]?

section Scans

variable {m m' : ExtTreeMap PacketIdV1 Nat} {coverage : Coverage p.facets.length}
  {excluded : Fin p.packets.length → Bool} {excluded' : Fin (p.rename r).packets.length → Bool}
  {budget coverageBudget : Nat}

theorem priorityBonusV1_rename (hm : SamePriorities r m m') (id : PacketIdV1) (gain : Nat) :
    priorityBonusV1 (r id) gain m' = priorityBonusV1 id gain m := by
  rw [priorityBonusV1, hm id, priorityBonusV1]

theorem candidate?_rename (hm : SamePriorities r m m')
    (hexcluded : ∀ i, excluded' (p.placed r i) = excluded i) (i : Fin p.packets.length) :
    (p.rename r).candidate? coverage excluded' budget coverageBudget m' (p.placed r i) =
      (p.candidate? coverage excluded budget coverageBudget m i).map (.move (p.placed r)) := by
  unfold candidate?
  rw [hexcluded, getElem_placed, marginalScore_rename, IntactPacketV1.cost_rename]
  split
  · rfl
  · cases p.marginalScore coverage (p.packets.get i) with
    | error fault => rfl
    | ok marginal =>
        dsimp only
        split
        · rfl
        · rw [show ((p.packets.get i).rename r).id = r (p.packets.get i).id from rfl,
            priorityBonusV1_rename hm]
          rfl

theorem candidates_rename (hm : SamePriorities r m m')
    (hexcluded : ∀ i, excluded' (p.placed r i) = excluded i) :
    (p.rename r).candidates coverage excluded' budget coverageBudget m' =
      (p.candidates coverage excluded budget coverageBudget m).map (.move (p.placed r)) := by
  rw [candidates, finRange_rename, List.filterMap_map, candidates, List.map_filterMap]
  congr 1
  funext i
  exact candidate?_rename hm hexcluded i

theorem singleCandidateIsBetter_rename (a b : ScoredCandidate p.packets.length) :
    singleCandidateIsBetter (a.move (p.placed r)) (b.move (p.placed r)) =
      singleCandidateIsBetter a b := by
  have hcost : ∀ c : ScoredCandidate p.packets.length,
      ((p.rename r).packets.get (c.move (p.placed r)).packetIndex).cost =
        (p.packets.get c.packetIndex).cost := fun c =>
    (congrArg IntactPacketV1.cost (getElem_placed (r := r) c.packetIndex) :)
  simp only [singleCandidateIsBetter, hcost]
  rfl

theorem densityCandidateIsBetter_rename (a b : ScoredCandidate p.packets.length) :
    densityCandidateIsBetter (a.move (p.placed r)) (b.move (p.placed r)) =
      densityCandidateIsBetter a b := by
  have hcost : ∀ c : ScoredCandidate p.packets.length,
      ((p.rename r).packets.get (c.move (p.placed r)).packetIndex).cost =
        (p.packets.get c.packetIndex).cost := fun c =>
    (congrArg IntactPacketV1.cost (getElem_placed (r := r) c.packetIndex) :)
  simp only [densityCandidateIsBetter, hcost]
  rfl

theorem scanCandidates_rename (wf : p.WellFormed) (wf' : (p.rename r).WellFormed)
    (hm : SamePriorities r m m') (hexcluded : ∀ i, excluded' (p.placed r i) = excluded i)
    {isBetter : ScoredCandidate p.packets.length → ScoredCandidate p.packets.length → Bool}
    {isBetter' : ScoredCandidate (p.rename r).packets.length →
      ScoredCandidate (p.rename r).packets.length → Bool}
    (hbetter : ∀ a b, isBetter' (a.move (p.placed r)) (b.move (p.placed r)) = isBetter a b) :
    (p.rename r).scanCandidates coverage excluded' budget coverageBudget m' isBetter' =
      (p.scanCandidates coverage excluded budget coverageBudget m isBetter).map
        (Option.map (.move (p.placed r))) := by
  rw [scanCandidates_eq wf', scanCandidates_eq wf, candidates_rename hm hexcluded, Except.map]
  exact congrArg _ (foldl_pick_map hbetter _ none)

end Scans

/-! ## Greedy packing -/

/-- The place of a packet before the renaming. -/
abbrev unplaced (p : SelectionProblemV1) (r : PacketIdV1 → PacketIdV1) :
    Fin (p.rename r).packets.length → Fin p.packets.length :=
  Fin.cast (List.length_map _)

theorem update_unplaced (chosen : Fin p.packets.length → Bool) (i : Fin p.packets.length) :
    Function.update (chosen ∘ p.unplaced r) (p.placed r i) true =
      Function.update chosen i true ∘ p.unplaced r := by
  funext j
  obtain ⟨k, rfl⟩ := exists_place j
  rw [Function.comp_apply, Function.update_apply, Function.update_apply, Function.comp_apply]
  have hsame : p.unplaced r (place p.packets r k) = k := rfl
  rw [hsame]
  by_cases hk : k = i
  · rw [if_pos hk, if_pos (congrArg _ hk)]
  · rw [if_neg hk, if_neg fun h => hk (place_inj h)]

theorem chooseMandatory_rename (hr : Function.Injective r) (wf : p.WellFormed)
    (wf' : (p.rename r).WellFormed) (entries : List MandatoryPacketV1)
    (chosen : Fin p.packets.length → Bool) :
    (p.rename r).chooseMandatory (chosen ∘ p.unplaced r)
        (entries.map (MandatoryPacketV1.rename r)) =
      (p.chooseMandatory chosen entries).map (· ∘ p.unplaced r) := by
  induction entries generalizing chosen with
  | nil => rfl
  | cons entry rest ih =>
      rw [List.map_cons, chooseMandatory, MandatoryPacketV1.packetId_rename,
        packetIndex_rename hr wf wf', chooseMandatory]
      cases p.packetIndex entry.packetId with
      | none => rfl
      | some index =>
          rw [Option.map_some]
          dsimp only
          rw [update_unplaced, ih]

section Packing

variable {m m' : ExtTreeMap PacketIdV1 Nat}

theorem greedyLoop_rename (wf : p.WellFormed) (wf' : (p.rename r).WellFormed)
    (hm : SamePriorities r m m') (fuel : Nat) (s : Spending p.facets.length)
    (chosen : Fin p.packets.length → Bool) (items : List (Fin p.packets.length)) :
    (p.rename r).greedyLoop m' fuel s (chosen ∘ p.unplaced r) (items.map (p.placed r)) =
      (p.greedyLoop m fuel s chosen items).map fun result =>
        (result.1, result.2.map (p.placed r)) := by
  induction fuel generalizing s chosen items with
  | zero => rfl
  | succ fuel ih =>
      have hscan : (p.rename r).scanCandidates s.coverage (chosen ∘ p.unplaced r) s.remaining
          s.remainingCoverageOnly m' densityCandidateIsBetter =
            (p.scanCandidates s.coverage chosen s.remaining s.remainingCoverageOnly m
              densityCandidateIsBetter).map (Option.map (.move (p.placed r))) :=
        scanCandidates_rename wf wf' hm (fun _ => rfl) densityCandidateIsBetter_rename
      rw [greedyLoop, greedyLoop, hscan]
      cases p.scanCandidates s.coverage chosen s.remaining s.remainingCoverageOnly m
          densityCandidateIsBetter with
      | error fault => rfl
      | ok found =>
          cases found with
          | none => rfl
          | some best =>
              have htake : (p.rename r).take s
                  ((p.rename r).packets.get (best.move (p.placed r)).packetIndex)
                    (best.move (p.placed r)).gain (best.move (p.placed r)).coverageOnly =
                  p.take s (p.packets.get best.packetIndex) best.gain best.coverageOnly := by
                have hpacket := getElem_placed (r := r) best.packetIndex
                exact (congrArg (fun packet => (p.rename r).take s packet best.gain
                  best.coverageOnly) hpacket).trans (take_rename s _ _ _)
              simp only [Except.map, Option.map_some, htake]
              cases p.take s (p.packets.get best.packetIndex) best.gain best.coverageOnly with
              | error fault => rfl
              | ok s' =>
                  have hstep := ih s' (Function.update chosen best.packetIndex true)
                    (items ++ [best.packetIndex])
                  rw [← update_unplaced, List.map_append] at hstep
                  exact hstep

theorem densityGreedy_rename (hr : Function.Injective r) (wf : p.WellFormed)
    (wf' : (p.rename r).WellFormed) (hm : SamePriorities r m m')
    (baseline : Coverage p.facets.length) (optionalBudget coverageOnlyTokenLimit : Nat) :
    (p.rename r).densityGreedy baseline optionalBudget coverageOnlyTokenLimit m' =
      (p.densityGreedy baseline optionalBudget coverageOnlyTokenLimit m).map
        (.move (p.placed r)) := by
  have hchoose := chooseMandatory_rename hr wf wf' p.mandatory fun _ => false
  have hnone : ((fun _ => false) ∘ p.unplaced r : Fin (p.rename r).packets.length → Bool) =
      fun _ => false := rfl
  rw [hnone] at hchoose
  have hlength : (p.rename r).packets.length = p.packets.length := List.length_map _
  rw [densityGreedy, hchoose, densityGreedy]
  cases p.chooseMandatory (fun _ => false) p.mandatory with
  | error fault => rfl
  | ok chosen =>
      have hloop := greedyLoop_rename wf wf' hm (p.packets.length + 1)
        ⟨baseline, optionalBudget, coverageOnlyTokenLimit, 0, 0, 0⟩ chosen []
      rw [List.map_nil] at hloop
      simp only [Except.map, hlength, hloop]
      cases p.greedyLoop m (p.packets.length + 1)
          ⟨baseline, optionalBudget, coverageOnlyTokenLimit, 0, 0, 0⟩ chosen [] with
      | error fault => rfl
      | ok result =>
          obtain ⟨s, items⟩ := result
          simp only [CandidatePlan.move, List.map_eq_nil_iff]

theorem bestSingle_rename (hr : Function.Injective r) (wf : p.WellFormed)
    (wf' : (p.rename r).WellFormed) (hm : SamePriorities r m m')
    (baseline : Coverage p.facets.length) (optionalBudget coverageOnlyTokenLimit : Nat) :
    (p.rename r).bestSingle baseline optionalBudget coverageOnlyTokenLimit m' =
      (p.bestSingle baseline optionalBudget coverageOnlyTokenLimit m).map
        (Option.map (.move (p.placed r))) := by
  have hexcluded : ∀ i, (p.rename r).isMandatory ((p.rename r).packets.get (p.placed r i)).id =
      p.isMandatory (p.packets.get i).id := by
    intro i
    rw [getElem_placed]
    exact isMandatory_rename hr _
  rw [bestSingle, bestSingle, scanCandidates_rename wf wf' hm hexcluded
    singleCandidateIsBetter_rename]
  cases p.scanCandidates baseline (fun index => p.isMandatory (p.packets.get index).id)
      optionalBudget coverageOnlyTokenLimit m singleCandidateIsBetter with
  | error fault => rfl
  | ok found =>
      cases found with
      | none => rfl
      | some best =>
          have hcost : ((p.rename r).packets.get (best.move (p.placed r)).packetIndex).cost =
              (p.packets.get best.packetIndex).cost :=
            (congrArg IntactPacketV1.cost (getElem_placed (r := r) best.packetIndex) :)
          simp only [Except.map, Option.map_some, hcost]
          rfl

end Packing

/-! ## Presentation -/

theorem planIsBetter_move (a b : CandidatePlan p.packets.length) :
    planIsBetter (a.move (p.placed r)) (b.move (p.placed r)) = planIsBetter a b := by
  have hvalues : ∀ plan : CandidatePlan p.packets.length,
      (plan.move (p.placed r)).items.map Fin.val = plan.items.map Fin.val := by
    intro plan
    rw [CandidatePlan.move, List.map_map]
    rfl
  simp only [planIsBetter, hvalues]
  rfl

theorem choosePlan_move (greedy : CandidatePlan p.packets.length)
    (single : Option (CandidatePlan p.packets.length)) :
    choosePlan (greedy.move (p.placed r)) (single.map (.move (p.placed r))) =
      (choosePlan greedy single).move (p.placed r) := by
  cases single with
  | none => rfl
  | some single =>
      simp only [choosePlan, Option.map_some, planIsBetter_move]
      split <;> rfl

theorem presentedPacket_rename (packet : IntactPacketV1) (marginalGain : Nat)
    (constraint : SelectionConstraintV1) :
    (p.rename r).presentedPacket (packet.rename r) marginalGain constraint =
      (p.presentedPacket packet marginalGain constraint).map (SelectedPacketV1.rename r) := by
  have hkinds : (p.rename r).packetFacetKinds (packet.rename r) = p.packetFacetKinds packet := rfl
  rw [presentedPacket, hkinds, presentedPacket]
  cases p.packetFacetKinds packet <;> rfl

theorem presentMandatory_rename (hr : Function.Injective r) (wf : p.WellFormed)
    (wf' : (p.rename r).WellFormed) (entries : List MandatoryPacketV1) :
    (p.rename r).presentMandatory (entries.map (MandatoryPacketV1.rename r)) =
      (p.presentMandatory entries).map (List.map (SelectedPacketV1.rename r)) := by
  induction entries with
  | nil => rfl
  | cons entry rest ih =>
      rw [List.map_cons, presentMandatory, MandatoryPacketV1.packetId_rename,
        packetIndex_rename hr wf wf', ih, presentMandatory]
      cases p.packetIndex entry.packetId with
      | none => rfl
      | some index =>
          simp only [Option.map_some, okOr, except_bind_ok,
            MandatoryPacketV1.validatedIdentifierFacetId_rename]
          rw [getElem_placed, presentedPacket_rename]
          cases p.presentedPacket (p.packets.get index) 0
              (.mandatoryValidatedIdentifier entry.validatedIdentifierFacetId) with
          | error fault => rfl
          | ok selected => cases p.presentMandatory rest <;> rfl

theorem presentationItems_rename (items : List (Fin p.packets.length)) :
    (p.rename r).presentationItems (items.map (p.placed r)) =
      (p.presentationItems items).map (p.placed r) := by
  have hpriority : ∀ i, (p.rename r).packetPresentationPriority
      ((p.rename r).packets.get (p.placed r i)) =
        p.packetPresentationPriority (p.packets.get i) := by
    intro i
    rw [getElem_placed]
    rfl
  rw [presentationItems, presentationItems, List.map_map, List.zipIdx_map]
  rw [← List.map_insertionSort (fun a b => (compareLex
      (compareOn fun x : Fin p.packets.length × Nat =>
        p.packetPresentationPriority (p.packets.get x.1))
      (compareOn Prod.snd) a b).isLE = true) _ (Prod.map (p.placed r) id), List.map_map]
  · rfl
  · intro a _ b _
    simp only [compareLex, compareOn, Prod.map_fst, Prod.map_snd, hpriority, id_eq]

theorem presentItems_rename (strategy : SelectionStrategyV1)
    (items : List (Fin p.packets.length)) (coverage : Coverage p.facets.length)
    (totalGain : Nat) :
    (p.rename r).presentItems strategy coverage totalGain (items.map (p.placed r)) =
      (p.presentItems strategy coverage totalGain items).map fun result =>
        (result.1, result.2.map (SelectedPacketV1.rename r)) := by
  induction items generalizing coverage totalGain with
  | nil => rfl
  | cons index rest ih =>
      rw [List.map_cons, presentItems, getElem_placed, marginalScore_rename, applyPacket_rename,
        presentItems]
      cases planConstraint strategy with
      | error fault => rfl
      | ok constraint =>
          simp only [except_bind_ok]
          cases orViolation (p.marginalScore coverage (p.packets.get index)) with
          | error fault => rfl
          | ok marginal =>
              simp only [except_bind_ok]
              cases okOr violation (checkedAdd totalGain marginal.gain) with
              | error fault => rfl
              | ok totalGain =>
                  simp only [except_bind_ok, presentedPacket_rename, ih]
                  cases p.presentedPacket (p.packets.get index) marginal.gain constraint with
                  | error fault => rfl
                  | ok selected =>
                      cases p.presentItems strategy (p.applyPacket coverage (p.packets.get index))
                        totalGain rest <;> rfl

/-! ## Selection -/

theorem presentPlan_rename (hr : Function.Injective r) (wf : p.WellFormed)
    (wf' : (p.rename r).WellFormed) (baseline : Coverage p.facets.length)
    (coverageOnlyTokenLimit : Nat) (chosen : CandidatePlan p.packets.length) :
    (p.rename r).presentPlan baseline coverageOnlyTokenLimit (chosen.move (p.placed r)) =
      (p.presentPlan baseline coverageOnlyTokenLimit chosen).map fun s =>
        { s with packets := s.packets.map (SelectedPacketV1.rename r) } := by
  have haccount : ∀ cost, (p.rename r).account cost = p.account cost := fun _ => rfl
  rw [presentPlan, presentMandatory_rename hr wf wf', presentPlan]
  cases p.presentMandatory p.mandatory with
  | error fault => rfl
  | ok mandatoryPackets =>
      have hitems : (p.rename r).presentItems (chosen.move (p.placed r)).strategy baseline 0
          ((p.rename r).presentationItems (chosen.move (p.placed r)).items) =
            (p.presentItems chosen.strategy baseline 0 (p.presentationItems chosen.items)).map
              fun result => (result.1, result.2.map (SelectedPacketV1.rename r)) := by
        have hplaces := presentationItems_rename (r := r) chosen.items
        exact (congrArg ((p.rename r).presentItems chosen.strategy baseline 0) hplaces).trans
          (presentItems_rename chosen.strategy _ baseline 0)
      rw [hitems]
      simp only [Except.map, except_bind_ok]
      cases p.presentItems chosen.strategy baseline 0 (p.presentationItems chosen.items) with
      | error fault => rfl
      | ok result =>
          obtain ⟨presentationTotalGain, optionalPackets⟩ := result
          have hgain : (chosen.move (p.placed r)).totalGain = chosen.totalGain := rfl
          simp only [except_bind_ok, hgain]
          split
          · rfl
          · have hcost : (chosen.move (p.placed r)).tokenCost = chosen.tokenCost := rfl
            rw [hcost]
            cases okOr violation (checkedAdd p.mandatoryCost chosen.tokenCost) with
            | error fault => rfl
            | ok selectedPacketCost =>
                simp only [except_bind_ok, haccount]
                cases p.account selectedPacketCost with
                | error fault => rfl
                | ok accounted =>
                    simp only [except_bind_ok, ← List.map_append]
                    rfl

theorem selectWithPriorityMap_rename (hr : Function.Injective r) (wf : p.WellFormed)
    (wf' : (p.rename r).WellFormed) {m m' : ExtTreeMap PacketIdV1 Nat}
    (hm : SamePriorities r m m') :
    (p.rename r).selectWithPriorityMap m' =
      (p.selectWithPriorityMap m).map (SelectionDecisionV1.rename r) := by
  have hbudget : (p.rename r).optionalBudget = p.optionalBudget := by
    have hneedsMore : ∀ reason, (p.rename r).needsMore reason = p.needsMore reason := by
      intro reason
      rw [needsMore, needsMore, List.length_map]
    simp only [optionalBudget, hneedsMore]
  have hbaseline : (p.rename r).mandatoryCoverage = p.mandatoryCoverage :=
    applyMandatory_rename hr wf wf'
  rw [selectWithPriorityMap, hbudget, selectWithPriorityMap]
  cases p.optionalBudget with
  | error more => rfl
  | ok budget =>
      dsimp only
      rw [hbaseline, densityGreedy_rename hr wf wf' hm, bestSingle_rename hr wf wf' hm]
      cases p.densityGreedy p.mandatoryCoverage budget
          (budget / coverageOnlyOptionalBudgetDenominatorV1) m with
      | error fault => rfl
      | ok greedy =>
          cases p.bestSingle p.mandatoryCoverage budget
              (budget / coverageOnlyOptionalBudgetDenominatorV1) m with
          | error fault => rfl
          | ok single =>
              simp only [Except.map, except_bind_ok]
              rw [choosePlan_move, presentPlan_rename hr wf wf']
              cases p.presentPlan p.mandatoryCoverage
                (budget / coverageOnlyOptionalBudgetDenominatorV1) (choosePlan greedy single) <;>
                rfl

/-! ## Priorities -/

theorem SamePriorities.mem_iff {m m' : ExtTreeMap PacketIdV1 Nat} (hm : SamePriorities r m m')
    (id : PacketIdV1) : r id ∈ m' ↔ id ∈ m := by
  rw [ExtTreeMap.mem_iff_isSome_getElem?, hm id, ← ExtTreeMap.mem_iff_isSome_getElem?]

theorem SamePriorities.insert {m m' : ExtTreeMap PacketIdV1 Nat} (hr : Function.Injective r)
    (hm : SamePriorities r m m') (id : PacketIdV1) (affinity : Nat) :
    SamePriorities r (m.insert id affinity) (m'.insert (r id) affinity) := by
  intro other
  rw [getElem?_insert, getElem?_insert, hm other]
  by_cases heq : id = other
  · rw [if_pos heq, if_pos (congrArg r heq)]
  · rw [if_neg heq, if_neg fun h => heq (hr h)]

/-- The entry checks refuse both lists alike, or make priorities for the same packets. -/
theorem admitPriorities_rename (hr : Function.Injective r) (wf : p.WellFormed)
    (wf' : (p.rename r).WellFormed) (priorities : List OptionalPacketPriorityV1)
    {m m' : ExtTreeMap PacketIdV1 Nat} (hm : SamePriorities r m m') (hsize : m'.size = m.size) :
    (∃ error, p.admitPriorities m priorities = .error error ∧
      (p.rename r).admitPriorities m' (priorities.map (OptionalPacketPriorityV1.rename r)) =
        .error error) ∨
    ∃ n n', p.admitPriorities m priorities = .ok n ∧
      (p.rename r).admitPriorities m' (priorities.map (OptionalPacketPriorityV1.rename r)) =
        .ok n' ∧ SamePriorities r n n' := by
  induction priorities generalizing m m' with
  | nil => exact .inr ⟨m, m', rfl, rfl, hm⟩
  | cons priority rest ih =>
      have hid : (priority.rename r).packetId = r priority.packetId := rfl
      have haffinity : (priority.rename r).affinityMicros = priority.affinityMicros := rfl
      have hunknown : ((p.packetIndex priority.packetId).map (p.placed r)).isNone =
          (p.packetIndex priority.packetId).isNone := Option.isNone_map
      simp only [List.map_cons, admitPriorities, hid, haffinity, hsize, List.length_map,
        isMandatory_rename hr, packetIndex_rename hr wf wf', hunknown, hm.mem_iff]
      split
      · exact .inl ⟨_, rfl, rfl⟩
      split
      · exact .inl ⟨_, rfl, rfl⟩
      split
      · exact .inl ⟨_, rfl, rfl⟩
      split
      · exact .inl ⟨_, rfl, rfl⟩
      split
      · exact .inl ⟨_, rfl, rfl⟩
      · rename_i hfresh
        refine ih (hm.insert hr _ _) ?_
        simp only [ExtTreeMap.size_insert, ExtTreeMap.contains_iff_mem, hm.mem_iff, if_neg hfresh,
          hsize]

theorem selectWithOptionalPriorities_rename (hr : Function.Injective r) (wf : p.WellFormed)
    (wf' : (p.rename r).WellFormed) (priorities : List OptionalPacketPriorityV1) :
    (p.rename r).selectWithOptionalPriorities
        (priorities.map (OptionalPacketPriorityV1.rename r)) =
      (p.selectWithOptionalPriorities priorities).map (SelectionDecisionV1.rename r) := by
  have hempty : SamePriorities r ∅ ∅ := fun _ => rfl
  unfold selectWithOptionalPriorities
  obtain ⟨error, hfirst, hsecond⟩ | ⟨n, n', hfirst, hsecond, hsame⟩ :=
    admitPriorities_rename hr wf wf' priorities hempty rfl
  · rw [hfirst, hsecond]
    rfl
  · rw [hfirst, hsecond]
    dsimp only
    rw [selectWithPriorityMap_rename hr wf wf' hsame]
    cases p.selectWithPriorityMap n <;> rfl

/-! ## The order and the labels -/

/-- A selection depends neither on the order of facets, packets and mandatory
entries nor on the packets' ids: it is made on one order exactly if it is made
on another, the decisions are then the same, and renamed ids give the renamed
decision. -/
theorem select_canonical {facets facets' : List ProductionFacetV1}
    {packets packets' : List IntactPacketV1} {mandatory mandatory' : List MandatoryPacketV1}
    (totalTokenBudget : TotalTokenBudgetV1) (reservedFixedOverhead : ReservedFixedOverheadV1)
    (hfacets : facets.Perm facets') (hpackets : packets.Perm packets')
    (hmandatory : mandatory.Perm mandatory') :
    ((∃ p, new facets packets mandatory totalTokenBudget reservedFixedOverhead = .ok p) ↔
      ∃ p', new facets' packets' mandatory' totalTokenBudget reservedFixedOverhead = .ok p') ∧
    ∀ p, new facets packets mandatory totalTokenBudget reservedFixedOverhead = .ok p →
      (∀ p', new facets' packets' mandatory' totalTokenBudget reservedFixedOverhead = .ok p' →
        p'.select = p.select ∧ ∀ priorities,
          p'.selectWithOptionalPriorities priorities =
            p.selectWithOptionalPriorities priorities) ∧
      ∀ r : PacketIdV1 → PacketIdV1, Function.Injective r →
        ∃ q, new facets (packets.map (IntactPacketV1.rename r))
            (mandatory.map (MandatoryPacketV1.rename r)) totalTokenBudget reservedFixedOverhead =
              .ok q ∧
          q.select = p.select.map (SelectionDecisionV1.rename r) ∧
          ∀ priorities, q.selectWithOptionalPriorities
              (priorities.map (OptionalPacketPriorityV1.rename r)) =
            (p.selectWithOptionalPriorities priorities).map (SelectionDecisionV1.rename r) := by
  refine ⟨⟨fun ⟨p, h⟩ => ⟨p, new_perm hfacets hpackets hmandatory h⟩, fun ⟨p, h⟩ =>
    ⟨p, new_perm hfacets.symm hpackets.symm hmandatory.symm h⟩⟩, fun p h => ⟨?_, ?_⟩⟩
  · intro p' h'
    have hsame : p' = p :=
      Except.ok.inj (h'.symm.trans (new_perm hfacets hpackets hmandatory h))
    rw [hsame]
    exact ⟨rfl, fun _ => rfl⟩
  · intro r hr
    have hrenamed := new_rename hr h
    have wf := new_wellFormed h
    have wf' := new_wellFormed hrenamed
    exact ⟨p.rename r, hrenamed, selectWithPriorityMap_rename hr wf wf' fun _ => rfl,
      selectWithOptionalPriorities_rename hr wf wf'⟩

/-- The sample the other way round, and with two of its packets' ids exchanged. -/
theorem select_canonical_sample :
    let r := Equiv.swap (HashId.repeated 2) (HashId.repeated 7)
    ∃ p p' q, sampleProblem = .ok p ∧
      new sampleFacets.reverse samplePackets.reverse sampleMandatory ⟨14, by decide⟩
        ⟨⟨.repeated 0⟩, 1, by decide⟩ = .ok p' ∧
      new sampleFacets (samplePackets.map (IntactPacketV1.rename r))
        (sampleMandatory.map (MandatoryPacketV1.rename r)) ⟨14, by decide⟩
        ⟨⟨.repeated 0⟩, 1, by decide⟩ = .ok q ∧
      p'.select = p.select ∧
      p'.selectWithOptionalPriorities samplePriorities =
        p.selectWithOptionalPriorities samplePriorities ∧
      q.select = p.select.map (SelectionDecisionV1.rename r) ∧
      q.selectWithOptionalPriorities (samplePriorities.map (OptionalPacketPriorityV1.rename r)) =
        (p.selectWithOptionalPriorities samplePriorities).map (SelectionDecisionV1.rename r) := by
  intro r
  obtain ⟨p, hp, _⟩ := sampleProblem_presented
  obtain ⟨hboth, hsame⟩ := select_canonical ⟨14, by decide⟩ ⟨⟨.repeated 0⟩, 1, by decide⟩
    (List.reverse_perm sampleFacets).symm (List.reverse_perm samplePackets).symm
    (List.Perm.refl sampleMandatory)
  obtain ⟨p', hp'⟩ := hboth.mp ⟨p, hp⟩
  obtain ⟨hreversed, hrenamed⟩ := hsame p hp
  obtain ⟨q, hq, hselect, hpriorities⟩ := hrenamed r r.injective
  obtain ⟨hselect', hpriorities'⟩ := hreversed p' hp'
  exact ⟨p, p', q, hp, hp', hq, hselect', hpriorities' _, hselect, hpriorities _⟩

end SelectionProblemV1

end Evidentrail
