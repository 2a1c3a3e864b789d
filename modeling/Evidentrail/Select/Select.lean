import Evidentrail.Select.Objective

/-!
# Budgeted selection

Density greedy against the best single packet, and packing in an external
order. Both spend from the same two budgets: what the mandatory packets
leave, and the eighth of it that packets without a primary gain may use.
-/

namespace Evidentrail

open Rust Std Slice

inductive SelectionInvariantError where
  | arithmeticInvariantViolation
deriving DecidableEq

inductive OptionalPacketPriorityErrorV1 where
  | tooManyPriorities
  | duplicatePacket
  | unknownPacket
  | mandatoryPacket
  | affinityOutOfRange
  | selectionInvariant
deriving DecidableEq

inductive OptionalPacketOrderErrorV1 where
  | tooManyPackets
  | duplicatePacket
  | unknownPacket
  | mandatoryPacket
  | selectionInvariant
deriving DecidableEq

/-! ## Decisions -/

inductive NeedsMoreReasonV1 where
  | fixedOverheadExceedsTotalBudget
  | mandatoryCostExceedsAvailablePacketBudget
deriving DecidableEq

structure NeedsMoreSelectionV1 where
  reason : NeedsMoreReasonV1
  reservedFixedOverhead : Nat
  mandatoryCost : Nat
  totalTokenBudget : TotalTokenBudgetV1
  mandatoryPacketCount : Nat
deriving DecidableEq

inductive SelectionStrategyV1 where
  | mandatoryOnly
  | densityGreedy
  | bestSingle
  | externalOrderBudgetPack
deriving DecidableEq

/-- Why one packet is in the chosen set. -/
inductive SelectionConstraintV1 where
  | mandatoryValidatedIdentifier (facetId : FacetIdV1)
  | densityGreedy
  | bestSingle
  | externalOrderBudgetPack
deriving DecidableEq

def SelectionConstraintV1.code : SelectionConstraintV1 → String
  | .mandatoryValidatedIdentifier _ => "mandatory_validated_identifier"
  | .densityGreedy => "density_greedy"
  | .bestSingle => "best_single"
  | .externalOrderBudgetPack => "external_order_budget_pack"

/-- A selected packet; gains are numerators of `ObjectiveGainV1`. -/
structure SelectedPacketV1 where
  packet : IntactPacketV1
  facetKinds : List ProductionFacetKindV1
  marginalGain : Nat
  forcingConstraint : SelectionConstraintV1
deriving DecidableEq

structure SelectionV1 where
  strategy : SelectionStrategyV1
  totalTokenBudget : TotalTokenBudgetV1
  reservedFixedOverhead : ReservedFixedOverheadV1
  mandatoryTokenCost : Nat
  selectedPacketCost : Nat
  accountedTokenUpperBound : Nat
  coverageOnlyTokenLimit : Nat
  coverageOnlyTokenCost : Nat
  normalizedGain : Nat
  packets : List SelectedPacketV1
deriving DecidableEq

inductive SelectionDecisionV1 where
  | selected (selection : SelectionV1)
  | needsMore (needsMore : NeedsMoreSelectionV1)
deriving DecidableEq

structure OptionalPacketPriorityV1 where
  packetId : PacketIdV1
  affinityMicros : Nat
deriving DecidableEq

/-! ## Candidates -/

structure ScoredCandidate (n : Nat) where
  packetIndex : Fin n
  gain : Nat
  priorityBonus : Nat
  coverageOnly : Bool

structure CandidatePlan (n : Nat) where
  strategy : SelectionStrategyV1
  items : List (Fin n)
  totalGain : Nat
  tokenCost : Nat
  coverageOnlyTokenCost : Nat

def optionalPriorityMaxGainDenominatorV1 : Nat := 100000000

/-- The product is a saturating `u128` one, the result clamped to `u64`. -/
def priorityBonusV1 (packetId : PacketIdV1) (marginalGain : Nat)
    (priorities : ExtTreeMap PacketIdV1 Nat) : Nat :=
  let affinity := priorities[packetId]?.getD 0
  let bonus := min (marginalGain * affinity) (2 ^ 128 - 1)
    / optionalPriorityMaxGainDenominatorV1
  (u64TryFrom bonus).getD (u64Bound - 1)

def ScoredCandidate.assistedGain {n : Nat} (c : ScoredCandidate n) : Nat :=
  saturatingAdd c.gain c.priorityBonus

/-- Gain per token, cross-multiplied; ties fall to the assisted gain, the
gain, the lower cost and the earlier packet. -/
def densityCandidateIsBetter {packets : List IntactPacketV1}
    (candidate current : ScoredCandidate packets.length) : Bool :=
  let candidateCost := (packets.get candidate.packetIndex).cost
  let currentCost := (packets.get current.packetIndex).cost
  match compare (candidate.assistedGain * currentCost)
      (current.assistedGain * candidateCost) with
  | .gt => true
  | .lt => false
  | .eq =>
      ((((compare candidate.assistedGain current.assistedGain).then
        (compare candidate.gain current.gain)).then
        (compare currentCost candidateCost)).then
        (compare current.packetIndex.val candidate.packetIndex.val)) = .gt

def singleCandidateIsBetter {packets : List IntactPacketV1}
    (candidate current : ScoredCandidate packets.length) : Bool :=
  ((((compare candidate.assistedGain current.assistedGain).then
    (compare candidate.gain current.gain)).then
    (compare (packets.get current.packetIndex).cost (packets.get candidate.packetIndex).cost)).then
    (compare current.packetIndex.val candidate.packetIndex.val)) = .gt

def planIsBetter {n : Nat} (candidate current : CandidatePlan n) : Bool :=
  match compare candidate.totalGain current.totalGain with
  | .gt => true
  | .lt => false
  | .eq =>
      match compare current.tokenCost candidate.tokenCost with
      | .gt => true
      | .lt => false
      | .eq =>
          let indices (plan : CandidatePlan n) : List Nat :=
            sortByKey (fun index => index) (plan.items.map Fin.val)
          compare (indices candidate) (indices current) = .lt

def facetPresentationPriority : ProductionFacetKindV1 → Nat
  | .validatedQueryIdentifier | .queryTerm | .failureRole | .onsetRole
  | .validatedTypedChange | .providerAttestedGraphRelation => 0
  | .reconstructionRiskCoverage => 1
  | .sourceCoverageStratum | .serviceCoverageStratum | .timeCoverageStratum => 2

namespace SelectionProblemV1

variable (p : SelectionProblemV1)

/-- The defensive error. -/
abbrev violation : Fault SelectionInvariantError := .err .arithmeticInvariantViolation

/-- `ok_or(ArithmeticInvariantViolation)` on a call that may also panic. -/
def orViolation {α : Type} (x : Except (Fault Unit) α) :
    Except (Fault SelectionInvariantError) α :=
  x.mapError (Fault.mapErr fun _ => .arithmeticInvariantViolation)

/-! ## The scan -/

/-- One packet of a scan. `density_greedy` excludes what it has chosen,
`best_single` what is mandatory. -/
def scanCandidate (coverage : Coverage p.facets.length)
    (excluded : Fin p.packets.length → Bool) (budget coverageBudget : Nat)
    (priorities : ExtTreeMap PacketIdV1 Nat)
    (isBetter : ScoredCandidate p.packets.length → ScoredCandidate p.packets.length → Bool)
    (best : Option (ScoredCandidate p.packets.length)) (packetIndex : Fin p.packets.length) :
    Except (Fault SelectionInvariantError) (Option (ScoredCandidate p.packets.length)) :=
  let packet := p.packets.get packetIndex
  if excluded packetIndex || packet.cost > budget then .ok best
  else
    match orViolation (p.marginalScore coverage packet) with
    | .error fault => .error fault
    | .ok marginal =>
        if marginal.gain = 0 || (marginal.coverageOnly && packet.cost > coverageBudget) then
          .ok best
        else
          let candidate := ⟨packetIndex, marginal.gain,
            priorityBonusV1 packet.id marginal.gain priorities, marginal.coverageOnly⟩
          match best with
          | none => .ok (some candidate)
          | some current => .ok (some (if isBetter candidate current then candidate else current))

def scanCandidates (coverage : Coverage p.facets.length)
    (excluded : Fin p.packets.length → Bool) (budget coverageBudget : Nat)
    (priorities : ExtTreeMap PacketIdV1 Nat)
    (isBetter : ScoredCandidate p.packets.length → ScoredCandidate p.packets.length → Bool) :
    Except (Fault SelectionInvariantError) (Option (ScoredCandidate p.packets.length)) :=
  (List.finRange p.packets.length).foldlM
    (p.scanCandidate coverage excluded budget coverageBudget priorities isBetter) none

/-! ## Spending -/

/-- What both packing loops keep besides the packets they took. -/
structure Spending (n : Nat) where
  coverage : Coverage n
  remaining : Nat
  remainingCoverageOnly : Nat
  packetCost : Nat
  coverageOnlyTokenCost : Nat
  totalGain : Nat

/-- Take one packet. The two `-=` have no check in the source. -/
def take (s : Spending p.facets.length) (packet : IntactPacketV1) (gain : Nat)
    (coverageOnly : Bool) :
    Except (Fault SelectionInvariantError) (Spending p.facets.length) := do
  let remaining ← okOr .panicked (checkedSub s.remaining packet.cost)
  let (remainingCoverageOnly, coverageOnlyTokenCost) ←
    if coverageOnly then do
      let remainingCoverageOnly ←
        okOr .panicked (checkedSub s.remainingCoverageOnly packet.cost)
      let coverageOnlyTokenCost ←
        okOr violation (checkedAdd s.coverageOnlyTokenCost packet.cost)
      pure (remainingCoverageOnly, coverageOnlyTokenCost)
    else pure (s.remainingCoverageOnly, s.coverageOnlyTokenCost)
  let packetCost ← okOr violation (checkedAdd s.packetCost packet.cost)
  let totalGain ← okOr violation (checkedAdd s.totalGain gain)
  return {
    remaining, remainingCoverageOnly, packetCost, coverageOnlyTokenCost, totalGain
    coverage := p.applyPacket s.coverage packet }

/-! ## Density greedy -/

def chooseMandatory (chosen : Fin p.packets.length → Bool) :
    List MandatoryPacketV1 →
      Except (Fault SelectionInvariantError) (Fin p.packets.length → Bool)
  | [] => .ok chosen
  | entry :: rest =>
      match p.packetIndex entry.packetId with
      | none => .error violation
      | some index => chooseMandatory (Function.update chosen index true) rest

/-- The greedy loop. Every pass chooses a packet, so one pass more than there
are packets is enough. -/
def greedyLoop (priorities : ExtTreeMap PacketIdV1 Nat) :
    Nat → Spending p.facets.length → (Fin p.packets.length → Bool) →
    List (Fin p.packets.length) →
    Except (Fault SelectionInvariantError)
      (Spending p.facets.length × List (Fin p.packets.length))
  | 0, _, _, _ => .error .diverged
  | fuel + 1, s, chosen, items =>
      match p.scanCandidates s.coverage chosen s.remaining s.remainingCoverageOnly priorities
          densityCandidateIsBetter with
      | .error fault => .error fault
      | .ok none => .ok (s, items)
      | .ok (some best) =>
          match p.take s (p.packets.get best.packetIndex) best.gain best.coverageOnly with
          | .error fault => .error fault
          | .ok s =>
              greedyLoop priorities fuel s (Function.update chosen best.packetIndex true)
                (items ++ [best.packetIndex])

def densityGreedy (baseline : Coverage p.facets.length)
    (optionalBudget coverageOnlyTokenLimit : Nat) (priorities : ExtTreeMap PacketIdV1 Nat) :
    Except (Fault SelectionInvariantError) (CandidatePlan p.packets.length) :=
  match p.chooseMandatory (fun _ => false) p.mandatory with
  | .error fault => .error fault
  | .ok chosen =>
      match p.greedyLoop priorities (p.packets.length + 1)
          ⟨baseline, optionalBudget, coverageOnlyTokenLimit, 0, 0, 0⟩ chosen [] with
      | .error fault => .error fault
      | .ok (s, items) =>
          .ok ⟨if items = [] then .mandatoryOnly else .densityGreedy, items, s.totalGain,
            s.packetCost, s.coverageOnlyTokenCost⟩

/-! ## Best single -/

def bestSingle (baseline : Coverage p.facets.length)
    (optionalBudget coverageOnlyTokenLimit : Nat) (priorities : ExtTreeMap PacketIdV1 Nat) :
    Except (Fault SelectionInvariantError) (Option (CandidatePlan p.packets.length)) :=
  match p.scanCandidates baseline (fun index => p.isMandatory (p.packets.get index).id)
      optionalBudget coverageOnlyTokenLimit priorities singleCandidateIsBetter with
  | .error fault => .error fault
  | .ok none => .ok none
  | .ok (some best) =>
      .ok (some ⟨.bestSingle, [best.packetIndex], best.gain,
        (p.packets.get best.packetIndex).cost,
        if best.coverageOnly then (p.packets.get best.packetIndex).cost else 0⟩)

/-! ## Presentation -/

def packetFacetKinds (packet : IntactPacketV1) : Option (List ProductionFacetKindV1) :=
  (packet.affinities.mapM fun affinity =>
    (p.facetIndex affinity.facetId).map fun index => (p.facets.get index).kind).map fun kinds =>
      dedup (sortByKey (fun kind => kind) kinds)

/-- The best family of a packet; `u8::MAX` without any. -/
def packetPresentationPriority (packet : IntactPacketV1) : Nat :=
  ((packet.affinities.filterMap fun affinity => p.facetIndex affinity.facetId).map fun index =>
    facetPresentationPriority (p.facets.get index).kind).min?.getD 255

def presentedPacket (packet : IntactPacketV1) (marginalGain : Nat)
    (constraint : SelectionConstraintV1) :
    Except (Fault SelectionInvariantError) SelectedPacketV1 :=
  match p.packetFacetKinds packet with
  | none => .error violation
  | some facetKinds => .ok ⟨packet, facetKinds, marginalGain, constraint⟩

def presentMandatory : List MandatoryPacketV1 →
    Except (Fault SelectionInvariantError) (List SelectedPacketV1)
  | [] => .ok []
  | entry :: rest => do
      let index ← okOr violation (p.packetIndex entry.packetId)
      let selected ← p.presentedPacket (p.packets.get index) 0
        (.mandatoryValidatedIdentifier entry.validatedIdentifierFacetId)
      return selected :: (← presentMandatory rest)

/-- Chosen packets by family, then in the order they were chosen. -/
def presentationItems (items : List (Fin p.packets.length)) : List (Fin p.packets.length) :=
  (items.zipIdx.insertionSort fun a b =>
    (compareLex
      (compareOn fun x : Fin p.packets.length × Nat =>
        p.packetPresentationPriority (p.packets.get x.1))
      (compareOn Prod.snd) a b).isLE).map Prod.fst

/-- The constraint that a plan's packets report. -/
def planConstraint : SelectionStrategyV1 →
    Except (Fault SelectionInvariantError) SelectionConstraintV1
  | .densityGreedy => .ok .densityGreedy
  | .bestSingle => .ok .bestSingle
  | .mandatoryOnly | .externalOrderBudgetPack => .error violation

/-- The chosen packets again, each with its gain in presentation order. -/
def presentItems (strategy : SelectionStrategyV1) (coverage : Coverage p.facets.length)
    (totalGain : Nat) : List (Fin p.packets.length) →
    Except (Fault SelectionInvariantError) (Nat × List SelectedPacketV1)
  | [] => .ok (totalGain, [])
  | index :: rest => do
      let constraint ← planConstraint strategy
      let marginal ← orViolation (p.marginalScore coverage (p.packets.get index))
      let totalGain ← okOr violation (checkedAdd totalGain marginal.gain)
      let selected ← p.presentedPacket (p.packets.get index) marginal.gain constraint
      let (totalGain, later) ←
        presentItems strategy (p.applyPacket coverage (p.packets.get index)) totalGain rest
      return (totalGain, selected :: later)

/-! ## Selection -/

def needsMore (reason : NeedsMoreReasonV1) : NeedsMoreSelectionV1 :=
  ⟨reason, p.reservedFixedOverhead.upperBoundTokens, p.mandatoryCost, p.totalTokenBudget,
    p.mandatory.length⟩

/-- The optional budget, or why there is none. -/
def optionalBudget : Except NeedsMoreSelectionV1 Nat :=
  let fixedOverhead := p.reservedFixedOverhead.upperBoundTokens
  if fixedOverhead > p.totalTokenBudget.tokens then
    .error (p.needsMore .fixedOverheadExceedsTotalBudget)
  else
    let availablePacketBudget := p.totalTokenBudget.tokens - fixedOverhead
    if p.mandatoryCost > availablePacketBudget then
      .error (p.needsMore .mandatoryCostExceedsAvailablePacketBudget)
    else .ok (availablePacketBudget - p.mandatoryCost)

/-- Totals of a finished selection. -/
def account (selectedPacketCost : Nat) : Except (Fault SelectionInvariantError) Nat := do
  let accounted ← okOr violation
    (checkedAdd p.reservedFixedOverhead.upperBoundTokens selectedPacketCost)
  if accounted > p.totalTokenBudget.tokens then .error violation else return accounted

/-- The better of the two plans; the greedy one unless the single wins. -/
def choosePlan {n : Nat} (greedy : CandidatePlan n) :
    Option (CandidatePlan n) → CandidatePlan n
  | some single => if planIsBetter single greedy then single else greedy
  | none => greedy

/-- The selection that presents a plan. -/
def presentPlan (baseline : Coverage p.facets.length) (coverageOnlyTokenLimit : Nat)
    (chosen : CandidatePlan p.packets.length) :
    Except (Fault SelectionInvariantError) SelectionV1 := do
  let mandatoryPackets ← p.presentMandatory p.mandatory
  let (presentationTotalGain, optionalPackets) ←
    p.presentItems chosen.strategy baseline 0 (p.presentationItems chosen.items)
  if presentationTotalGain ≠ chosen.totalGain then .error violation
  else
    let selectedPacketCost ← okOr violation (checkedAdd p.mandatoryCost chosen.tokenCost)
    let accounted ← p.account selectedPacketCost
    return {
      strategy := chosen.strategy
      totalTokenBudget := p.totalTokenBudget
      reservedFixedOverhead := p.reservedFixedOverhead
      mandatoryTokenCost := p.mandatoryCost
      selectedPacketCost
      accountedTokenUpperBound := accounted
      coverageOnlyTokenLimit
      coverageOnlyTokenCost := chosen.coverageOnlyTokenCost
      normalizedGain := chosen.totalGain
      packets := mandatoryPackets ++ optionalPackets }

def selectWithPriorityMap (priorities : ExtTreeMap PacketIdV1 Nat) :
    Except (Fault SelectionInvariantError) SelectionDecisionV1 :=
  match p.optionalBudget with
  | .error needsMore => .ok (.needsMore needsMore)
  | .ok optionalBudget => do
      let coverageOnlyTokenLimit := optionalBudget / coverageOnlyOptionalBudgetDenominatorV1
      let baseline := p.mandatoryCoverage
      let greedy ← p.densityGreedy baseline optionalBudget coverageOnlyTokenLimit priorities
      let single ← p.bestSingle baseline optionalBudget coverageOnlyTokenLimit priorities
      let selection ← p.presentPlan baseline coverageOnlyTokenLimit (choosePlan greedy single)
      return .selected selection

def select : Except (Fault SelectionInvariantError) SelectionDecisionV1 :=
  p.selectWithPriorityMap ∅

/-! ## Optional priorities -/

/-- The entry checks of `select_with_optional_priorities`, in order. -/
def admitPriorities (priorities : ExtTreeMap PacketIdV1 Nat) :
    List OptionalPacketPriorityV1 →
      Except OptionalPacketPriorityErrorV1 (ExtTreeMap PacketIdV1 Nat)
  | [] => .ok priorities
  | priority :: rest =>
      if priorities.size ≥ p.packets.length then .error .tooManyPriorities
      else if priority.affinityMicros = 0 ∨ priority.affinityMicros > affinityScaleV1 then
        .error .affinityOutOfRange
      else if p.isMandatory priority.packetId then .error .mandatoryPacket
      else if (p.packetIndex priority.packetId).isNone then .error .unknownPacket
      else if priority.packetId ∈ priorities then .error .duplicatePacket
      else admitPriorities (priorities.insert priority.packetId priority.affinityMicros) rest

def selectWithOptionalPriorities (priorities : List OptionalPacketPriorityV1) :
    Except (Fault OptionalPacketPriorityErrorV1) SelectionDecisionV1 :=
  match p.admitPriorities ∅ priorities with
  | .error error => .error (.err error)
  | .ok priorities =>
      (p.selectWithPriorityMap priorities).mapError (Fault.mapErr fun _ => .selectionInvariant)

/-! ## External order -/

def admitOrder (seen : ExtTreeSet PacketIdV1) :
    List PacketIdV1 → Except OptionalPacketOrderErrorV1 (List (Fin p.packets.length))
  | [] => .ok []
  | packetId :: rest =>
      match insertNew seen packetId with
      | none => .error .duplicatePacket
      | some seen =>
          if p.isMandatory packetId then .error .mandatoryPacket
          else
            match p.packetIndex packetId with
            | none => .error .unknownPacket
            | some index =>
                match admitOrder seen rest with
                | .error error => .error error
                | .ok indices => .ok (index :: indices)

/-- The packing loop: packets that do not fit or add nothing are passed over. -/
def packOrder (s : Spending p.facets.length) (taken : List (Fin p.packets.length × Nat)) :
    List (Fin p.packets.length) →
    Except (Fault SelectionInvariantError)
      (Spending p.facets.length × List (Fin p.packets.length × Nat))
  | [] => .ok (s, taken)
  | index :: rest =>
      let packet := p.packets.get index
      if packet.cost > s.remaining then packOrder s taken rest
      else
        match orViolation (p.marginalScore s.coverage packet) with
        | .error fault => .error fault
        | .ok marginal =>
            if marginal.gain = 0 ||
                (marginal.coverageOnly && packet.cost > s.remainingCoverageOnly) then
              packOrder s taken rest
            else
              match p.take s packet marginal.gain marginal.coverageOnly with
              | .error fault => .error fault
              | .ok s => packOrder s (taken ++ [(index, marginal.gain)]) rest

def presentOrder : List (Fin p.packets.length × Nat) →
    Except (Fault SelectionInvariantError) (List SelectedPacketV1)
  | [] => .ok []
  | (index, gain) :: rest => do
      let selected ← p.presentedPacket (p.packets.get index) gain .externalOrderBudgetPack
      return selected :: (← presentOrder rest)

def selectValidatedOptionalOrder (orderedIndices : List (Fin p.packets.length)) :
    Except (Fault SelectionInvariantError) SelectionDecisionV1 :=
  match p.optionalBudget with
  | .error needsMore => .ok (.needsMore needsMore)
  | .ok optionalBudget => do
      let coverageOnlyTokenLimit := optionalBudget / coverageOnlyOptionalBudgetDenominatorV1
      let (s, taken) ← p.packOrder
        ⟨p.mandatoryCoverage, optionalBudget, coverageOnlyTokenLimit, p.mandatoryCost, 0, 0⟩ []
        orderedIndices
      let mandatoryPackets ← p.presentMandatory p.mandatory
      let optionalPackets ← p.presentOrder taken
      let accounted ← p.account s.packetCost
      return .selected {
        strategy :=
          if (mandatoryPackets ++ optionalPackets).length = p.mandatory.length then
            .mandatoryOnly
          else .externalOrderBudgetPack
        totalTokenBudget := p.totalTokenBudget
        reservedFixedOverhead := p.reservedFixedOverhead
        mandatoryTokenCost := p.mandatoryCost
        selectedPacketCost := s.packetCost
        accountedTokenUpperBound := accounted
        coverageOnlyTokenLimit
        coverageOnlyTokenCost := s.coverageOnlyTokenCost
        normalizedGain := s.totalGain
        packets := mandatoryPackets ++ optionalPackets }

/-- The entry checks of `select_in_optional_order`. -/
def validateOrder (orderedPacketIds : List PacketIdV1) :
    Except OptionalPacketOrderErrorV1 (List (Fin p.packets.length)) :=
  if orderedPacketIds.length > p.packets.length then .error .tooManyPackets
  else p.admitOrder ∅ orderedPacketIds

def selectInOptionalOrder (orderedPacketIds : List PacketIdV1) :
    Except (Fault OptionalPacketOrderErrorV1) SelectionDecisionV1 :=
  match p.validateOrder orderedPacketIds with
  | .error error => .error (.err error)
  | .ok orderedIndices =>
      (p.selectValidatedOptionalOrder orderedIndices).mapError
        (Fault.mapErr fun _ => .selectionInvariant)

end SelectionProblemV1

end Evidentrail
