import Evidentrail.Lib.Argmax
import Evidentrail.Select.Sound
import Mathlib.Data.Prod.Lex
import Mathlib.Algebra.Order.Field.Basic
import Mathlib.Algebra.Order.Ring.Rat

/-!
# What a scan chooses

Both scans of the selector run through the packets and keep the best candidate.
The two comparisons are those of keys in a lexicographic order: gain per token
or gain first, then the ties. A key names its packet, so a scan chooses the
unique maximum of its candidates (`scanCandidates_eq`).
-/

namespace Evidentrail

open Rust Std Slice Argmax

/-! ## The keys of the two comparisons -/

/-- What the comparison by gain compares, in order. -/
abbrev SingleKey := ℕ ×ₗ ℕ ×ₗ ℕᵒᵈ ×ₗ ℕᵒᵈ

/-- What the comparison by density compares, in order. -/
abbrev DensityKey := ℚ ×ₗ SingleKey

/-- Assisted gain, gain, lower cost, earlier packet. -/
def singleKey (packets : List IntactPacketV1) (c : ScoredCandidate packets.length) : SingleKey :=
  toLex (c.assistedGain, toLex (c.gain,
    toLex (.toDual (packets.get c.packetIndex).cost, .toDual c.packetIndex.val)))

/-- Assisted gain per token, then the same. -/
def densityKey (packets : List IntactPacketV1) (c : ScoredCandidate packets.length) : DensityKey :=
  toLex ((c.assistedGain : ℚ) / (packets.get c.packetIndex).cost, singleKey packets c)

section Keys

variable {packets : List IntactPacketV1} {a b : ScoredCandidate packets.length}

/-- Two numbers, then the rest. -/
theorem then_eq_gt_iff {x y : Nat} {o : Ordering} :
    (compare x y).then o = .gt ↔ y < x ∨ x = y ∧ o = .gt := by
  rcases Nat.lt_trichotomy x y with h | h | h
  · rw [Nat.compare_eq_lt.mpr h]
    simp only [Ordering.then, reduceCtorEq, false_iff]
    rintro (hgt | ⟨heq, _⟩)
    · exact Nat.lt_asymm h hgt
    · exact Nat.ne_of_lt h heq
  · subst h
    rw [Nat.compare_eq_eq.mpr rfl]
    simp only [Ordering.then, Nat.lt_irrefl, false_or, true_and]
  · rw [Nat.compare_eq_gt.mpr h]
    simp only [Ordering.then, true_iff]
    exact .inl h

theorem ties_iff :
    ((((compare a.assistedGain b.assistedGain).then (compare a.gain b.gain)).then
      (compare (packets.get b.packetIndex).cost (packets.get a.packetIndex).cost)).then
      (compare b.packetIndex.val a.packetIndex.val)) = .gt ↔
        singleKey packets b < singleKey packets a := by
  simp only [Ordering.then_assoc, then_eq_gt_iff, Nat.compare_eq_gt, singleKey,
    Prod.Lex.toLex_lt_toLex, OrderDual.toDual_lt_toDual, OrderDual.toDual_inj]
  omega

theorem singleCandidateIsBetter_iff :
    singleCandidateIsBetter a b = true ↔ singleKey packets b < singleKey packets a := by
  rw [singleCandidateIsBetter, decide_eq_true_eq]
  exact ties_iff

/-- Cross-multiplied, the densities are compared as fractions. -/
theorem densityCandidateIsBetter_iff :
    densityCandidateIsBetter a b = true ↔ densityKey packets b < densityKey packets a := by
  have ha : (0 : ℚ) < (packets.get a.packetIndex).cost :=
    Nat.cast_pos.mpr (packets.get a.packetIndex).composableTokenUpperBound.pos
  have hb : (0 : ℚ) < (packets.get b.packetIndex).cost :=
    Nat.cast_pos.mpr (packets.get b.packetIndex).composableTokenUpperBound.pos
  have hlt : (b.assistedGain : ℚ) / (packets.get b.packetIndex).cost <
      a.assistedGain / (packets.get a.packetIndex).cost ↔
        b.assistedGain * (packets.get a.packetIndex).cost <
          a.assistedGain * (packets.get b.packetIndex).cost := by
    rw [div_lt_div_iff₀ hb ha]
    exact_mod_cast Iff.rfl
  have heq : (b.assistedGain : ℚ) / (packets.get b.packetIndex).cost =
      a.assistedGain / (packets.get a.packetIndex).cost ↔
        b.assistedGain * (packets.get a.packetIndex).cost =
          a.assistedGain * (packets.get b.packetIndex).cost := by
    rw [div_eq_div_iff hb.ne' ha.ne']
    exact_mod_cast Iff.rfl
  rw [densityKey, densityKey, Prod.Lex.toLex_lt_toLex, hlt, heq, densityCandidateIsBetter]
  dsimp only
  rcases Nat.lt_trichotomy (a.assistedGain * (packets.get b.packetIndex).cost)
    (b.assistedGain * (packets.get a.packetIndex).cost) with h | h | h
  · rw [Nat.compare_eq_lt.mpr h]
    simp only [Bool.false_eq_true, false_iff]
    omega
  · rw [Nat.compare_eq_eq.mpr h]
    simp only [decide_eq_true_eq]
    rw [ties_iff]
    constructor
    · intro hkey
      exact .inr ⟨h.symm, hkey⟩
    · rintro (hgt | ⟨_, hkey⟩)
      · omega
      · exact hkey
  · rw [Nat.compare_eq_gt.mpr h]
    simp only [true_iff]
    exact .inl h

/-- The key of a candidate names its packet. -/
theorem packetIndex_of_singleKey (h : singleKey packets a = singleKey packets b) :
    a.packetIndex = b.packetIndex := by
  have hindex := congrArg (fun key : SingleKey =>
    (ofLex (ofLex (ofLex key).2).2).2) h
  exact Fin.ext (OrderDual.toDual_inj.mp hindex)

theorem packetIndex_of_densityKey (h : densityKey packets a = densityKey packets b) :
    a.packetIndex = b.packetIndex :=
  packetIndex_of_singleKey (congrArg (fun key : DensityKey => (ofLex key).2) h)

theorem assistedGain_le_of_singleKey (h : singleKey packets a ≤ singleKey packets b) :
    a.assistedGain ≤ b.assistedGain := by
  rw [singleKey, singleKey, Prod.Lex.toLex_le_toLex] at h
  rcases h with hlt | ⟨heq, _⟩
  · exact Nat.le_of_lt hlt
  · exact Nat.le_of_eq heq

/-- What a scan by density leaves is the densest. -/
theorem densest {xs : List (ScoredCandidate packets.length)}
    (h : xs.foldl (pick densityCandidateIsBetter) none = some a) :
    IsBest (densityKey packets) xs a :=
  @foldl_pick_eq_some _ DensityKey _ _ (densityKey packets)
    (fun _ _ => densityCandidateIsBetter_iff) _ _ h

theorem none_densest {xs : List (ScoredCandidate packets.length)}
    (h : xs.foldl (pick (@densityCandidateIsBetter packets)) none = none) : xs = [] :=
  @foldl_pick_eq_none _ DensityKey _ _ (densityKey packets)
    (fun _ _ => densityCandidateIsBetter_iff) _ h

/-- What a scan by gain leaves gains most. -/
theorem gainsMost {xs : List (ScoredCandidate packets.length)}
    (h : xs.foldl (pick singleCandidateIsBetter) none = some a) :
    IsBest (singleKey packets) xs a :=
  @foldl_pick_eq_some _ SingleKey _ _ (singleKey packets)
    (fun _ _ => singleCandidateIsBetter_iff) _ _ h

theorem none_gainsMost {xs : List (ScoredCandidate packets.length)}
    (h : xs.foldl (pick (@singleCandidateIsBetter packets)) none = none) : xs = [] :=
  @foldl_pick_eq_none _ SingleKey _ _ (singleKey packets)
    (fun _ _ => singleCandidateIsBetter_iff) _ h

/-- The products of the comparison stay within `u128`. -/
theorem crossProduct_lt : a.assistedGain * (packets.get b.packetIndex).cost < 2 ^ 128 := by
  have hgain : a.assistedGain < 2 ^ 64 := by
    have hbound : u64Bound - 1 < 2 ^ 64 := by decide
    exact Nat.lt_of_le_of_lt (Nat.min_le_right ..) hbound
  have hcost : (packets.get b.packetIndex).cost < 2 ^ 64 := by
    have hmax := (packets.get b.packetIndex).composableTokenUpperBound.le_max
    rw [IntactPacketV1.cost]
    unfold jsonSafeIntegerMax at hmax
    omega
  calc a.assistedGain * (packets.get b.packetIndex).cost < 2 ^ 64 * 2 ^ 64 :=
        Nat.mul_lt_mul'' hgain hcost
    _ = 2 ^ 128 := by norm_num

end Keys

/-! ## Candidates -/

namespace SelectionProblemV1

variable {p : SelectionProblemV1}

/-- A packet that a scan compares: not excluded, within both budgets, and with
something to gain. -/
structure IsCandidate (p : SelectionProblemV1) (coverage : Coverage p.facets.length)
    (excluded : Fin p.packets.length → Bool) (budget coverageBudget : Nat)
    (priorities : ExtTreeMap PacketIdV1 Nat) (c : ScoredCandidate p.packets.length) : Prop where
  fits : p.Fits coverage excluded budget coverageBudget c
  gain_pos : 0 < c.gain
  bonus_eq : c.priorityBonus =
    priorityBonusV1 (p.packets.get c.packetIndex).id c.gain priorities

/-- The candidate that a packet is, if it is one. -/
def candidate? (p : SelectionProblemV1) (coverage : Coverage p.facets.length)
    (excluded : Fin p.packets.length → Bool) (budget coverageBudget : Nat)
    (priorities : ExtTreeMap PacketIdV1 Nat) (packetIndex : Fin p.packets.length) :
    Option (ScoredCandidate p.packets.length) :=
  if excluded packetIndex || (p.packets.get packetIndex).cost > budget then none
  else
    match p.marginalScore coverage (p.packets.get packetIndex) with
    | .error _ => none
    | .ok marginal =>
        if marginal.gain = 0 ||
            (marginal.coverageOnly && (p.packets.get packetIndex).cost > coverageBudget) then none
        else some ⟨packetIndex, marginal.gain,
          priorityBonusV1 (p.packets.get packetIndex).id marginal.gain priorities,
          marginal.coverageOnly⟩

section Candidates

variable {coverage : Coverage p.facets.length} {excluded : Fin p.packets.length → Bool}
  {budget coverageBudget : Nat} {priorities : ExtTreeMap PacketIdV1 Nat}

theorem candidate?_eq_some {packetIndex : Fin p.packets.length}
    {c : ScoredCandidate p.packets.length} :
    p.candidate? coverage excluded budget coverageBudget priorities packetIndex = some c ↔
      c.packetIndex = packetIndex ∧
        p.IsCandidate coverage excluded budget coverageBudget priorities c := by
  unfold candidate?
  constructor
  · intro h
    split at h
    · cases h
    · rename_i hfree
      split at h
      · cases h
      · rename_i marginal hscore
        split at h
        · cases h
        · rename_i hgain
          cases h
          simp only [Bool.or_eq_true, decide_eq_true_eq, not_or, Bool.not_eq_true] at hfree
          simp only [Bool.or_eq_true, decide_eq_true_eq, not_or, Bool.and_eq_true, not_and]
            at hgain
          exact ⟨rfl, ⟨hfree.1, hscore, Nat.le_of_not_gt hfree.2,
            fun honly => Nat.le_of_not_gt (hgain.2 honly)⟩, Nat.pos_of_ne_zero hgain.1, rfl⟩
  · rintro ⟨rfl, hfits, hpos, hbonus⟩
    rw [if_neg, hfits.scored]
    · dsimp only
      rw [if_neg, ← hbonus]
      rw [Bool.or_eq_true, decide_eq_true_eq, Bool.and_eq_true, decide_eq_true_eq, not_or, not_and]
      exact ⟨hpos.ne', fun honly => Nat.not_lt.mpr (hfits.coverageOnly_le honly)⟩
    · rw [Bool.or_eq_true, decide_eq_true_eq, hfits.free, not_or]
      exact ⟨Bool.false_ne_true, Nat.not_lt.mpr hfits.cost_le⟩

/-- The candidates of a scan, in the order of the packets. -/
def candidates (p : SelectionProblemV1) (coverage : Coverage p.facets.length)
    (excluded : Fin p.packets.length → Bool) (budget coverageBudget : Nat)
    (priorities : ExtTreeMap PacketIdV1 Nat) : List (ScoredCandidate p.packets.length) :=
  (List.finRange p.packets.length).filterMap
    (p.candidate? coverage excluded budget coverageBudget priorities)

theorem mem_candidates {c : ScoredCandidate p.packets.length} :
    c ∈ p.candidates coverage excluded budget coverageBudget priorities ↔
      p.IsCandidate coverage excluded budget coverageBudget priorities c := by
  rw [candidates, List.mem_filterMap]
  constructor
  · rintro ⟨_, _, hsome⟩
    exact (candidate?_eq_some.mp hsome).2
  · intro hcandidate
    exact ⟨c.packetIndex, List.mem_finRange _, candidate?_eq_some.mpr ⟨rfl, hcandidate⟩⟩

theorem scanCandidate_eq (wf : p.WellFormed)
    (isBetter : ScoredCandidate p.packets.length → ScoredCandidate p.packets.length → Bool)
    (best : Option (ScoredCandidate p.packets.length)) (packetIndex : Fin p.packets.length) :
    p.scanCandidate coverage excluded budget coverageBudget priorities isBetter best packetIndex =
      .ok (match p.candidate? coverage excluded budget coverageBudget priorities packetIndex with
        | none => best
        | some c => pick isBetter best c) := by
  obtain ⟨marginal, hscore, _⟩ := wf.marginalScore_spec coverage
    (List.getElem_mem packetIndex.isLt)
  have hscore' : p.marginalScore coverage (p.packets.get packetIndex) = .ok marginal := hscore
  simp only [scanCandidate, candidate?, hscore', orViolation, Except.mapError]
  split
  · rfl
  · split
    · rfl
    · cases best <;> rfl

/-- A scan picks among its candidates. -/
theorem scanCandidates_eq (wf : p.WellFormed)
    (isBetter : ScoredCandidate p.packets.length → ScoredCandidate p.packets.length → Bool) :
    p.scanCandidates coverage excluded budget coverageBudget priorities isBetter =
      .ok ((p.candidates coverage excluded budget coverageBudget priorities).foldl
        (pick isBetter) none) := by
  rw [scanCandidates, candidates]
  generalize (none : Option (ScoredCandidate p.packets.length)) = best
  induction List.finRange p.packets.length generalizing best with
  | nil => rfl
  | cons packetIndex rest ih =>
      rw [List.foldlM_cons, scanCandidate_eq wf, except_bind_ok, ih, List.filterMap_cons]
      cases p.candidate? coverage excluded budget coverageBudget priorities packetIndex <;> rfl

end Candidates

end SelectionProblemV1

end Evidentrail
