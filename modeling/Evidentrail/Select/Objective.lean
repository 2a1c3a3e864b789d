import Evidentrail.Select.Problem
import Mathlib.Algebra.BigOperators.Fin
import Mathlib.Algebra.Order.BigOperators.Group.Finset

/-!
# The coverage objective

Each facet keeps the one or two largest affinities among the packets
selected so far. Applying a packet raises the weighted total (`value`) by
exactly the gain that `marginal_score` reports, the order in which packets
are applied does not matter, and the total never leaves `u64`.
-/

namespace Evidentrail

open Rust Std Slice

/-! ## One facet -/

/-- The largest affinities of one facet so far. -/
structure FacetCoverageV1 where
  largestAffinity : Nat
  secondLargestAffinity : Nat
  second_le : secondLargestAffinity ≤ largestAffinity
  le_scale : largestAffinity ≤ affinityScaleV1

namespace FacetCoverageV1

def empty : FacetCoverageV1 := ⟨0, 0, Nat.le_refl 0, Nat.zero_le _⟩

def applyAffinity (c : FacetCoverageV1) (affinity : AffinityV1) :
    FacetSaturationCardinalityV1 → FacetCoverageV1
  | .one =>
      ⟨max c.largestAffinity affinity.micros, c.secondLargestAffinity,
        Nat.le_trans c.second_le (Nat.le_max_left ..),
        Nat.max_le.mpr ⟨c.le_scale, affinity.le_scale⟩⟩
  | .two =>
      if h : affinity.micros ≥ c.largestAffinity then
        ⟨affinity.micros, c.largestAffinity, h, affinity.le_scale⟩
      else if affinity.micros > c.secondLargestAffinity then
        ⟨c.largestAffinity, affinity.micros, Nat.le_of_not_ge h, c.le_scale⟩
      else c

def totalAffinity (c : FacetCoverageV1) : FacetSaturationCardinalityV1 → Nat
  | .one => c.largestAffinity
  | .two => c.largestAffinity + c.secondLargestAffinity

def marginalAffinity (c : FacetCoverageV1) (affinity : AffinityV1)
    (cardinality : FacetSaturationCardinalityV1) : Option Nat :=
  checkedSub ((c.applyAffinity affinity cardinality).totalAffinity cardinality)
    (c.totalAffinity cardinality)

theorem ext {c d : FacetCoverageV1} (h₁ : c.largestAffinity = d.largestAffinity)
    (h₂ : c.secondLargestAffinity = d.secondLargestAffinity) : c = d := by
  cases c; cases d; cases h₁; cases h₂; rfl

instance : DecidableEq FacetCoverageV1 := fun c d =>
  decidable_of_iff (c.largestAffinity = d.largestAffinity ∧
    c.secondLargestAffinity = d.secondLargestAffinity)
    ⟨fun h => ext h.1 h.2, fun h => h ▸ ⟨rfl, rfl⟩⟩

theorem largest_applyAffinity (c : FacetCoverageV1) (affinity : AffinityV1)
    (cardinality : FacetSaturationCardinalityV1) :
    (c.applyAffinity affinity cardinality).largestAffinity =
      max c.largestAffinity affinity.micros := by
  cases cardinality with
  | one => rfl
  | two =>
      simp only [applyAffinity]
      split
      · exact (Nat.max_eq_right ‹_›).symm
      · split <;> exact (Nat.max_eq_left (Nat.le_of_not_ge ‹_›)).symm

theorem second_applyAffinity_two (c : FacetCoverageV1) (affinity : AffinityV1) :
    (c.applyAffinity affinity .two).secondLargestAffinity =
      max c.secondLargestAffinity (min c.largestAffinity affinity.micros) := by
  have hsecond := c.second_le
  by_cases hlarge : affinity.micros ≥ c.largestAffinity
  · rw [applyAffinity, dif_pos hlarge]
    show c.largestAffinity = _
    omega
  · by_cases hmiddle : affinity.micros > c.secondLargestAffinity
    · rw [applyAffinity, dif_neg hlarge, if_pos hmiddle]
      show affinity.micros = _
      omega
    · rw [applyAffinity, dif_neg hlarge, if_neg hmiddle]
      omega

/-- Which of two affinities came first leaves no trace. -/
theorem applyAffinity_comm (c : FacetCoverageV1) (a b : AffinityV1)
    (cardinality : FacetSaturationCardinalityV1) :
    (c.applyAffinity a cardinality).applyAffinity b cardinality =
      (c.applyAffinity b cardinality).applyAffinity a cardinality := by
  refine ext ?_ ?_
  · simp only [largest_applyAffinity]
    omega
  · cases cardinality with
    | one => rfl
    | two =>
        simp only [second_applyAffinity_two, largest_applyAffinity]
        omega

theorem totalAffinity_le_applyAffinity (c : FacetCoverageV1) (a : AffinityV1)
    (cardinality : FacetSaturationCardinalityV1) :
    c.totalAffinity cardinality ≤
      (c.applyAffinity a cardinality).totalAffinity cardinality := by
  cases cardinality with
  | one =>
      simp only [totalAffinity, largest_applyAffinity]
      omega
  | two =>
      simp only [totalAffinity, largest_applyAffinity, second_applyAffinity_two]
      omega

theorem totalAffinity_le (c : FacetCoverageV1) (cardinality : FacetSaturationCardinalityV1) :
    c.totalAffinity cardinality ≤ affinityScaleV1 * cardinality.count := by
  have hlargest := c.le_scale
  have hsecond := c.second_le
  cases cardinality <;>
    simp only [totalAffinity, FacetSaturationCardinalityV1.count] <;> omega

end FacetCoverageV1

/-! ## All facets -/

/-- One cell for each facet of the problem, as `coverage[facet_index]`. -/
abbrev Coverage (n : Nat) := Fin n → FacetCoverageV1

structure MarginalScore where
  gain : Nat
  coverageOnly : Bool
deriving DecidableEq

namespace SelectionProblemV1

variable (p : SelectionProblemV1)

def cardinality (index : Fin p.facets.length) : FacetSaturationCardinalityV1 :=
  (p.facets.get index).kind.saturationCardinality

/-- One affinity of `apply_packet`: an unknown facet is skipped. -/
def applyFacetAffinity (coverage : Coverage p.facets.length) (affinity : FacetAffinityV1) :
    Coverage p.facets.length :=
  match p.facetIndex affinity.facetId with
  | none => coverage
  | some index =>
      Function.update coverage index
        ((coverage index).applyAffinity affinity.affinity (p.cardinality index))

def applyPacket (coverage : Coverage p.facets.length) (packet : IntactPacketV1) :
    Coverage p.facets.length :=
  packet.affinities.foldl p.applyFacetAffinity coverage

/-- The affinity loop of `marginal_score`; a `None` of the source is
`Fault.err ()`. -/
def scoreAffinities (coverage : Coverage p.facets.length) (gain : Nat)
    (hasPrimaryGain : Bool) : List FacetAffinityV1 → Except (Fault Unit) (Nat × Bool)
  | [] => .ok (gain, hasPrimaryGain)
  | affinity :: rest =>
      match p.facetIndex affinity.facetId with
      | none => .error (.err ())
      | some index =>
          match (coverage index).marginalAffinity affinity.affinity (p.cardinality index) with
          | none => .error .panicked
          | some delta =>
              if delta = 0 then scoreAffinities coverage gain hasPrimaryGain rest
              else
                match checkedMul (p.facets.get index).weight.micros delta with
                | none => .error (.err ())
                | some contribution =>
                    match checkedAdd gain contribution with
                    | none => .error (.err ())
                    | some gain =>
                        scoreAffinities coverage gain
                          (hasPrimaryGain ||
                            (contribution > 0 && !(p.facets.get index).kind.isCoverageOnly)) rest

def marginalScore (coverage : Coverage p.facets.length) (packet : IntactPacketV1) :
    Except (Fault Unit) MarginalScore :=
  match p.scoreAffinities coverage 0 false packet.affinities with
  | .error fault => .error fault
  | .ok (gain, hasPrimaryGain) => .ok ⟨gain, gain > 0 && !hasPrimaryGain⟩

def mandatoryCoverage : Coverage p.facets.length :=
  p.mandatory.foldl
    (fun coverage entry =>
      match p.packetIndex entry.packetId with
      | none => coverage
      | some index => p.applyPacket coverage (p.packets.get index))
    fun _ => .empty

/-! ## The objective -/

/-- Weighted total of all facets: the numerator of the objective. -/
def value (coverage : Coverage p.facets.length) : Nat :=
  ∑ index, (p.facets.get index).weight.micros *
    (coverage index).totalAffinity (p.cardinality index)

variable {p}

theorem WellFormed.value_lt (wf : p.WellFormed) (coverage : Coverage p.facets.length) :
    p.value coverage < u64Bound := by
  have hbound : p.value coverage ≤ ∑ index : Fin p.facets.length,
      maximumValue (p.facets.get index) :=
    Finset.sum_le_sum fun index _ =>
      Nat.mul_le_mul_left _ (FacetCoverageV1.totalAffinity_le _ _)
  have hsum := Fin.sum_univ_fun_getElem p.facets maximumValue
  exact Nat.lt_of_le_of_lt (hbound.trans (Nat.le_of_eq hsum)) wf.objective_lt

/-- One cell changes, so one term of the sum does. -/
theorem value_update (coverage : Coverage p.facets.length) (index : Fin p.facets.length)
    (c : FacetCoverageV1) :
    p.value (Function.update coverage index c) +
        (p.facets.get index).weight.micros *
          (coverage index).totalAffinity (p.cardinality index) =
      p.value coverage +
        (p.facets.get index).weight.micros * c.totalAffinity (p.cardinality index) := by
  have hrest : ∑ i ∈ Finset.univ.erase index, (p.facets.get i).weight.micros *
        (Function.update coverage index c i).totalAffinity (p.cardinality i) =
      ∑ i ∈ Finset.univ.erase index, (p.facets.get i).weight.micros *
        (coverage i).totalAffinity (p.cardinality i) := by
    refine Finset.sum_congr rfl fun i hi => ?_
    rw [Function.update_of_ne (Finset.ne_of_mem_erase hi)]
  rw [value, value, ← Finset.add_sum_erase _ _ (Finset.mem_univ index),
    ← Finset.add_sum_erase _ _ (Finset.mem_univ index), hrest, Function.update_self]
  omega

theorem applyFacetAffinity_comm (coverage : Coverage p.facets.length)
    (a b : FacetAffinityV1) :
    p.applyFacetAffinity (p.applyFacetAffinity coverage a) b =
      p.applyFacetAffinity (p.applyFacetAffinity coverage b) a := by
  simp only [applyFacetAffinity]
  cases p.facetIndex a.facetId with
  | none => cases p.facetIndex b.facetId <;> rfl
  | some i =>
      cases p.facetIndex b.facetId with
      | none => rfl
      | some j =>
          by_cases hij : i = j
          · subst hij
            simp only [Function.update_self, Function.update_idem]
            rw [FacetCoverageV1.applyAffinity_comm]
          · simp only [Function.update_of_ne hij, Function.update_of_ne (Ne.symm hij)]
            exact Function.update_comm hij ..

instance : RightCommutative p.applyFacetAffinity := ⟨applyFacetAffinity_comm⟩

instance : RightCommutative p.applyPacket := by
  refine ⟨fun coverage a b => ?_⟩
  simp only [applyPacket, ← List.foldl_append]
  exact List.perm_append_comm.foldl_eq coverage

/-! ## Marginal gains -/

/-- The gain of a list of affinities for distinct facets. The scored coverage
stays as it was while `applied` moves on; they agree on the facets to come. -/
theorem scoreAffinities_spec (wf : p.WellFormed) (coverage : Coverage p.facets.length) :
    ∀ (affinities : List FacetAffinityV1) (applied : Coverage p.facets.length) (gain : Nat)
      (hasPrimaryGain : Bool),
    StrictlySorted FacetAffinityV1.facetId affinities →
    (∀ affinity ∈ affinities, ∃ index : Fin p.facets.length,
      (p.facets.get index).id = affinity.facetId ∧ applied index = coverage index) →
    gain + p.value coverage = p.value applied →
    ∃ score : Nat × Bool,
      p.scoreAffinities coverage gain hasPrimaryGain affinities = .ok score ∧
      score.1 + p.value coverage = p.value (affinities.foldl p.applyFacetAffinity applied)
  | [], applied, gain, hasPrimaryGain, _, _, hgain => ⟨_, rfl, hgain⟩
  | affinity :: rest, applied, gain, hasPrimaryGain, hsorted, hknown, hgain => by
      obtain ⟨hhead, htail⟩ := List.pairwise_cons.mp hsorted
      obtain ⟨index, hid, hcell⟩ := hknown affinity (List.mem_cons_self ..)
      have hindex : p.facetIndex affinity.facetId = some index :=
        wf.facetIndex_eq_some.mpr hid
      set cell := (coverage index).applyAffinity affinity.affinity (p.cardinality index)
        with hcelldef
      have happly : p.applyFacetAffinity applied affinity =
          Function.update applied index cell := by
        simp only [applyFacetAffinity, hindex, hcell, hcelldef]
      have hmono := (coverage index).totalAffinity_le_applyAffinity affinity.affinity
        (p.cardinality index)
      have hupdate := value_update applied index cell
      have hbound := wf.value_lt (Function.update applied index cell)
      -- The facets still to come are other facets: their cells have not moved.
      have hknown' : ∀ later ∈ rest, ∃ i : Fin p.facets.length,
          (p.facets.get i).id = later.facetId ∧
            Function.update applied index cell i = coverage i := by
        intro later hlater
        obtain ⟨i, hi, hsame⟩ := hknown later (List.mem_cons_of_mem _ hlater)
        refine ⟨i, hi, ?_⟩
        have hne : i ≠ index := by
          rintro rfl
          have hlt := hhead later hlater
          rw [← hid, ← hi, ReflOrd.compare_self] at hlt
          cases hlt
        rw [Function.update_of_ne hne, hsame]
      rw [hcell] at hupdate
      simp only [scoreAffinities, hindex, FacetCoverageV1.marginalAffinity,
        checkedSub_of_le hmono, List.foldl_cons, happly]
      obtain ⟨delta, hdelta⟩ := Nat.exists_eq_add_of_le hmono
      rw [← hcelldef] at hdelta ⊢
      rw [hdelta, Nat.mul_add] at hupdate
      rw [hdelta, Nat.add_sub_cancel_left]
      by_cases hzero : delta = 0
      · rw [if_pos hzero]
        subst hzero
        exact scoreAffinities_spec wf coverage rest _ gain hasPrimaryGain htail hknown'
          (by omega)
      · have hmul : (p.facets.get index).weight.micros * delta < u64Bound := by omega
        have hadd : gain + (p.facets.get index).weight.micros * delta < u64Bound := by omega
        rw [if_neg hzero]
        simp only [checkedMul_of_lt hmul, checkedAdd_of_lt hadd]
        exact scoreAffinities_spec wf coverage rest _ _ _ htail hknown' (by omega)

/-- `marginal_score` never fails, and its gain is the rise of the objective. -/
theorem WellFormed.marginalScore_spec (wf : p.WellFormed)
    (coverage : Coverage p.facets.length) {packet : IntactPacketV1}
    (hpacket : packet ∈ p.packets) :
    ∃ score, p.marginalScore coverage packet = .ok score ∧
      score.gain + p.value coverage = p.value (p.applyPacket coverage packet) := by
  have hknown : ∀ affinity ∈ packet.affinities, ∃ index : Fin p.facets.length,
      (p.facets.get index).id = affinity.facetId ∧ coverage index = coverage index := by
    intro affinity haffinity
    obtain ⟨facet, hmem, hid⟩ := wf.affinities_known packet hpacket affinity haffinity
    obtain ⟨i, hi, rfl⟩ := List.mem_iff_getElem.mp hmem
    exact ⟨⟨i, hi⟩, hid, rfl⟩
  obtain ⟨score, hscore, hgain⟩ := scoreAffinities_spec wf coverage packet.affinities
    coverage 0 false packet.affinities_sorted hknown (Nat.zero_add _)
  exact ⟨_, by rw [marginalScore, hscore], hgain⟩

end SelectionProblemV1

end Evidentrail
