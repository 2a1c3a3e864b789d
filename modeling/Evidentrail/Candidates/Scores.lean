import Evidentrail.Candidates.Lexical
import Mathlib.Tactic.Linarith

/-!
# Lexical scores

The fixed-point values of the lane, as functions of counts. For as many tokens as
fit the caps nothing overflows in `u128`, and no score is rounded down to zero.
-/

namespace Evidentrail

open Rust

/-! ## Fixed-point values -/

/-- The millionths of `(N - df + 1) / (N + 1)`. -/
def idfMicros (blockCount documentFrequency : Nat) : Nat :=
  affinityScaleV1 * (blockCount - documentFrequency + 1) / (blockCount + 1)

/-- The millionths of `10 T f / (10 T f + 3 T + 9 d N)`. -/
def bm25Micros (termFrequency documentTokens totalTokens blockCount : Nat) : Nat :=
  affinityScaleV1 * (10 * totalTokens * termFrequency) /
    (10 * totalTokens * termFrequency + 3 * totalTokens + 9 * documentTokens * blockCount)

/-- The nearest value on the scale. -/
def FixedPointV1.clamp (micros : Nat) : FixedPointV1 :=
  ⟨max 1 (min micros affinityScaleV1), by omega, by
    have hscale : affinityScaleV1 = 1000000 := rfl
    omega⟩

theorem FixedPointV1.clamp_micros {micros : Nat} (hpos : 1 ≤ micros)
    (hscale : micros ≤ affinityScaleV1) : (FixedPointV1.clamp micros).micros = micros := by
  simp only [clamp]
  omega

theorem FixedPointV1.new_eq_clamp {micros : Nat} (hpos : 1 ≤ micros)
    (hscale : micros ≤ affinityScaleV1) : FixedPointV1.new micros = .ok (.clamp micros) := by
  rw [new, dif_neg (by omega), dif_neg (by omega)]
  simp only [clamp, Except.ok.injEq, mk.injEq]
  omega

theorem fixedPointOfMicros_eq {micros : Nat} (hpos : 1 ≤ micros)
    (hscale : micros ≤ affinityScaleV1) : fixedPointOfMicros micros = .ok (.clamp micros) := by
  have hmax : affinityScaleV1 = 1000000 := rfl
  rw [fixedPointOfMicros, u32TryFrom_of_lt (by omega), okOr_some, except_bind_ok,
    FixedPointV1.new_eq_clamp hpos hscale]
  rfl

theorem fullScale_eq : fullScale = .ok (.clamp affinityScaleV1) := by
  rw [fullScale, FixedPointV1.new_eq_clamp (by decide) (Nat.le_refl _)]

theorem idfMicros_range {blockCount documentFrequency : Nat}
    (hblocks : blockCount ≤ maxPrimaryBlocksV1) :
    1 ≤ idfMicros blockCount documentFrequency ∧
      idfMicros blockCount documentFrequency ≤ affinityScaleV1 := by
  unfold maxPrimaryBlocksV1 at hblocks
  have hscale : affinityScaleV1 = 1000000 := rfl
  constructor
  · rw [idfMicros, hscale, Nat.le_div_iff_mul_le (Nat.succ_pos _)]
    omega
  · rw [idfMicros, Nat.div_le_iff_le_mul_add_pred (Nat.succ_pos _)]
    have hle : blockCount - documentFrequency + 1 ≤ blockCount + 1 := by omega
    have := Nat.mul_le_mul_left affinityScaleV1 hle
    rw [Nat.mul_comm (blockCount + 1)]
    omega

theorem idfWeight_eq {blockCount documentFrequency : Nat} (hdf : documentFrequency ≤ blockCount)
    (hblocks : blockCount ≤ maxPrimaryBlocksV1) :
    idfWeight blockCount documentFrequency =
      .ok (.clamp (idfMicros blockCount documentFrequency)) := by
  obtain ⟨hpos, hscale⟩ := @idfMicros_range blockCount documentFrequency hblocks
  unfold maxPrimaryBlocksV1 at hblocks
  have hmax : affinityScaleV1 = 1000000 := rfl
  have h64 : u64Bound = 2 ^ 64 := rfl
  have h128 : u128Bound = 2 ^ 128 := rfl
  have hproduct : affinityScaleV1 * (blockCount - documentFrequency + 1) ≤ 1000000 * 4097 :=
    Nat.mul_le_mul (Nat.le_of_eq hmax) (by omega)
  have hrarity : (checkedSub blockCount documentFrequency).bind (checkedAdd · 1) =
      some (blockCount - documentFrequency + 1) := by
    rw [checkedSub_of_le hdf, Option.bind_some]
    exact checkedAdd_of_lt (by omega)
  have hnumerator : checkedMul128 affinityScaleV1 (blockCount - documentFrequency + 1) =
      some (affinityScaleV1 * (blockCount - documentFrequency + 1)) :=
    checkedMul128_of_lt (by omega)
  have hdenominator : checkedAdd blockCount 1 = some (blockCount + 1) :=
    checkedAdd_of_lt (by omega)
  rw [idfWeight, hrarity, okOr_some, except_bind_ok, hnumerator, okOr_some, except_bind_ok,
    hdenominator, okOr_some, except_bind_ok, ← idfMicros]
  exact fixedPointOfMicros_eq hpos hscale

/-- No term scores nothing, for a block is not longer than all blocks together. -/
theorem bm25Micros_range {termFrequency documentTokens totalTokens blockCount : Nat}
    (hfrequency : 1 ≤ termFrequency) (htotal : 1 ≤ totalTokens)
    (hdocument : documentTokens ≤ totalTokens) (hblocks : blockCount ≤ maxPrimaryBlocksV1) :
    1 ≤ bm25Micros termFrequency documentTokens totalTokens blockCount ∧
      bm25Micros termFrequency documentTokens totalTokens blockCount ≤ affinityScaleV1 := by
  unfold maxPrimaryBlocksV1 at hblocks
  have hscale : affinityScaleV1 = 1000000 := rfl
  have hlength : documentTokens * blockCount ≤ totalTokens * 4096 :=
    Nat.mul_le_mul hdocument hblocks
  have hsaturation : totalTokens ≤ totalTokens * termFrequency :=
    Nat.le_mul_of_pos_right _ hfrequency
  have hbase : 10 * totalTokens * termFrequency = 10 * (totalTokens * termFrequency) :=
    Nat.mul_assoc ..
  have hnorm : 9 * documentTokens * blockCount = 9 * (documentTokens * blockCount) :=
    Nat.mul_assoc ..
  rw [bm25Micros, hbase, hnorm]
  generalize totalTokens * termFrequency = saturation at *
  generalize documentTokens * blockCount = norm at *
  have hpos : 0 < 10 * saturation + 3 * totalTokens + 9 * norm := by omega
  constructor
  · rw [Nat.le_div_iff_mul_le hpos, hscale]
    omega
  · rw [Nat.div_le_iff_le_mul_add_pred hpos, hscale]
    omega

/-- Nothing overflows for as many tokens as the bytes within the cap can have. -/
theorem bm25Affinity_eq {termFrequency documentTokens totalTokens blockCount : Nat}
    (hfrequency : 1 ≤ termFrequency) (hdocument : termFrequency ≤ documentTokens)
    (htotal : documentTokens ≤ totalTokens) (hbytes : totalTokens ≤ 3 * maxPrimaryBytesScannedV1)
    (hblock : 1 ≤ blockCount) (hblocks : blockCount ≤ maxPrimaryBlocksV1) :
    bm25Affinity termFrequency documentTokens totalTokens blockCount =
      .ok (.clamp (bm25Micros termFrequency documentTokens totalTokens blockCount)) := by
  obtain ⟨hpos, hscale⟩ := @bm25Micros_range termFrequency documentTokens totalTokens
    blockCount hfrequency (by omega) htotal hblocks
  unfold maxPrimaryBlocksV1 at hblocks
  unfold maxPrimaryBytesScannedV1 at hbytes
  have hmax : affinityScaleV1 = 1000000 := rfl
  have h128 : u128Bound = 2 ^ 128 := rfl
  have hsaturation : 10 * totalTokens * termFrequency ≤ 2013265920 * 201326592 :=
    Nat.mul_le_mul (by omega) (by omega)
  have hnorm : 9 * documentTokens * blockCount ≤ 1811939328 * 4096 :=
    Nat.mul_le_mul (by omega) hblocks
  have hscaled : 10 * totalTokens * termFrequency * affinityScaleV1 ≤
      2013265920 * 201326592 * 1000000 := Nat.mul_le_mul hsaturation (Nat.le_of_eq hmax)
  have hbase : (checkedMul128 10 totalTokens).bind (checkedMul128 · termFrequency) =
      some (10 * totalTokens * termFrequency) := by
    rw [checkedMul128_of_lt (by omega), Option.bind_some]
    exact checkedMul128_of_lt (by omega)
  have hnumerator : checkedMul128 (10 * totalTokens * termFrequency) affinityScaleV1 =
      some (10 * totalTokens * termFrequency * affinityScaleV1) :=
    checkedMul128_of_lt (by omega)
  have hconstant : checkedMul128 3 totalTokens = some (3 * totalTokens) :=
    checkedMul128_of_lt (by omega)
  have hdenominator : (checkedAdd128 (10 * totalTokens * termFrequency) (3 * totalTokens)).bind
        (fun value => ((checkedMul128 9 documentTokens).bind (checkedMul128 · blockCount)).bind
          (checkedAdd128 value ·)) =
      some (10 * totalTokens * termFrequency + 3 * totalTokens
        + 9 * documentTokens * blockCount) := by
    rw [checkedAdd128_of_lt (by omega), Option.bind_some, checkedMul128_of_lt (by omega),
      Option.bind_some, checkedMul128_of_lt (by omega), Option.bind_some]
    exact checkedAdd128_of_lt (by omega)
  have hzero : ¬ (termFrequency = 0 ∨ totalTokens = 0 ∨ blockCount = 0) := by omega
  rw [bm25Affinity, if_neg hzero, hbase, okOr_some, except_bind_ok, hnumerator, okOr_some,
    except_bind_ok, hconstant, okOr_some, except_bind_ok, hdenominator, okOr_some, except_bind_ok,
    Nat.mul_comm _ affinityScaleV1, ← bm25Micros]
  exact fixedPointOfMicros_eq hpos hscale

/-- More occurrences do not score less, and a longer block does not score more. -/
theorem bm25Micros_mono {termFrequency termFrequency' documentTokens documentTokens' : Nat}
    (totalTokens blockCount : Nat) (hfrequency : termFrequency ≤ termFrequency')
    (hdocument : documentTokens' ≤ documentTokens) :
    bm25Micros termFrequency documentTokens totalTokens blockCount ≤
      bm25Micros termFrequency' documentTokens' totalTokens blockCount := by
  have hsaturation := Nat.mul_le_mul_left (10 * totalTokens) hfrequency
  have hnorm : 9 * documentTokens' * blockCount ≤ 9 * documentTokens * blockCount :=
    Nat.mul_le_mul_right _ (Nat.mul_le_mul_left _ hdocument)
  unfold bm25Micros
  generalize 10 * totalTokens * termFrequency = x at *
  generalize 10 * totalTokens * termFrequency' = x' at *
  generalize 9 * documentTokens * blockCount = y at *
  generalize 9 * documentTokens' * blockCount = y' at *
  rcases Nat.eq_zero_or_pos x with rfl | hx
  · rw [Nat.mul_zero, Nat.zero_div]
    exact Nat.zero_le _
  rw [Nat.le_div_iff_mul_le (by omega)]
  have hle : affinityScaleV1 * x / (x + 3 * totalTokens + y) ≤ affinityScaleV1 := by
    rw [Nat.div_le_iff_le_mul_add_pred (by omega)]
    nlinarith
  have hfloor := Nat.div_mul_le_self (affinityScaleV1 * x) (x + 3 * totalTokens + y)
  obtain ⟨more, rfl⟩ := Nat.exists_eq_add_of_le hsaturation
  obtain ⟨less, rfl⟩ := Nat.exists_eq_add_of_le hnorm
  generalize affinityScaleV1 * x / _ = score at *
  nlinarith

end Evidentrail
