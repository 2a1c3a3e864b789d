import Evidentrail.Lib.Rust

/-!
# Positions by key

A list of rows beside a B-tree that says at which position the row of a key stands.
A row may have several keys, and no two rows share one.
-/

namespace Locate

open Rust Std

variable {κ β : Type*} [Ord κ] [TransOrd κ] {keys : β → List κ}

/-- The tree names the position of a row with the key, and of no other. -/
def Locates (keys : β → List κ) (positions : ExtTreeMap κ Nat) (rows : List β) : Prop :=
  ∀ (k : κ) (position : Nat), positions[k]? = some position ↔
    ∃ row, rows[position]? = some row ∧ k ∈ keys row

theorem locates_nil : Locates keys ∅ [] := fun k position => by simp

/-- The row that is found is the only one with the key. -/
theorem Locates.getElem?_eq {positions : ExtTreeMap κ Nat} {rows : List β}
    (h : Locates keys positions rows) {k : κ} {row : β} (hrow : row ∈ rows) (hk : k ∈ keys row) :
    (∃ position, positions[k]? = some position ∧ rows[position]? = some row) ∧
      ∀ other ∈ rows, k ∈ keys other → other = row := by
  have hunique : ∀ {position : Nat} {other : β}, rows[position]? = some other →
      k ∈ keys other → positions[k]? = some position :=
    fun hget hin => (h k _).mpr ⟨_, hget, hin⟩
  obtain ⟨position, hposition⟩ := List.mem_iff_getElem?.mp hrow
  have hindex := hunique hposition hk
  refine ⟨⟨position, hindex, hposition⟩, fun other hother hin => ?_⟩
  obtain ⟨position', hposition'⟩ := List.mem_iff_getElem?.mp hother
  have hindex' := hunique hposition' hin
  rw [hindex, Option.some.injEq] at hindex'
  rw [← hindex', hposition, Option.some.injEq] at hposition'
  exact hposition'.symm

variable [LawfulEqOrd κ] [DecidableEq κ]

theorem getElem?_foldl_insert {k : κ} {position : Nat} : ∀ {ks : List κ}
    {positions : ExtTreeMap κ Nat},
    (ks.foldl (fun positions k => positions.insert k position) positions)[k]? =
      if k ∈ ks then some position else positions[k]?
  | [], positions => by simp
  | first :: rest, positions => by
      rw [List.foldl_cons, getElem?_foldl_insert, getElem?_insert]
      by_cases hrest : k ∈ rest
      · rw [if_pos hrest, if_pos (List.mem_cons_of_mem _ hrest)]
      · rw [if_neg hrest]
        by_cases hfirst : first = k
        · rw [if_pos hfirst, if_pos (hfirst ▸ List.mem_cons_self ..)]
        · rw [if_neg hfirst, if_neg]
          rintro (_ | ⟨_, hin⟩)
          · exact hfirst rfl
          · exact hrest hin

/-- One more row, with keys that no row has yet. -/
theorem Locates.push {positions : ExtTreeMap κ Nat} {rows : List β}
    (h : Locates keys positions rows) {a : β}
    (hfresh : ∀ other ∈ rows, ∀ k ∈ keys a, k ∉ keys other) :
    Locates keys
      ((keys a).foldl (fun positions k => positions.insert k rows.length) positions)
      (rows ++ [a]) := by
  intro k position
  rw [getElem?_foldl_insert]
  have hlength : (rows ++ [a]).length = rows.length + 1 := List.length_append
  by_cases hk : k ∈ keys a
  · rw [if_pos hk, Option.some.injEq]
    constructor
    · rintro rfl
      exact ⟨a, List.getElem?_concat_length, hk⟩
    · rintro ⟨other, hother, hin⟩
      rcases Nat.lt_trichotomy position rows.length with hlt | rfl | hgt
      · rw [List.getElem?_append_left hlt] at hother
        exact absurd hin (hfresh other (List.mem_of_getElem? hother) k hk)
      · rfl
      · rw [List.getElem?_eq_none (hlength ▸ hgt)] at hother
        cases hother
  · rw [if_neg hk, h k position]
    refine exists_congr fun other => and_congr_left fun hin => ?_
    rcases Nat.lt_trichotomy position rows.length with hlt | rfl | hgt
    · rw [List.getElem?_append_left hlt]
    · rw [List.getElem?_concat_length, List.getElem?_eq_none (Nat.le_refl _), Option.some.injEq]
      constructor
      · intro hnone
        cases hnone
      · rintro rfl
        exact absurd hin hk
    · rw [List.getElem?_eq_none (Nat.le_of_lt hgt), List.getElem?_eq_none (hlength ▸ hgt)]

end Locate
