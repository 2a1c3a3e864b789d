import Mathlib.Data.List.Basic

/-!
# Windows of a slice

The elements around a position, so many before it and so many behind it, as far
as there are any. Code cuts a window out by its two ends, of which the one in
front saturates at zero and the other at the length (`subslice_window`); the
element that the window was asked for is in it (`getElem?_window`).
-/

namespace Slice

variable {α : Type*}

/-- `xs.get(start..stop)`; indexing panics where this is `none`. -/
def subslice (xs : List α) (start stop : Nat) : Option (List α) :=
  if start ≤ stop ∧ stop ≤ xs.length then some ((xs.drop start).take (stop - start)) else none

theorem subslice_of_le {xs : List α} {start stop : Nat} (hrange : start ≤ stop)
    (hlength : stop ≤ xs.length) :
    subslice xs start stop = some ((xs.drop start).take (stop - start)) :=
  if_pos ⟨hrange, hlength⟩

/-- The elements from `before` in front of the position to `after` behind it. -/
def window (xs : List α) (position before after : Nat) : List α :=
  (xs.take (position + after + 1)).drop (position - before)

theorem subslice_window {xs : List α} {position : Nat} (h : position < xs.length)
    (before after : Nat) :
    subslice xs (position - before) (min (position + after + 1) xs.length) =
      some (window xs position before after) := by
  rw [subslice_of_le (by omega) (Nat.min_le_right _ _), window, ← List.drop_take,
    List.take_eq_take_min (i := position + after + 1)]

theorem getElem?_window {xs : List α} {position : Nat} (before after : Nat) :
    (window xs position before after)[position - (position - before)]? = xs[position]? := by
  rw [window, List.getElem?_drop, List.getElem?_take_of_lt (by omega)]
  congr 1
  omega

theorem isInfix_window (xs : List α) (position before after : Nat) :
    window xs position before after <:+: xs :=
  (List.drop_suffix _ _).isInfix.trans (List.take_prefix _ _).isInfix

theorem map_window {β : Type*} (f : α → β) (xs : List α) (position before after : Nat) :
    (window xs position before after).map f = window (xs.map f) position before after := by
  rw [window, window, List.map_drop, List.map_take]

/-! ## Neighbours -/

/-- `windows(2)`, as pairs. -/
def neighbours (xs : List α) : List (α × α) := xs.zip xs.tail

theorem neighbours_map {β : Type*} (f : α → β) (xs : List α) :
    neighbours (xs.map f) = (neighbours xs).map (Prod.map f f) := by
  rw [neighbours, neighbours, ← List.map_tail, List.zip_map]

theorem neighbours_eq_nil {xs : List α} (h : xs.length < 2) : neighbours xs = [] := by
  rw [← List.length_eq_zero_iff, neighbours, List.length_zip, List.length_tail]
  omega

theorem mem_of_neighbours {xs : List α} {pair : α × α} (h : pair ∈ neighbours xs) :
    pair.1 ∈ xs ∧ pair.2 ∈ xs := by
  obtain ⟨hfirst, hsecond⟩ := List.of_mem_zip h
  exact ⟨hfirst, List.mem_of_mem_tail hsecond⟩

/-- Neighbours are related as the list is ordered. -/
theorem rel_of_neighbours {R : α → α → Prop} {xs : List α} (h : xs.Pairwise R) :
    ∀ pair ∈ neighbours xs, R pair.1 pair.2 := by
  induction xs with
  | nil => exact fun pair hpair => absurd hpair List.not_mem_nil
  | cons a rest ih =>
      rw [List.pairwise_cons] at h
      cases rest with
      | nil => exact fun pair hpair => absurd hpair List.not_mem_nil
      | cons b rest =>
          intro pair hpair
          rcases List.mem_cons.mp hpair with rfl | hlater
          · exact h.1 b (List.mem_cons_self ..)
          · exact ih h.2 pair hlater

end Slice
