import Mathlib.Data.List.Basic
import Mathlib.Order.Lattice

/-!
# The best of a scan

A scan keeps the best candidate seen so far and replaces it by a better one. If
"better" compares keys in a linear order, what is left at the end is a maximum,
and the only one where keys tell the candidates apart.
-/

namespace Argmax

variable {α κ : Type*} {isBetter : α → α → Bool}

/-- One pass of a scan. -/
def pick (isBetter : α → α → Bool) (best : Option α) (candidate : α) : Option α :=
  match best with
  | none => some candidate
  | some current => some (if isBetter candidate current then candidate else current)

/-- `best` is one of these, and none has a larger key. -/
structure IsBest [LE κ] (key : α → κ) (candidates : List α) (best : α) : Prop where
  mem : best ∈ candidates
  le : ∀ c ∈ candidates, key c ≤ key best

section Keys

variable [LinearOrder κ] {key : α → κ}

theorem foldl_pick_some (hkey : ∀ a b, isBetter a b = true ↔ key b < key a) (xs : List α)
    (current : α) :
    ∃ best, xs.foldl (pick isBetter) (some current) = some best ∧
      IsBest key (current :: xs) best := by
  induction xs generalizing current with
  | nil => exact ⟨current, rfl, List.mem_cons_self .., by simp⟩
  | cons x rest ih =>
      rw [List.foldl_cons, pick]
      by_cases hbetter : isBetter x current = true
      · rw [if_pos hbetter]
        obtain ⟨best, hfold, hmem, hle⟩ := ih x
        refine ⟨best, hfold, List.mem_cons_of_mem _ hmem, ?_⟩
        have hx := hle x (List.mem_cons_self ..)
        have hlt := (hkey x current).mp hbetter
        exact List.forall_mem_cons.mpr ⟨(hlt.trans_le hx).le, hle⟩
      · rw [if_neg hbetter]
        obtain ⟨best, hfold, hmem, hle⟩ := ih current
        have hx : key x ≤ key current := not_lt.mp fun hlt => hbetter ((hkey x current).mpr hlt)
        obtain ⟨hcurrent, hrest⟩ := List.forall_mem_cons.mp hle
        refine ⟨best, hfold, ?_, ?_⟩
        · rcases List.mem_cons.mp hmem with rfl | hmem
          · exact List.mem_cons_self ..
          · exact List.mem_cons_of_mem _ (List.mem_cons_of_mem _ hmem)
        · exact List.forall_mem_cons.mpr
            ⟨hcurrent, List.forall_mem_cons.mpr ⟨hx.trans hcurrent, hrest⟩⟩

/-- A scan finds a maximum of what it scans. -/
theorem foldl_pick_eq_some (hkey : ∀ a b, isBetter a b = true ↔ key b < key a) {xs : List α}
    {best : α} (h : xs.foldl (pick isBetter) none = some best) : IsBest key xs best := by
  cases xs with
  | nil => cases h
  | cons x rest =>
      rw [List.foldl_cons, pick] at h
      obtain ⟨found, hfold, hbest⟩ := foldl_pick_some hkey rest x
      rw [hfold] at h
      cases h
      exact hbest

/-- A scan finds nothing only where there is nothing. -/
theorem foldl_pick_eq_none (hkey : ∀ a b, isBetter a b = true ↔ key b < key a) {xs : List α}
    (h : xs.foldl (pick isBetter) none = none) : xs = [] := by
  cases xs with
  | nil => rfl
  | cons x rest =>
      rw [List.foldl_cons, pick] at h
      obtain ⟨found, hfold, _⟩ := foldl_pick_some hkey rest x
      rw [hfold] at h
      cases h

end Keys

/-- A renaming that the comparison does not see. -/
theorem foldl_pick_map {β : Type*} {isBetter' : β → β → Bool} {f : α → β}
    (h : ∀ a b, isBetter' (f a) (f b) = isBetter a b) (xs : List α) (best : Option α) :
    (xs.map f).foldl (pick isBetter') (best.map f) = (xs.foldl (pick isBetter) best).map f := by
  induction xs generalizing best with
  | nil => rfl
  | cons x rest ih =>
      rw [List.map_cons, List.foldl_cons, List.foldl_cons, ← ih]
      congr 1
      cases best with
      | none => rfl
      | some current =>
          simp only [pick, Option.map_some, h, apply_ite f]

end Argmax
