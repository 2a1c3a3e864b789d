import Mathlib.Algebra.GroupWithZero.Nat
import Mathlib.Data.List.DropRight

/-!
# Splitting slices

`split` cuts a slice at its separators; the parts of a slice that has one are
shorter than the slice. Splitting and trimming commute with a map that keeps the
separators apart.
-/

namespace Split

variable {α β : Type*} {p : α → Bool}

theorem mem_modifyHead_cons {x : α} {c : List α} : ∀ {parts : List (List α)}, parts ≠ [] →
    c ∈ parts.modifyHead (List.cons x) → (∃ head ∈ parts, c = x :: head) ∨ c ∈ parts
  | head :: rest, _, h => by
      rcases List.mem_cons.mp h with rfl | hin
      · exact .inl ⟨head, List.mem_cons_self .., rfl⟩
      · exact .inr (List.mem_cons_of_mem _ hin)

theorem length_of_mem_splitOnP {c : List α} : ∀ {xs : List α}, c ∈ xs.splitOnP p →
    c.length + (if xs.any p then 1 else 0) ≤ xs.length
  | [], h => by
      rw [List.splitOnP_nil, List.mem_singleton] at h
      rw [h]
      exact Nat.le_refl _
  | x :: xs, h => by
      rw [List.splitOnP_cons_eq_if_modifyHead] at h
      rw [List.any_cons, List.length_cons]
      by_cases hx : p x = true
      · rw [if_pos hx] at h
        rw [hx, Bool.true_or, if_pos rfl]
        rcases List.mem_cons.mp h with rfl | hin
        · exact Nat.succ_le_succ (Nat.zero_le _)
        · have hrest := length_of_mem_splitOnP hin
          omega
      · rw [if_neg hx] at h
        rw [Bool.eq_false_iff.mpr hx, Bool.false_or]
        rcases mem_modifyHead_cons (List.splitOnP_ne_nil p xs) h with ⟨head, hin, rfl⟩ | hin
        · have hrest := length_of_mem_splitOnP hin
          rw [List.length_cons]
          omega
        · have hrest := length_of_mem_splitOnP hin
          omega

theorem length_lt_of_mem_splitOnP {xs c : List α} (h : c ∈ xs.splitOnP p)
    (hcut : xs.any p = true) : c.length < xs.length := by
  have hlength := length_of_mem_splitOnP h
  rwa [if_pos hcut] at hlength

theorem splitOnP_eq_singleton {xs : List α} (h : xs.any p = false) : xs.splitOnP p = [xs] :=
  List.splitOnP_eq_singleton fun x hx => by simpa using List.any_eq_false.mp h x hx

/-- The first part ends where the first separator stands. -/
theorem splitOnP_take {xs : List α} {n : Nat} {sep : α} (hsep : xs[n]? = some sep)
    (hcut : p sep = true) (hclean : (xs.take n).any p = false) :
    xs.splitOnP p = xs.take n :: (xs.drop (n + 1)).splitOnP p := by
  obtain ⟨hn, hget⟩ := List.getElem?_eq_some_iff.mp hsep
  have hxs : xs = xs.take n ++ sep :: xs.drop (n + 1) := by
    rw [← hget, ← List.drop_eq_getElem_cons hn, List.take_append_drop]
  conv => lhs; rw [hxs]
  exact List.splitOnP_append_cons_of_forall_mem
    (fun x hx => by simpa using List.any_eq_false.mp hclean x hx) sep hcut _

/-! ## Counting parts -/

/-- Together the parts are not longer than the slice. -/
theorem sum_length_splitOnP_le (xs : List α) :
    ((xs.splitOnP p).map List.length).sum ≤ xs.length := by
  induction xs with
  | nil => simp
  | cons x xs ih =>
      rw [List.splitOnP_cons_eq_if_modifyHead, List.length_cons]
      obtain ⟨head, rest, hparts⟩ := List.exists_cons_of_ne_nil (List.splitOnP_ne_nil p xs)
      rw [hparts] at ih ⊢
      split
      · simpa using Nat.le_succ_of_le ih
      · simp only [List.modifyHead_cons, List.map_cons, List.sum_cons, List.length_cons] at ih ⊢
        omega

/-- Parts that are not empty are at most as many as their elements. -/
theorem length_filter_le_sum_length {q : List α → Bool} (parts : List (List α))
    (hq : ∀ part ∈ parts, q part = true → part ≠ []) :
    (parts.filter q).length ≤ (parts.map List.length).sum := by
  induction parts with
  | nil => simp
  | cons part rest ih =>
      obtain ⟨hpart, hrest⟩ := List.forall_mem_cons.mp hq
      have hlater := ih hrest
      rw [List.map_cons, List.sum_cons, List.filter_cons]
      split
      · rename_i hkept
        have hpos := List.length_pos_iff.mpr (hpart hkept)
        rw [List.length_cons]
        omega
      · omega

/-! ## Maps -/

variable {q : β → Bool} {f : α → β}

theorem map_splitOnP (h : ∀ x, q (f x) = p x) (xs : List α) :
    (xs.map f).splitOnP q = (xs.splitOnP p).map (List.map f) := by
  induction xs with
  | nil => rfl
  | cons x xs ih =>
      rw [List.map_cons, List.splitOnP_cons_eq_if_modifyHead, List.splitOnP_cons_eq_if_modifyHead,
        h, ih]
      split
      · rfl
      · obtain ⟨head, rest, hparts⟩ := List.exists_cons_of_ne_nil (List.splitOnP_ne_nil p xs)
        rw [hparts]
        rfl

theorem map_dropWhile (h : ∀ x, q (f x) = p x) (xs : List α) :
    (xs.map f).dropWhile q = (xs.dropWhile p).map f := by
  rw [List.dropWhile_map]
  congr 2
  exact funext h

theorem map_rdropWhile (h : ∀ x, q (f x) = p x) (xs : List α) :
    (xs.map f).rdropWhile q = (xs.rdropWhile p).map f := by
  rw [List.rdropWhile, List.rdropWhile, ← List.map_reverse, map_dropWhile h, List.map_reverse]

/-- Trimming a slice on both sides leaves nothing to trim. -/
theorem trim_trim (xs : List α) :
    (((xs.dropWhile p).rdropWhile p).dropWhile p).rdropWhile p =
      (xs.dropWhile p).rdropWhile p := by
  have hfront : ((xs.dropWhile p).rdropWhile p).dropWhile p = (xs.dropWhile p).rdropWhile p := by
    rw [List.dropWhile_eq_self_iff]
    intro hpos
    have hfirst := List.rdropWhile_prefix p (xs.dropWhile p)
    have hpos' : 0 < (xs.dropWhile p).length := Nat.lt_of_lt_of_le hpos hfirst.length_le
    have hhead : (xs.dropWhile p)[0] = ((xs.dropWhile p).rdropWhile p)[0] :=
      (hfirst.getElem hpos).symm
    rw [← hhead]
    exact List.dropWhile_get_zero_not p xs hpos'
  rw [hfront, List.rdropWhile_idempotent]

end Split
