import Mathlib.Data.List.Nodup
import Mathlib.Data.List.Sort

/-!
# Stable sorting by a key

`sort_by_key` is stable, and so is insertion sort. What a stable sort does
to a sublist that is already in order: nothing.
-/

namespace Sorting

variable {α κ : Type*} [LinearOrder κ] (key : α → κ) {l : List α}

/-- Keys that increase strictly along a list tell its elements apart. -/
theorem eq_of_key_eq (h : l.Pairwise fun a b => key a < key b) {a b : α} (ha : a ∈ l)
    (hb : b ∈ l) (hab : key a = key b) : a = b := by
  have hnodup : (l.map key).Nodup := by
    rw [List.Nodup, List.pairwise_map]
    exact h.imp ne_of_lt
  exact List.inj_on_of_nodup_map hnodup ha hb hab

theorem filter_insertionSort {p : α → Bool}
    (h : (l.filter p).Pairwise fun a b => key a < key b) :
    (l.insertionSort fun a b => key a ≤ key b).filter p = l.filter p := by
  have : Std.Total fun a b : α => key a ≤ key b := ⟨fun a b => le_total _ _⟩
  have : IsTrans α fun a b : α => key a ≤ key b := ⟨fun _ _ _ => le_trans⟩
  have hsorted := (List.pairwise_insertionSort (fun a b => key a ≤ key b) l).filter p
  have hperm := (List.perm_insertionSort (fun a b => key a ≤ key b) l).filter p
  refine List.Perm.eq_of_pairwise ?_ hsorted (h.imp le_of_lt) hperm
  intro a b ha hb hab hba
  exact eq_of_key_eq key h (hperm.mem_iff.mp ha) hb (le_antisymm hab hba)

/-- Keys that tell the elements apart fix the sorted list, in whatever order it came. -/
theorem insertionSort_eq_of_perm {l' : List α} (h : (l.map key).Nodup) (hperm : l'.Perm l) :
    (l'.insertionSort fun a b => key a ≤ key b) = l.insertionSort fun a b => key a ≤ key b := by
  have : Std.Total fun a b : α => key a ≤ key b := ⟨fun a b => le_total _ _⟩
  have : IsTrans α fun a b : α => key a ≤ key b := ⟨fun _ _ _ => le_trans⟩
  have hfirst := List.perm_insertionSort (fun a b => key a ≤ key b) l'
  have hsecond := List.perm_insertionSort (fun a b => key a ≤ key b) l
  refine List.Perm.eq_of_pairwise ?_ (List.pairwise_insertionSort _ _)
    (List.pairwise_insertionSort _ _) ((hfirst.trans hperm).trans hsecond.symm)
  intro a b ha hb hab hba
  exact List.inj_on_of_nodup_map h ((hfirst.trans hperm).mem_iff.mp ha) (hsecond.mem_iff.mp hb)
    (le_antisymm hab hba)

/-- They increase strictly in it. -/
theorem pairwise_lt_insertionSort (h : (l.map key).Nodup) :
    (l.insertionSort fun a b => key a ≤ key b).Pairwise fun a b => key a < key b := by
  have : Std.Total fun a b : α => key a ≤ key b := ⟨fun a b => le_total _ _⟩
  have : IsTrans α fun a b : α => key a ≤ key b := ⟨fun _ _ _ => le_trans⟩
  have hsorted := List.pairwise_insertionSort (fun a b => key a ≤ key b) l
  have hnodup : ((l.insertionSort fun a b => key a ≤ key b).map key).Nodup :=
    ((List.perm_insertionSort (fun a b => key a ≤ key b) l).map key).nodup_iff.mpr h
  rw [List.Nodup, List.pairwise_map] at hnodup
  exact (hsorted.and hnodup).imp fun hab => lt_of_le_of_ne hab.1 hab.2

/-- A list in strict order is its sorted form, in whatever order it came. -/
theorem insertionSort_eq_of_pairwise {l' : List α} (h : l.Pairwise fun a b => key a < key b)
    (hperm : l'.Perm l) : (l'.insertionSort fun a b => key a ≤ key b) = l := by
  have : Std.Total fun a b : α => key a ≤ key b := ⟨fun a b => le_total _ _⟩
  have : IsTrans α fun a b : α => key a ≤ key b := ⟨fun _ _ _ => le_trans⟩
  have hsorted := (List.perm_insertionSort (fun a b => key a ≤ key b) l').trans hperm
  refine List.Perm.eq_of_pairwise ?_ (List.pairwise_insertionSort _ _) (h.imp le_of_lt) hsorted
  intro a b ha hb hab hba
  exact eq_of_key_eq key h (hsorted.mem_iff.mp ha) hb (le_antisymm hab hba)

/-- What comes behind an element is what has a larger key. -/
theorem filter_gt_of_pairwise {front rest : List α} {a : α}
    (h : (front ++ a :: rest).Pairwise fun a b => key a < key b) :
    (front ++ a :: rest).filter (fun b => key a < key b) = rest := by
  rw [List.pairwise_append, List.pairwise_cons] at h
  obtain ⟨_, ⟨hrest, _⟩, hfront⟩ := h
  have hnone : front.filter (fun b => key a < key b) = [] :=
    List.filter_eq_nil_iff.mpr fun b hb => by
      simpa using (hfront b hb a List.mem_cons_self).le
  have hall : rest.filter (fun b => key a < key b) = rest :=
    List.filter_eq_self.mpr fun b hb => by simpa using hrest b hb
  rw [List.filter_append, List.filter_cons_of_neg (by simp), hnone, hall, List.nil_append]

/-- What comes before it has a smaller one. -/
theorem filter_lt_of_pairwise {front rest : List α} {a : α}
    (h : (front ++ a :: rest).Pairwise fun a b => key a < key b) :
    (front ++ a :: rest).filter (fun b => key b < key a) = front := by
  rw [List.pairwise_append, List.pairwise_cons] at h
  obtain ⟨_, ⟨hrest, _⟩, hfront⟩ := h
  have hnone : rest.filter (fun b => key b < key a) = [] :=
    List.filter_eq_nil_iff.mpr fun b hb => by simpa using (hrest b hb).le
  have hall : front.filter (fun b => key b < key a) = front :=
    List.filter_eq_self.mpr fun b hb => by simpa using hfront b hb a List.mem_cons_self
  rw [List.filter_append, List.filter_cons_of_neg (by simp), hnone, hall, List.append_nil]

/-! ## Pages behind a cursor -/

section Pages

variable {rows page rest : List α} {cursor : κ} {last : α}

/-- What a page takes of the rows behind a cursor is what its last row puts in front of the
next cursor. -/
theorem perm_filter_le_last (hkeys : (rows.map key).Nodup)
    (hpage : ((rows.filter fun row => cursor < key row).insertionSort
      fun a b => key a ≤ key b) = page ++ rest) (hlast : page.getLast? = some last) :
    (rows.filter fun row => key row ≤ key last).Perm
      ((rows.filter fun row => key row ≤ cursor) ++ page) := by
  have hsorted := pairwise_lt_insertionSort key
    (hkeys.sublist (List.filter_sublist.map key) :
      ((rows.filter fun row => cursor < key row).map key).Nodup)
  have hperm := List.perm_insertionSort (fun a b => key a ≤ key b)
    (rows.filter fun row => cursor < key row)
  rw [hpage] at hsorted hperm
  obtain ⟨front, rfl⟩ := List.getLast?_eq_some_iff.mp hlast
  have hbehind : cursor < key last := by
    have hmem : last ∈ rows.filter fun row => cursor < key row :=
      hperm.mem_iff.mp (List.mem_append_left _ (List.mem_append_right _
        (List.mem_singleton_self _)))
    simpa using (List.mem_filter.mp hmem).2
  have hsplit : rows.Perm
      ((rows.filter fun row => key row ≤ cursor) ++ (front ++ [last] ++ rest)) := by
    have hrows := (List.filter_append_perm (fun row => decide (key row ≤ cursor)) rows).symm
    have hnot : (rows.filter fun row => !decide (key row ≤ cursor)) =
        rows.filter fun row => cursor < key row :=
      List.filter_congr fun row _ => by rw [← decide_not, decide_eq_decide, not_le]
    rw [hnot] at hrows
    exact hrows.trans (hperm.symm.append_left _)
  have hfiltered := hsplit.filter fun row => decide (key row ≤ key last)
  rw [List.filter_append, List.filter_append, List.filter_filter] at hfiltered
  rw [List.pairwise_append, List.pairwise_append] at hsorted
  obtain ⟨⟨_, _, hfront⟩, _, hrest⟩ := hsorted
  have hold : (rows.filter fun row => decide (key row ≤ key last) && decide (key row ≤ cursor)) =
      rows.filter fun row => key row ≤ cursor := by
    refine List.filter_congr fun row _ => ?_
    rw [Bool.eq_iff_iff, Bool.and_eq_true, decide_eq_true_eq, decide_eq_true_eq]
    exact ⟨And.right, fun hle => ⟨hle.trans hbehind.le, hle⟩⟩
  have htaken : (front ++ [last]).filter (fun row => decide (key row ≤ key last)) =
      front ++ [last] := by
    refine List.filter_eq_self.mpr fun row hrow => decide_eq_true ?_
    rcases List.mem_append.mp hrow with hfirst | hsame
    · exact (hfront row hfirst last (List.mem_singleton_self _)).le
    · rw [List.mem_singleton.mp hsame]
  have hleft : rest.filter (fun row => decide (key row ≤ key last)) = [] := by
    refine List.filter_eq_nil_iff.mpr fun row hrow => ?_
    have hlt := hrest last (List.mem_append_right _ (List.mem_singleton_self _)) row hrow
    simpa using hlt
  rwa [hold, htaken, hleft, List.append_nil] at hfiltered

end Pages

end Sorting
