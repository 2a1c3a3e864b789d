import Mathlib.Algebra.GroupWithZero.Nat
import Mathlib.Data.List.Sort

/-!
# The largest numbers of a list

`topSum k` adds the `k` largest numbers of a list, and `kth k` is the largest
one that is left out. A further number raises the sum by what it exceeds that
one by (`topSum_cons`), and that one never falls (`kth_le_cons`). So the sum
does not depend on the order, it grows with the list, and its rises get
smaller (`topSum_submodular`).
-/

namespace TopSum

/-! ## Falling lists -/

def descending (xs : List Nat) : List Nat := xs.insertionSort (· ≥ ·)

/-- The sum of the `k` largest. -/
def topSum (k : Nat) (xs : List Nat) : Nat := ((descending xs).take k).sum

/-- The largest but `k`, zero behind the end. -/
def kth (k : Nat) (xs : List Nat) : Nat := (descending xs).getD k 0

theorem descending_pairwise (xs : List Nat) : (descending xs).Pairwise (· ≥ ·) :=
  List.pairwise_insertionSort (· ≥ ·) xs

theorem descending_perm {xs ys : List Nat} (h : xs.Perm ys) : descending xs = descending ys := by
  have hperm : (descending xs).Perm (descending ys) :=
    ((List.perm_insertionSort _ xs).trans h).trans (List.perm_insertionSort _ ys).symm
  exact hperm.eq_of_pairwise (fun _ _ _ _ hab hba => Nat.le_antisymm hba hab)
    (descending_pairwise xs) (descending_pairwise ys)

theorem topSum_perm {k : Nat} {xs ys : List Nat} (h : xs.Perm ys) : topSum k xs = topSum k ys := by
  rw [topSum, descending_perm h, topSum]

@[simp] theorem topSum_zero (xs : List Nat) : topSum 0 xs = 0 := rfl

theorem topSum_succ (k : Nat) (xs : List Nat) : topSum (k + 1) xs = topSum k xs + kth k xs := by
  rw [topSum, topSum, kth, List.getD_eq_getElem?_getD]
  by_cases h : k < (descending xs).length
  · rw [List.take_succ_eq_append_getElem h, List.sum_append, List.sum_singleton,
      List.getElem?_eq_getElem h, Option.getD_some]
  · rw [List.take_of_length_le (by omega), List.take_of_length_le (by omega),
      List.getElem?_eq_none (by omega), Option.getD_none, Nat.add_zero]

theorem getD_le {ys : List Nat} (h : ys.Pairwise (· ≥ ·)) (k : Nat) :
    ys.getD (k + 1) 0 ≤ ys.getD k 0 := by
  induction ys generalizing k with
  | nil => simp
  | cons y rest ih =>
      obtain ⟨hhead, htail⟩ := List.pairwise_cons.mp h
      cases k with
      | zero =>
          cases rest with
          | nil => simp
          | cons second others => simpa using hhead second (List.mem_cons_self ..)
      | succ k => simpa using ih htail k

theorem kth_succ_le (k : Nat) (xs : List Nat) : kth (k + 1) xs ≤ kth k xs :=
  getD_le (descending_pairwise xs) k

/-! ## One more number -/

theorem orderedInsert_getD_zero (a : Nat) (ys : List Nat) (h : ys.Pairwise (· ≥ ·)) :
    (ys.orderedInsert (· ≥ ·) a).getD 0 0 = max (ys.getD 0 0) a := by
  cases ys with
  | nil => simp
  | cons y rest =>
      rw [List.orderedInsert_cons]
      split
      · rename_i hle
        simpa using hle
      · rename_i hlt
        simpa using Nat.le_of_lt (Nat.lt_of_not_le hlt)

theorem orderedInsert_getD_succ (a : Nat) (ys : List Nat) (h : ys.Pairwise (· ≥ ·)) (k : Nat) :
    (ys.orderedInsert (· ≥ ·) a).getD (k + 1) 0 =
      max (ys.getD (k + 1) 0) (min (ys.getD k 0) a) := by
  induction ys generalizing k with
  | nil => simp
  | cons y rest ih =>
      obtain ⟨hhead, htail⟩ := List.pairwise_cons.mp h
      have hfall := getD_le h k
      have hbound : (y :: rest).getD k 0 ≤ y := by
        rw [List.getD_eq_getElem?_getD]
        cases hk : (y :: rest)[k]? with
        | none => exact Nat.zero_le y
        | some b =>
            rcases List.mem_cons.mp (List.mem_of_getElem? hk) with rfl | hmem
            · exact Nat.le_refl _
            · exact hhead b hmem
      rw [List.orderedInsert_cons]
      split
      · rename_i hle
        rw [List.getD_cons_succ]
        omega
      · rename_i hlt
        rw [List.getD_cons_succ, List.getD_cons_succ]
        cases k with
        | zero =>
            rw [orderedInsert_getD_zero a rest htail, List.getD_cons_zero]
            omega
        | succ k => rw [ih htail k, List.getD_cons_succ]

theorem kth_zero_cons (a : Nat) (xs : List Nat) : kth 0 (a :: xs) = max (kth 0 xs) a :=
  orderedInsert_getD_zero a (descending xs) (descending_pairwise xs)

theorem kth_succ_cons (k a : Nat) (xs : List Nat) :
    kth (k + 1) (a :: xs) = max (kth (k + 1) xs) (min (kth k xs) a) :=
  orderedInsert_getD_succ a (descending xs) (descending_pairwise xs) k

theorem kth_le_cons (k a : Nat) (xs : List Nat) : kth k xs ≤ kth k (a :: xs) := by
  cases k with
  | zero =>
      rw [kth_zero_cons]
      exact Nat.le_max_left ..
  | succ k =>
      rw [kth_succ_cons]
      exact Nat.le_max_left ..

/-- What a further number adds. -/
theorem topSum_cons (k a : Nat) (xs : List Nat) :
    topSum (k + 1) (a :: xs) = topSum (k + 1) xs + (a - kth k xs) := by
  induction k with
  | zero =>
      rw [topSum_succ, topSum_succ, kth_zero_cons, topSum_zero, topSum_zero]
      omega
  | succ k ih =>
      have hfall := kth_succ_le k xs
      rw [topSum_succ, ih, topSum_succ (k + 1), kth_succ_cons]
      omega

/-! ## More numbers -/

theorem topSum_le_cons (k a : Nat) (xs : List Nat) : topSum k xs ≤ topSum k (a :: xs) := by
  cases k with
  | zero => simp
  | succ k =>
      rw [topSum_cons]
      exact Nat.le_add_right ..

theorem topSum_le_append (k : Nat) (ys xs : List Nat) : topSum k xs ≤ topSum k (ys ++ xs) := by
  induction ys with
  | nil => exact Nat.le_refl _
  | cons y rest ih => exact ih.trans (topSum_le_cons k y _)

theorem kth_le_append (k : Nat) (ys xs : List Nat) : kth k xs ≤ kth k (ys ++ xs) := by
  induction ys with
  | nil => exact Nat.le_refl _
  | cons y rest ih => exact ih.trans (kth_le_cons k y _)

/-- Behind more numbers, one more adds less. -/
theorem topSum_cons_submodular (k a : Nat) (ys xs : List Nat) :
    topSum k (a :: (ys ++ xs)) + topSum k xs ≤ topSum k (a :: xs) + topSum k (ys ++ xs) := by
  cases k with
  | zero => simp
  | succ k =>
      have hkth := kth_le_append k ys xs
      rw [topSum_cons, topSum_cons]
      omega

theorem topSum_submodular (k : Nat) (zs ys xs : List Nat) :
    topSum k (zs ++ (ys ++ xs)) + topSum k xs ≤ topSum k (zs ++ xs) + topSum k (ys ++ xs) := by
  induction zs with
  | nil => exact Nat.le_of_eq (Nat.add_comm ..)
  | cons z rest ih =>
      have hswap : (rest ++ (ys ++ xs)).Perm (ys ++ (rest ++ xs)) := by
        rw [← List.append_assoc, ← List.append_assoc]
        exact List.perm_append_comm.append_right xs
      have hstep := topSum_cons_submodular k z ys (rest ++ xs)
      rw [topSum_perm (hswap.symm.cons z), topSum_perm hswap.symm] at hstep
      rw [List.cons_append, List.cons_append]
      omega

end TopSum
