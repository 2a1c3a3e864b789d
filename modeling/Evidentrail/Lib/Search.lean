import Mathlib.Data.List.Chain
import Mathlib.Data.List.Sort
import Mathlib.Order.Defs.LinearOrder

/-!
# Searching and sorting slices

`sort_by_key` and `binary_search_by` of the standard library. The search
keeps a window of `size` elements from `base` on and halves it until one
element is left, so its answer is right exactly when the comparisons along
the slice read "less", then "equal", then "greater".
-/

namespace Slice

open Std

variable {α κ : Type*}

/-! ## Sorting -/

section Sorted

variable [Ord κ] (key : α → κ)

/-- `sort_by_key`. -/
def sortByKey (l : List α) : List α :=
  l.insertionSort fun a b => (compare (key a) (key b)).isLE

/-- `windows(2).any(|pair| key(pair[0]) == key(pair[1]))`. -/
def hasEqualNeighbours [DecidableEq κ] : List α → Bool
  | [] => false
  | [_] => false
  | a :: b :: rest => key a == key b || hasEqualNeighbours (b :: rest)

/-- Keys that increase strictly along a list. -/
def StrictlySorted (l : List α) : Prop :=
  l.Pairwise fun a b => compare (key a) (key b) = .lt

theorem perm_sortByKey (l : List α) : (sortByKey key l).Perm l :=
  List.perm_insertionSort ..

theorem mem_sortByKey {l : List α} {a : α} : a ∈ sortByKey key l ↔ a ∈ l :=
  (perm_sortByKey key l).mem_iff

@[simp] theorem length_sortByKey (l : List α) : (sortByKey key l).length = l.length :=
  (perm_sortByKey key l).length_eq

theorem StrictlySorted.nodup_map [LawfulEqOrd κ] {key : α → κ} {l : List α}
    (h : StrictlySorted key l) : (l.map key).Nodup := by
  rw [List.Nodup, List.pairwise_map]
  refine h.imp fun hlt heq => ?_
  rw [heq, ReflOrd.compare_self] at hlt
  cases hlt

/-- Sorting by a key that a renaming keeps. -/
theorem map_sortByKey {β : Type*} {key : α → κ} {key' : β → κ} {f : α → β} {l : List α}
    (h : ∀ a ∈ l, key' (f a) = key a) :
    (sortByKey key l).map f = sortByKey key' (l.map f) := by
  refine List.map_insertionSort _ _ f l fun a ha b hb => ?_
  rw [h a ha, h b hb]

variable [TransOrd κ]

theorem pairwise_sortByKey (l : List α) :
    (sortByKey key l).Pairwise fun a b => (compare (key a) (key b)).isLE := by
  have : Std.Total fun a b : α => (compare (key a) (key b)).isLE = true := by
    refine ⟨fun a b => ?_⟩
    have hswap : compare (key b) (key a) = (compare (key a) (key b)).swap :=
      OrientedOrd.eq_swap
    rw [hswap]
    cases compare (key a) (key b) <;> simp
  have : IsTrans α fun a b : α => (compare (key a) (key b)).isLE = true :=
    ⟨fun _ _ _ => TransCmp.isLE_trans⟩
  exact List.pairwise_insertionSort _ _

/-- Sorting leaves alone exactly what is in order. -/
theorem sortByKey_eq_self_iff {l : List α} :
    sortByKey key l = l ↔ l.Pairwise fun a b => (compare (key a) (key b)).isLE := by
  constructor
  · intro h
    rw [← h]
    exact pairwise_sortByKey key l
  · exact fun h => h.insertionSort_eq

/-- Different keys leave one sorted order. -/
theorem sortByKey_perm [LawfulEqOrd κ] {l l' : List α} (hkeys : (l.map key).Nodup)
    (h : l.Perm l') : sortByKey key l = sortByKey key l' := by
  have hperm : (sortByKey key l).Perm (sortByKey key l') :=
    ((perm_sortByKey key l).trans h).trans (perm_sortByKey key l').symm
  refine hperm.eq_of_pairwise ?_ (pairwise_sortByKey key l) (pairwise_sortByKey key l')
  intro a b ha hb hab hba
  rw [OrientedOrd.eq_swap, Ordering.isLE_swap] at hba
  have heq : compare (key a) (key b) = .eq := by
    cases hcompare : compare (key a) (key b) <;> simp_all
  refine List.inj_on_of_nodup_map hkeys ((mem_sortByKey key).mp ha) ?_
    (LawfulEqOrd.eq_of_compare heq)
  exact h.mem_iff.mpr ((mem_sortByKey key).mp hb)

/-- Equal keys of a sorted list are neighbours. -/
theorem strictlySorted_sortByKey [LawfulEqOrd κ] [DecidableEq κ] {l : List α}
    (h : hasEqualNeighbours key (sortByKey key l) = false) :
    StrictlySorted key (sortByKey key l) := by
  have hle := (pairwise_sortByKey key l).isChain
  have htrans : IsTrans α fun a b : α => compare (key a) (key b) = .lt :=
    ⟨fun _ _ _ => TransCmp.lt_trans⟩
  rw [StrictlySorted, ← List.isChain_iff_pairwise]
  generalize sortByKey key l = sorted at h hle
  induction sorted with
  | nil => exact .nil
  | cons a rest ih =>
      cases rest with
      | nil => exact .singleton a
      | cons b rest =>
          simp only [hasEqualNeighbours, Bool.or_eq_false_iff, beq_eq_false_iff_ne] at h
          simp only [List.isChain_cons_cons] at hle ⊢
          refine ⟨?_, ih h.2 hle.2⟩
          rcases Ordering.isLE_iff_eq_lt_or_eq_eq.mp hle.1 with hlt | heq
          · exact hlt
          · exact absurd (LawfulEqOrd.eq_of_compare heq) h.1

/-- Different keys are strictly sorted. -/
theorem strictlySorted_of_nodup [LawfulEqOrd κ] {l : List α} (h : (l.map key).Nodup) :
    StrictlySorted key (sortByKey key l) := by
  have hnodup : ((sortByKey key l).map key).Nodup :=
    ((perm_sortByKey key l).map key).nodup_iff.mpr h
  rw [List.Nodup, List.pairwise_map] at hnodup
  refine (List.pairwise_and_iff.mpr ⟨pairwise_sortByKey key l, hnodup⟩).imp fun {a b} hab => ?_
  rcases Ordering.isLE_iff_eq_lt_or_eq_eq.mp hab.1 with hlt | heq
  · exact hlt
  · exact absurd (LawfulEqOrd.eq_of_compare heq) hab.2

end Sorted

/-- `Vec::dedup`: one element of each run of equal ones. -/
def dedup [DecidableEq α] : List α → List α
  | [] => []
  | [a] => [a]
  | a :: b :: rest => if a = b then dedup (b :: rest) else a :: dedup (b :: rest)

/-! ## Neighbours -/

/-- Neighbours in a list, and what stands in front of it. -/
theorem isChain_toList_append {α : Type*} {R : α → α → Prop} {prior : Option α} {a : α}
    {l : List α} :
    (prior.toList ++ a :: l).IsChain R ↔ (∀ p ∈ prior, R p a) ∧ (a :: l).IsChain R := by
  cases prior with
  | none => simp
  | some p => simp [List.isChain_cons_cons]

/-- In a sorted list the smaller element stands in front. -/
theorem rel_of_pairwise {α κ : Type*} [Ord κ] [TransOrd κ] (key : α → κ) {R : α → α → Prop}
    {l : List α} (h : l.Pairwise R) (hsorted : l.Pairwise fun a b => compare (key a) (key b) = .lt)
    {a b : α} (ha : a ∈ l) (hb : b ∈ l) (hlt : compare (key a) (key b) = .lt) : R a b := by
  obtain ⟨i, hi, rfl⟩ := List.mem_iff_getElem.mp ha
  obtain ⟨j, hj, rfl⟩ := List.mem_iff_getElem.mp hb
  rcases Nat.lt_trichotomy i j with hij | rfl | hji
  · exact List.pairwise_iff_getElem.mp h i j hi hj hij
  · rw [ReflOrd.compare_self] at hlt
    cases hlt
  · have hswap := List.pairwise_iff_getElem.mp hsorted j i hj hi hji
    rw [OrientedOrd.eq_swap, hlt] at hswap
    cases hswap

/-! ## Sets of the elements of a list -/

section Sets

variable [Ord κ] [TransOrd κ] [LawfulEqOrd κ]

theorem nodup_toList (s : ExtTreeSet κ) : s.toList.Nodup := by
  refine s.ordered_toList.imp fun {a b} hlt heq => ?_
  rw [heq, ReflOrd.compare_self] at hlt
  cases hlt

variable [DecidableEq κ]

theorem mem_ofList {l : List κ} {k : κ} : k ∈ ExtTreeSet.ofList l ↔ k ∈ l := by
  rw [ExtTreeSet.mem_ofList, List.contains_iff_mem]

theorem ofList_toList (s : ExtTreeSet κ) : ExtTreeSet.ofList s.toList = s := by
  refine ExtTreeSet.ext_mem fun k => ?_
  rw [mem_ofList, ExtTreeSet.mem_toList]

/-- A list without a repetition is as long as its set. -/
theorem nodup_of_size {l : List κ} (h : (ExtTreeSet.ofList l).size = l.length) : l.Nodup := by
  have hsubset : (ExtTreeSet.ofList l).toList ⊆ l := by
    intro k hk
    exact mem_ofList.mp (ExtTreeSet.mem_toList.mp hk)
  have hsub := List.subperm_of_subset (nodup_toList (ExtTreeSet.ofList l)) hsubset
  have hlength : l.length ≤ (ExtTreeSet.ofList l).toList.length := by
    rw [ExtTreeSet.length_toList, h]
  exact (hsub.perm_of_length_le hlength).nodup_iff.mp (nodup_toList _)

/-- A set gives its elements in order, so a list without a repetition comes
back exactly if it is in order. -/
theorem toList_ofList_eq_iff {l : List κ} (h : (ExtTreeSet.ofList l).size = l.length) :
    (ExtTreeSet.ofList l).toList = l ↔ l.Pairwise fun a b => compare a b = .lt := by
  constructor
  · intro heq
    rw [← heq]
    exact ExtTreeSet.ordered_toList
  · intro hsorted
    have hperm : (ExtTreeSet.ofList l).toList.Perm l := by
      rw [List.perm_ext_iff_of_nodup (nodup_toList _) (nodup_of_size h)]
      intro k
      rw [ExtTreeSet.mem_toList, mem_ofList]
    refine hperm.eq_of_pairwise ?_ ExtTreeSet.ordered_toList hsorted
    intro a b _ _ hab hba
    rw [OrientedOrd.eq_swap (a := b), hab] at hba
    cases hba

end Sets

/-! ## Looking up a unique key -/

theorem find?_eq_some_iff [DecidableEq κ] {key : α → κ} {l : List α}
    (h : (l.map key).Nodup) {k : κ} {a : α} :
    (l.find? fun b => key b = k) = some a ↔ a ∈ l ∧ key a = k := by
  constructor
  · intro hfind
    exact ⟨List.mem_of_find?_eq_some hfind, by simpa using List.find?_some hfind⟩
  · rintro ⟨hmem, rfl⟩
    have hsome : (l.find? fun b => key b = key a).isSome :=
      List.find?_isSome.mpr ⟨a, hmem, decide_eq_true rfl⟩
    obtain ⟨found, hfound⟩ := Option.isSome_iff_exists.mp hsome
    have hkey : key found = key a := by simpa using List.find?_some hfound
    rw [hfound, List.inj_on_of_nodup_map h (List.mem_of_find?_eq_some hfound) hmem hkey]

/-! ## Binary search -/

/-- The start of the window when one element is left. Each pass removes at
least one element, so the length of the slice bounds their number. -/
def searchLoop (f : α → Ordering) (l : List α) : Nat → Nat → Nat → Nat
  | 0, base, _ => base
  | fuel + 1, base, size =>
      if size ≤ 1 then base
      else
        let mid := base + size / 2
        searchLoop f l fuel (if (l[mid]?.map f) = some .gt then base else mid)
          (size - size / 2)

/-- `binary_search_by`. -/
def binarySearchBy (f : α → Ordering) (l : List α) : Except Nat (Fin l.length) :=
  let base := searchLoop f l l.length 0 l.length
  if h : base < l.length then
    match f l[base] with
    | .eq => .ok ⟨base, h⟩
    | .lt => .error (base + 1)
    | .gt => .error base
  else .error 0

/-- `binary_search_by_key`. -/
def binarySearchByKey [Ord κ] (key : α → κ) (k : κ) (l : List α) :
    Except Nat (Fin l.length) :=
  binarySearchBy (fun a => compare (key a) k) l

/-- Less before equal before greater. -/
def Partitioned (f : α → Ordering) (l : List α) : Prop :=
  l.Pairwise fun a b => (f a = .gt → f b = .gt) ∧ (f b = .lt → f a = .lt)

/-- What the window has already ruled out. -/
structure Window (f : α → Ordering) (l : List α) (base size : Nat) : Prop where
  size_pos : 0 < size
  fits : base + size ≤ l.length
  start : base = 0 ∨ ∃ a, l[base]? = some a ∧ f a ≠ .gt
  after : ∀ i a, base + size ≤ i → l[i]? = some a → f a = .gt

variable {f : α → Ordering} {l : List α}

theorem Partitioned.gt_of_le (h : Partitioned f l) {i j : Nat} {a b : α} (hij : i ≤ j)
    (ha : l[i]? = some a) (hb : l[j]? = some b) (hgt : f a = .gt) : f b = .gt := by
  rcases Nat.eq_or_lt_of_le hij with rfl | hlt
  · rw [ha] at hb
    cases hb
    exact hgt
  · obtain ⟨hi, rfl⟩ := List.getElem?_eq_some_iff.mp ha
    obtain ⟨hj, rfl⟩ := List.getElem?_eq_some_iff.mp hb
    exact (List.pairwise_iff_getElem.mp h i j hi hj hlt).1 hgt

theorem Partitioned.lt_of_le (h : Partitioned f l) {i j : Nat} {a b : α} (hij : i < j)
    (ha : l[i]? = some a) (hb : l[j]? = some b) (hlt : f b = .lt) : f a = .lt := by
  obtain ⟨hi, rfl⟩ := List.getElem?_eq_some_iff.mp ha
  obtain ⟨hj, rfl⟩ := List.getElem?_eq_some_iff.mp hb
  exact (List.pairwise_iff_getElem.mp h i j hi hj hij).2 hlt

/-- The loop ends with a window of one element. -/
theorem window_searchLoop (h : Partitioned f l) : ∀ (fuel base size : Nat),
    size ≤ fuel → Window f l base size → Window f l (searchLoop f l fuel base size) 1
  | 0, base, size, hfuel, w => absurd w.size_pos (by omega)
  | fuel + 1, base, size, hfuel, w => by
      rw [searchLoop]
      by_cases hone : size ≤ 1
      · have hsize : size = 1 := by have := w.size_pos; omega
        rw [if_pos hone]
        exact hsize ▸ w
      · rw [if_neg hone]
        have hfits := w.fits
        have hmid : base + size / 2 < l.length := by omega
        have hget := List.getElem?_eq_getElem hmid
        refine window_searchLoop h fuel _ _ (by omega) ?_
        rw [hget, Option.map_some]
        by_cases hgt : f l[base + size / 2] = .gt
        · rw [if_pos (congrArg some hgt)]
          refine ⟨by omega, by omega, w.start, fun i a hi ha => ?_⟩
          exact h.gt_of_le (by omega) hget ha hgt
        · rw [if_neg fun heq => hgt (Option.some.inj heq)]
          refine ⟨by omega, by omega, .inr ⟨_, hget, hgt⟩, fun i a hi ha => ?_⟩
          exact w.after i a (by omega) ha

/-- A search without an answer says where one would stand. -/
theorem binarySearchBy_position (h : Partitioned f l) :
    match binarySearchBy f l with
    | .ok i => f l[i] = .eq
    | .error e => ∀ i a, l[i]? = some a → (i < e → f a = .lt) ∧ (e ≤ i → f a = .gt) := by
  rw [binarySearchBy]
  by_cases hempty : l = []
  · subst hempty
    simp [searchLoop]
  · have hpos : 0 < l.length := List.length_pos_iff.mpr hempty
    have hstart : Window f l 0 l.length :=
      ⟨hpos, by omega, .inl rfl, fun i a hi ha => by
        rw [List.getElem?_eq_none (by omega)] at ha
        cases ha⟩
    have w := window_searchLoop h l.length 0 l.length (Nat.le_refl _) hstart
    generalize searchLoop f l l.length 0 l.length = base at w
    have hbase : base < l.length := by have := w.fits; omega
    have hget := List.getElem?_eq_getElem hbase
    simp only [dif_pos hbase]
    cases hf : f l[base] with
    | eq => exact hf
    | lt =>
        intro i a hi
        refine ⟨fun hlt => ?_, fun hle => w.after i a hle hi⟩
        rcases Nat.eq_or_lt_of_le (Nat.le_of_lt_succ hlt) with rfl | hbefore
        · rw [hget] at hi
          cases hi
          exact hf
        · exact h.lt_of_le hbefore hi hget hf
    | gt =>
        have hzero : base = 0 := by
          rcases w.start with hzero | ⟨a, ha, hne⟩
          · exact hzero
          · rw [hget] at ha
            cases ha
            exact absurd hf hne
        intro i a hi
        exact ⟨fun hlt => absurd hlt (by omega), fun hle => h.gt_of_le hle hget hi hf⟩

/-- What a search of a partitioned slice means. -/
theorem binarySearchBy_spec (h : Partitioned f l) :
    match binarySearchBy f l with
    | .ok i => f l[i] = .eq
    | .error _ => ∀ a ∈ l, f a ≠ .eq := by
  have hposition := binarySearchBy_position h
  cases hsearch : binarySearchBy f l with
  | ok i =>
      rw [hsearch] at hposition
      exact hposition
  | error e =>
      rw [hsearch] at hposition
      intro a ha heq
      obtain ⟨i, hi⟩ := List.getElem?_of_mem ha
      rcases Nat.lt_or_ge i e with hlt | hge
      · rw [(hposition i a hi).1 hlt] at heq
        cases heq
      · rw [(hposition i a hi).2 hge] at heq
        cases heq

/-- `partition_point`: the search for an element that is never found. -/
def partitionPoint (pred : α → Bool) (l : List α) : Nat :=
  match binarySearchBy (fun a => if pred a then .lt else .gt) l with
  | .ok i => i
  | .error e => e

/-- The elements in front of the partition point are those with the property. -/
theorem lt_partitionPoint_iff {pred : α → Bool}
    (h : l.Pairwise fun a b => pred b = true → pred a = true) {i : Nat} {a : α}
    (ha : l[i]? = some a) : i < partitionPoint pred l ↔ pred a = true := by
  have hpartitioned : Partitioned (fun a => if pred a then .lt else .gt) l := by
    refine h.imp fun {a b} hab => ?_
    cases hb : pred b with
    | true => simp [hab hb]
    | false => simp [hb]
  have hposition := binarySearchBy_position hpartitioned
  unfold partitionPoint
  cases hsearch : binarySearchBy (fun a => if pred a then Ordering.lt else .gt) l with
  | ok j =>
      rw [hsearch] at hposition
      have hnever : (if pred l[j] then Ordering.lt else .gt) ≠ .eq := by split <;> decide
      exact absurd hposition hnever
  | error e =>
      rw [hsearch] at hposition
      obtain ⟨hbefore, hafter⟩ := hposition i a ha
      constructor
      · intro hlt
        by_contra hfalse
        have := hbefore hlt
        rw [if_neg hfalse] at this
        cases this
      · intro htrue
        by_contra hge
        have := hafter (Nat.le_of_not_lt hge)
        rw [if_pos htrue] at this
        cases this

variable [Ord κ] [TransOrd κ] {key : α → κ}

theorem StrictlySorted.partitioned (h : StrictlySorted key l) (k : κ) :
    Partitioned (fun a => compare (key a) k) l := by
  refine h.imp fun {a b} hab => ⟨fun hgt => ?_, fun hlt => TransCmp.lt_trans hab hlt⟩
  rw [OrientedCmp.gt_iff_lt] at hgt ⊢
  exact TransCmp.lt_trans hgt hab

/-- On strictly sorted keys the search finds the element with the key. -/
theorem StrictlySorted.binarySearchByKey_eq_ok [LawfulEqOrd κ] (h : StrictlySorted key l)
    {k : κ} {i : Fin l.length} : binarySearchByKey key k l = .ok i ↔ key l[i] = k := by
  have hspec := binarySearchBy_spec (h.partitioned k)
  rw [binarySearchByKey]
  cases hsearch : binarySearchBy (fun a => compare (key a) k) l with
  | ok j =>
      rw [hsearch] at hspec
      have hj : key l[j] = k := LawfulEqOrd.eq_of_compare hspec
      constructor
      · intro heq
        cases heq
        exact hj
      · intro hi
        have hnodup := h.nodup_map
        have hij : (l.map key)[j.val]? = (l.map key)[i.val]? := by
          simpa using hj.trans hi.symm
        have hval := (List.getElem?_inj (by simp) hnodup).mp hij
        exact congrArg _ (Fin.ext hval)
  | error e =>
      rw [hsearch] at hspec
      constructor
      · intro heq
        cases heq
      · intro hi
        exact absurd (by rw [← hi]; exact compare_self) (hspec l[i] (List.getElem_mem _))

/-! ## Ranges of keys -/

section Ranges

variable {lo hi : α → κ} {k : κ}

/-- The first range that does not end in front of the key, if it starts at the
key or in front of it. -/
def rangeFor (lo hi : α → κ) (k : κ) (l : List α) : Option α :=
  l[partitionPoint (fun a => compare (hi a) k = .lt) l]?.filter fun a =>
    (compare (lo a) k).isLE

/-- Ranges that are not empty, each behind the one before it. -/
structure Ranges (lo hi : α → κ) (l : List α) : Prop where
  proper : ∀ a ∈ l, (compare (lo a) (hi a)).isLE
  apart : l.Pairwise fun a b => compare (hi a) (lo b) = .lt

/-- It is enough that neighbours lie apart. -/
theorem ranges_of_isChain (hproper : ∀ a ∈ l, (compare (lo a) (hi a)).isLE)
    (hchain : l.IsChain fun a b => compare (hi a) (lo b) = .lt) : Ranges lo hi l := by
  refine ⟨hproper, ?_⟩
  induction l with
  | nil => exact .nil
  | cons a rest ih =>
      have hapart := ih (fun b hb => hproper b (List.mem_cons_of_mem _ hb)) hchain.tail
      refine List.pairwise_cons.mpr ⟨fun b hb => ?_, hapart⟩
      cases rest with
      | nil => cases hb
      | cons next rest =>
          have hnext : compare (hi a) (lo next) = .lt := (List.isChain_cons_cons.mp hchain).1
          rcases List.mem_cons.mp hb with rfl | hrest
          · exact hnext
          · have hmid := hproper next (List.mem_cons_of_mem _ List.mem_cons_self)
            exact TransCmp.lt_trans (TransCmp.lt_of_lt_of_isLE hnext hmid)
              ((List.pairwise_cons.mp hapart).1 b hrest)

theorem Ranges.partition (h : Ranges lo hi l) (k : κ) :
    l.Pairwise fun a b =>
      decide (compare (hi b) k = .lt) = true → decide (compare (hi a) k = .lt) = true := by
  refine h.apart.imp_of_mem fun {a b} _ hb hab hlt => ?_
  rw [decide_eq_true_eq] at hlt ⊢
  exact TransCmp.lt_trans (TransCmp.lt_of_lt_of_isLE hab (h.proper b hb)) hlt

/-- Ranges that lie apart are searched for the one that holds the key. -/
theorem Ranges.rangeFor_eq_some_iff (h : Ranges lo hi l) {a : α} :
    rangeFor lo hi k l = some a ↔
      a ∈ l ∧ (compare (lo a) k).isLE ∧ (compare k (hi a)).isLE := by
  have hpoint : ∀ {i : Nat} {b : α}, l[i]? = some b →
      (i < partitionPoint (fun a => compare (hi a) k = .lt) l ↔ compare (hi b) k = .lt) := by
    intro i b hb
    rw [lt_partitionPoint_iff (h.partition k) hb, decide_eq_true_eq]
  have hnotLt : ∀ {b : α}, compare (hi b) k ≠ .lt ↔ (compare k (hi b)).isLE := by
    intro b
    rw [show compare k (hi b) = (compare (hi b) k).swap from OrientedCmp.eq_swap]
    cases compare (hi b) k <;> simp
  rw [rangeFor, Option.filter_eq_some_iff]
  constructor
  · rintro ⟨hget, hlo⟩
    refine ⟨List.mem_of_getElem? hget, hlo, hnotLt.mp fun hlt => ?_⟩
    exact absurd ((hpoint hget).mpr hlt) (Nat.lt_irrefl _)
  · rintro ⟨hmem, hlo, hhi⟩
    refine ⟨?_, hlo⟩
    obtain ⟨i, hi'⟩ := List.getElem?_of_mem hmem
    -- every range in front of this one ends in front of the key
    have hle : partitionPoint (fun a => compare (hi a) k = .lt) l ≤ i :=
      Nat.le_of_not_lt fun hlt => hnotLt.mpr hhi ((hpoint hi').mp hlt)
    rcases Nat.eq_or_lt_of_le hle with heq | hlt
    · rw [heq]
      exact hi'
    · obtain ⟨hbound, rfl⟩ := List.getElem?_eq_some_iff.mp hi'
      have hbefore := List.getElem?_eq_getElem (Nat.lt_trans hlt hbound)
      have hapart := List.pairwise_iff_getElem.mp h.apart _ _ (Nat.lt_trans hlt hbound) hbound hlt
      exact absurd ((hpoint hbefore).mpr (TransCmp.lt_of_lt_of_isLE hapart hlo))
        (Nat.lt_irrefl _)

end Ranges

end Slice
