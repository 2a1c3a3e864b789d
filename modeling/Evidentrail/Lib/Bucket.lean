import Evidentrail.Lib.Rust

/-!
# Buckets

Elements distributed over a B-tree by a key, each bucket in the order they came in.
-/

namespace Bucket

open Rust Std

variable {κ α : Type*} [Ord κ] [TransOrd κ] {f : α → κ}

/-- `entry(key).or_default().push(element)`, element after element. -/
def distribute (f : α → κ) (l : List α) : ExtTreeMap κ (List α) :=
  l.foldl (fun buckets a => buckets.insert (f a) (buckets[f a]?.getD [] ++ [a])) ∅

variable [LawfulEqOrd κ] [DecidableEq κ]

theorem getElem?_foldl {k : κ} : ∀ {l : List α} {buckets : ExtTreeMap κ (List α)},
    (l.foldl (fun buckets a => buckets.insert (f a) (buckets[f a]?.getD [] ++ [a]))
      buckets)[k]?.getD [] = buckets[k]?.getD [] ++ l.filter (f · = k)
  | [], buckets => by simp
  | a :: rest, buckets => by
      rw [List.foldl_cons, getElem?_foldl, getElem?_insert]
      by_cases hkey : f a = k
      · rw [if_pos hkey, List.filter_cons_of_pos (by simpa using hkey), Option.getD_some, hkey,
          List.append_assoc, List.singleton_append]
      · rw [if_neg hkey, List.filter_cons_of_neg (by simpa using hkey)]

/-- A bucket has the elements with its key. -/
theorem getElem?_distribute {l : List α} {k : κ} :
    (distribute f l)[k]?.getD [] = l.filter (f · = k) := by
  rw [distribute, getElem?_foldl]
  simp

/-- The buckets there are, and in which no element is missing. -/
theorem mem_toList_distribute {l : List α} {entry : κ × List α}
    (h : entry ∈ (distribute f l).toList) : entry.2 = l.filter (f · = entry.1) := by
  have hget := getElem?_distribute (f := f) (l := l) (k := entry.1)
  rwa [ExtTreeMap.mem_toList_iff_getElem?_eq_some.mp h, Option.getD_some] at hget

/-! ## One key of a tree -/

omit [DecidableEq κ] in
/-- A pass over a tree to which one key only contributes. -/
theorem flatMap_toList {β γ : Type*} {m : ExtTreeMap κ β} {k : κ} {f : κ × β → List γ}
    (h : ∀ entry ∈ m.toList, entry.1 ≠ k → f entry = []) :
    m.toList.flatMap f = (m[k]?.map fun v => f (k, v)).getD [] := by
  have hdistinct : m.toList.Pairwise fun a b => a.1 ≠ b.1 := by
    refine ExtTreeMap.distinct_keys_toList.imp fun hab heq => hab ?_
    rw [heq]
    exact ReflCmp.compare_self
  cases hlookup : m[k]? with
  | none =>
      rw [Option.map_none, Option.getD_none, List.flatMap_eq_nil_iff]
      refine fun entry hentry => h entry hentry fun hkey => ?_
      have hfound := ExtTreeMap.mem_toList_iff_getElem?_eq_some.mp hentry
      rw [hkey, hlookup] at hfound
      cases hfound
  | some v =>
      have hin := ExtTreeMap.mem_toList_iff_getElem?_eq_some.mpr hlookup
      obtain ⟨before, after, hsplit⟩ := List.append_of_mem hin
      rw [hsplit, List.pairwise_append, List.pairwise_cons] at hdistinct
      have hbefore : before.flatMap f = [] := List.flatMap_eq_nil_iff.mpr fun entry hentry =>
        h entry (hsplit ▸ List.mem_append_left _ hentry)
          (hdistinct.2.2 entry hentry _ (List.mem_cons_self ..))
      have hafter : after.flatMap f = [] := List.flatMap_eq_nil_iff.mpr fun entry hentry =>
        h entry (hsplit ▸ List.mem_append_right _ (List.mem_cons_of_mem _ hentry))
          (hdistinct.2.1.1 entry hentry).symm
      rw [hsplit, List.flatMap_append, List.flatMap_cons, hbefore, hafter, List.append_nil,
        List.nil_append, Option.map_some, Option.getD_some]

/-- A tree with a value for every key of a list. -/
theorem getElem?_collect {β : Type*} {g : κ → β} {k : κ} :
    ∀ {l : List α} {m : ExtTreeMap κ β},
      (l.foldl (fun m a => m.insert (f a) (g (f a))) m)[k]? =
        if k ∈ l.map f then some (g k) else m[k]?
  | [], m => by simp
  | a :: rest, m => by
      rw [List.foldl_cons, getElem?_collect, getElem?_insert, List.map_cons]
      by_cases hrest : k ∈ rest.map f
      · rw [if_pos hrest, if_pos (List.mem_cons_of_mem _ hrest)]
      · rw [if_neg hrest]
        by_cases hhead : f a = k
        · rw [if_pos hhead, hhead, if_pos (List.mem_cons_self ..)]
        · rw [if_neg hhead, if_neg]
          rintro (_ | ⟨_, hin⟩)
          · exact hhead rfl
          · exact hrest hin

end Bucket
