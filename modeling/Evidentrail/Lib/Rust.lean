import Mathlib.Data.List.Basic
import Mathlib.Tactic.Ring

/-!
# Machine integers, vectors and derived orders

The parts of the source language that the models rely on: `u64`
arithmetic that reports overflow, vectors whose length fits the address
space, and the lexicographic orders that `derive(Ord)` gives to
records, which decide the iteration order of a B-tree.
-/

namespace Rust

universe u

/-- One past the largest `u64` (and `usize` on a 64-bit target). -/
abbrev u64Bound : Nat := 2 ^ 64

/-- `u64::try_from` of a length. -/
def u64TryFrom (n : Nat) : Option Nat :=
  if n < u64Bound then some n else none

/-- `u64::checked_add`. -/
def checkedAdd (a b : Nat) : Option Nat :=
  if a + b < u64Bound then some (a + b) else none

/-- `u64::checked_mul`. -/
def checkedMul (a b : Nat) : Option Nat :=
  if a * b < u64Bound then some (a * b) else none

/-- A subtraction without a check, which must not underflow. -/
def checkedSub (a b : Nat) : Option Nat :=
  if b ≤ a then some (a - b) else none

/-- `saturating_add` of `u64` or `usize`. -/
def saturatingAdd (a b : Nat) : Nat :=
  min (a + b) (u64Bound - 1)

theorem u64TryFrom_eq_some {n m : Nat} :
    u64TryFrom n = some m ↔ n < u64Bound ∧ m = n := by
  unfold u64TryFrom
  split <;> simp_all [eq_comm]

theorem checkedAdd_eq_some {a b c : Nat} :
    checkedAdd a b = some c ↔ a + b < u64Bound ∧ c = a + b := by
  unfold checkedAdd
  split <;> simp_all [eq_comm]

theorem checkedMul_eq_some {a b c : Nat} :
    checkedMul a b = some c ↔ a * b < u64Bound ∧ c = a * b := by
  unfold checkedMul
  split <;> simp_all [eq_comm]

theorem checkedSub_eq_some {a b c : Nat} : checkedSub a b = some c ↔ b ≤ a ∧ c = a - b := by
  unfold checkedSub
  split <;> simp_all [eq_comm]

theorem checkedAdd_of_lt {a b : Nat} (h : a + b < u64Bound) :
    checkedAdd a b = some (a + b) :=
  if_pos h

theorem checkedMul_of_lt {a b : Nat} (h : a * b < u64Bound) :
    checkedMul a b = some (a * b) :=
  if_pos h

theorem checkedSub_of_le {a b : Nat} (h : b ≤ a) : checkedSub a b = some (a - b) :=
  if_pos h

theorem saturatingAdd_of_lt {a b : Nat} (h : a + b < u64Bound) :
    saturatingAdd a b = a + b := by
  unfold saturatingAdd
  omega

/-- One past the largest `u128`. -/
abbrev u128Bound : Nat := 2 ^ 128

/-- `u128::checked_add`. -/
def checkedAdd128 (a b : Nat) : Option Nat :=
  if a + b < u128Bound then some (a + b) else none

/-- `u128::checked_mul`. -/
def checkedMul128 (a b : Nat) : Option Nat :=
  if a * b < u128Bound then some (a * b) else none

/-- `u32::try_from` of a wider integer. -/
def u32TryFrom (n : Nat) : Option Nat :=
  if n < 2 ^ 32 then some n else none

theorem checkedAdd128_of_lt {a b : Nat} (h : a + b < u128Bound) :
    checkedAdd128 a b = some (a + b) :=
  if_pos h

theorem checkedMul128_of_lt {a b : Nat} (h : a * b < u128Bound) :
    checkedMul128 a b = some (a * b) :=
  if_pos h

theorem u32TryFrom_of_lt {n : Nat} (h : n < 2 ^ 32) : u32TryFrom n = some n :=
  if_pos h

/-- How a call that returns `Result` and uses `expect` can fail. A loop
without a syntactic bound gets a number of steps and `diverged` when they
run out. -/
inductive Fault (ε : Type*) where
  | err (error : ε)
  | panicked
  | diverged
deriving DecidableEq

/-- `map_err`: a panic is not an error value. -/
def Fault.mapErr {ε ε' : Type*} (f : ε → ε') : Fault ε → Fault ε'
  | .err error => .err (f error)
  | .panicked => .panicked
  | .diverged => .diverged

/-- `ok_or`. -/
def okOr {ε α : Type*} (fault : ε) : Option α → Except ε α
  | some a => .ok a
  | none => .error fault

@[simp] theorem okOr_some {ε α : Type*} (fault : ε) (a : α) :
    okOr fault (some a) = .ok a :=
  rfl

theorem okOr_eq_ok {ε α : Type*} {fault : ε} {x : Option α} {a : α} :
    okOr fault x = .ok a ↔ x = some a := by
  cases x <;> simp [okOr]

theorem except_bind_ok {ε : Type*} {α β : Type u} {a : α} {f : α → Except ε β} :
    (Except.ok a >>= f) = f a :=
  rfl

theorem except_bind_eq_ok {ε : Type*} {α β : Type u} {x : Except ε α} {f : α → Except ε β} {b : β} :
    (x >>= f) = .ok b ↔ ∃ a, x = .ok a ∧ f a = .ok b := by
  cases x <;> simp [Bind.bind, Except.bind]

theorem forM_eq_ok {ε α : Type} {f : α → Except ε Unit} : ∀ {xs : List α},
    xs.forM f = .ok () ↔ ∀ x ∈ xs, f x = .ok ()
  | [] => by simp [pure, Except.pure]
  | x :: rest => by
      rw [List.forM_eq_forM, List.forM_cons, except_bind_eq_ok, List.forall_mem_cons]
      constructor
      · rintro ⟨_, hx, hrest⟩
        exact ⟨hx, forM_eq_ok.mp hrest⟩
      · rintro ⟨hx, hrest⟩
        exact ⟨(), hx, forM_eq_ok.mpr hrest⟩

/-- A loop whose every pass succeeds and keeps an invariant. -/
theorem foldlM_eq_ok {ε α : Type*} {σ : Type u} {step : σ → α → Except ε σ}
    (Inv : σ → Prop) (hstep : ∀ s a, Inv s → ∃ s', step s a = .ok s' ∧ Inv s') :
    ∀ (l : List α) (s : σ), Inv s → ∃ s', l.foldlM step s = .ok s' ∧ Inv s'
  | [], s, hs => ⟨s, rfl, hs⟩
  | a :: rest, s, hs => by
      obtain ⟨s₁, hfirst, hs₁⟩ := hstep s a hs
      obtain ⟨s₂, hrest, hs₂⟩ := foldlM_eq_ok Inv hstep rest s₁ hs₁
      exact ⟨s₂, by rw [List.foldlM_cons, hfirst, except_bind_ok, hrest], hs₂⟩

theorem except_map_eq_ok {ε α β : Type*} {f : α → β} {x : Except ε α} {b : β} :
    x.map f = .ok b ↔ ∃ a, x = .ok a ∧ f a = b := by
  cases x <;> simp [Except.map]

theorem mapError_eq_ok {ε ε' α : Type*} {f : ε → ε'} {x : Except ε α} {a : α} :
    x.mapError f = .ok a ↔ x = .ok a := by
  cases x <;> simp [Except.mapError]

/-- A check that has to be passed on the way to a value. -/
theorem ite_error_eq_ok {ε α : Type*} {p : Prop} [Decidable p] {error : ε}
    {x : Except ε α} {a : α} :
    (if p then .error error else x) = .ok a ↔ ¬p ∧ x = .ok a := by
  split
  · rename_i h
    exact ⟨nofun, fun hnot => absurd h hnot.1⟩
  · rename_i h
    exact ⟨fun hx => ⟨h, hx⟩, And.right⟩

/-- A check that has to be passed on the way to a value that uses it. -/
theorem dite_error_eq_ok {ε α : Type*} {p : Prop} [Decidable p] {error : ε}
    {x : ¬p → Except ε α} {a : α} :
    (if h : p then .error error else x h) = .ok a ↔ ∃ h : ¬p, x h = .ok a := by
  split
  · rename_i h
    exact ⟨nofun, fun hnot => absurd h hnot.1⟩
  · rename_i h
    exact ⟨fun hx => ⟨h, hx⟩, fun hx => hx.2⟩

theorem toOption_eq_some {ε α : Type} {x : Except ε α} {a : α} :
    x.toOption = some a ↔ x = .ok a := by
  cases x with
  | ok b => simp [Except.toOption]
  | error error => simp [Except.toOption]

/-! ## Vectors -/

/-- A `Vec` or a slice: no allocation exceeds `isize::MAX` bytes. -/
structure Vec (α : Type*) where
  toList : List α
  length_lt : toList.length < 2 ^ 63
deriving DecidableEq

namespace Vec

variable {α : Type*}

theorem ext {s t : Vec α} (h : s.toList = t.toList) : s = t := by
  cases s; cases t; cases h; rfl

def length (s : Vec α) : Nat := s.toList.length

theorem length_lt_u64 (s : Vec α) : s.toList.length < u64Bound :=
  Nat.lt_trans s.length_lt (by decide)

def empty : Vec α := ⟨[], Nat.two_pow_pos 63⟩

def singleton (a : α) : Vec α := ⟨[a], Nat.one_lt_two_pow (by decide)⟩

/-- `push`, which aborts the program where there is no room. -/
def push (s : Vec α) (a : α) : Vec α :=
  if h : s.toList.length + 1 < 2 ^ 63 then ⟨s.toList ++ [a], by simpa using h⟩ else s

theorem toList_push {s : Vec α} {a : α} (h : s.toList.length + 1 < 2 ^ 63) :
    (s.push a).toList = s.toList ++ [a] := by
  rw [push, dif_pos h]

/-- What `split_off(n)` leaves. -/
def take (s : Vec α) (n : Nat) : Vec α :=
  ⟨s.toList.take n, (List.length_take_le' n s.toList).trans_lt s.length_lt⟩

/-- What `split_off(n)` returns. -/
def drop (s : Vec α) (n : Nat) : Vec α :=
  ⟨s.toList.drop n, (List.length_drop ▸ Nat.sub_le ..).trans_lt s.length_lt⟩

end Vec

/-- `chunks(n)`: each pass takes at least one element when `n` is positive. -/
def chunksLoop {α : Type*} (n : Nat) : Nat → List α → List (List α)
  | 0, _ => []
  | _ + 1, [] => []
  | fuel + 1, a :: rest => (a :: rest).take n :: chunksLoop n fuel ((a :: rest).drop n)

def chunks {α : Type*} (n : Nat) (l : List α) : List (List α) := chunksLoop n l.length l

theorem flatten_chunksLoop {α : Type*} {n : Nat} (hn : 0 < n) :
    ∀ {fuel : Nat} {l : List α}, l.length ≤ fuel → (chunksLoop n fuel l).flatten = l
  | 0, l, h => by rw [List.length_eq_zero_iff.mp (Nat.le_zero.mp h)]; rfl
  | _ + 1, [], _ => rfl
  | fuel + 1, a :: rest, h => by
      rw [chunksLoop, List.flatten_cons, flatten_chunksLoop hn, List.take_append_drop]
      rw [List.length_drop]
      simp only [List.length_cons] at h ⊢
      omega

theorem flatten_chunks {α : Type*} {n : Nat} (hn : 0 < n) (l : List α) :
    (chunks n l).flatten = l :=
  flatten_chunksLoop hn (Nat.le_refl _)

/-! ## Orders -/

section Orders

open Std

variable {α β : Type*} [Ord β] [LawfulEqOrd β]

/-- Compare through a ranking. With an injective ranking this is a total
order, and a B-tree keyed by `α` iterates in the order of the ranks. -/
theorem lawfulEqCmp_compareOn {rank : α → β} (h : Function.Injective rank) :
    LawfulEqCmp (compareOn rank) where
  compare_self {a} := compare_self (a := rank a)
  eq_of_compare {a b} hab := h (LawfulEqOrd.eq_of_compare (a := rank a) (b := rank b) hab)

end Orders

/-! ## B-tree lookups

The library states these up to `compare k a = .eq`; under a lawful order
that is equality of keys. -/

section Lookups

open Std

variable {κ β : Type*} [Ord κ] [TransOrd κ] [LawfulEqOrd κ]

theorem getElem?_insert [DecidableEq κ] {m : ExtTreeMap κ β} {k a : κ} {v : β} :
    (m.insert k v)[a]? = if k = a then some v else m[a]? := by
  simp only [ExtTreeMap.getElem?_insert, Std.compare_eq_iff_eq]

theorem getElem?_erase [DecidableEq κ] {m : ExtTreeMap κ β} {k a : κ} :
    (m.erase k)[a]? = if k = a then none else m[a]? := by
  simp only [ExtTreeMap.getElem?_erase, Std.compare_eq_iff_eq]

/-- Erasing a key that is not there. -/
theorem erase_eq_self [DecidableEq κ] {m : ExtTreeMap κ β} {k : κ} (h : k ∉ m) :
    m.erase k = m := by
  refine ExtTreeMap.ext_getElem? fun a => ?_
  rw [getElem?_erase]
  split
  · rename_i hka
    rw [← hka, ExtTreeMap.getElem?_eq_none h]
  · rfl

theorem mem_insert {m : ExtTreeMap κ β} {k a : κ} {v : β} :
    a ∈ m.insert k v ↔ k = a ∨ a ∈ m := by
  simp only [ExtTreeMap.mem_insert, Std.compare_eq_iff_eq]

theorem mem_insert_set {s : ExtTreeSet κ} {k a : κ} : a ∈ s.insert k ↔ k = a ∨ a ∈ s := by
  simp only [ExtTreeSet.mem_insert, Std.compare_eq_iff_eq]

theorem mem_erase_set {s : ExtTreeSet κ} {k a : κ} : a ∈ s.erase k ↔ k ≠ a ∧ a ∈ s := by
  rw [ExtTreeSet.mem_erase, ne_eq, Std.compare_eq_iff_eq]

end Lookups

/-! ## Inserting fresh keys -/

section Fresh

open Std

variable {κ : Type*} [Ord κ] [TransOrd κ]

/-- `BTreeSet::insert` where a key that is already there is an error. -/
def insertNew (s : ExtTreeSet κ) (k : κ) : Option (ExtTreeSet κ) :=
  if k ∈ s then none else some (s.insert k)

theorem insertNew_eq_some {s t : ExtTreeSet κ} {k : κ} :
    insertNew s k = some t ↔ k ∉ s ∧ t = s.insert k := by
  unfold insertNew
  split <;> simp_all [eq_comm]

/-- A loop that inserts every key and stops at the first one seen before. -/
def insertAllNew {ε : Type*} (error : ε) (s : ExtTreeSet κ) :
    List κ → Except ε (ExtTreeSet κ)
  | [] => .ok s
  | k :: rest =>
      match insertNew s k with
      | none => .error error
      | some s => insertAllNew error s rest

theorem insertAllNew_eq_ok [LawfulEqOrd κ] {ε : Type*} {error : ε} {t : ExtTreeSet κ} :
    ∀ {keys : List κ} {s : ExtTreeSet κ}, insertAllNew error s keys = .ok t →
      keys.Nodup ∧ (∀ k ∈ keys, k ∉ s)
  | [], _, _ => ⟨List.nodup_nil, by simp⟩
  | k :: rest, s, h => by
      simp only [insertAllNew] at h
      cases hnew : insertNew s k with
      | none => simp [hnew] at h
      | some s' =>
          rw [hnew] at h
          obtain ⟨hfresh, rfl⟩ := insertNew_eq_some.mp hnew
          obtain ⟨hnodup, hrest⟩ := insertAllNew_eq_ok h
          refine ⟨List.nodup_cons.mpr ⟨fun hk => hrest k hk ?_, hnodup⟩, ?_⟩
          · exact mem_insert_set.mpr (.inl rfl)
          · intro a ha
            rcases List.mem_cons.mp ha with rfl | ha
            · exact hfresh
            · exact fun has => hrest a ha (mem_insert_set.mpr (.inr has))

theorem insertAllNew_ok [LawfulEqOrd κ] {ε : Type*} (error : ε) :
    ∀ (s : ExtTreeSet κ) {keys : List κ}, keys.Nodup → (∀ k ∈ keys, k ∉ s) →
      ∃ t, insertAllNew error s keys = .ok t
  | s, [], _, _ => ⟨s, rfl⟩
  | s, k :: rest, hnodup, hfresh => by
      obtain ⟨hk, hrest⟩ := List.nodup_cons.mp hnodup
      obtain ⟨hhead, htail⟩ := List.forall_mem_cons.mp hfresh
      obtain ⟨t, ht⟩ := insertAllNew_ok error (s.insert k) hrest
        fun a ha hinsert => by
          rcases mem_insert_set.mp hinsert with rfl | hold
          · exact hk ha
          · exact htail a ha hold
      exact ⟨t, by rw [insertAllNew, insertNew_eq_some.mpr ⟨hhead, rfl⟩]; exact ht⟩

end Fresh

section Sizes

open Std

variable {κ β : Type*} [Ord κ] [TransOrd κ]

theorem size_insert {m : ExtTreeMap κ β} {k : κ} {v : β} (h : k ∉ m) :
    (m.insert k v).size = m.size + 1 :=
  ExtTreeMap.size_insert.trans (if_neg h)

theorem size_erase {m : ExtTreeMap κ β} {k : κ} (h : k ∈ m) :
    (m.erase k).size + 1 = m.size := by
  have hsome : m.size ≠ 0 := fun hzero => by
    have hempty : m = ∅ := ExtTreeMap.isEmpty_iff.mp
      (by rw [ExtTreeMap.isEmpty_eq_size_beq_zero, hzero]; rfl)
    exact ExtTreeMap.not_mem_empty (hempty ▸ h)
  rw [ExtTreeMap.size_erase, if_pos (ExtTreeMap.contains_iff_mem.mpr h)]
  omega

theorem size_insert_set {s : ExtTreeSet κ} {k : κ} (h : k ∉ s) :
    (s.insert k).size = s.size + 1 :=
  ExtTreeSet.size_insert.trans (if_neg h)

end Sizes

end Rust
