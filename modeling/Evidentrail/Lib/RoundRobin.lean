import Mathlib.Algebra.GroupWithZero.Nat
import Mathlib.Algebra.BigOperators.Group.List.Basic
import Mathlib.Data.List.Nodup
import Mathlib.Data.List.Perm.Subperm

/-!
# Picking from several streams

Elements are taken in turn from several streams, each key once, until there
are enough or the streams are exhausted. However the streams overlap, the
number picked is decided by their distinct keys alone: enough of them fill the
limit, and fewer are all picked.
-/

namespace RoundRobin

variable {α κ : Type*}

/-- What was picked so far, and the keys seen. -/
structure Picked (α κ : Type*) where
  items : List α := []
  seen : List κ := []

/-- Elements one after the other, up to the limit; whether it was reached. -/
def offerAll [DecidableEq κ] (key : α → κ) (limit : Nat) : List α → Picked α κ → Picked α κ × Bool
  | [], p => (p, false)
  | next :: rest, p =>
      if key next ∈ p.seen then offerAll key limit rest p
      else
        let p : Picked α κ := ⟨p.items ++ [next], key next :: p.seen⟩
        if p.items.length = limit then (p, true) else offerAll key limit rest p

def heads (streams : List (List α)) : List α := streams.filterMap List.head?

def tails (streams : List (List α)) : List (List α) := streams.map List.tail

/-- The number of elements left in the streams. -/
def left (streams : List (List α)) : Nat := (streams.map List.length).sum

theorem left_tails_lt {streams : List (List α)} (h : heads streams ≠ []) :
    left (tails streams) < left streams := by
  induction streams with
  | nil => simp [heads] at h
  | cons stream streams ih =>
      have hle : ∀ streams : List (List α), left (tails streams) ≤ left streams := by
        intro streams
        induction streams with
        | nil => exact Nat.le_refl _
        | cons stream streams ih =>
            simp only [left, tails, List.map_cons, List.sum_cons, List.length_tail] at ih ⊢
            omega
      cases stream with
      | nil =>
          have := ih (by simpa [heads] using h)
          simpa [left, tails] using this
      | cons a stream =>
          have := hle streams
          simp only [left, tails, List.map_cons, List.sum_cons, List.length_tail,
            List.length_cons] at this ⊢
          omega

/-- Passes over the heads of the streams until all are exhausted. -/
def merge [DecidableEq κ] (key : α → κ) (limit : Nat) (streams : List (List α)) (p : Picked α κ) :
    Picked α κ × Bool :=
  if heads streams = [] then (p, false)
  else
    match offerAll key limit (heads streams) p with
    | (p, true) => (p, true)
    | (p, false) => merge key limit (tails streams) p
termination_by left streams
decreasing_by exact left_tails_lt ‹_›

/-! ## What is kept -/

/-- The keys seen are those of the distinct elements picked, and all of them
satisfy `P`. -/
structure Picked.Sound (key : α → κ) (P : α → Prop) (p : Picked α κ) : Prop where
  nodup : (p.items.map key).Nodup
  seen : ∀ k, k ∈ p.seen ↔ k ∈ p.items.map key
  holds : ∀ a ∈ p.items, P a

/-- One key after the other was offered: the picked elements are sound, none is
lost, and either the limit was reached just now or every key was seen. -/
structure Offered (key : α → κ) (P : α → Prop) (limit : Nat) (p : Picked α κ)
    (offered : List α) (result : Picked α κ × Bool) : Prop where
  sound : result.1.Sound key P
  keeps : ∀ k ∈ p.seen, k ∈ result.1.seen
  full : result.2 = true → result.1.items.length = limit
  unfilled : result.2 = false → result.1.items.length < limit ∧
    ∀ a ∈ offered, key a ∈ result.1.seen

variable {key : α → κ} {P : α → Prop} {limit : Nat}

theorem Picked.Sound.push {p : Picked α κ} (h : p.Sound key P) {a : α} (ha : P a)
    (hnew : key a ∉ p.seen) : Picked.Sound key P ⟨p.items ++ [a], key a :: p.seen⟩ where
  nodup := by
    rw [List.map_append, List.map_singleton]
    exact h.nodup.append (List.nodup_singleton _) (by
      rw [List.disjoint_singleton]
      exact fun hin => hnew ((h.seen _).mpr hin))
  seen k := by
    rw [List.mem_cons, h.seen, List.map_append, List.mem_append, List.map_singleton,
      List.mem_singleton, or_comm]
  holds b hb := by
    rcases List.mem_append.mp hb with hb | hb
    · exact h.holds b hb
    · rwa [List.mem_singleton.mp hb]

theorem offered_offerAll [DecidableEq κ] : ∀ {offered : List α} {p : Picked α κ}, p.Sound key P →
    (∀ a ∈ offered, P a) → p.items.length < limit →
    Offered key P limit p offered (offerAll key limit offered p)
  | [], p, h, _, hlt => ⟨h, fun _ hk => hk, by simp [offerAll], fun _ => ⟨hlt, by simp⟩⟩
  | next :: rest, p, h, hP, hlt => by
      obtain ⟨hnext, hrest⟩ := List.forall_mem_cons.mp hP
      rw [offerAll]
      split
      · rename_i hold
        obtain ⟨hsound, hkeeps, hfull, hopen⟩ := offered_offerAll h hrest hlt
        refine ⟨hsound, hkeeps, hfull, fun hfalse => ?_⟩
        obtain ⟨hlt', hall⟩ := hopen hfalse
        exact ⟨hlt', List.forall_mem_cons.mpr ⟨hkeeps _ hold, hall⟩⟩
      · rename_i hnew
        have hpush := h.push hnext hnew
        simp only
        split
        · rename_i hlimit
          exact ⟨hpush, fun k hk => List.mem_cons_of_mem _ hk, fun _ => hlimit, by simp⟩
        · rename_i hlimit
          obtain ⟨hsound, hkeeps, hfull, hopen⟩ := offered_offerAll hpush hrest (by
            rw [List.length_append, List.length_singleton] at hlimit ⊢
            omega)
          refine ⟨hsound, fun k hk => hkeeps k (List.mem_cons_of_mem _ hk), hfull,
            fun hfalse => ?_⟩
          obtain ⟨hlt', hall⟩ := hopen hfalse
          exact ⟨hlt', List.forall_mem_cons.mpr ⟨hkeeps _ (List.mem_cons_self ..), hall⟩⟩

theorem mem_heads_or_tails {streams : List (List α)} {a : α} :
    a ∈ streams.flatten ↔ a ∈ heads streams ∨ a ∈ (tails streams).flatten := by
  simp only [heads, tails, List.mem_flatten, List.mem_filterMap, List.mem_map]
  constructor
  · rintro ⟨stream, hstream, ha⟩
    cases stream with
    | nil => cases ha
    | cons b stream =>
        rcases List.mem_cons.mp ha with rfl | ha
        · exact .inl ⟨_, hstream, rfl⟩
        · exact .inr ⟨stream, ⟨_, hstream, rfl⟩, ha⟩
  · rintro (⟨stream, hstream, ha⟩ | ⟨_, ⟨stream, hstream, rfl⟩, ha⟩)
    · exact ⟨stream, hstream, List.mem_of_head? ha⟩
    · exact ⟨stream, hstream, List.mem_of_mem_tail ha⟩

/-- Merging offers every element of every stream. -/
theorem offered_merge [DecidableEq κ] {streams : List (List α)} {p : Picked α κ} (h : p.Sound key P)
    (hP : ∀ a ∈ streams.flatten, P a) (hlt : p.items.length < limit) :
    Offered key P limit p streams.flatten (merge key limit streams p) := by
  fun_induction merge key limit streams p with
  | case1 streams p hnone =>
      refine ⟨h, fun _ hk => hk, by simp, fun _ => ⟨hlt, fun a ha => ?_⟩⟩
      -- no stream has a head, so none has an element
      obtain ⟨stream, hstream, ha⟩ := List.mem_flatten.mp ha
      have hhead := List.filterMap_eq_nil_iff.mp hnone stream hstream
      rw [List.head?_eq_none_iff.mp hhead] at ha
      cases ha
  | case2 streams p hsome next hpass =>
      obtain ⟨hsound, hkeeps, hfull, -⟩ := offered_offerAll h
        (fun a ha => hP a (mem_heads_or_tails.mpr (.inl ha))) hlt
      rw [hpass] at hsound hkeeps hfull
      exact ⟨hsound, hkeeps, hfull, by simp⟩
  | case3 streams p hsome next hpass ih =>
      obtain ⟨hsound, hkeeps, -, hopen⟩ := offered_offerAll h
        (fun a ha => hP a (mem_heads_or_tails.mpr (.inl ha))) hlt
      rw [hpass] at hsound hkeeps hopen
      obtain ⟨hlt', hheads⟩ := hopen rfl
      obtain ⟨hsound', hkeeps', hfull', hopen'⟩ := ih hsound
        (fun a ha => hP a (mem_heads_or_tails.mpr (.inr ha))) hlt'
      refine ⟨hsound', fun k hk => hkeeps' k (hkeeps k hk), hfull', fun hfalse => ?_⟩
      obtain ⟨hcount, htails⟩ := hopen' hfalse
      refine ⟨hcount, fun a ha => ?_⟩
      rcases mem_heads_or_tails.mp ha with ha | ha
      · exact hkeeps' _ (hheads a ha)
      · exact htails a ha

/-! ## How many are picked -/

/-- Below the limit, everything offered under distinct keys was picked. -/
theorem Offered.pool_le {p : Picked α κ} {offered : List α} {result : Picked α κ × Bool}
    (h : Offered key P limit p offered result) {pool : List α} (hnodup : (pool.map key).Nodup)
    (hpool : ∀ a ∈ pool, key a ∈ p.seen ∨ a ∈ offered) (hfalse : result.2 = false) :
    pool.length ≤ result.1.items.length := by
  obtain ⟨-, hall⟩ := h.unfilled hfalse
  have hsubset : pool.map key ⊆ result.1.items.map key := by
    intro k hk
    obtain ⟨a, ha, rfl⟩ := List.mem_map.mp hk
    refine (h.sound.seen _).mp ?_
    rcases hpool a ha with hseen | hin
    · exact h.keeps _ hseen
    · exact hall a hin
  have hle := (hnodup.subperm hsubset).length_le
  rwa [List.length_map, List.length_map] at hle

/-- Where enough distinct keys are offered the limit is reached. -/
theorem Offered.full_of_pool {p : Picked α κ} {offered : List α} {result : Picked α κ × Bool}
    (h : Offered key P limit p offered result) {pool : List α} (hnodup : (pool.map key).Nodup)
    (hpool : ∀ a ∈ pool, key a ∈ p.seen ∨ a ∈ offered) (hlimit : limit ≤ pool.length) :
    result.2 = true := by
  by_contra hfalse
  rw [Bool.not_eq_true] at hfalse
  have hle := h.pool_le hnodup hpool hfalse
  have hlt := (h.unfilled hfalse).1
  omega

/-- Elements of a list of distinct keys are picked at most as often as there
are elements. -/
theorem Picked.Sound.length_le {p : Picked α κ} (h : p.Sound key P) {l : List α}
    (hall : ∀ a, P a → a ∈ l) : p.items.length ≤ l.length := by
  have hnodup : p.items.Nodup := List.Nodup.of_map _ h.nodup
  exact (hnodup.subperm fun a ha => hall a (h.holds a ha)).length_le

end RoundRobin
