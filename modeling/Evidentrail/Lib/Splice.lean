import Mathlib.Data.List.Chain

/-!
# Replacing ranges of a list

Ranges that are given by their positions in the original list are replaced from
the last to the first: then each stands where it stood. In front of the first
range nothing changes (`take_replaceRanges`), and what follows a position that
no range reaches is the rest of the list with the later ranges replaced
(`drop_replaceRanges_cons`).
-/

namespace Splice

variable {α : Type*}

/-- A range of positions, and what goes in its place. -/
structure Replacement (α : Type*) where
  start : Nat
  stop : Nat
  replacement : List α

def Replacement.apply (r : Replacement α) (xs : List α) : List α :=
  xs.take r.start ++ r.replacement ++ xs.drop r.stop

def replaceRanges (xs : List α) (rs : List (Replacement α)) : List α :=
  rs.foldr Replacement.apply xs

/-- The ranges lie in a list of this length, the first not before `prior` and
each of the others not before the end of the one in front of it. -/
def Ordered (length : Nat) : Nat → List (Replacement α) → Prop
  | _, [] => True
  | prior, r :: rest => prior ≤ r.start ∧ r.start ≤ r.stop ∧ r.stop ≤ length ∧
      Ordered length r.stop rest

theorem ordered_iff {length prior : Nat} {rs : List (Replacement α)} :
    Ordered length prior rs ↔ (∀ r ∈ rs, r.start ≤ r.stop ∧ r.stop ≤ length) ∧
      (∀ r ∈ rs.head?, prior ≤ r.start) ∧ rs.IsChain fun a b => a.stop ≤ b.start := by
  induction rs generalizing prior with
  | nil => simp [Ordered]
  | cons r rest ih =>
      rw [Ordered, ih, List.forall_mem_cons, List.head?_cons, List.isChain_cons]
      simp only [Option.mem_def, Option.some.injEq, forall_eq']
      tauto

/-- In front of the first range nothing changes. -/
theorem take_replaceRanges {xs : List α} {prior count : Nat} {rs : List (Replacement α)}
    (h : Ordered xs.length prior rs) (hcount : count ≤ prior) :
    (replaceRanges xs rs).take count = xs.take count := by
  induction rs generalizing prior count with
  | nil => rfl
  | cons r rest ih =>
      obtain ⟨hprior, hrange, hlength, hrest⟩ := h
      have hstart := ih hrest hrange
      have hsize : (xs.take r.start).length = r.start := List.length_take_of_le (by omega)
      show ((replaceRanges xs rest).take r.start ++ r.replacement ++ _).take count = _
      rw [hstart, List.append_assoc, List.take_append_of_le_length (by omega), List.take_take,
        Nat.min_eq_left (by omega)]

/-- Behind `prior` stand the elements up to the first range, its replacement and
what the other ranges leave behind it. -/
theorem drop_replaceRanges_cons {xs : List α} {prior : Nat} {r : Replacement α}
    {rest : List (Replacement α)} (h : Ordered xs.length prior (r :: rest)) :
    (replaceRanges xs (r :: rest)).drop prior =
      (xs.drop prior).take (r.start - prior) ++ r.replacement ++
        (replaceRanges xs rest).drop r.stop := by
  obtain ⟨hprior, hrange, hlength, hrest⟩ := h
  have hstart := take_replaceRanges hrest hrange
  have hsize : (xs.take r.start).length = r.start := List.length_take_of_le (by omega)
  show ((replaceRanges xs rest).take r.start ++ r.replacement ++
    (replaceRanges xs rest).drop r.stop).drop prior = _
  rw [hstart, List.append_assoc, List.drop_append_of_le_length (by omega), List.drop_take,
    List.append_assoc]

end Splice
