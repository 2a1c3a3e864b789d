import Mathlib.Data.List.Basic

/-!
# Visitors that stop

A visitor is called on one element after the other and says whether it wants the
next one. A loop that calls visitors from several places, and passes the answer
up, feeds it one list (`feed_append`).
-/

namespace Visit

variable {σ α : Type*} (visit : σ → α → σ × Bool)

/-- The state of the visitor in the end, and whether it wants more. -/
def feed (s : σ) : List α → σ × Bool
  | [] => (s, true)
  | a :: rest =>
      match visit s a with
      | (s, true) => feed s rest
      | (s, false) => (s, false)

@[simp] theorem feed_nil (s : σ) : feed visit s [] = (s, true) := rfl

theorem feed_append (s : σ) (xs ys : List α) :
    feed visit s (xs ++ ys) =
      match feed visit s xs with
      | (s, true) => feed visit s ys
      | (s, false) => (s, false) := by
  induction xs generalizing s with
  | nil => rfl
  | cons a rest ih =>
      rw [List.cons_append, feed, feed]
      obtain ⟨s', more⟩ := visit s a
      cases more with
      | true => exact ih s'
      | false => rfl

theorem feed_singleton (s : σ) (a : α) : feed visit s [a] = visit s a := by
  rw [feed]
  obtain ⟨s', more⟩ := visit s a
  cases more <;> rfl

/-- A visitor that wants more at every element sees them all. -/
theorem feed_eq_of_step {visit : σ → α → σ × Bool} (spec : List α → σ) {all : List α}
    (h : ∀ seen a rest, all = seen ++ a :: rest →
      visit (spec seen) a = (spec (seen ++ [a]), true)) :
    feed visit (spec []) all = (spec all, true) := by
  suffices hrest : ∀ rest seen, all = seen ++ rest →
      feed visit (spec seen) rest = (spec all, true) from hrest all [] rfl
  intro rest
  induction rest with
  | nil =>
      intro seen hall
      rw [List.append_nil] at hall
      rw [hall]
      rfl
  | cons a rest ih =>
      intro seen hall
      simp only [feed, h seen a rest hall]
      exact ih (seen ++ [a]) (by rw [hall, List.append_assoc]; rfl)

end Visit
