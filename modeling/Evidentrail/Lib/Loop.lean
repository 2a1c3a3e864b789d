import Mathlib.Data.List.Basic

/-!
# Loops with a budget

A loop that carries a state from element to element and stops at the first one that
does not fit. If the state is a function of what was seen, so is the result.
-/

namespace Loop

variable {ε σ α : Type*} {step : σ → α → Except ε σ} {spec : List α → σ}
  {fits : List α → Prop} {stops : ε → Prop} {all : List α}

/-- A step adds one element to what was seen, or stops because that does not fit. -/
structure Steps (step : σ → α → Except ε σ) (spec : List α → σ) (fits : List α → Prop)
    (stops : ε → Prop) (all : List α) : Prop where
  start : fits []
  down : ∀ seen rest, all = seen ++ rest → fits all → fits seen
  next : ∀ seen a rest, all = seen ++ a :: rest → fits seen → fits (seen ++ [a]) →
    step (spec seen) a = .ok (spec (seen ++ [a]))
  stop : ∀ seen a rest, all = seen ++ a :: rest → fits seen → ¬ fits (seen ++ [a]) →
    ∃ e, step (spec seen) a = .error e ∧ stops e

/-- The loop sees everything, or stops because everything does not fit. -/
theorem Steps.foldlM (h : Steps step spec fits stops all) :
    (fits all → all.foldlM step (spec []) = .ok (spec all)) ∧
      (¬ fits all → ∃ e, all.foldlM step (spec []) = .error e ∧ stops e) := by
  suffices hrest : ∀ rest seen, all = seen ++ rest → fits seen →
      (fits all → rest.foldlM step (spec seen) = .ok (spec all)) ∧
        (¬ fits all → ∃ e, rest.foldlM step (spec seen) = .error e ∧ stops e) from
    hrest all [] rfl h.start
  intro rest
  induction rest with
  | nil =>
      intro seen hall hseen
      rw [List.append_nil] at hall
      exact ⟨fun _ => hall ▸ rfl, fun hnot => absurd (hall ▸ hseen) hnot⟩
  | cons a rest ih =>
      intro seen hall hseen
      have hsplit : all = (seen ++ [a]) ++ rest := by rw [hall, List.append_assoc]; rfl
      rw [List.foldlM_cons]
      by_cases hfits : fits (seen ++ [a])
      · rw [h.next seen a rest hall hseen hfits]
        exact ih (seen ++ [a]) hsplit hfits
      · obtain ⟨e, herror, hstops⟩ := h.stop seen a rest hall hseen hfits
        rw [herror]
        exact ⟨fun hall' => absurd (h.down _ _ hsplit hall') hfits, fun _ => ⟨e, rfl, hstops⟩⟩

/-- What every pass keeps, as long as the loop goes on, holds at its end. -/
theorem foldlM_invariant {I : List α → σ → Prop} {s s' : σ}
    (hstep : ∀ seen a rest s s', all = seen ++ a :: rest → I seen s → step s a = .ok s' →
      I (seen ++ [a]) s') (hstart : I [] s) (h : all.foldlM step s = .ok s') : I all s' := by
  suffices hrest : ∀ rest seen s, all = seen ++ rest → I seen s →
      rest.foldlM step s = .ok s' → I all s' from hrest all [] s rfl hstart h
  intro rest
  induction rest with
  | nil =>
      intro seen s hall hseen hend
      cases hend
      rwa [hall, List.append_nil]
  | cons a rest ih =>
      intro seen s hall hseen hend
      rw [List.foldlM_cons] at hend
      cases hnext : step s a with
      | error e =>
          rw [hnext] at hend
          cases hend
      | ok next =>
          rw [hnext] at hend
          refine ih (seen ++ [a]) next ?_ (hstep seen a rest s next hall hseen hnext) hend
          rw [hall, List.append_assoc]
          rfl

/-- A pass in which every element has a result. -/
theorem mapM_eq_ok {β : Type*} {f : α → Except ε β} {g : α → β} :
    ∀ {l : List α}, (∀ a ∈ l, f a = .ok (g a)) → l.mapM f = .ok (l.map g)
  | [], _ => rfl
  | a :: rest, h => by
      obtain ⟨hhead, hrest⟩ := List.forall_mem_cons.mp h
      rw [List.mapM_cons, hhead, mapM_eq_ok hrest]
      rfl

/-- A pass in which every element has a result related to it. -/
theorem exists_mapM_eq_ok {β : Type*} {f : α → Except ε β} {R : α → β → Prop} :
    ∀ {l : List α}, (∀ a ∈ l, ∃ b, f a = .ok b ∧ R a b) →
      ∃ bs, l.mapM f = .ok bs ∧ List.Forall₂ R l bs
  | [], _ => ⟨[], rfl, .nil⟩
  | a :: rest, h => by
      obtain ⟨⟨b, hb, hR⟩, hrest⟩ := List.forall_mem_cons.mp h
      obtain ⟨bs, hbs, hall⟩ := exists_mapM_eq_ok hrest
      refine ⟨b :: bs, ?_, .cons hR hall⟩
      rw [List.mapM_cons, hb, hbs]
      rfl

end Loop
