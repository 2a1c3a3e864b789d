import Mathlib.Data.List.Basic

/-!
# Programs that commit as they go

A program over a store commits one state after the other, until it is done or fails. Cut
short, it leaves the last state it committed. What is proved of it is therefore a triple
with an invariant between precondition and postcondition: the invariant holds of every
state that is committed, and so wherever the program is cut (`Triple.cut`). Programs in
sequence and loops are proved from their parts.
-/

namespace Commits

/-- A program: the states it commits, in order, and the error it ends with. -/
abbrev Program (σ ε : Type*) := σ → List σ × Option ε

/-- The store after these commits. -/
def final {σ : Type*} : σ → List σ → σ
  | s, [] => s
  | _, s :: commits => final s commits

variable {σ ε γ : Type*}

/-- One transaction. -/
def commit (transaction : σ → Except ε σ) : Program σ ε := fun s =>
  match transaction s with
  | .ok s' => ([s'], none)
  | .error e => ([], some e)

/-- Nothing is committed, but something may be refused. -/
def check (test : σ → Option ε) : Program σ ε := fun s => ([], test s)

def andThen (p q : Program σ ε) : Program σ ε := fun s =>
  match p s with
  | (commits, some e) => (commits, some e)
  | (commits, none) =>
      let rest := q (final s commits)
      (commits ++ rest.1, rest.2)

def skip : Program σ ε := fun _ => ([], none)

/-- A program that is chosen by what the store is when it starts. -/
def choose (p : σ → Program σ ε) : Program σ ε := fun s => p s s

/-- A loop that commits once in a pass: a pass breaks (`none`), or commits a state and
goes on with another cursor, if there is one. -/
def loop (body : γ → σ → Except ε (Option (σ × Option γ))) : Nat → γ → Program σ ε
  | 0, _ => fun _ => ([], none)
  | passes + 1, cursor => fun s =>
      match body cursor s with
      | .error e => ([], some e)
      | .ok none => ([], none)
      | .ok (some (s', none)) => ([s'], none)
      | .ok (some (s', some cursor')) =>
          let rest := loop body passes cursor' s'
          (s' :: rest.1, rest.2)

/-! ## Triples -/

/-- From a state with `P` every commit has `I`, and the end has `Q` unless it is an error. -/
def Triple (P I : σ → Prop) (p : Program σ ε) (Q : σ → Prop) : Prop :=
  ∀ s, P s → (∀ s' ∈ (p s).1, I s') ∧ ((p s).2 = none → Q (final s (p s).1))

theorem final_append (s : σ) (commits more : List σ) :
    final s (commits ++ more) = final (final s commits) more := by
  induction commits generalizing s with
  | nil => rfl
  | cons s' rest ih => exact ih s'

theorem final_mem {I : σ → Prop} {s : σ} {commits : List σ} (h : I s)
    (hcommits : ∀ s' ∈ commits, I s') : I (final s commits) := by
  induction commits generalizing s with
  | nil => exact h
  | cons s' rest ih =>
      exact ih (hcommits s' List.mem_cons_self) fun other hother =>
        hcommits other (List.mem_cons_of_mem _ hother)

namespace Triple

variable {P P' I I' Q Q' R : σ → Prop} {p q : Program σ ε}

/-- Wherever the program is cut. -/
theorem cut (h : Triple P I p Q) {s : σ} (hs : P s) (hI : I s) (n : Nat) :
    I (final s ((p s).1.take n)) :=
  final_mem hI fun s' hs' => (h s hs).1 s' (List.mem_of_mem_take hs')

theorem conseq (h : Triple P I p Q) (hP : ∀ s, P' s → P s) (hI : ∀ s, I s → I' s)
    (hQ : ∀ s, Q s → Q' s) : Triple P' I' p Q' := fun s hs =>
  ⟨fun s' hs' => hI s' ((h s (hP s hs)).1 s' hs'), fun hnone => hQ _ ((h s (hP s hs)).2 hnone)⟩

theorem commit {transaction : σ → Except ε σ}
    (h : ∀ s s', P s → transaction s = .ok s' → I s' ∧ Q s') :
    Triple P I (Commits.commit transaction) Q := by
  intro s hs
  unfold Commits.commit
  split
  · rename_i s' hok
    obtain ⟨hI, hQ⟩ := h s s' hs hok
    exact ⟨fun other hother => List.mem_singleton.mp hother ▸ hI, fun _ => hQ⟩
  · exact ⟨List.forall_mem_nil _, fun hnone => by cases hnone⟩

theorem check {test : σ → Option ε} (h : ∀ s, P s → test s = none → Q s) :
    Triple P I (Commits.check test) Q := fun s hs =>
  ⟨List.forall_mem_nil _, h s hs⟩

theorem andThen (hp : Triple P I p Q) (hq : Triple Q I q R) :
    Triple P I (Commits.andThen p q) R := by
  intro s hs
  obtain ⟨hcommits, hend⟩ := hp s hs
  unfold Commits.andThen
  split
  · rename_i commits e heq
    rw [heq] at hcommits
    exact ⟨hcommits, fun hnone => by cases hnone⟩
  · rename_i commits heq
    rw [heq] at hcommits hend
    obtain ⟨hrest, hdone⟩ := hq _ (hend rfl)
    refine ⟨?_, fun hnone => ?_⟩
    · intro s' hs'
      rcases List.mem_append.mp hs' with hfirst | hsecond
      · exact hcommits s' hfirst
      · exact hrest s' hsecond
    · rw [final_append]
      exact hdone hnone

theorem skip (h : ∀ s, P s → Q s) : Triple P I (Commits.skip : Program σ ε) Q := fun s hs =>
  ⟨List.forall_mem_nil _, fun _ => h s hs⟩

theorem choose {f : σ → Program σ ε}
    (h : ∀ start, P start → Triple (fun s => s = start) I (f start) Q) :
    Triple P I (Commits.choose f) Q := fun s hs => h s hs s rfl

/-- A loop with an invariant `J` and a measure that every pass makes smaller. -/
theorem loop {body : γ → σ → Except ε (Option (σ × Option γ))} {J : γ → σ → Prop}
    (left : γ → σ → Nat) (hbreak : ∀ cursor s, J cursor s → body cursor s = .ok none → Q s)
    (hlast : ∀ cursor s s', J cursor s → body cursor s = .ok (some (s', none)) → I s' ∧ Q s')
    (hnext : ∀ cursor s s' cursor', J cursor s →
      body cursor s = .ok (some (s', some cursor')) →
        I s' ∧ J cursor' s' ∧ left cursor' s' < left cursor s)
    (passes : Nat) (cursor : γ) :
    Triple (fun s => J cursor s ∧ left cursor s < passes) I
      (Commits.loop body passes cursor) Q := by
  induction passes generalizing cursor with
  | zero =>
      rintro s ⟨_, hleft⟩
      exact absurd hleft (Nat.not_lt_zero _)
  | succ passes ih =>
      rintro s ⟨hJ, hleft⟩
      unfold Commits.loop
      split
      · exact ⟨List.forall_mem_nil _, fun hnone => by cases hnone⟩
      · rename_i hbody
        exact ⟨List.forall_mem_nil _, fun _ => hbreak cursor s hJ hbody⟩
      · rename_i s' hbody
        obtain ⟨hI, hQ⟩ := hlast cursor s s' hJ hbody
        exact ⟨fun other hother => List.mem_singleton.mp hother ▸ hI, fun _ => hQ⟩
      · rename_i s' cursor' hbody
        obtain ⟨hI, hJ', hless⟩ := hnext cursor s s' cursor' hJ hbody
        obtain ⟨hrest, hdone⟩ := ih cursor' s' ⟨hJ', by omega⟩
        refine ⟨fun other hother => ?_, hdone⟩
        rcases List.mem_cons.mp hother with rfl | hmem
        · exact hI
        · exact hrest other hmem

end Triple

end Commits
