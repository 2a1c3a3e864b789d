import Mathlib.Init

/-!
# Attempts that fail half way

An attempt reads and changes a state and may fail. What it changed before it
failed stays changed, as with files and directories. `Leaves` speaks of the
state that is left, whichever way the attempt ended, and its rules take a `do`
block apart one statement at a time.
-/

/-- A state change with a result or an error. -/
def Attempt (σ ε α : Type) : Type := σ → Except ε α × σ

namespace Attempt

variable {σ ε α β : Type}

instance : Monad (Attempt σ ε) where
  pure a := fun s => (.ok a, s)
  bind m f := fun s =>
    match m s with
    | (.ok a, s') => f a s'
    | (.error e, s') => (.error e, s')

/-- Fail, leaving the state as it is. -/
def fail (e : ε) : Attempt σ ε α := fun s => (.error e, s)

/-- The current state. -/
def read : Attempt σ ε σ := fun s => (.ok s, s)

def update (f : σ → σ) : Attempt σ ε Unit := fun s => (.ok (), f s)

/-- A computation that does not touch the state. -/
def lift (x : Except ε α) : Attempt σ ε α := fun s => (x, s)

/-- Fail unless the condition holds. -/
def require (condition : Bool) (e : ε) : Attempt σ ε Unit :=
  fun s => (if condition then .ok () else .error e, s)

/-- An attempt that is made only under a condition. -/
def runIf (condition : Bool) (m : Attempt σ ε Unit) : Attempt σ ε Unit :=
  if condition then m else pure ()

@[simp] theorem pure_apply (a : α) (s : σ) : (pure a : Attempt σ ε α) s = (.ok a, s) := rfl

@[simp] theorem fail_apply (e : ε) (s : σ) : (fail e : Attempt σ ε α) s = (.error e, s) := rfl

@[simp] theorem read_apply (s : σ) : (read : Attempt σ ε σ) s = (.ok s, s) := rfl

@[simp] theorem update_apply (f : σ → σ) (s : σ) :
    (update f : Attempt σ ε Unit) s = (.ok (), f s) := rfl

@[simp] theorem lift_apply (x : Except ε α) (s : σ) : (lift x : Attempt σ ε α) s = (x, s) := rfl

@[simp] theorem require_apply (condition : Bool) (e : ε) (s : σ) :
    (require condition e : Attempt σ ε Unit) s =
      (if condition then .ok () else .error e, s) := rfl

theorem runIf_true {condition : Bool} {m : Attempt σ ε Unit} (h : condition = true) :
    runIf condition m = m := if_pos h

theorem runIf_false {condition : Bool} {m : Attempt σ ε Unit} (h : condition = false) :
    runIf condition m = pure () := if_neg (by rw [h]; exact Bool.false_ne_true)

theorem require_true {condition : Bool} {e : ε} {s : σ} (h : condition = true) :
    (require condition e : Attempt σ ε Unit) s = (.ok (), s) := by
  rw [require_apply, if_pos h]

theorem lift_ok {x : Except ε α} {a : α} {s : σ} (h : x = .ok a) :
    (lift x : Attempt σ ε α) s = (.ok a, s) := by
  rw [lift_apply, h]

theorem bind_apply (m : Attempt σ ε α) (f : α → Attempt σ ε β) (s : σ) :
    (m >>= f) s = match m s with
      | (.ok a, s') => f a s'
      | (.error e, s') => (.error e, s') := rfl

theorem bind_ok {m : Attempt σ ε α} {f : α → Attempt σ ε β} {s s' : σ} {a : α}
    (h : m s = (.ok a, s')) : (m >>= f) s = f a s' := by
  rw [bind_apply, h]

theorem bind_error {m : Attempt σ ε α} {f : α → Attempt σ ε β} {s s' : σ} {e : ε}
    (h : m s = (.error e, s')) : (m >>= f) s = (.error e, s') := by
  rw [bind_apply, h]

/-- Computing from the result does not touch the state. -/
theorem bind_pure_snd {m : Attempt σ ε α} {f : α → β} {s : σ} :
    ((m >>= fun a => pure (f a) : Attempt σ ε β) s).2 = (m s).2 := by
  rw [bind_apply]
  cases hrun : m s with
  | mk result t =>
      cases result with
      | ok a => rfl
      | error e => rfl

/-! ## The state an attempt leaves -/

/-- However the attempt ends from this state, it leaves a state with `R`. -/
def Leaves (R : σ → Prop) (m : Attempt σ ε α) (s : σ) : Prop := R (m s).2

section Leaves

variable {R : σ → Prop} {m : Attempt σ ε α} {f : α → Attempt σ ε β} {s : σ}

theorem leaves_fail {e : ε} (h : R s) : Leaves R (fail e : Attempt σ ε α) s := h

theorem leaves_bind (herror : ∀ e s', m s = (.error e, s') → R s')
    (hok : ∀ a s', m s = (.ok a, s') → Leaves R (f a) s') : Leaves R (m >>= f) s := by
  unfold Leaves
  rw [bind_apply]
  cases hrun : m s with
  | mk result s' =>
      cases result with
      | ok a => exact hok a s' hrun
      | error e => exact herror e s' hrun

/-- When the first step is known to succeed. -/
theorem leaves_of_ok {t : σ} {a : α} (hrun : m s = (.ok a, t)) (h : Leaves R (f a) t) :
    Leaves R (m >>= f) s := by
  unfold Leaves
  rw [bind_ok hrun]
  exact h

/-- When nothing is known of the result but the state that is left. -/
theorem leaves_then (h : Leaves R m s) (hf : ∀ a s', R s' → Leaves R (f a) s') :
    Leaves R (m >>= f) s := by
  refine leaves_bind (fun e s' hrun => ?_) (fun a s' hrun => ?_)
  · unfold Leaves at h
    rw [hrun] at h
    exact h
  · unfold Leaves at h
    rw [hrun] at h
    exact hf a s' h

theorem leaves_read {f : σ → Attempt σ ε β} (h : Leaves R (f s) s) :
    Leaves R (read >>= f) s := h

theorem leaves_update {g : σ → σ} {f : Unit → Attempt σ ε β} (h : Leaves R (f ()) (g s)) :
    Leaves R (update g >>= f) s := h

theorem leaves_lift_bind {x : Except ε α} (h : R s)
    (hok : ∀ a, x = .ok a → Leaves R (f a) s) : Leaves R (lift x >>= f) s := by
  refine leaves_bind (fun e s' hrun => ?_) (fun a s' hrun => ?_)
  · cases hrun
    exact h
  · cases hrun
    exact hok a rfl

theorem leaves_check {condition : Bool} {e : ε} {f : Unit → Attempt σ ε β}
    (hstop : condition = false → R s) (hok : condition = true → Leaves R (f ()) s) :
    Leaves R (require condition e >>= f) s := by
  cases hcondition : condition with
  | false => exact hstop hcondition
  | true => exact hok hcondition

theorem leaves_require {condition : Bool} {e : ε} {f : Unit → Attempt σ ε β} (h : R s)
    (hok : condition = true → Leaves R (f ()) s) :
    Leaves R (require condition e >>= f) s :=
  leaves_check (fun _ => h) hok

end Leaves

/-! ## What an attempt returns -/

/-- The result and the state that is left are related by `R`. -/
def Returns (R : Except ε α → σ → Prop) (m : Attempt σ ε α) (s : σ) : Prop := R (m s).1 (m s).2

section Returns

variable {R : Except ε β → σ → Prop} {m : Attempt σ ε α} {f : α → Attempt σ ε β} {s : σ}

theorem returns_of_run {result : Except ε β} {t : σ} {m : Attempt σ ε β} (hrun : m s = (result, t))
    (h : R result t) : Returns R m s := by
  unfold Returns
  rw [hrun]
  exact h

theorem Returns.of_run {R : Except ε α → σ → Prop} {result : Except ε α} {t : σ}
    (h : Returns R m s) (hrun : m s = (result, t)) : R result t := by
  unfold Returns at h
  rw [hrun] at h
  exact h

theorem returns_bind (herror : ∀ e s', m s = (.error e, s') → R (.error e) s')
    (hok : ∀ a s', m s = (.ok a, s') → Returns R (f a) s') : Returns R (m >>= f) s := by
  unfold Returns
  rw [bind_apply]
  cases hrun : m s with
  | mk result s' =>
      cases result with
      | ok a => exact hok a s' hrun
      | error e => exact herror e s' hrun

theorem returns_mono {R' : Except ε α → σ → Prop} {R : Except ε α → σ → Prop}
    (h : Returns R m s) (himp : ∀ result t, R result t → R' result t) : Returns R' m s :=
  himp _ _ h

/-- The first step, with what follows as its condition. -/
theorem returns_first (h : Returns (fun result t => match result with
      | .ok a => Returns R (f a) t
      | .error e => R (.error e) t) m s) : Returns R (m >>= f) s := by
  refine returns_bind (fun e t hrun => ?_) (fun a t hrun => ?_)
  · exact h.of_run hrun
  · exact h.of_run hrun

/-- From what is known of the first step. -/
theorem returns_then {P : Except ε α → σ → Prop} (h : Returns P m s)
    (herror : ∀ e s', P (.error e) s' → R (.error e) s')
    (hok : ∀ a s', P (.ok a) s' → Returns R (f a) s') : Returns R (m >>= f) s :=
  returns_bind (fun e s' hrun => herror e s' (h.of_run hrun))
    (fun a s' hrun => hok a s' (h.of_run hrun))

theorem returns_of_ok {t : σ} {a : α} (hrun : m s = (.ok a, t)) (h : Returns R (f a) t) :
    Returns R (m >>= f) s := by
  unfold Returns
  rw [bind_ok hrun]
  exact h

theorem returns_pure {b : β} (h : R (.ok b) s) : Returns R (pure b : Attempt σ ε β) s := h

theorem returns_fail {e : ε} (h : R (.error e) s) : Returns R (fail e : Attempt σ ε β) s := h

theorem returns_read {f : σ → Attempt σ ε β} (h : Returns R (f s) s) : Returns R (read >>= f) s := h

theorem returns_update {g : σ → σ} {f : Unit → Attempt σ ε β} (h : Returns R (f ()) (g s)) :
    Returns R (update g >>= f) s := h

theorem returns_lift_bind {x : Except ε α} (herror : ∀ e, x = .error e → R (.error e) s)
    (hok : ∀ a, x = .ok a → Returns R (f a) s) : Returns R (lift x >>= f) s := by
  refine returns_bind (fun e s' hrun => ?_) (fun a s' hrun => ?_)
  · cases hrun
    exact herror e rfl
  · cases hrun
    exact hok a rfl

theorem returns_require {condition : Bool} {e : ε} {f : Unit → Attempt σ ε β}
    (hstop : condition = false → R (.error e) s)
    (hok : condition = true → Returns R (f ()) s) : Returns R (require condition e >>= f) s := by
  cases hcondition : condition with
  | false => exact hstop hcondition
  | true => exact hok hcondition

end Returns

/-! ## What a success ensures -/

/-- If the attempt succeeds, its result and the state it leaves satisfy `Q`. -/
def Ensures (Q : α → σ → Prop) (m : Attempt σ ε α) (s : σ) : Prop :=
  ∀ a s', m s = (.ok a, s') → Q a s'

section Ensures

variable {Q : β → σ → Prop} {m : Attempt σ ε α} {f : α → Attempt σ ε β} {s : σ}

theorem Ensures.of_isOk {P : σ → Prop} (h : Ensures (fun _ => P) m s)
    (hok : (m s).1.isOk = true) : P (m s).2 := by
  cases hrun : m s with
  | mk result t =>
      rw [hrun] at hok
      cases result with
      | ok a => exact h a t hrun
      | error e => cases hok

theorem ensures_bind (h : Ensures (fun a s' => Ensures Q (f a) s') m s) :
    Ensures Q (m >>= f) s := by
  intro b s' hrun
  rw [bind_apply] at hrun
  cases hm : m s with
  | mk result t =>
      rw [hm] at hrun
      cases result with
      | error e => cases hrun
      | ok a => exact h a t hm b s' hrun

theorem ensures_pure {b : β} (h : Q b s) : Ensures Q (pure b : Attempt σ ε β) s := by
  intro b' s' hrun
  cases hrun
  exact h

theorem ensures_fail {e : ε} : Ensures Q (fail e : Attempt σ ε β) s := by
  intro b s' hrun
  cases hrun

theorem ensures_read {f : σ → Attempt σ ε β} (h : Ensures Q (f s) s) :
    Ensures Q (read >>= f) s := h

theorem ensures_update {g : σ → σ} {f : Unit → Attempt σ ε β} (h : Ensures Q (f ()) (g s)) :
    Ensures Q (update g >>= f) s := h

theorem ensures_lift {x : Except ε α} (h : ∀ a, x = .ok a → Ensures Q (f a) s) :
    Ensures Q (lift x >>= f) s := by
  refine ensures_bind fun a s' hrun => ?_
  cases hrun
  exact h a rfl

theorem ensures_require {condition : Bool} {e : ε} {f : Unit → Attempt σ ε β}
    (h : condition = true → Ensures Q (f ()) s) : Ensures Q (require condition e >>= f) s := by
  refine ensures_bind fun a s' hrun => ?_
  rw [require_apply] at hrun
  split at hrun
  · rename_i hcondition
    cases hrun
    exact h hcondition
  · cases hrun

end Ensures

/-! ## Properties that survive every statement -/

/-- However the attempt ends, it keeps `R`. -/
def Keeps (R : σ → Prop) (m : Attempt σ ε α) : Prop := ∀ s, R s → Leaves R m s

section Keeps

variable {R : σ → Prop} {m : Attempt σ ε α} {f : α → Attempt σ ε β}

theorem keeps_pure {a : α} : Keeps R (pure a : Attempt σ ε α) := fun _ h => h

theorem keeps_fail {e : ε} : Keeps R (fail e : Attempt σ ε α) := fun _ h => h

theorem keeps_lift {x : Except ε α} : Keeps R (lift x : Attempt σ ε α) := fun _ h => h

theorem keeps_read : Keeps R (read : Attempt σ ε σ) := fun _ h => h

theorem keeps_require {condition : Bool} {e : ε} : Keeps R (require condition e) := fun _ h => h

theorem keeps_bind (hm : Keeps R m) (hf : ∀ a, Keeps R (f a)) : Keeps R (m >>= f) :=
  fun s hs => leaves_then (hm s hs) fun a s' hs' => hf a s' hs'

end Keeps

end Attempt
