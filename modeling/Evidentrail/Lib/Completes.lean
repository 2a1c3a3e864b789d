import Evidentrail.Lib.Rust

/-!
# Calls that complete

A parser of untrusted bytes may refuse them, but it must not panic. `Completes`
says that a call comes back with a value or an error value; each way of
building calls keeps it.
-/

namespace Rust

universe u

variable {ε : Type*} {α β : Type u}

/-- `if p { return Err(error) }`. -/
def refuse (p : Prop) [Decidable p] (error : ε) : Except (Fault ε) PUnit.{u + 1} :=
  if p then .error (.err error) else .ok ⟨⟩

theorem refuse_eq_ok {p : Prop} [Decidable p] {error : ε} {x : PUnit.{u + 1}} :
    refuse p error = .ok x ↔ ¬p := by
  unfold refuse
  split <;> simp_all

/-- A value or an error value, and no other fault. -/
structure Completes (x : Except (Fault ε) α) : Prop where
  fault : ∀ fault, x = .error fault → ∃ error, fault = .err error

theorem Completes.ok (a : α) : Completes (.ok a : Except (Fault ε) α) := ⟨nofun⟩

theorem Completes.err (error : ε) : Completes (.error (.err error) : Except (Fault ε) α) :=
  ⟨fun _ h => ⟨error, (Except.error.inj h).symm⟩⟩

theorem Completes.refuse {p : Prop} [Decidable p] {error : ε} :
    Completes (refuse p error : Except (Fault ε) PUnit.{u + 1}) := by
  unfold Rust.refuse
  split
  · exact .err _
  · exact .ok _

theorem Completes.okOr {error : ε} (x : Option α) : Completes (okOr (.err error) x) := by
  cases x with
  | none => exact .err _
  | some a => exact .ok a

theorem Completes.mapError (x : Except ε α) : Completes (x.mapError Fault.err) := by
  cases x with
  | error error => exact .err error
  | ok a => exact .ok a

/-- The rest only has to return where the first call did. -/
theorem Completes.bind {x : Except (Fault ε) α} {f : α → Except (Fault ε) β} (hx : Completes x)
    (hf : ∀ a, x = .ok a → Completes (f a)) : Completes (x >>= f) := by
  cases x with
  | error fault =>
      exact ⟨fun fault' h => hx.fault fault' (congrArg _ (Except.error.inj h))⟩
  | ok a => exact hf a rfl

theorem Completes.mapM {γ : Type u} {f : γ → Except (Fault ε) β} : ∀ {l : List γ},
    (∀ a ∈ l, Completes (f a)) → Completes (l.mapM f)
  | [], _ => .ok _
  | a :: rest, h => by
      obtain ⟨hhead, hrest⟩ := List.forall_mem_cons.mp h
      rw [List.mapM_cons]
      exact hhead.bind fun b _ => (Completes.mapM hrest).bind fun bs _ => .ok _

end Rust
