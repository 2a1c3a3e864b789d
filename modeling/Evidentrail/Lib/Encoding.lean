import Mathlib.Data.List.Basic
import Mathlib.Tactic.Ring

/-!
# Self-delimiting byte encodings

A hash preimage is a concatenation of pieces. What such a preimage
commits to is decided piece by piece: a piece *commits* to a key when,
whatever follows it, two equal byte strings that start with the piece
have the same key there and the same rest. Committing pieces compose
under `++` (`Commits.append`), also when the second piece is chosen by
what the first one committed (`Commits.bind`), and a list of
nonempty committing pieces needs no count when nothing follows it
(`Ends.flatMap`).
-/

namespace Encoding

instance lawfulBEqListUInt8 : LawfulBEq (List UInt8) := inferInstance

variable {α β κ κ' : Type*}

/-- Reading the piece off the front is unambiguous up to `key`. -/
def Commits (enc : α → List UInt8) (key : α → κ) : Prop :=
  ∀ ⦃a b : α⦄ ⦃s t : List UInt8⦄, enc a ++ s = enc b ++ t → key a = key b ∧ s = t

/-- The last piece: nothing follows it. -/
def Ends (enc : α → List UInt8) (key : α → κ) : Prop :=
  ∀ ⦃a b : α⦄, enc a = enc b → key a = key b

theorem Commits.ends {enc : α → List UInt8} {key : α → κ} (h : Commits enc key) :
    Ends enc key := by
  intro a b hab
  exact (h (s := []) (t := []) (by rw [hab])).1

/-- A key that is a function of the committed key is committed. -/
theorem Commits.map {f : α → List UInt8} {key : α → κ} {key' : α → κ'}
    (h : Commits f key) (hk : ∀ a b, key a = key b → key' a = key' b) :
    Commits f key' := by
  intro a b s t hab
  obtain ⟨hkey, hst⟩ := h hab
  exact ⟨hk a b hkey, hst⟩

theorem Ends.map {f : α → List UInt8} {key : α → κ} {key' : α → κ'}
    (h : Ends f key) (hk : ∀ a b, key a = key b → key' a = key' b) :
    Ends f key' :=
  fun a b hab => hk a b (h hab)

theorem Commits.comp {enc : α → List UInt8} {key : α → κ} (h : Commits enc key)
    (f : β → α) : Commits (fun b => enc (f b)) (fun b => key (f b)) :=
  fun _ _ _ _ hab => h hab

/-- The second piece may depend on what the first committed. -/
theorem Commits.bind {enc₁ enc₂ : α → List UInt8} {key₁ : α → κ} {key₂ : α → κ'}
    (h₁ : Commits enc₁ key₁)
    (h₂ : ∀ a b s t, key₁ a = key₁ b → enc₂ a ++ s = enc₂ b ++ t →
      key₂ a = key₂ b ∧ s = t) :
    Commits (fun a => enc₁ a ++ enc₂ a) (fun a => (key₁ a, key₂ a)) := by
  intro a b s t hab
  rw [List.append_assoc, List.append_assoc] at hab
  obtain ⟨hk₁, hrest⟩ := h₁ hab
  obtain ⟨hk₂, hst⟩ := h₂ a b s t hk₁ hrest
  exact ⟨Prod.ext hk₁ hk₂, hst⟩

theorem Commits.append {enc₁ enc₂ : α → List UInt8} {key₁ : α → κ} {key₂ : α → κ'}
    (h₁ : Commits enc₁ key₁) (h₂ : Commits enc₂ key₂) :
    Commits (fun a => enc₁ a ++ enc₂ a) (fun a => (key₁ a, key₂ a)) :=
  h₁.bind fun _ _ _ _ _ hab => h₂ hab

theorem Commits.append_ends {enc₁ : α → List UInt8} {key₁ : α → κ}
    (h₁ : Commits enc₁ key₁) (enc₂ : α → List UInt8) (key₂ : α → κ')
    (h₂ : Ends enc₂ key₂) :
    Ends (fun a => enc₁ a ++ enc₂ a) (fun a => (key₁ a, key₂ a)) := by
  intro a b hab
  obtain ⟨hk₁, hrest⟩ := h₁ hab
  exact Prod.ext hk₁ (h₂ hrest)

/-! ## Fixed-width little-endian integers -/

/-- `x.to_le_bytes()` of an unsigned integer of `width` bytes. -/
def leBytes : Nat → Nat → List UInt8
  | 0, _ => []
  | width + 1, x => UInt8.ofNat (x % 256) :: leBytes width (x / 256)

@[simp] theorem length_leBytes (width x : Nat) : (leBytes width x).length = width := by
  induction width generalizing x with
  | zero => rfl
  | succ width ih => simp [leBytes, ih]

theorem leBytes_inj {width x y : Nat} (hx : x < 256 ^ width) (hy : y < 256 ^ width)
    (h : leBytes width x = leBytes width y) : x = y := by
  induction width generalizing x y with
  | zero => simp at hx hy; omega
  | succ width ih =>
      simp only [leBytes, List.cons.injEq] at h
      have hlow : x % 256 = y % 256 := by
        have := congrArg UInt8.toNat h.1
        simpa using this
      have hhigh : x / 256 = y / 256 := by
        refine ih ?_ ?_ h.2 <;> rw [pow_succ] at hx hy <;> omega
      omega

/-- Any injective encoding of one fixed length commits. -/
theorem commits_of_length {enc : α → List UInt8} {key : α → κ} (n : Nat)
    (hlen : ∀ a, (enc a).length = n) (hinj : ∀ a b, enc a = enc b → key a = key b) :
    Commits enc key := by
  intro a b s t hab
  obtain ⟨henc, hst⟩ := List.append_inj hab (by rw [hlen, hlen])
  exact ⟨hinj a b henc, hst⟩

theorem commits_leBytes (width : Nat) {f : α → Nat} (hf : ∀ a, f a < 256 ^ width) :
    Commits (fun a => leBytes width (f a)) f :=
  commits_of_length width (fun _ => length_leBytes _ _)
    (fun a b h => leBytes_inj (hf a) (hf b) h)

/-! ## Length-framed fields -/

/-- A field: its length in eight little-endian bytes, then its bytes. -/
def field (value : List UInt8) : List UInt8 :=
  leBytes 8 value.length ++ value

theorem field_ne_nil (value : List UInt8) : field value ≠ [] := by
  intro h
  have := congrArg List.length h
  simp [field] at this

/-- A field commits to its bytes as long as its length fits eight bytes. -/
theorem commits_field {f : α → List UInt8} (hf : ∀ a, (f a).length < 2 ^ 64) :
    Commits (fun a => field (f a)) f := by
  intro a b s t hab
  simp only [field, List.append_assoc] at hab
  obtain ⟨hlen, hrest⟩ := commits_leBytes (f := fun a => (f a).length) 8 hf hab
  exact List.append_inj hrest hlen

/-- A marker byte, and the field behind it when there is one. -/
def optionalField : Option (List UInt8) → List UInt8
  | some value => 1 :: field value
  | none => [0]

theorem commits_optionalField {f : α → Option (List UInt8)}
    (hf : ∀ a v, f a = some v → v.length < 2 ^ 64) :
    Commits (fun a => optionalField (f a)) f := by
  intro a b s t hab
  cases ha : f a with
  | none =>
      cases hb : f b with
      | none => simpa [optionalField, ha, hb] using hab
      | some w => simp [optionalField, ha, hb] at hab
  | some v =>
      cases hb : f b with
      | none => simp [optionalField, ha, hb] at hab
      | some w =>
          simp only [optionalField, ha, hb, List.cons_append, List.cons.injEq,
            true_and] at hab
          have hpair := commits_field (f := fun x : Bool => cond x v w)
            (by rintro (_ | _)
                · exact hf b w hb
                · exact hf a v ha) (a := true) (b := false) hab
          exact ⟨congrArg some hpair.1, hpair.2⟩

/-- A marker byte, and the piece behind it when there is one. -/
def marked (enc : α → List UInt8) : Option α → List UInt8
  | some a => 1 :: enc a
  | none => [0]

theorem commits_marked {enc : α → List UInt8} {key : α → κ} (h : Commits enc key) :
    Commits (marked enc) (Option.map key) := by
  intro x y s t hxy
  cases x with
  | none =>
      cases y with
      | none => exact ⟨rfl, List.append_cancel_left hxy⟩
      | some b => simp [marked] at hxy
  | some a =>
      cases y with
      | none => simp [marked] at hxy
      | some b =>
          simp only [marked, List.cons_append, List.cons.injEq, true_and] at hxy
          obtain ⟨hkey, hst⟩ := h hxy
          exact ⟨congrArg some hkey, hst⟩

/-! ## Lists -/

/-- A list of nonempty committing pieces at the end of a preimage. -/
theorem Ends.flatMap {enc : α → List UInt8} {key : α → κ} (h : Commits enc key)
    (hne : ∀ a, enc a ≠ []) :
    Ends (fun l : List α => l.flatMap enc) (fun l => l.map key) := by
  intro xs
  induction xs with
  | nil =>
      intro ys hxy
      cases ys with
      | nil => rfl
      | cons y ys =>
          simp only [List.flatMap_nil, List.flatMap_cons] at hxy
          exact absurd (List.append_eq_nil_iff.mp hxy.symm).1 (hne y)
  | cons x xs ih =>
      intro ys hxy
      cases ys with
      | nil =>
          simp only [List.flatMap_nil, List.flatMap_cons] at hxy
          exact absurd (List.append_eq_nil_iff.mp hxy).1 (hne x)
      | cons y ys =>
          simp only [List.flatMap_cons] at hxy
          obtain ⟨hkey, hrest⟩ := h hxy
          simp only [List.map_cons, hkey, ih hrest]

/-- Pieces of two lists of the same length, with anything behind them. -/
theorem flatMap_append_inj {enc : α → List UInt8} {key : α → κ} (h : Commits enc key) :
    ∀ {xs ys : List α} {s t : List UInt8}, xs.length = ys.length →
      xs.flatMap enc ++ s = ys.flatMap enc ++ t → xs.map key = ys.map key ∧ s = t
  | [], [], _, _, _, hxy => ⟨rfl, by simpa using hxy⟩
  | [], _ :: _, _, _, hlen, _ => by simp at hlen
  | _ :: _, [], _, _, hlen, _ => by simp at hlen
  | x :: xs, y :: ys, s, t, hlen, hxy => by
      simp only [List.flatMap_cons, List.append_assoc] at hxy
      obtain ⟨hkey, hrest⟩ := h hxy
      obtain ⟨hkeys, hst⟩ := flatMap_append_inj h (by simpa using hlen) hrest
      exact ⟨by simp only [List.map_cons, hkey, hkeys], hst⟩

/-- A list behind its committed count. -/
def counted (enc : α → List UInt8) (l : List α) : List UInt8 :=
  field (leBytes 8 l.length) ++ l.flatMap enc

theorem commits_counted {enc : β → List UInt8} {key : β → κ} (h : Commits enc key)
    {f : α → List β} (hf : ∀ a, (f a).length < 2 ^ 64) :
    Commits (fun a => counted enc (f a)) (fun a => (f a).map key) := by
  intro a b s t hab
  simp only [counted, List.append_assoc] at hab
  obtain ⟨hcount, hrest⟩ :=
    commits_field (f := fun a => leBytes 8 (f a).length) (by simp) hab
  have hlen := leBytes_inj (hf a) (hf b) hcount
  exact flatMap_append_inj h hlen hrest

end Encoding
