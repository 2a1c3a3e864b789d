import Evidentrail.Lib.Layout

/-!
# Parsers that consume their input

A parser takes bytes from the front and leaves the rest to the next one. What a
parser accepts is said once (`Reads`): it reads the encodings of the valid values,
whatever stands behind them, and nothing else. A list of known length is read value
by value (`Reads.list`).
-/

namespace Bytes

open Rust

/-- A parser of bytes; its state is what remains of them. -/
abbrev Parser (ε : Type) := StateT (List UInt8) (Except ε)

namespace Parser

variable {ε α β : Type}

/-- Take `n` bytes from the front. -/
def take (error : ε) (n : Nat) : Parser ε (List UInt8) := fun bytes =>
  if n > bytes.length then .error error else .ok (bytes.take n, bytes.drop n)

def takeU16 (error : ε) : Parser ε UInt16 := u16OfBe <$> take error 2
def takeU32 (error : ε) : Parser ε UInt32 := u32OfBe <$> take error 4
def takeU64 (error : ε) : Parser ε UInt64 := u64OfBe <$> take error 8

/-- A value that is found without reading. -/
def ofExcept (x : Except ε α) : Parser ε α := StateT.lift x

/-- Go on only if `p` holds. -/
def ensure (error : ε) (p : Prop) [Decidable p] : Parser ε Unit :=
  ofExcept (if p then .ok () else .error error)

/-- `count` values, numbered from `position` on. -/
def list (parse : Nat → Parser ε α) : Nat → Nat → Parser ε (List α)
  | _, 0 => pure []
  | position, count + 1 => do
      let x ← parse position
      let others ← list parse (position + 1) count
      pure (x :: others)

/-- What `list` reads. -/
def listBytes (encode : Nat → α → List UInt8) : Nat → List α → List UInt8
  | _, [] => []
  | position, x :: others => encode position x ++ listBytes encode (position + 1) others

/-! ## Runs -/

section Run

variable {parse : Parser ε α} {next : α → Parser ε β} {bytes rest : List UInt8} {error : ε}
  {n : Nat}

theorem bind_eq_ok {y : β} : (parse >>= next).run bytes = .ok (y, rest) ↔
    ∃ x middle, parse.run bytes = .ok (x, middle) ∧ (next x).run middle = .ok (y, rest) := by
  rw [StateT.run_bind, except_bind_eq_ok]
  constructor
  · rintro ⟨⟨x, middle⟩, hx, hy⟩
    exact ⟨x, middle, hx, hy⟩
  · rintro ⟨x, middle, hx, hy⟩
    exact ⟨(x, middle), hx, hy⟩

theorem pure_eq_ok {x y : α} :
    (pure x : Parser ε α).run bytes = .ok (y, rest) ↔ x = y ∧ bytes = rest := by
  rw [StateT.run_pure, ← Prod.mk.injEq]
  exact ⟨Except.ok.inj, congrArg _⟩

theorem map_eq_ok {f : α → β} {y : β} :
    (f <$> parse).run bytes = .ok (y, rest) ↔ ∃ x, parse.run bytes = .ok (x, rest) ∧ f x = y := by
  rw [map_eq_pure_bind, bind_eq_ok]
  simp only [pure_eq_ok]
  constructor
  · rintro ⟨x, _, hx, rfl, rfl⟩
    exact ⟨x, hx, rfl⟩
  · rintro ⟨x, hx, hy⟩
    exact ⟨x, rest, hx, hy, rfl⟩

theorem ofExcept_eq_ok {x : Except ε α} {y : α} :
    (ofExcept x).run bytes = .ok (y, rest) ↔ x = .ok y ∧ bytes = rest := by
  cases x with
  | error error =>
      constructor
      · intro h
        cases h
      · rintro ⟨h, _⟩
        cases h
  | ok a =>
      rw [Except.ok.injEq]
      exact pure_eq_ok (ε := ε)

theorem ensure_eq_ok {p : Prop} [Decidable p] {u : Unit} :
    (ensure error p).run bytes = .ok (u, rest) ↔ p ∧ bytes = rest := by
  rw [ensure, ofExcept_eq_ok]
  by_cases hp : p
  · rw [if_pos hp]
    simp [hp]
  · rw [if_neg hp]
    simp [hp]

theorem take_eq_ok {taken : List UInt8} :
    (take error n).run bytes = .ok (taken, rest) ↔ bytes = taken ++ rest ∧ taken.length = n := by
  change (if n > bytes.length then _ else _) = _ ↔ _
  rw [ite_error_eq_ok, Except.ok.injEq, Prod.mk.injEq, gt_iff_lt, Nat.not_lt]
  constructor
  · rintro ⟨hlong, rfl, rfl⟩
    exact ⟨(List.take_append_drop n bytes).symm, List.length_take_of_le hlong⟩
  · rintro ⟨rfl, rfl⟩
    exact ⟨by simp, List.take_left, List.drop_left⟩

end Run

/-! ## What is read -/

/-- The parser reads the encodings of valid values and leaves what follows them. -/
def Reads (parse : Parser ε α) (encode : α → List UInt8) (Valid : α → Prop) : Prop :=
  ∀ bytes x rest, parse.run bytes = .ok (x, rest) ↔ bytes = encode x ++ rest ∧ Valid x

section Reads

variable {error : ε} {parse : Parser ε α} {encode : α → List UInt8} {Valid : α → Prop}

theorem reads_take {n : Nat} : Reads (take error n) id (fun taken => taken.length = n) :=
  fun _ _ _ => take_eq_ok

/-- An integer of known width. -/
theorem reads_ofBe {ofBe : List UInt8 → α} {n : Nat} (hlength : ∀ x, (encode x).length = n)
    (hof : ∀ x, ofBe (encode x) = x)
    (hto : ∀ taken, taken.length = n → encode (ofBe taken) = taken) :
    Reads (ofBe <$> take error n) encode fun _ => True := by
  intro bytes x rest
  rw [map_eq_ok, and_true]
  simp only [take_eq_ok]
  constructor
  · rintro ⟨taken, ⟨rfl, htaken⟩, rfl⟩
    rw [hto taken htaken]
  · rintro rfl
    exact ⟨encode x, ⟨rfl, hlength x⟩, hof x⟩

theorem takeU16_eq_ok {x : UInt16} {bytes rest : List UInt8} :
    (takeU16 error).run bytes = .ok (x, rest) ↔ bytes = u16Be x ++ rest := by
  rw [takeU16, reads_ofBe length_u16Be u16OfBe_u16Be fun _ => u16Be_u16OfBe, and_true]

theorem takeU32_eq_ok {x : UInt32} {bytes rest : List UInt8} :
    (takeU32 error).run bytes = .ok (x, rest) ↔ bytes = u32Be x ++ rest := by
  rw [takeU32, reads_ofBe length_u32Be u32OfBe_u32Be fun _ => u32Be_u32OfBe, and_true]

theorem takeU64_eq_ok {x : UInt64} {bytes rest : List UInt8} :
    (takeU64 error).run bytes = .ok (x, rest) ↔ bytes = u64Be x ++ rest := by
  rw [takeU64, reads_ofBe length_u64Be u64OfBe_u64Be fun _ => u64Be_u64OfBe, and_true]

/-- Values that are read are read one behind the other; the numbering stays below `bound`. -/
theorem Reads.list {parse : Nat → Parser ε α} {encode : Nat → α → List UInt8} {bound : Nat}
    (h : ∀ position, position < bound → Reads (parse position) (encode position) Valid)
    (position count : Nat) (hbound : position + count ≤ bound) :
    Reads (Parser.list parse position count) (listBytes encode position)
      fun xs => xs.length = count ∧ ∀ x ∈ xs, Valid x := by
  induction count generalizing position with
  | zero =>
      intro bytes xs rest
      rw [Parser.list, pure_eq_ok]
      constructor
      · rintro ⟨rfl, rfl⟩
        exact ⟨rfl, rfl, nofun⟩
      · rintro ⟨rfl, hcount, _⟩
        rw [List.eq_nil_of_length_eq_zero hcount]
        exact ⟨rfl, rfl⟩
  | succ count ih =>
      intro bytes xs rest
      have hone := h position (by omega)
      have hmore := ih (position + 1) (by omega)
      rw [Parser.list, bind_eq_ok]
      simp only [bind_eq_ok, pure_eq_ok]
      constructor
      · rintro ⟨x, middle, hx, others, _, hothers, rfl, rfl⟩
        obtain ⟨rfl, hvalid⟩ := (hone _ _ _).mp hx
        obtain ⟨rfl, rfl, hall⟩ := (hmore _ _ _).mp hothers
        exact ⟨(List.append_assoc ..).symm, rfl, List.forall_mem_cons.mpr ⟨hvalid, hall⟩⟩
      · rintro ⟨rfl, hcount, hall⟩
        cases xs with
        | nil => cases hcount
        | cons x others =>
            obtain ⟨hvalid, hall⟩ := List.forall_mem_cons.mp hall
            exact ⟨x, listBytes encode (position + 1) others ++ rest,
              (hone _ _ _).mpr ⟨List.append_assoc .., hvalid⟩, others, rest,
              (hmore _ _ _).mpr ⟨rfl, Nat.succ.inj hcount, hall⟩, rfl, rfl⟩

end Reads

theorem length_listBytes {encode : Nat → α → List UInt8} {width : Nat}
    (hwidth : ∀ position x, (encode position x).length = width) (position : Nat) (xs : List α) :
    (listBytes encode position xs).length = xs.length * width := by
  induction xs generalizing position with
  | nil => rw [listBytes, List.length_nil, List.length_nil, Nat.zero_mul]
  | cons x others ih =>
      rw [listBytes, List.length_append, hwidth, ih, List.length_cons]
      ring

end Parser

end Bytes
