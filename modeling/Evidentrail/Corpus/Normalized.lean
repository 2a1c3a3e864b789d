import Evidentrail.Corpus.Normalize
import Mathlib.Data.List.Forall2
import Mathlib.Data.List.TakeWhile

/-!
# Normalization forgets the fragment

A pass of the scanner reads the byte before the index and the bytes from there on
(`piece`), so the scan of a line is a function of these two (`normalized`). A pass
that begins in front of a fragment stays there if the byte before the fragment is
none of a digit, a colon, a period and a dash: no pattern has such a byte, and no run of
digits goes past it (`piece_append`).
-/

namespace Evidentrail

open Rust Ascii Utf8 Slice

/-! ## Shapes -/

/-- The bytes begin as the shape says. -/
def fits : List (UInt8 → Bool) → List UInt8 → Bool
  | [], _ => true
  | _ :: _, [] => false
  | p :: shape, byte :: rest => p byte && fits shape rest

def classAt (first second : Nat) (literal : UInt8) (offset : Nat) (byte : UInt8) : Bool :=
  if offset = first ∨ offset = second then byte == literal else isAsciiDigit byte

def shapeAround (count first second : Nat) (literal : UInt8) : List (UInt8 → Bool) :=
  (List.range count).map (classAt first second literal)

theorem fits_iff {shape : List (UInt8 → Bool)} {rest : List UInt8} :
    fits shape rest = true ↔
      ∀ (offset : Nat) (p : UInt8 → Bool), shape[offset]? = some p →
        ∃ byte, rest[offset]? = some byte ∧ p byte = true := by
  induction shape generalizing rest with
  | nil => simp [fits]
  | cons q shape ih =>
      cases rest with
      | nil =>
          simp only [fits, Bool.false_eq_true, false_iff, not_forall]
          exact ⟨0, q, by simp⟩
      | cons b rest =>
          rw [fits, Bool.and_eq_true, ih]
          constructor
          · rintro ⟨hq, hrest⟩ offset p hp
            cases offset with
            | zero =>
                cases hp
                exact ⟨b, rfl, hq⟩
            | succ offset => exact hrest offset p hp
          · intro h
            obtain ⟨byte, hbyte, hq⟩ := h 0 q rfl
            cases hbyte
            exact ⟨hq, fun offset p hp => h (offset + 1) p hp⟩

theorem fits_append_of_forall₂ {shape : List (UInt8 → Bool)} {x b : List UInt8}
    (h : List.Forall₂ (fun p byte => p byte = true) shape x) : fits shape (x ++ b) = true := by
  induction h with
  | nil => rfl
  | cons hp _ ih => rw [List.cons_append, fits, hp, ih]; rfl

theorem length_le_of_fits {shape : List (UInt8 → Bool)} {rest : List UInt8}
    (h : fits shape rest = true) : shape.length ≤ rest.length := by
  induction shape generalizing rest with
  | nil => exact Nat.zero_le _
  | cons q shape ih =>
      cases rest with
      | nil => cases h
      | cons b rest =>
          rw [fits, Bool.and_eq_true] at h
          exact Nat.succ_le_succ (ih h.2)

/-- A byte of no class ends what the shape reads. -/
theorem fits_append {shape : List (UInt8 → Bool)} {stop : UInt8}
    (hstop : ∀ p ∈ shape, p stop = false) (u t : List UInt8) :
    fits shape (u ++ [stop] ++ t) = fits shape (u ++ [stop]) := by
  induction shape generalizing u with
  | nil => rfl
  | cons q shape ih =>
      rw [List.forall_mem_cons] at hstop
      cases u with
      | nil => simp [fits, hstop.1]
      | cons b u => simp only [List.cons_append, fits, ih hstop.2]

/-- A byte of no class lies behind the shape. -/
theorem length_lt_of_fits {shape : List (UInt8 → Bool)} {stop : UInt8}
    (hstop : ∀ p ∈ shape, p stop = false) {u : List UInt8} (h : fits shape (u ++ [stop]) = true) :
    shape.length ≤ u.length := by
  induction shape generalizing u with
  | nil => exact Nat.zero_le _
  | cons q shape ih =>
      rw [List.forall_mem_cons] at hstop
      cases u with
      | nil => simp [fits, hstop.1] at h
      | cons b u =>
          simp only [List.cons_append, fits, Bool.and_eq_true] at h
          exact Nat.succ_le_succ (ih hstop.2 h.2)

theorem getElem?_shapeAround {count first second : Nat} {literal : UInt8} {offset : Nat}
    {p : UInt8 → Bool} : (shapeAround count first second literal)[offset]? = some p ↔
      offset < count ∧ p = classAt first second literal offset := by
  rw [shapeAround, List.getElem?_map, Option.map_eq_some_iff]
  constructor
  · rintro ⟨i, hi, rfl⟩
    obtain ⟨hlt, rfl⟩ := List.getElem?_eq_some_iff.mp hi
    rw [List.length_range] at hlt
    rw [List.getElem_range]
    exact ⟨hlt, rfl⟩
  · rintro ⟨hlt, rfl⟩
    exact ⟨offset, List.getElem?_range hlt, rfl⟩

theorem fits_shapeAround_iff {count first second : Nat} {literal : UInt8} {rest : List UInt8} :
    fits (shapeAround count first second literal) rest = true ↔
      ∀ offset < count, ∃ byte, rest[offset]? = some byte ∧
        classAt first second literal offset byte = true := by
  rw [fits_iff]
  constructor
  · exact fun h offset hlt => h offset _ (getElem?_shapeAround.mpr ⟨hlt, rfl⟩)
  · intro h offset p hp
    obtain ⟨hlt, rfl⟩ := getElem?_shapeAround.mp hp
    exact h offset hlt

/-! ## A pass of the scanner -/

section Pass

variable {front rest : List UInt8}

theorem byteAt_append (offset : Nat) :
    byteAt (front ++ rest) (front.length + offset) = okOr .panicked rest[offset]? := by
  rw [byteAt, List.getElem?_append_right (Nat.le_add_right _ _), Nat.add_sub_cancel_left]

theorem byteAt_last (u : List UInt8) (byte : UInt8) :
    byteAt (u.concat byte ++ rest) ((u.concat byte).length - 1) = .ok byte := by
  rw [List.concat_append, List.length_concat, Nat.add_sub_cancel]
  exact byteAt_append 0

theorem digitBefore_append :
    digitBefore (front ++ rest) front.length = .ok (front.getLast?.any isAsciiDigit) := by
  rcases List.eq_nil_or_concat front with rfl | ⟨u, byte, rfl⟩
  · rfl
  · rw [digitBefore, if_pos (by simp), digitAt, byteAt_last, List.concat_eq_append,
      List.getLast?_concat]
    rfl

theorem colonBefore_append :
    colonBefore (front ++ rest) front.length = .ok (front.getLast? == some colon) := by
  rcases List.eq_nil_or_concat front with rfl | ⟨u, byte, rfl⟩
  · rfl
  · rw [colonBefore, if_pos (by simp), byteAt_last, List.concat_eq_append,
      List.getLast?_concat]
    rfl

theorem allM_range {ε : Type} {f : Nat → Except ε Bool} {g : Nat → Bool} (offsets : List Nat)
    (h : ∀ offset ∈ offsets, f offset = .ok (g offset)) : offsets.allM f = .ok (offsets.all g) := by
  induction offsets with
  | nil => rfl
  | cons offset offsets ih =>
      rw [List.forall_mem_cons] at h
      rw [List.allM, h.1, List.all_cons, except_bind_ok]
      cases g offset with
      | false => rfl
      | true => rw [ih h.2, Bool.true_and]

theorem digitsAround_append {count first second : Nat} {literal : UInt8} (hfirst : first < count)
    (hsecond : second < count) :
    digitsAround (front ++ rest) front.length count first second literal =
      .ok (fits (shapeAround count first second literal) rest) := by
  have hshape : (shapeAround count first second literal).length = count := by
    rw [shapeAround, List.length_map, List.length_range]
  by_cases hlength : rest.length < count
  · have hshort : fits (shapeAround count first second literal) rest = false := by
      rw [← Bool.not_eq_true]
      intro hfits
      have hle := length_le_of_fits hfits
      omega
    rw [digitsAround, if_pos (by rw [List.length_append]; omega), hshort]
    rfl
  · -- every index is in range, and the checks are those of the shape in another order
    have hget : ∀ offset < count, ∃ byte, rest[offset]? = some byte := fun offset hoffset =>
      ⟨_, List.getElem?_eq_getElem (by omega : offset < rest.length)⟩
    obtain ⟨b₁, h₁⟩ := hget first hfirst
    obtain ⟨b₂, h₂⟩ := hget second hsecond
    have hall := allM_range (List.range count)
      (f := fun offset => if offset = first ∨ offset = second then (return true)
        else digitAt (front ++ rest) (front.length + offset))
      (g := fun offset => if offset = first ∨ offset = second then true
        else rest[offset]?.any isAsciiDigit) (by
        intro offset hoffset
        obtain ⟨byte, hbyte⟩ := hget offset (List.mem_range.mp hoffset)
        split
        · rfl
        · rw [digitAt, byteAt_append, hbyte]
          rfl)
    rw [digitsAround, if_neg (by rw [List.length_append]; omega), byteAt_append, byteAt_append,
      h₁, h₂, okOr_some, okOr_some, except_bind_ok, except_bind_ok, hall]
    have hclass : ∀ (offset : Nat) (byte : UInt8), rest[offset]? = some byte → offset < count →
        classAt first second literal offset byte = false →
        fits (shapeAround count first second literal) rest = false := by
      intro offset byte hbyte hoffset hfails
      rw [← Bool.not_eq_true, fits_shapeAround_iff]
      intro h
      obtain ⟨b, hb, hholds⟩ := h offset hoffset
      rw [hbyte, Option.some.injEq] at hb
      rw [← hb, hfails] at hholds
      cases hholds
    by_cases hb₁ : b₁ = literal
    · rw [if_neg (not_not.mpr hb₁)]
      by_cases hb₂ : b₂ = literal
      · rw [if_neg (not_not.mpr hb₂)]
        refine congrArg Except.ok (Bool.eq_iff_iff.mpr ?_)
        rw [fits_shapeAround_iff, List.all_eq_true]
        refine forall_congr' fun offset => ?_
        rw [List.mem_range]
        refine imp_congr_right fun hoffset => ?_
        obtain ⟨byte, hbyte⟩ := hget offset hoffset
        simp only [hbyte, Option.some.injEq, exists_eq_left', classAt, Option.any_some]
        by_cases hposition : offset = first ∨ offset = second
        · rw [if_pos hposition, if_pos hposition]
          have hliteral : byte = literal := by
            rcases hposition with rfl | rfl
            · rwa [h₁, Option.some.injEq, hb₁, eq_comm] at hbyte
            · rwa [h₂, Option.some.injEq, hb₂, eq_comm] at hbyte
          exact iff_of_true rfl (beq_iff_eq.mpr hliteral)
        · rw [if_neg hposition, if_neg hposition]
      · rw [if_pos hb₂, hclass second b₂ h₂ hsecond (by
          rw [classAt, if_pos (.inr rfl)]
          exact beq_eq_false_iff_ne.mpr hb₂)]
        rfl
    · rw [if_pos hb₁, hclass first b₁ h₁ hfirst (by
        rw [classAt, if_pos (.inl rfl)]
        exact beq_eq_false_iff_ne.mpr hb₁)]
      rfl

/-- The digits at the front. -/
def digitRun (rest : List UInt8) : Nat := (rest.takeWhile isAsciiDigit).length

theorem digitsEnd_append (offset : Nat) :
    digitsEnd (front ++ rest) (front.length + offset) =
      front.length + (offset + digitRun (rest.drop offset)) := by
  generalize htail : rest.drop offset = tail
  induction tail generalizing offset with
  | nil =>
      have hout : (front ++ rest)[front.length + offset]? = none := by
        rw [List.drop_eq_nil_iff] at htail
        exact List.getElem?_eq_none (by rw [List.length_append]; omega)
      rw [digitsEnd, hout, dif_neg (by simp)]
      rfl
  | cons byte tail ih =>
      have hget : (front ++ rest)[front.length + offset]? = some byte := by
        rw [List.getElem?_append_right (Nat.le_add_right _ _), Nat.add_sub_cancel_left,
          ← List.head?_drop, htail, List.head?_cons]
      rw [digitsEnd, hget, Option.any_some]
      by_cases hdigit : isAsciiDigit byte = true
      · have hnext := ih (offset + 1) (by rw [← List.tail_drop, htail, List.tail_cons])
        rw [dif_pos hdigit, Nat.add_assoc, hnext, digitRun, digitRun,
          List.takeWhile_cons_of_pos hdigit, List.length_cons]
        omega
      · rw [dif_neg hdigit, digitRun, List.takeWhile_cons_of_neg hdigit]
        rfl

def dateShape : List (UInt8 → Bool) := shapeAround 10 4 7 dash
def timeShape : List (UInt8 → Bool) := shapeAround 8 2 5 colon

/-- The bytes of an optional fraction. -/
def fractionLength (tail : List UInt8) : Nat :=
  if tail.head? == some period && tail.tail.head?.any isAsciiDigit then 1 + digitRun tail.tail
  else 0

def isDateAt (previous : Option UInt8) (rest : List UInt8) : Bool :=
  !previous.any isAsciiDigit && fits dateShape rest && !(rest.drop 10).head?.any isAsciiDigit

/-- The bytes of the time of day at the front, if there is one. -/
def timeLength (previous : Option UInt8) (rest : List UInt8) : Option Nat :=
  if !previous.any isAsciiDigit && previous != some colon && fits timeShape rest then
    let length := 8 + fractionLength (rest.drop 8)
    if (rest.drop length).head?.all fun byte => !isAsciiDigit byte && byte != colon then some length
    else none
  else none

/-- What a pass appends, and how many bytes it consumes. -/
def piece (previous : Option UInt8) (rest : List UInt8) : List UInt8 × Nat :=
  if isDateAt previous rest then (dateMarker, 10)
  else match timeLength previous rest with
    | some length => (timeMarker, length)
    | none =>
        if rest.head?.any isAsciiDigit && !previous.any isAsciiDigit then
          if digitRun rest = 13 then (epochMarker, 13)
          else (rest.take (digitRun rest), digitRun rest)
        else (rest.take 1, 1)

theorem getElem?_append_add (offset : Nat) :
    (front ++ rest)[front.length + offset]? = (rest.drop offset).head? := by
  rw [List.getElem?_append_right (Nat.le_add_right _ _), Nat.add_sub_cancel_left, List.head?_drop]

theorem startsDate_append :
    startsDate (front ++ rest) front.length (front.getLast?.any isAsciiDigit) =
      .ok (isDateAt front.getLast? rest) := by
  rw [startsDate, digitsAround_append (by omega) (by omega), except_bind_ok, isDateAt, dateShape]
  cases front.getLast?.any isAsciiDigit with
  | true => rfl
  | false =>
      cases fits (shapeAround 10 4 7 dash) rest with
      | false => rfl
      | true => rw [getElem?_append_add]; rfl

theorem fractionEnd_append (offset : Nat) :
    fractionEnd (front ++ rest) (front.length + offset) =
      front.length + (offset + fractionLength (rest.drop offset)) := by
  rw [fractionEnd, Nat.add_assoc, digitsEnd_append, getElem?_append_add, getElem?_append_add,
    fractionLength, ← List.tail_drop]
  split
  · rw [Nat.add_assoc offset]
  · rfl

theorem timeEnd_append :
    timeEnd (front ++ rest) front.length (front.getLast?.any isAsciiDigit) =
      .ok ((timeLength front.getLast? rest).map (front.length + ·)) := by
  rw [timeEnd, colonBefore_append, except_bind_ok, digitsAround_append (by omega) (by omega),
    except_bind_ok, timeLength, timeShape, fractionEnd_append]
  cases front.getLast?.any isAsciiDigit with
  | true => rfl
  | false =>
      by_cases hcolon : front.getLast? = some colon
      · rw [hcolon]
        rfl
      · rw [beq_eq_false_iff_ne.mpr hcolon, bne, beq_eq_false_iff_ne.mpr hcolon]
        cases fits (shapeAround 8 2 5 colon) rest with
        | false => rfl
        | true =>
            simp only [Bool.false_eq_true, if_false, if_true, Bool.not_false, Bool.and_self,
              getElem?_append_add]
            split <;> rfl

theorem digitRun_le : digitRun rest ≤ rest.length :=
  (List.takeWhile_prefix _).length_le

theorem take_digitRun : rest.take (digitRun rest) = rest.takeWhile isAsciiDigit :=
  (List.prefix_iff_eq_take.mp (List.takeWhile_prefix _)).symm

theorem normalizeStep_append (hrest : rest ≠ []) :
    normalizeStep (front ++ rest) front.length =
      .ok ((piece front.getLast? rest).1, front.length + (piece front.getLast? rest).2) := by
  rw [normalizeStep, digitBefore_append, except_bind_ok, startsDate_append, except_bind_ok,
    timeEnd_append, except_bind_ok, piece]
  cases isDateAt front.getLast? rest with
  | true => rfl
  | false =>
      cases timeLength front.getLast? rest with
      | some length => rfl
      | none =>
          obtain ⟨byte, tail, rfl⟩ := List.exists_cons_of_ne_nil hrest
          have hbyte : byteAt (front ++ byte :: tail) front.length = .ok byte := byteAt_append 0
          have hend : digitsEnd (front ++ byte :: tail) (front.length + 1) =
              front.length + (1 + digitRun tail) := digitsEnd_append 1
          rw [hbyte, except_bind_ok, hend, List.head?_cons, Option.any_some]
          cases hdigit : isAsciiDigit byte with
          | false => rfl
          | true =>
              have hrun : digitRun (byte :: tail) = 1 + digitRun tail := by
                rw [digitRun, List.takeWhile_cons_of_pos hdigit, List.length_cons, Nat.add_comm,
                  digitRun]
              cases front.getLast?.any isAsciiDigit with
              | true => rfl
              | false =>
                  have hle : digitRun tail ≤ tail.length := digitRun_le
                  have hslice : subslice (front ++ byte :: tail) front.length
                      (front.length + (1 + digitRun tail)) =
                      some ((byte :: tail).take (1 + digitRun tail)) := by
                    rw [subslice_of_le (by omega)
                      (by rw [List.length_append, List.length_cons]; omega), List.drop_left,
                      Nat.add_sub_cancel_left]
                  simp only [hrun, hslice, Nat.add_sub_cancel_left, Option.map_none, Bool.and_self,
                    Bool.not_false, Bool.false_eq_true, if_true, if_false]
                  by_cases hepoch : 1 + digitRun tail = 13
                  · rw [if_pos hepoch, if_pos hepoch, hepoch]
                    rfl
                  · rw [if_neg hepoch, if_neg hepoch]
                    rfl

/-- The three ways in which a pass goes on. -/
theorem piece_cases (previous : Option UInt8) (rest : List UInt8) :
    (isDateAt previous rest = true ∧ piece previous rest = (dateMarker, 10)) ∨
    (∃ length, timeLength previous rest = some length ∧
      piece previous rest = (timeMarker, length)) ∨
    (digitRun rest = 13 ∧ piece previous rest = (epochMarker, 13)) ∨
    ∃ length, 0 < length ∧ length ≤ max 1 (digitRun rest) ∧
      piece previous rest = (rest.take length, length) := by
  unfold piece
  cases hdate : isDateAt previous rest with
  | true => exact .inl ⟨rfl, rfl⟩
  | false =>
      cases htime : timeLength previous rest with
      | some length => exact .inr (.inl ⟨length, rfl, rfl⟩)
      | none =>
          simp only [Bool.false_eq_true, if_false]
          by_cases hrun : (rest.head?.any isAsciiDigit && !previous.any isAsciiDigit) = true
          · rw [if_pos hrun]
            by_cases hepoch : digitRun rest = 13
            · exact .inr (.inr (.inl ⟨hepoch, if_pos hepoch⟩))
            · have hpos : 0 < digitRun rest := by
                cases rest with
                | nil => simp at hrun
                | cons byte tail =>
                    rw [Bool.and_eq_true, List.head?_cons, Option.any_some] at hrun
                    rw [digitRun, List.takeWhile_cons_of_pos hrun.1]
                    exact Nat.succ_pos _
              exact .inr (.inr (.inr ⟨_, hpos, Nat.le_max_right _ _, if_neg hepoch⟩))
          · exact .inr (.inr (.inr ⟨1, Nat.one_pos, Nat.le_max_left _ _, if_neg hrun⟩))

theorem timeLength_eq_some {previous : Option UInt8} {length : Nat}
    (h : timeLength previous rest = some length) :
    fits timeShape rest = true ∧ length = 8 + fractionLength (rest.drop 8) := by
  unfold timeLength at h
  split at h
  · rename_i hfits
    rw [Bool.and_eq_true] at hfits
    dsimp only at h
    split at h
    · exact ⟨hfits.2, (Option.some.inj h).symm⟩
    · cases h
  · cases h

theorem fractionLength_cases (tail : List UInt8) :
    fractionLength tail = 0 ∨ fractionLength tail = 1 + digitRun tail.tail := by
  rw [fractionLength]
  split
  · exact .inr rfl
  · exact .inl rfl

theorem fractionLength_le (tail : List UInt8) : fractionLength tail ≤ tail.length := by
  rcases fractionLength_cases tail with hnone | hsome
  · rw [hnone]
    exact Nat.zero_le _
  · cases tail with
    | nil => exact Nat.le_refl 0
    | cons byte tail =>
        have hle : digitRun tail ≤ tail.length := digitRun_le
        rw [hsome, List.tail_cons, List.length_cons]
        omega

/-- A pass consumes something, and nothing that is not there. -/
theorem piece_bounds (previous : Option UInt8) (hrest : rest ≠ []) :
    0 < (piece previous rest).2 ∧ (piece previous rest).2 ≤ rest.length := by
  have hpos := List.length_pos_of_ne_nil hrest
  have hrun : digitRun rest ≤ rest.length := digitRun_le
  rcases piece_cases previous rest with ⟨hdate, heq⟩ | ⟨length, htime, heq⟩ | ⟨hepoch, heq⟩ |
    ⟨length, hlength, hle, heq⟩
  all_goals rw [heq]
  · simp only [isDateAt, Bool.and_eq_true] at hdate
    exact ⟨by decide, length_le_of_fits hdate.1.2⟩
  · obtain ⟨hfits, rfl⟩ := timeLength_eq_some htime
    have hshape : 8 ≤ rest.length := length_le_of_fits hfits
    have hfraction := fractionLength_le (rest.drop 8)
    rw [List.length_drop] at hfraction
    exact ⟨by omega, by omega⟩
  · exact ⟨by decide, by omega⟩
  · exact ⟨hlength, by omega⟩

end Pass

/-! ## The scan of a line -/

/-- What the scanner makes of the rest of a line behind a byte. -/
def normalized (previous : Option UInt8) (rest : List UInt8) : List UInt8 :=
  if _hrest : rest = [] then []
  else
    (piece previous rest).1 ++ normalized (rest.take (piece previous rest).2).getLast?
      (rest.drop (piece previous rest).2)
termination_by rest.length
decreasing_by
  have hbounds := piece_bounds previous _hrest
  rw [List.length_drop]
  omega

theorem normalized_nil (previous : Option UInt8) : normalized previous [] = [] := by
  rw [normalized, dif_pos rfl]

theorem normalized_of_piece {previous : Option UInt8} {rest output : List UInt8} {length : Nat}
    (hrest : rest ≠ []) (hpiece : piece previous rest = (output, length)) :
    normalized previous rest =
      output ++ normalized (rest.take length).getLast? (rest.drop length) := by
  rw [normalized, dif_neg hrest, hpiece]

/-- The loop ends, within as many passes as there are bytes. -/
theorem normalizeFrom_eq {bytes : List UInt8} {passes : Nat} {front rest : List UInt8}
    (hbytes : bytes = front ++ rest) (hpasses : rest.length ≤ passes) (output : List UInt8) :
    normalizeFrom bytes passes output front.length =
      .ok (output ++ normalized front.getLast? rest) := by
  induction passes generalizing front rest output with
  | zero =>
      obtain rfl : rest = [] := List.eq_nil_of_length_eq_zero (Nat.le_zero.mp hpasses)
      rw [List.append_nil] at hbytes
      rw [normalizeFrom, hbytes, if_neg (Nat.lt_irrefl _), normalized_nil, List.append_nil]
  | succ passes ih =>
      by_cases hrest : rest = []
      · rw [hrest, List.append_nil] at hbytes
        rw [normalizeFrom, hbytes, if_neg (Nat.lt_irrefl _), hrest, normalized_nil,
          List.append_nil]
      · have hpos := List.length_pos_of_ne_nil hrest
        obtain ⟨hconsumed, hle⟩ := piece_bounds front.getLast? hrest
        have hstep : normalizeStep (front ++ rest) front.length = _ := normalizeStep_append hrest
        rw [normalizeFrom, if_pos (by rw [hbytes, List.length_append]; omega), hbytes, hstep,
          except_bind_ok, normalized, dif_neg hrest, ← hbytes]
        generalize (piece front.getLast? rest).2 = consumed at hconsumed hle ⊢
        have htake : (rest.take consumed).length = consumed := by
          rw [List.length_take]
          omega
        have hlast : (front ++ rest.take consumed).getLast? = (rest.take consumed).getLast? := by
          refine List.getLast?_append_of_ne_nil _ ?_
          rw [← List.length_pos_iff, htake]
          exact hconsumed
        have hnext := @ih (front ++ rest.take consumed) (rest.drop consumed)
          (by rw [List.append_assoc, List.take_append_drop, hbytes])
          (by rw [List.length_drop]; omega) (output ++ (piece front.getLast? rest).1)
        rw [List.length_append, htake, hlast, List.append_assoc] at hnext
        exact hnext

/-! ## The output is a string -/

theorem isAscii_of_isAsciiDigit {byte : UInt8} (h : isAsciiDigit byte = true) : IsAscii byte := by
  simp only [isAsciiDigit, Bool.decide_and, Bool.and_eq_true, decide_eq_true_eq] at h
  exact UInt8.lt_of_le_of_lt h.2 (by decide)

theorem isAscii_of_classAt {first second offset : Nat} {literal byte : UInt8}
    (hliteral : IsAscii literal) (h : classAt first second literal offset byte = true) :
    IsAscii byte := by
  rw [classAt] at h
  split at h
  · rwa [beq_iff_eq.mp h]
  · exact isAscii_of_isAsciiDigit h

/-- A shape is ASCII. -/
theorem isAscii_of_fits {count first second : Nat} {literal : UInt8} {rest : List UInt8}
    (hliteral : IsAscii literal) (h : fits (shapeAround count first second literal) rest = true) :
    ∀ byte ∈ rest.take count, IsAscii byte := by
  intro byte hbyte
  obtain ⟨offset, hoffset⟩ := List.getElem?_of_mem hbyte
  obtain ⟨hlt, _⟩ := List.getElem?_eq_some_iff.mp hoffset
  rw [List.length_take] at hlt
  obtain ⟨byte', hbyte', hclass⟩ := fits_shapeAround_iff.mp h offset (by omega)
  rw [List.getElem?_take_of_lt (by omega), hbyte'] at hoffset
  cases hoffset
  exact isAscii_of_classAt hliteral hclass

theorem isAscii_of_digitRun {rest : List UInt8} :
    ∀ byte ∈ rest.take (digitRun rest), IsAscii byte := by
  rw [take_digitRun]
  exact fun byte hbyte => isAscii_of_isAsciiDigit (List.mem_takeWhile_imp hbyte)

theorem isAscii_fraction {tail : List UInt8} :
    ∀ byte ∈ tail.take (fractionLength tail), IsAscii byte := by
  rw [fractionLength]
  split
  · rename_i hdot
    cases tail with
    | nil => exact fun byte hbyte => absurd hbyte List.not_mem_nil
    | cons first tail =>
        rw [List.tail_cons, Nat.add_comm, List.take_succ_cons, List.forall_mem_cons]
        rw [List.head?_cons, Bool.and_eq_true, beq_iff_eq, Option.some.injEq] at hdot
        exact ⟨hdot.1 ▸ by decide, isAscii_of_digitRun⟩
  · exact fun byte hbyte => absurd hbyte List.not_mem_nil

theorem isAscii_marker {marker : List UInt8}
    (h : marker ∈ [dateMarker, timeMarker, epochMarker]) : ∀ byte ∈ marker, IsAscii byte := by
  have hall : ∀ marker ∈ [dateMarker, timeMarker, epochMarker],
      ∀ byte ∈ marker, IsAscii byte := by
    decide +kernel
  exact hall marker h

/-- A pass copies what it consumes, or replaces ASCII by ASCII. -/
theorem rewrites_piece (previous : Option UInt8) {rest t : List UInt8} (hrest : rest ≠ [])
    (h : Rewrites (rest.drop (piece previous rest).2) t) :
    Rewrites rest ((piece previous rest).1 ++ t) := by
  obtain ⟨hpos, hle⟩ := piece_bounds previous hrest
  have hreplace : ∀ {marker : List UInt8} {length : Nat}, piece previous rest = (marker, length) →
      (∀ byte ∈ rest.take length, IsAscii byte) → (∀ byte ∈ marker, IsAscii byte) →
      Rewrites rest ((piece previous rest).1 ++ t) := by
    intro marker length heq hsegment hmarker
    rw [heq] at h hpos hle ⊢
    have hne : rest.take length ≠ [] := by
      rw [← List.length_pos_iff, List.length_take]
      omega
    have hrewrites := h.replaceAll hne hsegment hmarker
    rwa [List.take_append_drop] at hrewrites
  rcases piece_cases previous rest with ⟨hdate, heq⟩ | ⟨length, htime, heq⟩ | ⟨hepoch, heq⟩ |
    ⟨length, hlength, _, heq⟩
  · simp only [isDateAt, Bool.and_eq_true] at hdate
    exact hreplace heq (isAscii_of_fits (by decide) hdate.1.2) (isAscii_marker (.head _))
  · obtain ⟨hfits, rfl⟩ := timeLength_eq_some htime
    refine hreplace heq ?_ (isAscii_marker (.tail _ (.head _)))
    intro byte hbyte
    rw [List.take_add, List.mem_append] at hbyte
    rcases hbyte with hclock | hfraction
    · exact isAscii_of_fits (by decide) hfits byte hclock
    · exact isAscii_fraction byte hfraction
  · exact hreplace heq (hepoch ▸ isAscii_of_digitRun) (isAscii_marker (.tail _ (.tail _ (.head _))))
  · rw [heq] at h ⊢
    have hcopied := h.copyAll (rest.take length)
    rwa [List.take_append_drop] at hcopied

theorem rewrites_normalized (previous : Option UInt8) (rest : List UInt8) :
    Rewrites rest (normalized previous rest) := by
  fun_induction normalized previous rest with
  | case1 => exact .nil
  | case2 previous rest hrest ih => exact rewrites_piece previous hrest ih

/-- The scanner stays inside the string, and makes a string of it. -/
theorem normalizeTemporalFragments_eq_ok (value : String) :
    ∃ output, normalizeTemporalFragments value = .ok output ∧
      asBytes output = normalized none (asBytes value) := by
  obtain ⟨output, houtput⟩ :=
    ((rewrites_normalized none (asBytes value)).valid (valid_asBytes value)).exists_string
  have hloop := @normalizeFrom_eq (asBytes value) (asBytes value).length [] (asBytes value) rfl
    (Nat.le_refl _) []
  refine ⟨output, ?_, houtput⟩
  rw [normalizeTemporalFragments]
  rw [List.length_nil, List.nil_append, List.getLast?_nil] at hloop
  rw [hloop, except_bind_ok, ← houtput, fromUtf8_asBytes, okOr_some]

/-! ## What stands apart from a fragment -/

/-- A byte that no pattern has. -/
structure Inert (byte : UInt8) : Prop where
  digit : isAsciiDigit byte = false
  colon : byte ≠ colon
  period : byte ≠ period
  dash : byte ≠ dash

/-- A byte that no fragment goes on with. -/
structure Stops (byte : UInt8) : Prop where
  digit : isAsciiDigit byte = false
  colon : byte ≠ colon
  period : byte ≠ period

section Apart

variable {stop : UInt8} {u t : List UInt8} {previous : Option UInt8}

theorem Inert.shapeAround {count first second : Nat} {literal : UInt8} (h : Inert stop)
    (hliteral : stop ≠ literal) :
    ∀ p ∈ shapeAround count first second literal, p stop = false := by
  intro p hp
  obtain ⟨offset, _, rfl⟩ := List.mem_map.mp hp
  rw [classAt]
  split
  · exact beq_eq_false_iff_ne.mpr hliteral
  · exact h.digit

theorem head?_drop_append (u t : List UInt8) (stop : UInt8) {n : Nat} (h : n ≤ u.length) :
    ((u ++ [stop] ++ t).drop n).head? = ((u ++ [stop]).drop n).head? := by
  rw [List.head?_drop, List.head?_drop, List.getElem?_append_left]
  rw [List.length_append, List.length_singleton]
  omega

theorem digitRun_append (h : isAsciiDigit stop = false) :
    digitRun (u ++ [stop] ++ t) = digitRun (u ++ [stop]) ∧ digitRun (u ++ [stop]) ≤ u.length := by
  induction u with
  | nil => simp [digitRun, h]
  | cons byte u ih =>
      simp only [digitRun, List.cons_append, List.takeWhile_cons, List.length_cons] at ih ⊢
      split
      · exact ⟨congrArg Nat.succ ih.1, Nat.succ_le_succ ih.2⟩
      · exact ⟨rfl, Nat.zero_le _⟩

theorem fractionLength_append (h : Inert stop) :
    fractionLength (u ++ [stop] ++ t) = fractionLength (u ++ [stop]) ∧
      fractionLength (u ++ [stop]) ≤ u.length := by
  cases u with
  | nil => simp [fractionLength, h.period]
  | cons byte u =>
      have hrun := digitRun_append (u := u) (t := t) h.digit
      have hhead := head?_drop_append u t stop (Nat.zero_le u.length)
      simp only [List.drop_zero] at hhead
      constructor
      · rw [fractionLength, fractionLength, List.cons_append, List.cons_append, List.head?_cons,
          List.head?_cons, List.tail_cons, List.tail_cons, hhead, hrun.1]
      · rw [List.length_cons]
        rcases fractionLength_cases (byte :: u ++ [stop]) with hnone | hsome
        · rw [hnone]
          exact Nat.zero_le _
        · rw [hsome, List.cons_append, List.tail_cons]
          omega

theorem isDateAt_append (h : Inert stop) :
    isDateAt previous (u ++ [stop] ++ t) = isDateAt previous (u ++ [stop]) := by
  have hshape : ∀ p ∈ shapeAround 10 4 7 dash, p stop = false := h.shapeAround h.dash
  rw [isDateAt, isDateAt, dateShape, fits_append hshape]
  cases hfits : fits (shapeAround 10 4 7 dash) (u ++ [stop]) with
  | false => rw [Bool.and_false, Bool.false_and, Bool.false_and]
  | true =>
      have hlength : 10 ≤ u.length := length_lt_of_fits hshape hfits
      rw [head?_drop_append u t stop hlength]

theorem timeLength_append (h : Inert stop) :
    timeLength previous (u ++ [stop] ++ t) = timeLength previous (u ++ [stop]) := by
  have hshape : ∀ p ∈ shapeAround 8 2 5 colon, p stop = false := h.shapeAround h.colon
  rw [timeLength, timeLength, timeShape, fits_append hshape]
  cases hfits : fits (shapeAround 8 2 5 colon) (u ++ [stop]) with
  | false => simp only [Bool.and_false, Bool.false_eq_true, if_false]
  | true =>
      have hlength : 8 ≤ u.length := length_lt_of_fits hshape hfits
      obtain ⟨hfraction, hle⟩ := fractionLength_append (u := u.drop 8) (t := t) h
      rw [List.append_assoc u, List.drop_append_of_le_length hlength,
        List.drop_append_of_le_length hlength, ← List.append_assoc, hfraction]
      rw [List.length_drop] at hle
      have hhead := head?_drop_append u t stop
        (n := 8 + fractionLength (u.drop 8 ++ [stop])) (by omega)
      rw [List.append_assoc] at hhead
      simp only [hhead]

/-- A pass in front of a inert byte does not see what lies behind it. -/
theorem piece_append (h : Inert stop) :
    piece previous (u ++ [stop] ++ t) = piece previous (u ++ [stop]) := by
  obtain ⟨hrun, hle⟩ := digitRun_append (u := u) (t := t) h.digit
  have hhead := head?_drop_append u t stop (Nat.zero_le u.length)
  simp only [List.drop_zero] at hhead
  have htake : ∀ n ≤ u.length + 1, (u ++ [stop] ++ t).take n = (u ++ [stop]).take n := by
    intro n hn
    exact List.take_append_of_le_length (by simpa using hn)
  rw [piece, piece, isDateAt_append h, timeLength_append h, hrun, hhead, htake _ (by omega),
    htake 1 (by omega)]

/-- The first byte is copied wherever it cannot begin a fragment. -/
theorem piece_of_head (h : ∀ byte, t.head? = some byte → isAsciiDigit byte = false) :
    piece previous t = (t.take 1, 1) := by
  have hfirst : ∀ {p : UInt8 → Bool} {shape : List (UInt8 → Bool)}, p = isAsciiDigit →
      fits (p :: shape) t = false := by
    rintro p shape rfl
    cases t with
    | nil => rfl
    | cons byte t => rw [fits, h byte rfl, Bool.false_and]
  have hdate : fits dateShape t = false := hfirst rfl
  have htime : fits timeShape t = false := hfirst rfl
  have hhead : t.head?.any isAsciiDigit = false := by
    cases t with
    | nil => rfl
    | cons byte t => exact h byte rfl
  rw [piece, isDateAt, timeLength, hdate, htime, hhead]
  simp only [Bool.and_false, Bool.false_and, Bool.false_eq_true, if_false]

/-- Behind a fragment the scan goes on as at the start of a line. -/
theorem normalized_of_head (h : ∀ byte, t.head? = some byte → isAsciiDigit byte = false) :
    normalized previous t = normalized none t := by
  cases t with
  | nil => rw [normalized_nil, normalized_nil]
  | cons byte t =>
      rw [normalized_of_piece (List.cons_ne_nil _ _) (piece_of_head h),
        normalized_of_piece (List.cons_ne_nil _ _) (piece_of_head h)]

end Apart

/-! ## Fragments -/

inductive FragmentKind where
  | date
  | time
  | epochMs
deriving DecidableEq

def FragmentKind.marker : FragmentKind → String
  | .date => "<date>"
  | .time => "<time>"
  | .epochMs => "<epoch_ms>"

/-- The bytes are those of a shape, one for one. -/
def Spells (shape : List (UInt8 → Bool)) (x : List UInt8) : Prop :=
  List.Forall₂ (fun p byte => p byte = true) shape x

def isDash (byte : UInt8) : Bool := byte == dash
def isColon (byte : UInt8) : Bool := byte == colon

/-- `dddd-dd-dd`, `dd:dd:dd` with an optional fraction, and thirteen digits. -/
def FragmentKind.Covers : FragmentKind → List UInt8 → Prop
  | .date, x => Spells [isAsciiDigit, isAsciiDigit, isAsciiDigit, isAsciiDigit, isDash,
      isAsciiDigit, isAsciiDigit, isDash, isAsciiDigit, isAsciiDigit] x
  | .time, x => ∃ clock fraction, x = clock ++ fraction ∧
      Spells [isAsciiDigit, isAsciiDigit, isColon, isAsciiDigit, isAsciiDigit, isColon,
        isAsciiDigit, isAsciiDigit] clock ∧
      (fraction = [] ∨ ∃ digits ≠ [], fraction = period :: digits ∧
        ∀ byte ∈ digits, isAsciiDigit byte = true)
  | .epochMs, x => x.length = 13 ∧ ∀ byte ∈ x, isAsciiDigit byte = true

/-- Nothing behind the string goes on with a fragment. -/
def StartsApart (b : List UInt8) : Prop := ∀ byte, b.head? = some byte → Stops byte

/-- The string ends in front of a fragment. -/
def EndsApart (a : List UInt8) : Prop := ∀ byte, a.getLast? = some byte → Inert byte

section Fragments

variable {previous : Option UInt8} {x b : List UInt8}

theorem digitRun_of_stops (hx : ∀ byte ∈ x, isAsciiDigit byte = true) (hb : StartsApart b) :
    digitRun (x ++ b) = x.length := by
  have hstop : b.takeWhile isAsciiDigit = [] := by
    cases b with
    | nil => rfl
    | cons byte b =>
        exact List.takeWhile_cons_of_neg (by rw [(hb byte rfl).digit]; exact Bool.false_ne_true)
  rw [digitRun, List.takeWhile_append_of_pos hx, hstop, List.append_nil]

theorem head_isNot {p : UInt8 → Bool} (hp : ∀ byte, Stops byte → p byte = false)
    (hb : StartsApart b) : b.head?.any p = false := by
  cases b with
  | nil => rfl
  | cons byte b => exact hp byte (hb byte rfl)

theorem not_any_of_inert (hprevious : ∀ byte, previous = some byte → Inert byte) :
    previous.any isAsciiDigit = false := by
  cases previous with
  | none => rfl
  | some byte => exact (hprevious byte rfl).digit

/-- A digit stands where a shape has its literal. -/
theorem not_fits {count first second offset : Nat} {literal byte : UInt8} {rest : List UInt8}
    (hoffset : offset < count) (hposition : offset = first ∨ offset = second)
    (hliteral : isAsciiDigit literal = false) (hbyte : rest[offset]? = some byte)
    (hdigit : isAsciiDigit byte = true) :
    fits (shapeAround count first second literal) rest = false := by
  rw [← Bool.not_eq_true]
  intro hfits
  obtain ⟨found, hfound, hclass⟩ := fits_shapeAround_iff.mp hfits offset hoffset
  rw [hbyte, Option.some.injEq] at hfound
  rw [classAt, if_pos hposition, beq_iff_eq, ← hfound] at hclass
  rw [hclass, hliteral] at hdigit
  cases hdigit

theorem fractionLength_of_stops (digits : List UInt8) {fraction : List UInt8}
    (hfraction : fraction = [] ∨ digits ≠ [] ∧ fraction = period :: digits ∧
      ∀ byte ∈ digits, isAsciiDigit byte = true) (hb : StartsApart b) :
    fractionLength (fraction ++ b) = fraction.length := by
  rcases hfraction with rfl | ⟨hne, rfl, hdigits⟩
  · have hdot : (b.head? == some period) = false := by
      rw [beq_eq_false_iff_ne]
      exact fun hhead => (hb period hhead).period rfl
    rw [List.nil_append, fractionLength, hdot, Bool.false_and, if_neg Bool.false_ne_true,
      List.length_nil]
  · have hhead : (digits ++ b).head?.any isAsciiDigit = true := by
      cases digits with
      | nil => exact absurd rfl hne
      | cons byte digits => exact hdigits byte (List.mem_cons_self ..)
    rw [fractionLength, List.cons_append, List.head?_cons, List.tail_cons, hhead,
      digitRun_of_stops hdigits hb, if_pos (by simp), List.length_cons, Nat.add_comm]

theorem piece_date (hprevious : ∀ byte, previous = some byte → Inert byte)
    (hx : FragmentKind.date.Covers x) (hb : StartsApart b) :
    piece previous (x ++ b) = (dateMarker, x.length) := by
  have hlength : x.length = 10 := (List.Forall₂.length_eq hx).symm
  have hfits : fits dateShape (x ++ b) = true := fits_append_of_forall₂ hx
  have hdate : isDateAt previous (x ++ b) = true := by
    rw [isDateAt, not_any_of_inert hprevious, hfits, List.drop_left' hlength,
      head_isNot (fun byte h => h.digit) hb]
    rfl
  rw [piece, if_pos hdate, hlength]

theorem piece_time (hprevious : ∀ byte, previous = some byte → Inert byte)
    (hx : FragmentKind.time.Covers x) (hb : StartsApart b) :
    piece previous (x ++ b) = (timeMarker, x.length) := by
  obtain ⟨clock, fraction, rfl, hclock, hfraction⟩ := hx
  have hlength : clock.length = 8 := (List.Forall₂.length_eq hclock).symm
  have hfits : fits timeShape (clock ++ (fraction ++ b)) = true := fits_append_of_forall₂ hclock
  have hdate : isDateAt previous (clock ++ (fraction ++ b)) = false := by
    obtain ⟨byte, hbyte, hdigit⟩ := fits_shapeAround_iff.mp hfits 4 (by omega)
    rw [isDateAt, dateShape, not_fits (by omega) (.inl rfl) (by decide) hbyte hdigit,
      Bool.and_false, Bool.false_and]
  have hcolon : (previous != some colon) = true := by
    rw [bne_iff_ne]
    exact fun heq => (hprevious colon heq).colon rfl
  have hfractionLength : fractionLength (fraction ++ b) = fraction.length := by
    rcases hfraction with hnone | ⟨digits, hsome⟩
    · exact fractionLength_of_stops [] (.inl hnone) hb
    · exact fractionLength_of_stops digits (.inr hsome) hb
  have hstop : b.head?.all (fun byte => !isAsciiDigit byte && byte != colon) = true := by
    cases b with
    | nil => rfl
    | cons byte b =>
        have hstops := hb byte rfl
        rw [List.head?_cons, Option.all_some, hstops.digit, bne_iff_ne.mpr hstops.colon]
        rfl
  have htime : timeLength previous (clock ++ (fraction ++ b)) = some (8 + fraction.length) := by
    rw [timeLength, not_any_of_inert hprevious, hcolon, hfits, List.drop_left' hlength,
      hfractionLength]
    have hdrop : (clock ++ (fraction ++ b)).drop (8 + fraction.length) = b := by
      rw [← List.append_assoc]
      exact List.drop_left' (by rw [List.length_append, hlength])
    simp only [hdrop, hstop, Bool.not_false, Bool.and_self, if_true]
  rw [List.append_assoc, piece, hdate, htime, List.length_append, hlength]
  rfl

theorem piece_epoch (hprevious : ∀ byte, previous = some byte → Inert byte)
    (hx : FragmentKind.epochMs.Covers x) (hb : StartsApart b) :
    piece previous (x ++ b) = (epochMarker, x.length) := by
  obtain ⟨hlength, hdigits⟩ := hx
  have hdigit : ∀ offset < 13, ∃ byte, (x ++ b)[offset]? = some byte ∧
      isAsciiDigit byte = true := by
    intro offset hoffset
    have hlt : offset < x.length := by omega
    refine ⟨x[offset], ?_, hdigits _ (List.getElem_mem hlt)⟩
    rw [List.getElem?_append_left hlt, List.getElem?_eq_getElem hlt]
  have hdate : isDateAt previous (x ++ b) = false := by
    obtain ⟨byte, hbyte, hbyteDigit⟩ := hdigit 4 (by omega)
    rw [isDateAt, dateShape, not_fits (by omega) (.inl rfl) (by decide) hbyte hbyteDigit,
      Bool.and_false, Bool.false_and]
  have htime : timeLength previous (x ++ b) = none := by
    obtain ⟨byte, hbyte, hbyteDigit⟩ := hdigit 2 (by omega)
    rw [timeLength, timeShape, not_fits (by omega) (.inl rfl) (by decide) hbyte hbyteDigit,
      Bool.and_false, if_neg Bool.false_ne_true]
  have hhead : (x ++ b).head?.any isAsciiDigit = true := by
    obtain ⟨byte, hbyte, hbyteDigit⟩ := hdigit 0 (by omega)
    rw [List.head?_eq_getElem?, hbyte]
    exact hbyteDigit
  have hrun : digitRun (x ++ b) = 13 := by rw [digitRun_of_stops hdigits hb, hlength]
  rw [piece, hdate, htime, hhead, not_any_of_inert hprevious, hrun, hlength]
  rfl

theorem FragmentKind.piece_eq (kind : FragmentKind)
    (hprevious : ∀ byte, previous = some byte → Inert byte) (hx : kind.Covers x)
    (hb : StartsApart b) : piece previous (x ++ b) = (asBytes kind.marker, x.length) := by
  cases kind with
  | date => exact piece_date hprevious hx hb
  | time => exact piece_time hprevious hx hb
  | epochMs => exact piece_epoch hprevious hx hb

theorem FragmentKind.Covers.ne_nil {kind : FragmentKind} (hx : kind.Covers x) : x ≠ [] := by
  rintro rfl
  cases kind with
  | date => cases hx
  | time =>
      obtain ⟨clock, fraction, hnil, hclock, _⟩ := hx
      rw [(List.append_eq_nil_iff.mp hnil.symm).1] at hclock
      cases hclock
  | epochMs => exact absurd hx.1 (by decide)

/-- The scan in front of a fragment, the marker, and the scan behind it. -/
theorem normalized_append (kind : FragmentKind) (hx : kind.Covers x) (hb : StartsApart b)
    (a : List UInt8) (ha : EndsApart a)
    (hprevious : a = [] → ∀ byte, previous = some byte → Inert byte) :
    normalized previous (a ++ x ++ b) =
      normalized previous a ++ asBytes kind.marker ++ normalized none b := by
  induction h : a.length using Nat.strong_induction_on generalizing a previous with
  | _ n ih =>
      rcases List.eq_nil_or_concat a with rfl | ⟨u, stop, rfl⟩
      · have hne : x ++ b ≠ [] := fun hnil => hx.ne_nil (List.append_eq_nil_iff.mp hnil).1
        rw [List.nil_append, normalized_of_piece hne (kind.piece_eq (hprevious rfl) hx hb),
          List.take_left, List.drop_left, normalized_nil, List.nil_append,
          normalized_of_head fun byte hbyte => (hb byte hbyte).digit]
      · -- the pass is that of `a` alone, and what it leaves of `a` still ends apart
        rw [List.concat_eq_append] at ha h ⊢
        have hinert : Inert stop := ha stop List.getLast?_concat
        have hne : u ++ [stop] ≠ [] := List.append_ne_nil_of_right_ne_nil _ (List.cons_ne_nil _ _)
        have hne' : u ++ [stop] ++ (x ++ b) ≠ [] := List.append_ne_nil_of_left_ne_nil hne _
        obtain ⟨hpos, hle⟩ := piece_bounds previous hne
        have hpiece : piece previous (u ++ [stop] ++ (x ++ b)) = piece previous (u ++ [stop]) :=
          piece_append hinert
        obtain ⟨output, consumed, heq⟩ : ∃ output consumed,
          piece previous (u ++ [stop]) = (output, consumed) := ⟨_, _, rfl⟩
        rw [heq] at hpos hle hpiece
        rw [List.append_assoc, normalized_of_piece hne' hpiece, normalized_of_piece hne heq,
          List.take_append_of_le_length hle, List.drop_append_of_le_length hle,
          ← List.append_assoc (_ : List UInt8) x]
        have hlast : EndsApart ((u ++ [stop]).drop consumed) := by
          intro byte hbyte
          rcases Nat.lt_or_ge u.length consumed with hall | hsome
          · rw [List.drop_eq_nil_of_le (by simpa using Nat.succ_le_of_lt hall)] at hbyte
            cases hbyte
          · rw [List.drop_append_of_le_length hsome, List.getLast?_concat] at hbyte
            cases hbyte
            exact hinert
        have hconsumed : (u ++ [stop]).drop consumed = [] → ∀ byte,
            ((u ++ [stop]).take consumed).getLast? = some byte → Inert byte := by
          intro hnil byte hbyte
          rw [List.take_of_length_le (List.drop_eq_nil_iff.mp hnil), List.getLast?_concat] at hbyte
          cases hbyte
          exact hinert
        rw [ih ((u ++ [stop]).drop consumed).length (by rw [List.length_drop]; omega) _ hlast
          hconsumed rfl]
        simp only [List.append_assoc]

end Fragments

/-- **Normalization forgets exactly the fragment.** Every string is normalized to a string,
with no index outside of it. A date, a time or epoch milliseconds that stand apart from what
is before and behind them become their marker, and nothing else changes; so what is forgotten
of two lines that differ in such a fragment is the difference. -/
theorem normalize_forgets_fragments :
    (∀ value, ∃ output, normalizeTemporalFragments value = .ok output) ∧
    (∀ (kind : FragmentKind) (a x b : String), kind.Covers (asBytes x) →
      EndsApart (asBytes a) → StartsApart (asBytes b) →
      ∃ a' b', normalizeTemporalFragments a = .ok a' ∧ normalizeTemporalFragments b = .ok b' ∧
        normalizeTemporalFragments (a ++ x ++ b) = .ok (a' ++ kind.marker ++ b')) ∧
    ∀ (kind : FragmentKind) (a x y b : String), kind.Covers (asBytes x) →
      kind.Covers (asBytes y) → EndsApart (asBytes a) → StartsApart (asBytes b) →
      normalizeTemporalFragments (a ++ x ++ b) = normalizeTemporalFragments (a ++ y ++ b) := by
  have hfragment : ∀ (kind : FragmentKind) (a x b : String), kind.Covers (asBytes x) →
      EndsApart (asBytes a) → StartsApart (asBytes b) →
      ∃ a' b', normalizeTemporalFragments a = .ok a' ∧ normalizeTemporalFragments b = .ok b' ∧
        normalizeTemporalFragments (a ++ x ++ b) = .ok (a' ++ kind.marker ++ b') := by
    intro kind a x b hx ha hb
    obtain ⟨a', hok, ha'⟩ := normalizeTemporalFragments_eq_ok a
    obtain ⟨b', hok', hb'⟩ := normalizeTemporalFragments_eq_ok b
    obtain ⟨whole, hwhole, hbytes⟩ := normalizeTemporalFragments_eq_ok (a ++ x ++ b)
    refine ⟨a', b', hok, hok', ?_⟩
    rw [hwhole]
    refine congrArg Except.ok (asBytes_inj.mp ?_)
    rw [hbytes, asBytes_append, asBytes_append, normalized_append kind hx hb _ ha (by simp),
      asBytes_append, asBytes_append, ha', hb']
  refine ⟨fun value => ?_, hfragment, fun kind a x y b hx hy ha hb => ?_⟩
  · obtain ⟨output, hok, _⟩ := normalizeTemporalFragments_eq_ok value
    exact ⟨output, hok⟩
  · obtain ⟨a', b', hok, hok', hfirst⟩ := hfragment kind a x b hx ha hb
    obtain ⟨a'', b'', hok₂, hok₂', hsecond⟩ := hfragment kind a y b hy ha hb
    rw [hok] at hok₂
    rw [hok'] at hok₂'
    cases hok₂
    cases hok₂'
    rw [hfirst, hsecond]

/-- A space is apart from any fragment. -/
theorem inert_space : Inert 32 := ⟨by decide, by decide, by decide, by decide⟩

/-- Times with a fraction and without, between a date that stays a date and a text. -/
theorem normalize_forgets_fragments_time :
    ∃ a' b', normalizeTemporalFragments "[2024-01-02] at " = .ok a' ∧
      normalizeTemporalFragments " by é" = .ok b' ∧
      normalizeTemporalFragments ("[2024-01-02] at " ++ "12:34:56.789" ++ " by é") =
        .ok (a' ++ "<time>" ++ b') ∧
      normalizeTemporalFragments ("[2024-01-02] at " ++ "12:34:56.789" ++ " by é") =
        normalizeTemporalFragments ("[2024-01-02] at " ++ "23:59:59" ++ " by é") := by
  have hbefore : (asBytes "[2024-01-02] at ").getLast? = some 32 := by decide
  have hbehind : (asBytes " by é").head? = some 32 := by decide
  have hends : EndsApart (asBytes "[2024-01-02] at ") := fun byte hbyte =>
    Option.some.inj (hbefore.symm.trans hbyte) ▸ inert_space
  have hstarts : StartsApart (asBytes " by é") := fun byte hbyte =>
    Option.some.inj (hbehind.symm.trans hbyte) ▸
      ⟨inert_space.digit, inert_space.colon, inert_space.period⟩
  have hfraction : FragmentKind.time.Covers (asBytes "12:34:56.789") :=
    ⟨asBytes "12:34:56", asBytes ".789", by decide, by unfold Spells; decide,
      .inr ⟨asBytes "789", by decide, by decide, List.all_eq_true.mp (by decide)⟩⟩
  have hplain : FragmentKind.time.Covers (asBytes "23:59:59") :=
    ⟨asBytes "23:59:59", [], by decide, by unfold Spells; decide, .inl rfl⟩
  obtain ⟨_, hkept, hforgotten⟩ := normalize_forgets_fragments
  obtain ⟨a', b', ha, hb, hwhole⟩ := hkept .time _ _ _ hfraction hends hstarts
  exact ⟨a', b', ha, hb, hwhole, hforgotten .time _ _ _ _ hfraction hplain hends hstarts⟩

/-- A date between a bracket and a space. -/
example : normalizeTemporalFragments "[2024-01-02 é" = .ok "[<date> é" := by decide +kernel

end Evidentrail
