import Evidentrail.Core.Hash
import Evidentrail.Lib.Ascii
import Evidentrail.Lib.Lines
import Mathlib.Data.List.TakeDrop
import Mathlib.Tactic.MkIffOfInductiveProp

/-!
# Escaped evidence and bounded text

Evidence bytes are untrusted. They are written on one physical line in a
byte escape that keeps printable ASCII readable; `unescape` accepts exactly
the texts that `escape` produces. A `BoundedText` collects a render piece
by piece and fails as soon as it would pass its limit.
-/

namespace Evidentrail

open Rust Ascii

/-! ## Byte classes -/

def backslash : UInt8 := 92
def newline : UInt8 := 10
def carriageReturn : UInt8 := 13
def tab : UInt8 := 9

/-- `0x20..=0x7e`. -/
def isPrintable (byte : UInt8) : Bool := 32 ≤ byte && byte ≤ 126

/-- `b"0123456789abcdef"[nibble]`. -/
def hexDigit (nibble : UInt8) : UInt8 :=
  if nibble < 10 then 48 + nibble else 87 + nibble

def hexValue (byte : UInt8) : Option UInt8 :=
  if 48 ≤ byte ∧ byte ≤ 57 then some (byte - 48)
  else if 97 ≤ byte ∧ byte ≤ 102 then some (byte - 97 + 10)
  else none

/-- What `push_escaped_byte` appends. -/
def escapedByte (byte : UInt8) : List UInt8 :=
  if byte = backslash then [backslash, backslash]
  else if byte = newline then [backslash, 110]
  else if byte = carriageReturn then [backslash, 114]
  else if byte = tab then [backslash, 116]
  else if isPrintable byte then [byte]
  else [backslash, 120, hexDigit (byte >>> 4), hexDigit (byte &&& 15)]

def escapeEvidenceBytes (bytes : List UInt8) : List UInt8 :=
  bytes.flatMap escapedByte

inductive EvidenceEscapeError where
  | truncatedEscape
  | invalidEscape
  | invalidDigit
  | nonCanonicalByte
deriving DecidableEq

/-- The bytes that `\xhh` may not stand for. -/
def hasShortForm (byte : UInt8) : Bool :=
  byte = backslash || byte = newline || byte = carriageReturn || byte = tab || isPrintable byte

/-- One `\xhh` after its digits were read. -/
def decodeHex (high low : UInt8) : Except EvidenceEscapeError UInt8 :=
  match hexValue high with
  | none => .error .invalidDigit
  | some high =>
      match hexValue low with
      | none => .error .invalidDigit
      | some low =>
          let decoded := (high <<< 4) ||| low
          if hasShortForm decoded then .error .nonCanonicalByte else .ok decoded

/-- The source walks an offset; here the rest of the text is the offset. -/
def unescapeEvidenceBytes : List UInt8 → Except EvidenceEscapeError (List UInt8)
  | [] => .ok []
  | byte :: rest =>
      if byte = backslash then
        match rest with
        | [] => .error .truncatedEscape
        | escape :: rest =>
            if escape = backslash then (unescapeEvidenceBytes rest).map (backslash :: ·)
            else if escape = 110 then (unescapeEvidenceBytes rest).map (newline :: ·)
            else if escape = 114 then (unescapeEvidenceBytes rest).map (carriageReturn :: ·)
            else if escape = 116 then (unescapeEvidenceBytes rest).map (tab :: ·)
            else if escape = 120 then
              match rest with
              | high :: low :: rest =>
                  match decodeHex high low with
                  | .error error => .error error
                  | .ok decoded => (unescapeEvidenceBytes rest).map (decoded :: ·)
              | _ => .error .truncatedEscape
            else .error .invalidEscape
      else if isPrintable byte then (unescapeEvidenceBytes rest).map (byte :: ·)
      else .error .nonCanonicalByte

def escapedLen (bytes : List UInt8) : Option Nat :=
  bytes.foldlM
    (fun length byte =>
      checkedAdd length
        (if byte = backslash ∨ byte = newline ∨ byte = carriageReturn ∨ byte = tab then 2
        else if isPrintable byte then 1
        else 4)) 0

/-! ## The escape is a code -/

/-- What the escape makes of one byte, as a digit and as data. -/
@[mk_iff]
structure EscapeRow (b : UInt8) : Prop where
  decoded : hasShortForm b = false →
    decodeHex (hexDigit (b >>> 4)) (hexDigit (b &&& 15)) = .ok b
  digit : (hexValue b).all (fun v => decide (v < 16 ∧ hexDigit v = b)) = true
  printable : ¬ b = backslash → isPrintable b = true → escapedByte b = [b]
  length : (escapedByte b).length =
    if b = backslash ∨ b = newline ∨ b = carriageReturn ∨ b = tab then 2
    else if isPrintable b then 1
    else 4
  ascii : (escapedByte b).all (fun c => decide (32 ≤ c ∧ c ≤ 126)) = true

instance (b : UInt8) : Decidable (EscapeRow b) := decidable_of_iff' _ (escapeRow_iff b)

theorem escapeRow (b : UInt8) : EscapeRow b := by
  refine forall_byte (P := EscapeRow) ?_ b
  decide +kernel

theorem decodeHex_hexDigit {b : UInt8} (h : hasShortForm b = false) :
    decodeHex (hexDigit (b >>> 4)) (hexDigit (b &&& 15)) = .ok b :=
  (escapeRow b).decoded h

theorem unescape_escapedByte (b : UInt8) (rest : List UInt8) :
    unescapeEvidenceBytes (escapedByte b ++ rest) =
      (unescapeEvidenceBytes rest).map (b :: ·) := by
  rw [unescapeEvidenceBytes.eq_def]
  by_cases hslash : b = backslash
  · subst hslash
    rfl
  by_cases hline : b = newline
  · subst hline
    rfl
  by_cases hreturn : b = carriageReturn
  · subst hreturn
    rfl
  by_cases htab : b = tab
  · subst htab
    rfl
  by_cases hprint : isPrintable b = true
  · simp only [escapedByte, if_neg hslash, if_neg hline, if_neg hreturn, if_neg htab,
      if_pos hprint, List.singleton_append]
  · have hlong : hasShortForm b = false := by
      simp [hasShortForm, hslash, hline, hreturn, htab, hprint]
    have hx : ¬ ((120 : UInt8) = backslash) ∧ ¬ ((120 : UInt8) = 110) ∧
        ¬ ((120 : UInt8) = 114) ∧ ¬ ((120 : UInt8) = 116) := by decide
    simp only [escapedByte, if_neg hslash, if_neg hline, if_neg hreturn, if_neg htab,
      hprint, Bool.false_eq_true, if_false, List.cons_append, List.nil_append,
      if_true, if_neg hx.1, if_neg hx.2.1, if_neg hx.2.2.1, if_neg hx.2.2.2,
      decodeHex_hexDigit hlong]

theorem unescape_escapeEvidenceBytes (bytes : List UInt8) :
    unescapeEvidenceBytes (escapeEvidenceBytes bytes) = .ok bytes := by
  induction bytes with
  | nil => rfl
  | cons b rest ih =>
      rw [escapeEvidenceBytes, List.flatMap_cons, unescape_escapedByte]
      rw [escapeEvidenceBytes] at ih
      rw [ih]
      rfl

theorem hexValue_cases {digit value : UInt8} (h : hexValue digit = some value) :
    value < 16 ∧ hexDigit value = digit := by
  have hdigit := (escapeRow digit).digit
  rw [h] at hdigit
  exact of_decide_eq_true hdigit

theorem nibbles {high low : UInt8} (hh : high < 16) (hl : low < 16) :
    ((high <<< 4) ||| low) >>> 4 = high ∧ ((high <<< 4) ||| low) &&& 15 = low := by
  have hall : ∀ m < 16, ∀ n < 16,
      ((UInt8.ofNat m <<< 4) ||| UInt8.ofNat n) >>> 4 = UInt8.ofNat m ∧
        ((UInt8.ofNat m <<< 4) ||| UInt8.ofNat n) &&& 15 = UInt8.ofNat n := by
    decide +kernel
  have h := hall high.toNat hh low.toNat hl
  simpa only [UInt8.ofNat_toNat] using h

/-- The digits of a canonical `\xhh` are those that `escape` writes. -/
theorem escapedByte_decodeHex {high low b : UInt8} (h : decodeHex high low = .ok b) :
    escapedByte b = [backslash, 120, high, low] := by
  rw [decodeHex] at h
  cases hhigh : hexValue high with
  | none => simp [hhigh] at h
  | some v =>
      cases hlow : hexValue low with
      | none => simp [hhigh, hlow] at h
      | some w =>
          obtain ⟨hv, hvdigit⟩ := hexValue_cases hhigh
          obtain ⟨hw, hwdigit⟩ := hexValue_cases hlow
          obtain ⟨hshift, hmask⟩ := nibbles hv hw
          simp only [hhigh, hlow] at h
          split at h
          · cases h
          · rename_i hlong
            cases h
            simp only [hasShortForm, Bool.or_eq_true, decide_eq_true_eq, not_or] at hlong
            obtain ⟨⟨⟨⟨hslash, hline⟩, hreturn⟩, htab⟩, hprint⟩ := hlong
            rw [escapedByte, if_neg hslash, if_neg hline, if_neg hreturn, if_neg htab,
              if_neg hprint, hshift, hmask, hvdigit, hwdigit]

theorem escape_cons (b : UInt8) (bytes : List UInt8) :
    escapeEvidenceBytes (b :: bytes) = escapedByte b ++ escapeEvidenceBytes bytes :=
  List.flatMap_cons

theorem escapedByte_printable {b : UInt8} (hslash : ¬ b = backslash)
    (hprint : isPrintable b = true) : escapedByte b = [b] :=
  (escapeRow b).printable hslash hprint

/-- One decoded byte in front of a decoded rest. -/
theorem escape_of_map {b : UInt8} {piece rest bytes : List UInt8}
    (hpiece : escapedByte b = piece)
    (ih : ∀ {bytes : List UInt8}, unescapeEvidenceBytes rest = .ok bytes →
      escapeEvidenceBytes bytes = rest)
    (h : (unescapeEvidenceBytes rest).map (b :: ·) = .ok bytes) :
    escapeEvidenceBytes bytes = piece ++ rest := by
  obtain ⟨later, hlater, rfl⟩ := except_map_eq_ok.mp h
  rw [escape_cons, hpiece, ih hlater]

/-- `unescape` accepts only what `escape` writes. -/
theorem escape_of_unescape {encoded : List UInt8} : ∀ {bytes : List UInt8},
    unescapeEvidenceBytes encoded = .ok bytes → escapeEvidenceBytes bytes = encoded := by
  fun_induction unescapeEvidenceBytes encoded with
  | case1 =>
      intro bytes h
      cases h
      rfl
  | case2 => exact fun h => nomatch h
  | case3 rest ih => exact escape_of_map rfl ih
  | case4 rest _ ih => exact escape_of_map rfl ih
  | case5 rest _ _ ih => exact escape_of_map rfl ih
  | case6 rest _ _ _ ih => exact escape_of_map rfl ih
  | case7 => exact fun h => nomatch h
  | case8 high low rest decoded hdecode _ _ _ _ ih =>
      exact escape_of_map (escapedByte_decodeHex hdecode) ih
  | case9 => exact fun h => nomatch h
  | case10 => exact fun h => nomatch h
  | case11 byte rest hslash hprint ih =>
      exact escape_of_map (escapedByte_printable hslash hprint) ih
  | case12 => exact fun h => nomatch h

theorem length_escapedByte (b : UInt8) :
    (escapedByte b).length =
      if b = backslash ∨ b = newline ∨ b = carriageReturn ∨ b = tab then 2
      else if isPrintable b then 1
      else 4 :=
  (escapeRow b).length

/-- `escaped_len` is the produced length, when that is a `usize` at all. -/
theorem escapedLen_eq (bytes : List UInt8) :
    escapedLen bytes = u64TryFrom (escapeEvidenceBytes bytes).length := by
  have hfold : ∀ (bytes : List UInt8) (start : Nat), start < u64Bound →
      bytes.foldlM (fun length byte => checkedAdd length
        (if byte = backslash ∨ byte = newline ∨ byte = carriageReturn ∨ byte = tab then 2
        else if isPrintable byte then 1
        else 4)) start = u64TryFrom (start + (escapeEvidenceBytes bytes).length) := by
    intro bytes
    induction bytes with
    | nil =>
        intro start hstart
        exact (u64TryFrom_eq_some.mpr ⟨hstart, rfl⟩).symm
    | cons b rest ih =>
        intro start hstart
        rw [List.foldlM_cons, ← length_escapedByte, escape_cons, List.length_append,
          ← Nat.add_assoc]
        by_cases hfits : start + (escapedByte b).length < u64Bound
        · rw [checkedAdd_of_lt hfits]
          exact ih _ hfits
        · rw [checkedAdd, if_neg hfits, u64TryFrom, if_neg (by omega)]
          rfl
  have h := hfold bytes 0 (Nat.two_pow_pos 64)
  rwa [Nat.zero_add] at h

theorem escapedByte_ascii (b : UInt8) : ∀ c ∈ escapedByte b, 32 ≤ c ∧ c ≤ 126 := by
  intro c hc
  exact of_decide_eq_true (List.all_eq_true.mp (escapeRow b).ascii c hc)

/-! ## Bounded text -/

inductive RenderLimitExceeded where
  | renderLimitExceeded
deriving DecidableEq

structure BoundedText where
  value : List UInt8
  limit : Nat

namespace BoundedText

def new (limit : Nat) : BoundedText := ⟨[], limit⟩

def push (text : BoundedText) (value : List UInt8) :
    Except RenderLimitExceeded BoundedText :=
  match checkedAdd text.value.length value.length with
  | none => .error .renderLimitExceeded
  | some newLen =>
      if newLen > text.limit then .error .renderLimitExceeded
      else .ok { text with value := text.value ++ value }

def pushEscaped (text : BoundedText) (bytes : List UInt8) :
    Except RenderLimitExceeded BoundedText :=
  match escapedLen bytes with
  | none => .error .renderLimitExceeded
  | some encodedLen =>
      match checkedAdd text.value.length encodedLen with
      | none => .error .renderLimitExceeded
      | some newLen =>
          if newLen > text.limit then .error .renderLimitExceeded
          else .ok { text with value := text.value ++ escapeEvidenceBytes bytes }

end BoundedText

/-- What a renderer pushes: a text, or evidence to escape. -/
inductive Piece where
  | text (value : List UInt8)
  | escaped (bytes : List UInt8)

namespace Piece

/-- A string literal. -/
def str (s : String) : Piece := .text (asciiBytes s)

/-- `to_string` of an unsigned integer. -/
def nat (n : Nat) : Piece := .text (asciiBytes (toString n))

/-- The bytes a piece adds. -/
def bytes : Piece → List UInt8
  | .text value => value
  | .escaped bytes => escapeEvidenceBytes bytes

def pushTo (text : BoundedText) : Piece → Except RenderLimitExceeded BoundedText
  | .text value => text.push value
  | .escaped bytes => text.pushEscaped bytes

end Piece

/-- The pushes of a renderer, in order. -/
def BoundedText.pushAll (text : BoundedText) (pieces : List Piece) :
    Except RenderLimitExceeded BoundedText :=
  pieces.foldlM Piece.pushTo text

/-- The text of these pieces. -/
def renderedBytes (pieces : List Piece) : List UInt8 := pieces.flatMap Piece.bytes

theorem renderedBytes_append (xs ys : List Piece) :
    renderedBytes (xs ++ ys) = renderedBytes xs ++ renderedBytes ys :=
  List.flatMap_append

/-- Both kinds of push append when the text still fits. -/
theorem Piece.pushTo_eq (piece : Piece) {text : BoundedText} (hlimit : text.limit < u64Bound) :
    piece.pushTo text =
      if (text.value ++ piece.bytes).length ≤ text.limit then
        .ok { text with value := text.value ++ piece.bytes }
      else .error .renderLimitExceeded := by
  cases piece with
  | text value =>
      simp only [Piece.pushTo, Piece.bytes, BoundedText.push, List.length_append]
      by_cases hfits : text.value.length + value.length < u64Bound
      · rw [checkedAdd_of_lt hfits]
        simp only [gt_iff_lt, ← Nat.not_le, ite_not]
      · rw [checkedAdd, if_neg hfits, if_neg (by omega)]
  | escaped bytes =>
      simp only [Piece.pushTo, Piece.bytes, BoundedText.pushEscaped, List.length_append,
        escapedLen_eq]
      by_cases hlen : (escapeEvidenceBytes bytes).length < u64Bound
      · rw [u64TryFrom, if_pos hlen]
        by_cases hfits : text.value.length + (escapeEvidenceBytes bytes).length < u64Bound
        · simp only [checkedAdd_of_lt hfits, gt_iff_lt, ← Nat.not_le, ite_not]
        · simp only [checkedAdd, if_neg hfits]
          rw [if_neg (by omega)]
      · simp only [u64TryFrom, if_neg hlen]
        rw [if_neg (by omega)]

/-- A render succeeds exactly when the whole text fits. -/
theorem BoundedText.pushAll_eq : ∀ (pieces : List Piece) (text : BoundedText),
    text.limit < u64Bound → text.value.length ≤ text.limit →
    text.pushAll pieces =
      if (text.value ++ renderedBytes pieces).length ≤ text.limit then
        .ok { text with value := text.value ++ renderedBytes pieces }
      else .error .renderLimitExceeded
  | [], text, _, hle => by
      simp only [BoundedText.pushAll, renderedBytes, List.flatMap_nil, List.append_nil,
        if_pos hle]
      rfl
  | piece :: rest, text, hlimit, hle => by
      have hcons : renderedBytes (piece :: rest) = piece.bytes ++ renderedBytes rest :=
        List.flatMap_cons
      rw [BoundedText.pushAll, List.foldlM_cons, piece.pushTo_eq hlimit, hcons,
        ← List.append_assoc]
      by_cases hfits : (text.value ++ piece.bytes).length ≤ text.limit
      · rw [if_pos hfits, except_bind_ok]
        exact BoundedText.pushAll_eq rest ⟨text.value ++ piece.bytes, text.limit⟩
          hlimit hfits
      · rw [if_neg hfits, if_neg]
        · rfl
        · intro hall
          rw [List.length_append] at hall
          omega

end Evidentrail
