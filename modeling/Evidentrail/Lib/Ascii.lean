import Mathlib.Data.List.Basic

/-!
# ASCII bytes

The `is_ascii_*` classes of `u8` and its two changes of case. Case is forgotten by
`toAsciiLowercase`; a class that both cases belong to does not see it.
-/

namespace Ascii

def isAsciiWhitespace (byte : UInt8) : Bool :=
  byte = 32 ∨ byte = 9 ∨ byte = 10 ∨ byte = 12 ∨ byte = 13

def isAsciiDigit (byte : UInt8) : Bool :=
  48 ≤ byte ∧ byte ≤ 57

def isAsciiUppercase (byte : UInt8) : Bool :=
  65 ≤ byte ∧ byte ≤ 90

def isAsciiLowercase (byte : UInt8) : Bool :=
  97 ≤ byte ∧ byte ≤ 122

def isAsciiAlphanumeric (byte : UInt8) : Bool :=
  isAsciiDigit byte || isAsciiUppercase byte || isAsciiLowercase byte

def isAsciiHexdigit (byte : UInt8) : Bool :=
  isAsciiDigit byte || (65 ≤ byte && byte ≤ 70) || (97 ≤ byte && byte ≤ 102)

def toAsciiLowercase (byte : UInt8) : UInt8 :=
  if isAsciiUppercase byte then byte + 32 else byte

def toAsciiUppercase (byte : UInt8) : UInt8 :=
  if isAsciiLowercase byte then byte - 32 else byte

/-- A fact about every byte, checked byte by byte. -/
theorem forall_byte {P : UInt8 → Prop} (h : ∀ n < 256, P (UInt8.ofNat n)) (b : UInt8) : P b := by
  have hb := h b.toNat b.toNat_lt
  rwa [UInt8.ofNat_toNat] at hb

theorem case_table (b : UInt8) :
    toAsciiLowercase (toAsciiLowercase b) = toAsciiLowercase b ∧
      toAsciiLowercase (toAsciiUppercase b) = toAsciiLowercase b ∧
      toAsciiUppercase (toAsciiLowercase b) = toAsciiUppercase b := by
  refine forall_byte (P := fun b => toAsciiLowercase (toAsciiLowercase b) = toAsciiLowercase b ∧
    toAsciiLowercase (toAsciiUppercase b) = toAsciiLowercase b ∧
    toAsciiUppercase (toAsciiLowercase b) = toAsciiUppercase b) ?_ b
  decide +kernel

@[simp] theorem toAsciiLowercase_idem (b : UInt8) :
    toAsciiLowercase (toAsciiLowercase b) = toAsciiLowercase b :=
  (case_table b).1

@[simp] theorem toAsciiLowercase_toAsciiUppercase (b : UInt8) :
    toAsciiLowercase (toAsciiUppercase b) = toAsciiLowercase b :=
  (case_table b).2.1

@[simp] theorem toAsciiUppercase_toAsciiLowercase (b : UInt8) :
    toAsciiUppercase (toAsciiLowercase b) = toAsciiUppercase b :=
  (case_table b).2.2

end Ascii
