import Mathlib.Data.List.Induction
import Evidentrail.Lib.Encoding

/-!
# Byte slices and big-endian integers

A file format writes fields one after the other and reads each of them
back at its own offset. `slice` is the reading side; its rules say that a
slice of a concatenation is a slice of one of the two parts, so that a
reader of a fixed layout finds every field by arithmetic on lengths.
-/

namespace Bytes

open Encoding

/-! ## Slices -/

/-- `bytes[offset..offset + n]`, as far as it exists. -/
def slice (bytes : List UInt8) (offset n : Nat) : List UInt8 :=
  (bytes.drop offset).take n

variable {a b c : List UInt8} {offset n : Nat}

theorem length_slice (h : offset + n ≤ a.length) : (slice a offset n).length = n := by
  rw [slice, List.length_take, List.length_drop]
  omega

/-- The first part is skipped. -/
@[simp] theorem slice_append_right (h : a.length ≤ offset) :
    slice (a ++ b) offset n = slice b (offset - a.length) n := by
  rw [slice, List.drop_append, List.drop_eq_nil_of_le h, List.nil_append, slice]

/-- The slice lies in the first part. -/
theorem slice_append_left (h : offset + n ≤ a.length) :
    slice (a ++ b) offset n = slice a offset n := by
  rw [slice, List.drop_append_of_le_length (by omega),
    List.take_append_of_le_length (by rw [List.length_drop]; omega), slice]

/-- The first part itself. -/
@[simp] theorem slice_append_self (h : a.length = n) : slice (a ++ b) 0 n = a := by
  subst h
  simp [slice]

@[simp] theorem slice_self (h : a.length = n) : slice a 0 n = a := by
  subst h
  simp [slice]

/-- A slice of a slice. -/
theorem slice_slice {m k : Nat} (h : m + k ≤ n) :
    slice (slice a offset n) m k = slice a (offset + m) k := by
  simp only [slice, List.drop_take, List.drop_drop, List.take_take]
  rw [Nat.min_eq_left (by omega)]

/-- Two neighbouring slices. -/
theorem slice_append_slice {m k : Nat} (h : offset + n = k) :
    slice a offset n ++ slice a k m = slice a offset (n + m) := by
  rw [← h, slice, slice, slice, ← List.drop_drop, List.take_add]

/-! ## Zero bytes -/

/-- `[0; n]`. -/
def zeros (n : Nat) : List UInt8 := List.replicate n 0

@[simp] theorem length_zeros : (zeros n).length = n := List.length_replicate

/-- `iter().all(|byte| *byte == 0)`. -/
def allZero (bytes : List UInt8) : Bool := bytes.all (· == 0)

@[simp] theorem allZero_zeros : allZero (zeros n) = true := by
  simp [allZero, zeros]

theorem allZero_iff : allZero a = true ↔ a = zeros a.length := by
  rw [allZero, List.all_eq_true, zeros, List.eq_replicate_iff]
  simp

/-! ## Big-endian integers -/

/-- `x.to_be_bytes()` of an unsigned integer of `width` bytes. -/
def beBytes (width x : Nat) : List UInt8 := (leBytes width x).reverse

/-- `from_be_bytes`. -/
def ofBe (bytes : List UInt8) : Nat := bytes.foldl (fun value byte => value * 256 + byte.toNat) 0

@[simp] theorem length_beBytes (width x : Nat) : (beBytes width x).length = width := by
  simp [beBytes]

theorem ofBe_beBytes {width x : Nat} (h : x < 256 ^ width) : ofBe (beBytes width x) = x := by
  induction width generalizing x with
  | zero =>
      rw [pow_zero] at h
      simp only [beBytes, leBytes, List.reverse_nil, ofBe, List.foldl_nil]
      omega
  | succ width ih =>
      have hhigh : x / 256 < 256 ^ width := by
        rw [pow_succ] at h
        omega
      have hlow : ofBe (beBytes (width + 1) x) = ofBe (beBytes width (x / 256)) * 256 +
          (UInt8.ofNat (x % 256)).toNat := by
        simp only [beBytes, leBytes, List.reverse_cons, ofBe, List.foldl_append, List.foldl_cons,
          List.foldl_nil]
      rw [hlow, ih hhigh, UInt8.toNat_ofNat']
      omega

theorem beBytes_inj {width x y : Nat} (hx : x < 256 ^ width) (hy : y < 256 ^ width)
    (h : beBytes width x = beBytes width y) : x = y := by
  rw [← ofBe_beBytes hx, ← ofBe_beBytes hy, h]

theorem ofBe_append (bytes : List UInt8) (byte : UInt8) :
    ofBe (bytes ++ [byte]) = ofBe bytes * 256 + byte.toNat := by
  simp [ofBe]

theorem ofBe_lt (bytes : List UInt8) : ofBe bytes < 256 ^ bytes.length := by
  induction bytes using List.reverseRecOn with
  | nil => decide
  | append_singleton bytes byte ih =>
      have hbyte := byte.toNat_lt
      rw [ofBe_append, List.length_append, List.length_singleton, pow_succ]
      omega

/-- Every byte string of the width is the encoding of its value. -/
theorem beBytes_ofBe (bytes : List UInt8) : beBytes bytes.length (ofBe bytes) = bytes := by
  induction bytes using List.reverseRecOn with
  | nil => rfl
  | append_singleton bytes byte ih =>
      have hbyte := byte.toNat_lt
      have hdiv : (ofBe bytes * 256 + byte.toNat) / 256 = ofBe bytes := by omega
      have hmod : (ofBe bytes * 256 + byte.toNat) % 256 = byte.toNat := by omega
      rw [ofBe_append, List.length_append, List.length_singleton, beBytes, leBytes,
        List.reverse_cons, hdiv, hmod, UInt8.ofNat_toNat]
      exact congrArg (· ++ [byte]) ih

/-- `to_be_bytes` of the machine integers. -/
def u16Be (x : UInt16) : List UInt8 := beBytes 2 x.toNat
def u32Be (x : UInt32) : List UInt8 := beBytes 4 x.toNat
def u64Be (x : UInt64) : List UInt8 := beBytes 8 x.toNat

@[simp] theorem length_u16Be (x : UInt16) : (u16Be x).length = 2 := length_beBytes _ _
@[simp] theorem length_u32Be (x : UInt32) : (u32Be x).length = 4 := length_beBytes _ _
@[simp] theorem length_u64Be (x : UInt64) : (u64Be x).length = 8 := length_beBytes _ _

/-- `from_be_bytes` of the machine integers. -/
def u16OfBe (bytes : List UInt8) : UInt16 := UInt16.ofNat (ofBe bytes)
def u32OfBe (bytes : List UInt8) : UInt32 := UInt32.ofNat (ofBe bytes)
def u64OfBe (bytes : List UInt8) : UInt64 := UInt64.ofNat (ofBe bytes)

@[simp] theorem u16OfBe_u16Be (x : UInt16) : u16OfBe (u16Be x) = x := by
  rw [u16OfBe, u16Be, ofBe_beBytes x.toNat_lt, UInt16.ofNat_toNat]

@[simp] theorem u32OfBe_u32Be (x : UInt32) : u32OfBe (u32Be x) = x := by
  rw [u32OfBe, u32Be, ofBe_beBytes x.toNat_lt, UInt32.ofNat_toNat]

@[simp] theorem u64OfBe_u64Be (x : UInt64) : u64OfBe (u64Be x) = x := by
  rw [u64OfBe, u64Be, ofBe_beBytes x.toNat_lt, UInt64.ofNat_toNat]

theorem u16Be_u16OfBe {bytes : List UInt8} (h : bytes.length = 2) :
    u16Be (u16OfBe bytes) = bytes := by
  have hlt := ofBe_lt bytes
  rw [h] at hlt
  have hvalue : ofBe bytes % 2 ^ 16 = ofBe bytes := Nat.mod_eq_of_lt hlt
  rw [u16Be, u16OfBe, UInt16.toNat_ofNat', hvalue, ← h, beBytes_ofBe]

/-- `read_u16`, `read_u32` and `read_u64` at an offset. -/
def readU16 (bytes : List UInt8) (offset : Nat) : UInt16 := u16OfBe (slice bytes offset 2)
def readU32 (bytes : List UInt8) (offset : Nat) : UInt32 := u32OfBe (slice bytes offset 4)
def readU64 (bytes : List UInt8) (offset : Nat) : UInt64 := u64OfBe (slice bytes offset 8)

/-! ## Two's complement -/

/-- `to_be_bytes` of an `i64`. -/
def i64Be (t : Int) : List UInt8 := beBytes 8 (t % 2 ^ 64).toNat

/-- `from_be_bytes` of an `i64`. -/
def i64OfBe (bytes : List UInt8) : Int :=
  if ofBe bytes < 2 ^ 63 then ofBe bytes else ofBe bytes - 2 ^ 64

/-- The values an `i64` can have. -/
def IsI64 (t : Int) : Prop := -2 ^ 63 ≤ t ∧ t < 2 ^ 63

@[simp] theorem length_i64Be (t : Int) : (i64Be t).length = 8 := length_beBytes _ _

theorem i64OfBe_i64Be {t : Int} (h : IsI64 t) : i64OfBe (i64Be t) = t := by
  obtain ⟨hlow, hhigh⟩ := h
  have hvalue : ofBe (i64Be t) = (t % 2 ^ 64).toNat := ofBe_beBytes (by omega)
  rw [i64OfBe, hvalue]
  split <;> omega

theorem i64Be_inj {t u : Int} (ht : IsI64 t) (hu : IsI64 u) (h : i64Be t = i64Be u) : t = u := by
  rw [← i64OfBe_i64Be ht, h, i64OfBe_i64Be hu]

theorem i64Be_i64OfBe {bytes : List UInt8} (h : bytes.length = 8) :
    i64Be (i64OfBe bytes) = bytes := by
  have hlt := ofBe_lt bytes
  rw [h] at hlt
  have hvalue : (i64OfBe bytes % 2 ^ 64).toNat = ofBe bytes := by
    unfold i64OfBe
    split <;> omega
  rw [i64Be, hvalue, ← h, beBytes_ofBe]

end Bytes
