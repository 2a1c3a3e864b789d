import Evidentrail.Lib.Layout

/-!
# Images

A buffer of zeros in which fields are written at their offsets. Fields that are
written in the order of their offsets and do not overlap end up where they
belong, with zeros in the gaps (`image`), and nothing outside the buffer
changes (`writeAll_image`).
-/

namespace Bytes

/-! ## Writing -/

/-- `bytes[offset..offset + field.len()].copy_from_slice(field)`. -/
def writeAt (offset : Nat) (field bytes : List UInt8) : Option (List UInt8) :=
  if offset + field.length ≤ bytes.length then
    some (bytes.take offset ++ (field ++ bytes.drop (offset + field.length)))
  else none

/-- Fields at offsets from a base; a field that cannot be made ends it. -/
def writeAll (base : Nat) : List (Nat × Option (List UInt8)) → List UInt8 → Option (List UInt8)
  | [], bytes => some bytes
  | (offset, field) :: rest, bytes => do
      let field ← field
      let bytes ← writeAt (base + offset) field bytes
      writeAll base rest bytes

/-- `to_be_bytes` of a value that has to fit the width. -/
def beField (width value : Nat) : Option (List UInt8) :=
  if value < 256 ^ width then some (beBytes width value) else none

theorem beField_of_lt {width value : Nat} (h : value < 256 ^ width) :
    beField width value = some (beBytes width value) :=
  if_pos h

/-! ## What is written -/

/-- The bytes between two offsets, with zeros where no field lies. -/
def image (stop : Nat) : (start : Nat) → List (Nat × List UInt8) → List UInt8
  | start, [] => zeros (stop - start)
  | start, (offset, field) :: rest =>
      zeros (offset - start) ++ (field ++ image stop (offset + field.length) rest)

/-- The fields lie between the offsets, one behind the other. -/
def InImage (stop : Nat) : (start : Nat) → List (Nat × List UInt8) → Prop
  | start, [] => start ≤ stop
  | start, (offset, field) :: rest =>
      start ≤ offset ∧ InImage stop (offset + field.length) rest

theorem InImage.le {stop start : Nat} {fields : List (Nat × List UInt8)}
    (h : InImage stop start fields) : start ≤ stop := by
  induction fields generalizing start with
  | nil => exact h
  | cons field rest ih =>
      have hrest := ih h.2
      have hstart := h.1
      omega

theorem length_image {stop start : Nat} {fields : List (Nat × List UInt8)}
    (h : InImage stop start fields) : (image stop start fields).length = stop - start := by
  induction fields generalizing start with
  | nil => exact length_zeros
  | cons field rest ih =>
      have hstart := h.1
      have hrest := InImage.le h.2
      rw [image, List.length_append, List.length_append, length_zeros, ih h.2]
      omega

theorem writeAt_zeros {pre field post : List UInt8} {gap n : Nat} (h : gap + field.length ≤ n) :
    writeAt (pre.length + gap) field (pre ++ (zeros n ++ post)) =
      some ((pre ++ (zeros gap ++ field)) ++ (zeros (n - gap - field.length) ++ post)) := by
  have hsplit : zeros n = zeros gap ++ (zeros field.length ++ zeros (n - gap - field.length)) := by
    rw [zeros, zeros, zeros, zeros, List.replicate_append_replicate,
      List.replicate_append_replicate]
    congr 1
    omega
  have hfront : (pre ++ zeros gap).length = pre.length + gap := by simp
  have hback : (pre ++ zeros gap ++ zeros field.length).length =
      pre.length + gap + field.length := by simp [Nat.add_assoc]
  rw [writeAt, if_pos (by simp; omega), hsplit]
  simp only [← List.append_assoc]
  rw [← hfront, List.append_assoc (pre ++ zeros gap), List.append_assoc (pre ++ zeros gap),
    List.take_left, ← List.append_assoc (pre ++ zeros gap), ← List.append_assoc (pre ++ zeros gap),
    hfront, ← hback, List.append_assoc (pre ++ zeros gap ++ zeros field.length), List.drop_left]
  simp only [List.append_assoc]

/-- Fields written into zeros, in their order. -/
theorem writeAll_image {base start stop : Nat} {fields : List (Nat × List UInt8)}
    {pre post : List UInt8} (h : InImage stop start fields) (hpre : pre.length = base + start) :
    writeAll base (fields.map fun field => (field.1, some field.2))
      (pre ++ (zeros (stop - start) ++ post)) =
        some (pre ++ (image stop start fields ++ post)) := by
  induction fields generalizing start pre with
  | nil => rfl
  | cons field rest ih =>
      obtain ⟨offset, field⟩ := field
      obtain ⟨hstart, hrest⟩ := h
      have hroom := InImage.le hrest
      have hoffset : base + offset = pre.length + (offset - start) := by omega
      have hremain : stop - start - (offset - start) - field.length =
          stop - (offset + field.length) := by omega
      have hfront : (pre ++ (zeros (offset - start) ++ field)).length =
          base + (offset + field.length) := by
        simp only [List.length_append, length_zeros]
        omega
      have hwritten := @writeAt_zeros pre field post (offset - start) (stop - start) (by omega)
      rw [← hoffset, hremain] at hwritten
      simp only [List.map_cons, writeAll, Option.bind_eq_bind, Option.bind_some, hwritten]
      rw [ih hrest hfront, image]
      simp only [List.append_assoc]

/-! ## Reading back -/

section Reading

variable {bytes x y : List UInt8} {offset k m : Nat}

/-- A slice in two parts. -/
theorem slice_split (h : slice bytes offset (k + m) = x ++ y) (hx : x.length = k) :
    slice bytes offset k = x ∧ slice bytes (offset + k) m = y := by
  have hlength := congrArg List.length h
  rw [slice, List.length_take, List.length_append] at hlength
  have hfirst : slice (slice bytes offset (k + m)) 0 k = slice bytes offset k := by
    rw [slice_slice (by omega), Nat.add_zero]
  have hsecond : slice (slice bytes offset (k + m)) k m = slice bytes (offset + k) m :=
    slice_slice (by omega)
  rw [← hfirst, ← hsecond, h, slice_append_self hx, slice_append_right hx.le, hx, Nat.sub_self]
  exact ⟨rfl, List.take_of_length_le (by rw [List.drop_zero]; omega)⟩

/-- Fields that a slice is made of are laid there. -/
theorem laid_of_slice : ∀ {fields : List (List UInt8)} {offset : Nat},
    slice bytes offset fields.flatten.length = fields.flatten → Laid bytes offset fields
  | [], _, _ => trivial
  | field :: rest, offset, h => by
      rw [List.flatten_cons, List.length_append] at h
      obtain ⟨hfield, hrest⟩ := slice_split h rfl
      exact ⟨hfield, laid_of_slice hrest⟩

theorem laid_append_iff {front back : List (List UInt8)} :
    Laid bytes offset (front ++ back) ↔
      Laid bytes offset front ∧ Laid bytes (offset + front.flatten.length) back := by
  induction front generalizing offset with
  | nil => simp [Laid]
  | cons field rest ih =>
      rw [List.cons_append, Laid, Laid, ih, List.flatten_cons, List.length_append, and_assoc,
        Nat.add_assoc]

/-- Records of one width are laid at multiples of it. -/
theorem Laid.record {α : Type*} {encode : α → List UInt8} {width : Nat}
    (hwidth : ∀ a, (encode a).length = width) : ∀ {records : List α} {offset i : Nat} {a : α},
    Laid bytes offset (records.map encode) → records[i]? = some a →
      slice bytes (offset + i * width) width = encode a
  | first :: rest, offset, 0, a, h, hget => by
      obtain rfl := Option.some.inj hget
      rw [Nat.zero_mul, Nat.add_zero, ← hwidth first]
      exact h.1
  | first :: rest, offset, i + 1, a, h, hget => by
      rw [← Laid.record hwidth h.2 hget, hwidth, Nat.add_mul, Nat.one_mul]
      congr 1
      omega

/-! ## Tiles -/

/-- Ranges that follow each other from one offset to another, without a gap and
without an overlap. -/
def Tiles (stop : Nat) : (start : Nat) → List (Nat × Nat) → Prop
  | start, [] => start = stop
  | start, (offset, length) :: rest => offset = start ∧ Tiles stop (offset + length) rest

/-- The ranges of fields one behind the other. -/
def ranges : (offset : Nat) → List (List UInt8) → List (Nat × Nat)
  | _, [] => []
  | offset, field :: rest => (offset, field.length) :: ranges (offset + field.length) rest

theorem tiles_ranges (fields : List (List UInt8)) (offset : Nat) :
    Tiles (offset + fields.flatten.length) offset (ranges offset fields) := by
  induction fields generalizing offset with
  | nil => rfl
  | cons field rest ih =>
      rw [List.flatten_cons, List.length_append, ← Nat.add_assoc]
      exact ⟨rfl, ih _⟩

theorem Laid.map_ranges : ∀ {fields : List (List UInt8)} {offset : Nat},
    Laid bytes offset fields →
      (ranges offset fields).map (fun range => slice bytes range.1 range.2) = fields
  | [], _, _ => rfl
  | field :: rest, offset, h => by rw [ranges, List.map_cons, h.1, Laid.map_ranges h.2]

end Reading

end Bytes
