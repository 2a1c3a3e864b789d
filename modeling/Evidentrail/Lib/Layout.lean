import Evidentrail.Lib.Bytes
import Evidentrail.Lib.Rust

/-!
# Fixed layouts

A format of fixed width is written field by field and read at offsets. `Laid`
says that fields stand one behind the other in a byte string; a byte string of
the right length in which they do is their concatenation and no other
(`eq_flatten_append_iff`). A decoder that checks every byte it does not keep
therefore accepts the encodings of values and nothing else, which is `Canonical`.

Lists of records of one width follow from the record (`mapM_chunks`).
-/

namespace Bytes

open Rust

/-! ## Checks -/

/-- A value that carries the outcome of its own check. -/
def ofChecked {ε β α : Type} (check : Except ε β) (build : (b : β) → check = .ok b → α) :
    Except ε α :=
  match check, build with
  | .ok b, build => .ok (build b rfl)
  | .error error, _ => .error error

theorem ofChecked_eq_ok {ε β α : Type} {check : Except ε β}
    {build : (b : β) → check = .ok b → α} {a : α} :
    ofChecked check build = .ok a ↔ ∃ b h, build b h = a := by
  cases check with
  | error error =>
      constructor
      · intro h
        cases h
      · rintro ⟨_, h, _⟩
        cases h
  | ok b =>
      constructor
      · intro h
        exact ⟨b, rfl, Except.ok.inj h⟩
      · rintro ⟨_, h, rfl⟩
        cases h
        rfl

/-! ## Fields one behind the other -/

/-- From `offset` on, `bytes` reads as these fields. -/
def Laid (bytes : List UInt8) : Nat → List (List UInt8) → Prop
  | _, [] => True
  | offset, field :: rest =>
      slice bytes offset field.length = field ∧ Laid bytes (offset + field.length) rest

section Layout

variable {bytes rest : List UInt8} {fields : List (List UInt8)} {offset n : Nat}

theorem slice_append_drop :
    slice bytes offset n ++ bytes.drop (offset + n) = bytes.drop offset := by
  rw [slice, ← List.drop_drop, List.take_append_drop]

theorem slice_take {k : Nat} (h : offset + n ≤ k) :
    slice (bytes.take k) offset n = slice bytes offset n := by
  rw [slice, slice, List.drop_take, List.take_take, Nat.min_eq_left (by omega)]

theorem Laid.flatten_append_drop (h : Laid bytes offset fields) :
    fields.flatten ++ bytes.drop (offset + fields.flatten.length) = bytes.drop offset := by
  induction fields generalizing offset with
  | nil => simp
  | cons field rest ih =>
      obtain ⟨hfield, hrest⟩ := h
      have hih := ih hrest
      rw [List.flatten_cons, List.length_append, List.append_assoc, ← Nat.add_assoc, hih]
      nth_rewrite 1 [← hfield]
      exact slice_append_drop

theorem laid_append (pre rest : List UInt8) :
    Laid (pre ++ (fields.flatten ++ rest)) pre.length fields := by
  induction fields generalizing pre with
  | nil => trivial
  | cons field others ih =>
      refine ⟨?_, ?_⟩
      · rw [slice_append_right le_rfl, Nat.sub_self, List.flatten_cons, List.append_assoc,
          slice_append_self rfl]
      · have hih := ih (pre ++ field)
        rw [List.length_append] at hih
        rw [List.flatten_cons]
        simpa only [List.append_assoc] using hih

/-- A byte string is these fields and a rest exactly if it reads as them and
the rest stands behind them. -/
theorem eq_flatten_append_iff {width : Nat} (hwidth : fields.flatten.length = width) :
    fields.flatten ++ rest = bytes ↔ Laid bytes 0 fields ∧ bytes.drop width = rest := by
  subst hwidth
  constructor
  · rintro rfl
    exact ⟨laid_append [] rest, List.drop_left⟩
  · rintro ⟨hlaid, rfl⟩
    have hall := hlaid.flatten_append_drop
    rwa [Nat.zero_add, List.drop_zero] at hall

theorem eq_flatten_iff {width : Nat} (hwidth : fields.flatten.length = width)
    (hlength : bytes.length = width) : fields.flatten = bytes ↔ Laid bytes 0 fields := by
  have hrest : bytes.drop width = [] := List.drop_eq_nil_of_le hlength.le
  have hiff : fields.flatten ++ [] = bytes ↔ Laid bytes 0 fields ∧ bytes.drop width = [] :=
    eq_flatten_append_iff hwidth
  rw [List.append_nil] at hiff
  exact hiff.trans (and_iff_left hrest)

end Layout

/-! ## Reading and writing one field -/

section Field

variable {bytes : List UInt8} {offset n : Nat}

theorem u32Be_u32OfBe {a : List UInt8} (h : a.length = 4) : u32Be (u32OfBe a) = a := by
  have hlt := ofBe_lt a
  rw [h] at hlt
  have hvalue : ofBe a % 2 ^ 32 = ofBe a := Nat.mod_eq_of_lt hlt
  rw [u32Be, u32OfBe, UInt32.toNat_ofNat', hvalue, ← h, beBytes_ofBe]

theorem u64Be_u64OfBe {a : List UInt8} (h : a.length = 8) : u64Be (u64OfBe a) = a := by
  have hlt := ofBe_lt a
  rw [h] at hlt
  have hvalue : ofBe a % 2 ^ 64 = ofBe a := Nat.mod_eq_of_lt hlt
  rw [u64Be, u64OfBe, UInt64.toNat_ofNat', hvalue, ← h, beBytes_ofBe]

theorem slice_eq_u16Be {x : UInt16} (h : offset + 2 ≤ bytes.length) :
    slice bytes offset 2 = u16Be x ↔ readU16 bytes offset = x := by
  constructor
  · intro hslice
    rw [readU16, hslice, u16OfBe_u16Be]
  · rintro rfl
    exact (u16Be_u16OfBe (length_slice h)).symm

theorem slice_eq_u32Be {x : UInt32} (h : offset + 4 ≤ bytes.length) :
    slice bytes offset 4 = u32Be x ↔ readU32 bytes offset = x := by
  constructor
  · intro hslice
    rw [readU32, hslice, u32OfBe_u32Be]
  · rintro rfl
    exact (u32Be_u32OfBe (length_slice h)).symm

theorem slice_eq_u64Be {x : UInt64} (h : offset + 8 ≤ bytes.length) :
    slice bytes offset 8 = u64Be x ↔ readU64 bytes offset = x := by
  constructor
  · intro hslice
    rw [readU64, hslice, u64OfBe_u64Be]
  · rintro rfl
    exact (u64Be_u64OfBe (length_slice h)).symm

theorem slice_eq_zeros (h : offset + n ≤ bytes.length) :
    slice bytes offset n = zeros n ↔ allZero (slice bytes offset n) = true := by
  rw [allZero_iff, length_slice h]

end Field

/-! ## Sixteen bytes of two's complement -/

/-- `to_be_bytes` of an `i128`. -/
def i128Be (t : Int) : List UInt8 := beBytes 16 (t % 2 ^ 128).toNat

/-- `from_be_bytes` of an `i128`. -/
def i128OfBe (bytes : List UInt8) : Int :=
  if ofBe bytes < 2 ^ 127 then ofBe bytes else ofBe bytes - 2 ^ 128

/-- The values an `i128` can have. -/
def IsI128 (t : Int) : Prop := -2 ^ 127 ≤ t ∧ t < 2 ^ 127

@[simp] theorem length_i128Be (t : Int) : (i128Be t).length = 16 := length_beBytes _ _

theorem i128OfBe_i128Be {t : Int} (h : IsI128 t) : i128OfBe (i128Be t) = t := by
  obtain ⟨hlow, hhigh⟩ := h
  have hvalue : ofBe (i128Be t) = (t % 2 ^ 128).toNat := ofBe_beBytes (by omega)
  rw [i128OfBe, hvalue]
  split <;> omega

theorem isI128_i128OfBe {bytes : List UInt8} (h : bytes.length = 16) : IsI128 (i128OfBe bytes) := by
  have hlt := ofBe_lt bytes
  rw [h] at hlt
  unfold i128OfBe IsI128
  split <;> omega

theorem i128Be_i128OfBe {bytes : List UInt8} (h : bytes.length = 16) :
    i128Be (i128OfBe bytes) = bytes := by
  have hlt := ofBe_lt bytes
  rw [h] at hlt
  have hvalue : (i128OfBe bytes % 2 ^ 128).toNat = ofBe bytes := by
    unfold i128OfBe
    split <;> omega
  rw [i128Be, hvalue, ← h, beBytes_ofBe]

/-! ## Records of one width -/

/-- `chunks_exact(width)` of `count` records. -/
def chunks (width : Nat) : Nat → List UInt8 → List (List UInt8)
  | 0, _ => []
  | count + 1, bytes => bytes.take width :: chunks width count (bytes.drop width)

/-- A decoder accepts what valid values encode to and nothing else. -/
def Canonical {ε α : Type} (encode : α → List UInt8) (decode : List UInt8 → Except ε α)
    (Valid : α → Prop) : Prop :=
  ∀ bytes x, decode bytes = .ok x ↔ encode x = bytes ∧ Valid x

/-- The same among byte strings of one length. -/
def CanonicalOn {ε α : Type} (width : Nat) (encode : α → List UInt8)
    (decode : List UInt8 → Except ε α) (Valid : α → Prop) : Prop :=
  ∀ bytes x, bytes.length = width → (decode bytes = .ok x ↔ encode x = bytes ∧ Valid x)

/-- Values that are built come back, and what is accepted is written back as it was. -/
def RoundTrips {ε α : Type} (encode : α → List UInt8) (decode : List UInt8 → Except ε α)
    (Built : α → Prop) : Prop :=
  (∀ x, Built x → decode (encode x) = .ok x) ∧ ∀ bytes x, decode bytes = .ok x → encode x = bytes

section Records

variable {ε α : Type} {encode : α → List UInt8} {decode : List UInt8 → Except ε α}
  {Valid : α → Prop} {width : Nat}

theorem Canonical.on (h : Canonical encode decode Valid) : CanonicalOn width encode decode Valid :=
  fun bytes x _ => h bytes x

theorem Canonical.roundTrips (h : Canonical encode decode Valid) {Built : α → Prop}
    (hbuilt : ∀ x, Built x → Valid x) : RoundTrips encode decode Built :=
  ⟨fun x hx => (h _ _).mpr ⟨rfl, hbuilt x hx⟩, fun bytes x hx => ((h bytes x).mp hx).1⟩

theorem length_flatMap_encode (hwidth : ∀ x, (encode x).length = width) (xs : List α) :
    (xs.flatMap encode).length = xs.length * width := by
  induction xs with
  | nil => simp
  | cons x rest ih =>
      rw [List.flatMap_cons, List.length_append, hwidth, ih, List.length_cons]
      ring

theorem chunks_flatMap (hwidth : ∀ x, (encode x).length = width) (xs : List α) :
    chunks width xs.length (xs.flatMap encode) = xs.map encode := by
  induction xs with
  | nil => rfl
  | cons x rest ih =>
      rw [List.flatMap_cons, List.length_cons, chunks, List.take_left' (hwidth x),
        List.drop_left' (hwidth x), ih, List.map_cons]

/-- Records that are read with their positions. -/
def decodeFrom (decode : Nat → List UInt8 → Except ε α) :
    Nat → List (List UInt8) → Except ε (List α)
  | _, [] => .ok []
  | position, record :: rest => do
      let x ← decode position record
      let others ← decodeFrom decode (position + 1) rest
      .ok (x :: others)

/-- What holds of each value and its position. -/
def Numbered (Valid : Nat → α → Prop) : Nat → List α → Prop
  | _, [] => True
  | position, x :: rest => Valid position x ∧ Numbered Valid (position + 1) rest

/-- Records one behind the other decode to the values they encode. -/
theorem decodeFrom_chunks {decode : Nat → List UInt8 → Except ε α} {Valid : Nat → α → Prop}
    (hcodec : ∀ position, CanonicalOn width encode (decode position) (Valid position))
    (hwidth : ∀ x, (encode x).length = width) {position count : Nat} {bytes : List UInt8}
    (hlength : bytes.length = count * width) {xs : List α} :
    decodeFrom decode position (chunks width count bytes) = .ok xs ↔
      xs.flatMap encode = bytes ∧ xs.length = count ∧ Numbered Valid position xs := by
  induction count generalizing position bytes xs with
  | zero =>
      obtain rfl : bytes = [] := List.eq_nil_of_length_eq_zero (by rw [hlength, Nat.zero_mul])
      constructor
      · intro h
        cases h
        exact ⟨rfl, rfl, trivial⟩
      · rintro ⟨_, hnil, _⟩
        rw [List.eq_nil_of_length_eq_zero hnil]
        rfl
  | succ count ih =>
      have hlong : (count + 1) * width = count * width + width := by ring
      have hdrop : (bytes.drop width).length = count * width := by
        rw [List.length_drop, hlength]
        omega
      have htake : (bytes.take width).length = width := by
        rw [List.length_take, hlength]
        omega
      simp only [chunks, decodeFrom, except_bind_eq_ok, Except.ok.injEq]
      constructor
      · rintro ⟨x, hx, others, hothers, rfl⟩
        obtain ⟨hhead, hvalid⟩ := (hcodec position _ _ htake).mp hx
        obtain ⟨htail, hcount, hall⟩ := (ih hdrop).mp hothers
        refine ⟨?_, by rw [List.length_cons, hcount], hvalid, hall⟩
        rw [List.flatMap_cons, hhead, htail, List.take_append_drop]
      · rintro ⟨hflat, hcount, hall⟩
        cases xs with
        | nil => cases hcount
        | cons x others =>
            rw [List.flatMap_cons] at hflat
            have hfirst : encode x = bytes.take width := by
              rw [← hflat, List.take_left' (hwidth x)]
            have hrest : others.flatMap encode = bytes.drop width := by
              rw [← hflat, List.drop_left' (hwidth x)]
            exact ⟨x, (hcodec position _ _ htake).mpr ⟨hfirst, hall.1⟩, others,
              (ih hdrop).mpr ⟨hrest, Nat.succ.inj hcount, hall.2⟩, rfl⟩

theorem decodeFrom_const (records : List (List UInt8)) (position : Nat) :
    decodeFrom (fun _ => decode) position records = records.mapM decode := by
  induction records generalizing position with
  | nil => rfl
  | cons record rest ih =>
      rw [List.mapM_cons, decodeFrom, ih]
      rfl

theorem numbered_const {xs : List α} {position : Nat} :
    Numbered (fun _ => Valid) position xs ↔ ∀ x ∈ xs, Valid x := by
  induction xs generalizing position with
  | nil => simp [Numbered]
  | cons x rest ih => rw [Numbered, ih, List.forall_mem_cons]

theorem mapM_chunks (hcodec : CanonicalOn width encode decode Valid)
    (hwidth : ∀ x, (encode x).length = width) {count : Nat} {bytes : List UInt8}
    (hlength : bytes.length = count * width) {xs : List α} :
    (chunks width count bytes).mapM decode = .ok xs ↔
      xs.flatMap encode = bytes ∧ xs.length = count ∧ ∀ x ∈ xs, Valid x := by
  rw [← decodeFrom_const _ 0, decodeFrom_chunks (fun _ => hcodec) hwidth hlength, numbered_const]

theorem length_chunks (width count : Nat) (bytes : List UInt8) :
    (chunks width count bytes).length = count := by
  induction count generalizing bytes with
  | zero => rfl
  | succ count ih => rw [chunks, List.length_cons, ih]

theorem length_mapM {β : Type} {f : β → Except ε α} {xs : List β} {ys : List α}
    (h : xs.mapM f = .ok ys) : ys.length = xs.length := by
  induction xs generalizing ys with
  | nil =>
      cases h
      rfl
  | cons x rest ih =>
      rw [List.mapM_cons] at h
      obtain ⟨_, _, h⟩ := except_bind_eq_ok.mp h
      obtain ⟨others, hothers, h⟩ := except_bind_eq_ok.mp h
      cases h
      rw [List.length_cons, List.length_cons, ih hothers]

theorem length_of_mapM_chunks {count : Nat} {bytes : List UInt8} {xs : List α}
    (h : (chunks width count bytes).mapM decode = .ok xs) : xs.length = count := by
  rw [length_mapM h, length_chunks]

/-- A byte string is a header and the records of these values exactly if it
reads as the header and the records decode to the values. -/
theorem eq_header_records_iff (hcodec : CanonicalOn width encode decode Valid)
    (hwidth : ∀ x, (encode x).length = width) {header : List (List UInt8)} {start count : Nat}
    (hheader : header.flatten.length = start) {bytes : List UInt8}
    (hlength : bytes.length = start + count * width) {xs : List α} :
    header.flatten ++ xs.flatMap encode = bytes ∧ xs.length = count ∧ (∀ x ∈ xs, Valid x) ↔
      Laid bytes 0 header ∧ (chunks width count (bytes.drop start)).mapM decode = .ok xs := by
  have hrest : (bytes.drop start).length = count * width := by
    rw [List.length_drop, hlength, Nat.add_sub_cancel_left]
  rw [eq_flatten_append_iff hheader, mapM_chunks hcodec hwidth hrest,
    eq_comm (a := bytes.drop start), and_assoc]

/-- Valid values are told apart by their records. -/
theorem flatMap_encode_inj (hcodec : CanonicalOn width encode decode Valid)
    (hwidth : ∀ x, (encode x).length = width) {xs ys : List α} (hxs : ∀ x ∈ xs, Valid x)
    (hys : ∀ y ∈ ys, Valid y) (hcount : xs.length = ys.length)
    (h : xs.flatMap encode = ys.flatMap encode) : xs = ys := by
  have hlength := length_flatMap_encode hwidth xs
  have hfirst := (mapM_chunks hcodec hwidth hlength).mpr ⟨rfl, rfl, hxs⟩
  have hsecond := (mapM_chunks hcodec hwidth hlength).mpr ⟨h.symm, hcount.symm, hys⟩
  exact Except.ok.inj (hfirst.symm.trans hsecond)

/-- Records that are only read. -/
theorem map_chunks {read : List UInt8 → α}
    (hread : ∀ bytes x, bytes.length = width → (read bytes = x ↔ encode x = bytes))
    (hwidth : ∀ x, (encode x).length = width) {count : Nat} {bytes : List UInt8}
    (hlength : bytes.length = count * width) {xs : List α} :
    (chunks width count bytes).map read = xs ↔ xs.flatMap encode = bytes ∧ xs.length = count := by
  have hcodec : CanonicalOn width encode (fun record => (.ok (read record) : Except Empty α))
      fun _ => True := by
    intro record x hrecord
    rw [Except.ok.injEq, hread record x hrecord, and_true]
  have hmap : (chunks width count bytes).mapM
      (fun record => (.ok (read record) : Except Empty α)) = .ok xs ↔
        xs.flatMap encode = bytes ∧ xs.length = count ∧ ∀ x ∈ xs, True :=
    mapM_chunks hcodec hwidth hlength
  rw [show (chunks width count bytes).mapM (fun record => (.ok (read record) : Except Empty α)) =
    .ok ((chunks width count bytes).map read) from List.mapM_pure] at hmap
  rw [Except.ok.injEq] at hmap
  simpa using hmap

end Records

end Bytes
