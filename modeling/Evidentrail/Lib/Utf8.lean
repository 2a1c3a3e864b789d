import Evidentrail.Lib.Ascii

/-!
# UTF-8

The bytes of a string, and the strings that some bytes are. A byte below 128 is a
character of its own, so valid bytes can be cut there (`Valid.cut`); hence a scanner
that only replaces ASCII by ASCII, and copies the rest byte by byte, keeps them valid
(`Rewrites.valid`).
-/

namespace Utf8

/-- `as_bytes`. -/
def asBytes (s : String) : List UInt8 := s.toByteArray.data.toList

/-- `String::from_utf8`, without its error. -/
def fromUtf8 (bytes : List UInt8) : Option String := String.fromUTF8? bytes.toByteArray

/-- The bytes of some characters. -/
def Valid (bytes : List UInt8) : Prop :=
  ∃ chars : List Char, bytes = chars.flatMap String.utf8EncodeChar

abbrev IsAscii (byte : UInt8) : Prop := byte < 128

theorem toByteArray_asBytes (s : String) : (asBytes s).toByteArray = s.toByteArray := by
  refine ByteArray.ext ?_
  rw [List.data_toByteArray, asBytes, Array.toArray_toList]

theorem asBytes_inj {s t : String} : asBytes s = asBytes t ↔ s = t := by
  rw [← List.toByteArray_inj, toByteArray_asBytes, toByteArray_asBytes, String.toByteArray_inj]

@[simp] theorem asBytes_append (s t : String) : asBytes (s ++ t) = asBytes s ++ asBytes t := by
  rw [← List.toByteArray_inj, List.toByteArray_append, toByteArray_asBytes, toByteArray_asBytes,
    toByteArray_asBytes, String.toByteArray_append]

theorem valid_asBytes (s : String) : Valid (asBytes s) := by
  obtain ⟨chars, hchars⟩ := s.isValidUTF8
  refine ⟨chars, ?_⟩
  rw [← List.toByteArray_inj, toByteArray_asBytes, hchars, List.utf8Encode]

/-- Valid bytes are those of a string. -/
theorem Valid.exists_string {bytes : List UInt8} (h : Valid bytes) : ∃ s, asBytes s = bytes := by
  obtain ⟨chars, rfl⟩ := h
  refine ⟨String.ofList chars, ?_⟩
  rw [← List.toByteArray_inj, toByteArray_asBytes, String.toByteArray_ofList, List.utf8Encode]

theorem fromUtf8_asBytes (s : String) : fromUtf8 (asBytes s) = some s := by
  rw [fromUtf8, toByteArray_asBytes, String.fromUTF8?, dif_pos s.isValidUTF8]
  rfl

theorem Valid.append {a b : List UInt8} (ha : Valid a) (hb : Valid b) : Valid (a ++ b) := by
  obtain ⟨chars, rfl⟩ := ha
  obtain ⟨chars', rfl⟩ := hb
  exact ⟨chars ++ chars', List.flatMap_append.symm⟩

/-! ## ASCII -/

/-- An ASCII byte is never part of a longer character. -/
theorem utf8EncodeChar_of_mem {c : Char} {byte : UInt8} (hbyte : IsAscii byte) :
    byte ∈ String.utf8EncodeChar c → String.utf8EncodeChar c = [byte] := by
  have hhigh : ∀ n, 128 ≤ n → n < 256 → byte ≠ UInt8.ofNat n := by
    rintro n hn hlt rfl
    rw [IsAscii, UInt8.lt_iff_toNat_lt, UInt8.toNat_ofNat_of_lt' hlt] at hbyte
    exact absurd hbyte (Nat.not_lt.mpr hn)
  fun_cases String.utf8EncodeChar
  case case1 => exact fun hmem => by rw [List.mem_singleton.mp hmem]
  all_goals
    -- every byte of a longer character is 128 at least
    simp only [List.mem_cons, List.not_mem_nil, or_false]
    intro hmem
    exfalso
    revert hmem
    simp only [imp_false, not_or]
  case case2 => exact ⟨hhigh _ (by omega) (by omega), hhigh _ (by omega) (by omega)⟩
  case case3 =>
      exact ⟨hhigh _ (by omega) (by omega), hhigh _ (by omega) (by omega),
        hhigh _ (by omega) (by omega)⟩
  case case4 =>
      exact ⟨hhigh _ (by omega) (by omega), hhigh _ (by omega) (by omega),
        hhigh _ (by omega) (by omega), hhigh _ (by omega) (by omega)⟩

/-- Valid bytes are valid on either side of an ASCII byte. -/
theorem Valid.cut {f rest : List UInt8} {byte : UInt8} (hbyte : IsAscii byte)
    (h : Valid (f ++ byte :: rest)) : Valid f ∧ Valid rest := by
  obtain ⟨chars, hchars⟩ := h
  induction chars generalizing f with
  | nil => exact absurd hchars (by simp)
  | cons c chars ih =>
      rw [List.flatMap_cons] at hchars
      obtain ⟨mid, hfront, hrest⟩ | ⟨mid, hc, hrest⟩ := List.append_eq_append_iff.mp hchars
      · -- the cut may lie inside the encoding of `c`
        cases mid with
        | nil =>
            rw [List.append_nil] at hfront
            obtain ⟨hnil, htail⟩ := @ih [] hrest
            exact ⟨⟨[c], by simp [hfront]⟩, htail⟩
        | cons b mid =>
            rw [List.cons_append, List.cons.injEq] at hrest
            obtain ⟨rfl, hrest⟩ := hrest
            have hone : String.utf8EncodeChar c = [byte] :=
              utf8EncodeChar_of_mem hbyte (hfront ▸ by simp)
            rw [hone] at hfront
            obtain ⟨rfl, hmid⟩ : f = [] ∧ mid = [] := by
              have hlength := congrArg List.length hfront
              simp only [List.length_append, List.length_cons, List.length_nil] at hlength
              exact ⟨List.eq_nil_of_length_eq_zero (by omega),
                List.eq_nil_of_length_eq_zero (by omega)⟩
            exact ⟨⟨[], rfl⟩, ⟨chars, by rw [hrest, hmid, List.nil_append]⟩⟩
      · obtain ⟨hmid, htail⟩ := ih hrest.symm
        exact ⟨hc ▸ Valid.append ⟨[c], by simp⟩ hmid, htail⟩

theorem valid_of_ascii {bytes : List UInt8} (h : ∀ byte ∈ bytes, IsAscii byte) : Valid bytes := by
  induction bytes with
  | nil => exact ⟨[], rfl⟩
  | cons byte bytes ih =>
      rw [List.forall_mem_cons] at h
      refine Valid.append (a := [byte]) ⟨[Char.ofNat byte.toNat], ?_⟩ (ih h.2)
      rw [List.flatMap_singleton]
      have hone := Ascii.forall_byte (P := fun b => IsAscii b →
        String.utf8EncodeChar (Char.ofNat b.toNat) = [b]) (by decide +kernel) byte
      exact (hone h.1).symm

/-- ASCII can be taken from the front. -/
theorem Valid.of_append {segment rest : List UInt8} (hsegment : ∀ byte ∈ segment, IsAscii byte)
    (h : Valid (segment ++ rest)) : Valid rest := by
  induction segment with
  | nil => exact h
  | cons byte segment ih =>
      rw [List.forall_mem_cons] at hsegment
      exact ih hsegment.2 (Valid.cut (f := []) hsegment.1 h).2

/-! ## Rewriting ASCII -/

/-- Bytes are copied, or some ASCII is replaced by other ASCII. -/
inductive Rewrites : List UInt8 → List UInt8 → Prop where
  | nil : Rewrites [] []
  | copy {s t} (byte : UInt8) : Rewrites s t → Rewrites (byte :: s) (byte :: t)
  | replace {s t} {byte : UInt8} {segment marker : List UInt8} :
      (∀ b ∈ byte :: segment, IsAscii b) → (∀ b ∈ marker, IsAscii b) → Rewrites s t →
        Rewrites (byte :: segment ++ s) (marker ++ t)

theorem Rewrites.copyAll {s t : List UInt8} (h : Rewrites s t) :
    ∀ u : List UInt8, Rewrites (u ++ s) (u ++ t)
  | [] => h
  | byte :: u => .copy byte (h.copyAll u)

theorem Rewrites.replaceAll {s t segment marker : List UInt8} (h : Rewrites s t)
    (hne : segment ≠ []) (hsegment : ∀ b ∈ segment, IsAscii b)
    (hmarker : ∀ b ∈ marker, IsAscii b) : Rewrites (segment ++ s) (marker ++ t) := by
  cases segment with
  | nil => exact absurd rfl hne
  | cons byte segment => exact .replace hsegment hmarker h

theorem Rewrites.valid_append {s t : List UInt8} (h : Rewrites s t) :
    ∀ {f : List UInt8}, Valid (f ++ s) → Valid (f ++ t) := by
  induction h with
  | nil => exact id
  | copy byte _ ih =>
      intro front hvalid
      rw [List.append_cons] at hvalid ⊢
      exact ih hvalid
  | replace hsegment hmarker _ ih =>
      intro front hvalid
      rw [List.forall_mem_cons] at hsegment
      obtain ⟨hfront, hrest⟩ := hvalid.cut hsegment.1
      exact hfront.append ((valid_of_ascii hmarker).append
        (ih (f := []) (hrest.of_append hsegment.2)))

/-- Such a rewriting keeps bytes valid. -/
theorem Rewrites.valid {s t : List UInt8} (h : Rewrites s t) (hvalid : Valid s) : Valid t :=
  h.valid_append (f := []) hvalid

end Utf8
