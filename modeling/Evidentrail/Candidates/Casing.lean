import Evidentrail.Candidates.Query
import Evidentrail.Lib.Split
import Mathlib.Tactic.MkIffOfInductiveProp

/-!
# The case of a question

Preprocessing reads small letters, but the tokenizer decides on the bytes as they
were written whether a component is a canonical UUID, and it knows the variant
digits `a` and `b` in small letters only. A UUID with a capital variant is visited
and cut at its hyphens as well. So the tokens of two spellings of a question differ
by such pieces, which stand right behind their UUID (`Widens`).
-/

namespace Evidentrail

open Rust Std Ascii Visit Slice Split

/-! ## Spellings -/

/-- One question in two spellings: they differ in the case of letters. -/
def CaseVariant (question question' : List UInt8) : Prop :=
  question.map toAsciiLowercase = question'.map toAsciiLowercase

instance (question question' : List UInt8) : Decidable (CaseVariant question question') :=
  inferInstanceAs (Decidable (_ = _))

/-- A change of case. -/
def KeepsLetters (f : UInt8 → UInt8) : Prop := ∀ b, toAsciiLowercase (f b) = toAsciiLowercase b

theorem keepsLetters_lower : KeepsLetters toAsciiLowercase := toAsciiLowercase_idem

theorem keepsLetters_upper : KeepsLetters toAsciiUppercase := toAsciiLowercase_toAsciiUppercase

theorem keepsLetters_id : KeepsLetters id := fun _ => rfl

/-- The form of a canonical UUID does not get lost from `g b` to `f b`. -/
@[mk_iff]
structure KeepsUuidForm (f g : UInt8 → UInt8) (b : UInt8) : Prop where
  dash : g b = hyphen → f b = hyphen
  hexdigit : isAsciiHexdigit (g b) = true → isAsciiHexdigit (f b) = true
  version : (49 ≤ g b && g b ≤ 56) = true → (49 ≤ f b && f b ≤ 56) = true
  variant : (g b = 56 || g b = 57 || g b = 97 || g b = 98) = true →
    (f b = 56 || f b = 57 || f b = 97 || f b = 98) = true

instance (f g : UInt8 → UInt8) (b : UInt8) : Decidable (KeepsUuidForm f g b) :=
  decidable_of_iff' _ (keepsUuidForm_iff f g b)

/-- What the classes of bytes have to do with case, byte by byte. -/
@[mk_iff]
structure CasingRow (b : UInt8) : Prop where
  token : isTokenByte (toAsciiLowercase b) = isTokenByte b
  dotOrHyphen : isDotOrHyphen (toAsciiLowercase b) = isDotOrHyphen b
  slash : (toAsciiLowercase b == slash) = (b == slash)
  hexdigit : isAsciiHexdigit b = true → isDotOrHyphen b = false
  lower : KeepsUuidForm toAsciiLowercase id b
  upper : KeepsUuidForm id toAsciiUppercase b

instance (b : UInt8) : Decidable (CasingRow b) := decidable_of_iff' _ (casingRow_iff b)

theorem casingRow (b : UInt8) : CasingRow b := by
  refine forall_byte (P := CasingRow) ?_ b
  decide +kernel

theorem isTokenByte_lower (b : UInt8) : isTokenByte (toAsciiLowercase b) = isTokenByte b :=
  (casingRow b).token

theorem isDotOrHyphen_lower (b : UInt8) :
    isDotOrHyphen (toAsciiLowercase b) = isDotOrHyphen b :=
  (casingRow b).dotOrHyphen

theorem eq_slash_lower (b : UInt8) : (toAsciiLowercase b == slash) = (b == slash) :=
  (casingRow b).slash

section Respelled

variable {f : UInt8 → UInt8} (hf : KeepsLetters f)

include hf

theorem canonicalizeAscii_map (token : List UInt8) :
    canonicalizeAscii (token.map f) = canonicalizeAscii token := by
  rw [canonicalizeAscii, canonicalizeAscii, List.map_map]
  exact List.map_congr_left fun b _ => hf b

/-- A class that does not see case does not see a change of it. -/
theorem class_map {p : UInt8 → Bool} (hp : ∀ b, p (toAsciiLowercase b) = p b) (b : UInt8) :
    p (f b) = p b := by
  rw [← hp (f b), hf b, hp b]

theorem trimTokenPunctuation_map (token : List UInt8) :
    trimTokenPunctuation (token.map f) = (trimTokenPunctuation token).map f := by
  have hclass := class_map hf isDotOrHyphen_lower
  rw [trimTokenPunctuation, map_dropWhile hclass, map_rdropWhile hclass]
  rfl

theorem compoundsFrom_map (bytes : List UInt8) : ∀ run : List UInt8,
    compoundsFrom (run.map f) (bytes.map f) = (compoundsFrom run bytes).map (List.map f) := by
  induction bytes with
  | nil =>
      intro run
      simp only [List.map_nil, compoundsFrom, trimTokenPunctuation_map hf, List.map_eq_nil_iff]
      split <;> rfl
  | cons byte rest ih =>
      intro run
      have hrun := ih (run ++ [byte])
      rw [List.map_append, List.map_singleton] at hrun
      have hempty := ih []
      rw [List.map_nil] at hempty
      simp only [List.map_cons, compoundsFrom, class_map hf isTokenByte_lower,
        trimTokenPunctuation_map hf, List.map_eq_nil_iff, hrun, hempty]
      split
      · rfl
      · split <;> rfl

theorem slashComponents_map (token : List UInt8) :
    slashComponents (token.map f) = (slashComponents token).map (List.map f) := by
  have hclass : ∀ b : UInt8, (f b == slash) = (b == slash) :=
    class_map (p := (· == slash)) hf eq_slash_lower
  have htrim : trimTokenPunctuation ∘ List.map f = List.map f ∘ trimTokenPunctuation :=
    funext fun token => trimTokenPunctuation_map hf token
  have hempty : (fun token : List UInt8 => decide (token ≠ [])) ∘ List.map f =
      fun token => decide (token ≠ []) := by
    funext token
    simp
  rw [slashComponents, slashComponents, List.splitOn_eq_splitOnP, List.splitOn_eq_splitOnP,
    map_splitOnP hclass, List.map_map, htrim, ← List.map_map, List.filter_map, hempty]

end Respelled

/-! ## The tokens of a compound -/

/-- The dot and hyphen components, if there is more than one. -/
def dashComponents (component : List UInt8) : List (List UInt8) :=
  if component.any isDotOrHyphen then
    (component.splitOnP isDotOrHyphen).filter (· ≠ [])
  else []

def innerTokens (component : List UInt8) : List (List UInt8) :=
  if isCanonicalUuid component then [] else dashComponents component

/-- Components are compared by their bytes; as parts of the compound they are equal
to it only if they are the compound. -/
theorem visitedComponents_eq {token component : List UInt8}
    (h : component.length ≤ token.length) :
    visitedComponents token component = dashComponents component := by
  rw [visitedComponents, dashComponents]
  by_cases hcut : component.any isDotOrHyphen = true
  · rw [if_pos hcut]
    refine List.filter_congr fun part hpart => ?_
    have hlength := length_lt_of_mem_splitOnP hpart hcut
    have hself : part ≠ component := fun heq => by rw [heq] at hlength; omega
    have htoken : part ≠ token := fun heq => by rw [heq] at hlength; omega
    simp [hself, htoken]
  · rw [if_neg hcut, splitOnP_eq_singleton (Bool.eq_false_iff.mpr hcut)]
    simp

theorem compoundTokens_eq {token : List UInt8} (htrim : trimTokenPunctuation token = token)
    (hne : token ≠ []) :
    compoundTokens token = token ::
      if token.any (· == slash) then
        (slashComponents token).flatMap fun component => component :: innerTokens component
      else innerTokens token := by
  rw [compoundTokens]
  by_cases hslash : token.any (· == slash) = true
  · rw [if_pos hslash]
    refine congrArg _ (List.flatMap_congr fun component hcomponent => ?_)
    obtain ⟨part, hpart, rfl⟩ := List.mem_map.mp (List.mem_filter.mp hcomponent).1
    rw [List.splitOn_eq_splitOnP] at hpart
    have hlength := Nat.lt_of_le_of_lt (length_trimTokenPunctuation_le part)
      (length_lt_of_mem_splitOnP hpart hslash)
    have hother : trimTokenPunctuation part ≠ token := fun heq => by rw [heq] at hlength; omega
    rw [slashTokens, if_pos hother, visitedComponents_eq (Nat.le_of_lt hlength)]
    rfl
  · have hone : slashComponents token = [token] := by
      rw [slashComponents, List.splitOn_eq_splitOnP,
        splitOnP_eq_singleton (Bool.eq_false_iff.mpr hslash), List.map_singleton, htrim]
      simp [hne]
    rw [if_neg hslash, hone, List.flatMap_singleton, slashTokens, if_neg (not_not_intro rfl),
      visitedComponents_eq (Nat.le_refl _)]
    rfl

/-! ## UUIDs in two spellings -/

/-- What the form of a UUID asks of the byte at a position. -/
def UuidAt (position : Nat) (byte : UInt8) : Prop :=
  isUuidByte position byte = true ∧
    (position = 14 → (49 ≤ byte && byte ≤ 56) = true) ∧
    (position = 19 → (byte = 56 || byte = 57 || byte = 97 || byte = 98) = true)

theorem isCanonicalUuid_iff {token : List UInt8} :
    isCanonicalUuid token = true ↔ token.length = 36 ∧
      ∀ (position : Nat) (byte : UInt8), token[position]? = some byte → UuidAt position byte := by
  simp only [isCanonicalUuid, Bool.and_eq_true, decide_eq_true_eq, List.all_eq_true,
    Option.any_eq_true, Prod.forall, List.mem_zipIdx_iff_getElem?, and_assoc, UuidAt]
  refine and_congr_right fun hlength => ?_
  have hget : ∀ position < 36, ∃ byte, token[position]? = some byte := fun position hlt =>
    ⟨_, List.getElem?_eq_getElem (by omega)⟩
  obtain ⟨version, hversion⟩ := hget 14 (by omega)
  obtain ⟨variant, hvariant⟩ := hget 19 (by omega)
  constructor
  · rintro ⟨hform, ⟨version', hversion', hdigit⟩, variant', hvariant', hletter⟩ position byte hbyte
    refine ⟨hform byte position hbyte, ?_, ?_⟩
    · rintro rfl
      rw [hbyte, Option.some.injEq] at hversion'
      rwa [hversion']
    · rintro rfl
      rw [hbyte, Option.some.injEq] at hvariant'
      rwa [hvariant']
  · intro h
    exact ⟨fun byte position hbyte => (h position byte hbyte).1,
      ⟨version, hversion, (h 14 version hversion).2.1 rfl⟩,
      ⟨variant, hvariant, (h 19 variant hvariant).2.2 rfl⟩⟩

/-- A change of case that keeps the form of every byte. -/
theorem isCanonicalUuid_map {f g : UInt8 → UInt8}
    (h : ∀ position byte, UuidAt position (g byte) → UuidAt position (f byte))
    {token : List UInt8} (huuid : isCanonicalUuid (token.map g) = true) :
    isCanonicalUuid (token.map f) = true := by
  obtain ⟨hlength, hform⟩ := isCanonicalUuid_iff.mp huuid
  refine isCanonicalUuid_iff.mpr ⟨by simpa using hlength, fun position byte hbyte => ?_⟩
  rw [List.getElem?_map] at hbyte
  obtain ⟨written, hwritten, rfl⟩ := Option.map_eq_some_iff.mp hbyte
  exact h position written (hform position _ (by rw [List.getElem?_map, hwritten, Option.map_some]))

theorem uuidAt_mono {f g : UInt8 → UInt8} (h : ∀ b, KeepsUuidForm f g b)
    (position : Nat) (byte : UInt8) (hat : UuidAt position (g byte)) :
    UuidAt position (f byte) := by
  obtain ⟨hbyte, hdigit, hletter⟩ := hat
  refine ⟨?_, fun heq => (h byte).version (hdigit heq), fun heq => (h byte).variant (hletter heq)⟩
  unfold isUuidByte at hbyte ⊢
  split at hbyte
  · rename_i hposition
    rw [if_pos hposition]
    exact decide_eq_true ((h byte).dash (of_decide_eq_true hbyte))
  · rename_i hposition
    rw [if_neg hposition]
    exact (h byte).hexdigit hbyte

/-- In small letters a UUID is canonical if it is in any spelling. -/
theorem isCanonicalUuid_lower {token : List UInt8} (h : isCanonicalUuid (token.map id) = true) :
    isCanonicalUuid (token.map toAsciiLowercase) = true :=
  isCanonicalUuid_map (uuidAt_mono fun b => (casingRow b).lower) h

/-- What is canonical in capitals, with a digit for its variant, is so in any spelling. -/
theorem isCanonicalUuid_of_upper {token : List UInt8}
    (h : isCanonicalUuid (token.map toAsciiUppercase) = true) :
    isCanonicalUuid (token.map id) = true :=
  isCanonicalUuid_map (uuidAt_mono fun b => (casingRow b).upper) h

/-! ## Pieces of a UUID -/

/-- A part of a UUID between its hyphens. -/
structure IsPiece (piece : List UInt8) : Prop where
  hex : piece.all isAsciiHexdigit = true
  length : piece.length = 4 ∨ piece.length = 8 ∨ piece.length = 12

theorem any_isDotOrHyphen_of_hex {token : List UInt8} (h : token.all isAsciiHexdigit = true) :
    token.any isDotOrHyphen = false := by
  exact List.any_eq_false.mpr fun b hb => by
    simp [(casingRow b).hexdigit (List.all_eq_true.mp h b hb)]

section Uuid

variable {token : List UInt8} (h : isCanonicalUuid token = true)

include h

theorem length_of_isCanonicalUuid : token.length = 36 := (isCanonicalUuid_iff.mp h).1

/-- Between the hyphens of a UUID stand hexadecimal digits. -/
theorem hex_of_isCanonicalUuid (start count : Nat)
    (hrange : ∀ position, start ≤ position → position < start + count →
      ¬ (position = 8 ∨ position = 13 ∨ position = 18 ∨ position = 23)) :
    ((token.drop start).take count).all isAsciiHexdigit = true := by
  rw [List.all_eq_true]
  intro byte hbyte
  obtain ⟨i, hi⟩ := List.mem_iff_getElem?.mp hbyte
  rw [List.getElem?_take] at hi
  split at hi
  · rename_i hlt
    rw [List.getElem?_drop] at hi
    have hform := ((isCanonicalUuid_iff.mp h).2 _ byte hi).1
    rwa [isUuidByte, if_neg (hrange (start + i) (by omega) (by omega))] at hform
  · cases hi

theorem hyphen_of_isCanonicalUuid {position : Nat}
    (hposition : position = 8 ∨ position = 13 ∨ position = 18 ∨ position = 23) :
    token[position]? = some hyphen := by
  have hlength := length_of_isCanonicalUuid h
  obtain ⟨byte, hget⟩ : ∃ byte, token[position]? = some byte :=
    ⟨_, List.getElem?_eq_getElem (by omega : position < token.length)⟩
  have hform := ((isCanonicalUuid_iff.mp h).2 _ _ hget).1
  rw [isUuidByte, if_pos hposition] at hform
  rw [hget, of_decide_eq_true hform]

/-- The part from `start` to the next hyphen. -/
theorem splitOnP_isCanonicalUuid (start count : Nat)
    (hposition : start + count = 8 ∨ start + count = 13 ∨ start + count = 18 ∨ start + count = 23)
    (hrange : ∀ position, start ≤ position → position < start + count →
      ¬ (position = 8 ∨ position = 13 ∨ position = 18 ∨ position = 23)) :
    (token.drop start).splitOnP isDotOrHyphen =
      (token.drop start).take count ::
        (token.drop (start + count + 1)).splitOnP isDotOrHyphen := by
  have hsep : (token.drop start)[count]? = some hyphen := by
    rw [List.getElem?_drop]
    exact hyphen_of_isCanonicalUuid h hposition
  rw [splitOnP_take hsep rfl (any_isDotOrHyphen_of_hex (hex_of_isCanonicalUuid h _ _ hrange)),
    List.drop_drop, Nat.add_assoc]

theorem splitOnP_uuid : token.splitOnP isDotOrHyphen =
    [token.take 8, (token.drop 9).take 4, (token.drop 14).take 4, (token.drop 19).take 4,
      token.drop 24] := by
  have hlast : (token.drop 24).any isDotOrHyphen = false := by
    have hhex := hex_of_isCanonicalUuid h 24 12 (by omega)
    rw [List.take_of_length_le (by
      rw [List.length_drop, length_of_isCanonicalUuid h])] at hhex
    exact any_isDotOrHyphen_of_hex hhex
  have hfirst := splitOnP_isCanonicalUuid h 0 8 (by omega) (by omega)
  rw [List.drop_zero] at hfirst
  rw [hfirst, splitOnP_isCanonicalUuid h 9 4 (by omega) (by omega),
    splitOnP_isCanonicalUuid h 14 4 (by omega) (by omega),
    splitOnP_isCanonicalUuid h 19 4 (by omega) (by omega),
    splitOnP_eq_singleton hlast]

theorem isPiece_of_mem_dashComponents {piece : List UInt8} (hpiece : piece ∈ dashComponents token) :
    IsPiece piece := by
  have hlength := length_of_isCanonicalUuid h
  rw [dashComponents] at hpiece
  split at hpiece
  · rw [splitOnP_uuid h] at hpiece
    have hlast : token.drop 24 = (token.drop 24).take 12 := by
      rw [List.take_of_length_le (by rw [List.length_drop]; omega)]
    have hfirst : token.take 8 = (token.drop 0).take 8 := rfl
    rw [hlast, hfirst] at hpiece
    have hparts := (List.mem_filter.mp hpiece).1
    simp only [List.mem_cons, List.not_mem_nil, or_false] at hparts
    obtain ⟨start, count, hrange, hfits, hcount, rfl⟩ : ∃ start count : Nat,
        (∀ position, start ≤ position → position < start + count →
          ¬ (position = 8 ∨ position = 13 ∨ position = 18 ∨ position = 23)) ∧
        start + count ≤ 36 ∧ (count = 4 ∨ count = 8 ∨ count = 12) ∧
        piece = (token.drop start).take count := by
      rcases hparts with hpart | hpart | hpart | hpart | hpart
      · exact ⟨0, 8, by omega, by omega, by omega, hpart⟩
      · exact ⟨9, 4, by omega, by omega, by omega, hpart⟩
      · exact ⟨14, 4, by omega, by omega, by omega, hpart⟩
      · exact ⟨19, 4, by omega, by omega, by omega, hpart⟩
      · exact ⟨24, 12, by omega, by omega, by omega, hpart⟩
    refine ⟨hex_of_isCanonicalUuid h _ _ hrange, ?_⟩
    rw [List.length_take, List.length_drop]
    omega
  · cases hpiece

end Uuid

/-! ## Wider lists of tokens -/

/-- The second list has pieces behind some of the UUIDs of the first. -/
inductive Widens : List (List UInt8) → List (List UInt8) → Prop
  | nil : Widens [] []
  | cons (token : List UInt8) {narrow wide : List (List UInt8)} :
      Widens narrow wide → Widens (token :: narrow) (token :: wide)
  | cut {uuid : List UInt8} {pieces narrow wide : List (List UInt8)} :
      isCanonicalUuid uuid = true → (∀ piece ∈ pieces, IsPiece piece) →
      Widens narrow wide → Widens (uuid :: narrow) (uuid :: pieces ++ wide)

namespace Widens

theorem refl : ∀ tokens : List (List UInt8), Widens tokens tokens
  | [] => .nil
  | token :: rest => .cons token (refl rest)

theorem append {narrow wide narrow' wide' : List (List UInt8)} (h : Widens narrow wide)
    (h' : Widens narrow' wide') : Widens (narrow ++ narrow') (wide ++ wide') := by
  induction h with
  | nil => exact h'
  | cons token _ ih => exact .cons token ih
  | cut huuid hpieces _ ih =>
      rw [List.append_assoc]
      exact .cut huuid hpieces ih

theorem flatMap {α : Type} {narrow wide : α → List (List UInt8)} {xs : List α}
    (h : ∀ x ∈ xs, Widens (narrow x) (wide x)) : Widens (xs.flatMap narrow) (xs.flatMap wide) := by
  induction xs with
  | nil => exact .nil
  | cons x rest ih =>
      obtain ⟨hhead, hrest⟩ := List.forall_mem_cons.mp h
      rw [List.flatMap_cons, List.flatMap_cons]
      exact hhead.append (ih hrest)

variable {narrow wide : List (List UInt8)} (h : Widens narrow wide)

include h

theorem sublist : narrow.Sublist wide := by
  induction h with
  | nil => exact .slnil
  | cons token _ ih => exact ih.cons_cons token
  | cut _ _ _ ih => exact (ih.trans (List.sublist_append_right _ _)).cons_cons _

/-- What is new is short. -/
theorem isPiece_of_not_mem {token : List UInt8} (htoken : token ∈ wide) (hnew : token ∉ narrow) :
    IsPiece token := by
  induction h with
  | nil => cases htoken
  | cons other _ ih =>
      rcases List.mem_cons.mp htoken with rfl | htoken
      · exact absurd (List.mem_cons_self ..) hnew
      · exact ih htoken fun hin => hnew (List.mem_cons_of_mem _ hin)
  | cut _ hpieces _ ih =>
      rcases List.mem_cons.mp htoken with rfl | htoken
      · exact absurd (List.mem_cons_self ..) hnew
      · rcases List.mem_append.mp htoken with hpiece | hlater
        · exact hpieces token hpiece
        · exact ih hlater fun hin => hnew (List.mem_cons_of_mem _ hin)

/-- A long token among the first of the wider list is among the first of the other. -/
theorem exists_long {limit : Nat} (hlimit : 12 ≤ limit) : ∀ {count : Nat},
    (∃ token ∈ wide.take count, limit < token.length) →
      ∃ token ∈ narrow.take count, limit < token.length := by
  induction h with
  | nil => exact id
  | cons token _ ih =>
      rintro (_ | count) ⟨long, hin, hlong⟩
      · cases hin
      · rw [List.take_succ_cons] at hin ⊢
        rcases List.mem_cons.mp hin with rfl | hin
        · exact ⟨_, List.mem_cons_self .., hlong⟩
        · obtain ⟨other, hother, hlength⟩ := ih ⟨long, hin, hlong⟩
          exact ⟨other, List.mem_cons_of_mem _ hother, hlength⟩
  | cut _ hpieces _ ih =>
      rintro (_ | count) ⟨long, hin, hlong⟩
      · cases hin
      · rw [List.cons_append, List.take_succ_cons] at hin
        rw [List.take_succ_cons]
        rcases List.mem_cons.mp hin with rfl | hin
        · exact ⟨_, List.mem_cons_self .., hlong⟩
        rw [List.take_append, List.mem_append] at hin
        rcases hin with hpiece | hlater
        · have hshort := (hpieces long (List.mem_of_mem_take hpiece)).length
          omega
        · obtain ⟨other, hother, hlength⟩ := ih ⟨long, hlater, hlong⟩
          exact ⟨other, List.mem_cons_of_mem _
            ((List.take_sublist_take_left (Nat.sub_le _ _)).subset hother), hlength⟩

end Widens

/-! ## Tokens in two spellings -/

section Spellings

variable {f g : UInt8 → UInt8}

theorem dashComponents_map (hf : KeepsLetters f) (component : List UInt8) :
    dashComponents (component.map f) = (dashComponents component).map (List.map f) := by
  have hclass := class_map hf isDotOrHyphen_lower
  have hany : (component.map f).any isDotOrHyphen = component.any isDotOrHyphen := by
    rw [List.any_map]
    congr 1
    exact funext hclass
  have hempty : (fun token : List UInt8 => decide (token ≠ [])) ∘ List.map f =
      fun token => decide (token ≠ []) := by
    funext token
    simp
  rw [dashComponents, dashComponents, hany]
  split
  · rw [map_splitOnP hclass, List.filter_map, hempty]
  · rfl

/-- In small letters the dot and hyphen components are those of the small letters. -/
theorem map_dashComponents (hf : KeepsLetters f) (component : List UInt8) :
    (dashComponents (component.map f)).map canonicalizeAscii =
      dashComponents (canonicalizeAscii component) := by
  rw [canonicalizeAscii, dashComponents_map hf, dashComponents_map keepsLetters_lower,
    List.map_map]
  exact List.map_congr_left fun part _ => canonicalizeAscii_map hf part

theorem isCanonicalUuid_canonical {component : List UInt8} (hf : KeepsLetters f)
    (h : isCanonicalUuid (component.map f) = true) :
    isCanonicalUuid (canonicalizeAscii component) = true := by
  have hwritten : isCanonicalUuid ((component.map f).map id) = true := by rwa [List.map_id]
  have hlower := isCanonicalUuid_lower hwritten
  rwa [← canonicalizeAscii, canonicalizeAscii_map hf] at hlower

variable (hf : KeepsLetters f) (hg : KeepsLetters g)
  (huuid : ∀ token : List UInt8, isCanonicalUuid (token.map g) = true →
    isCanonicalUuid (token.map f) = true)

include hf hg huuid

theorem widens_innerTokens (component : List UInt8) :
    Widens (canonicalizeAscii component :: (innerTokens (component.map f)).map canonicalizeAscii)
      (canonicalizeAscii component :: (innerTokens (component.map g)).map canonicalizeAscii) := by
  unfold innerTokens
  by_cases hwide : isCanonicalUuid (component.map g) = true
  · rw [if_pos hwide, if_pos (huuid component hwide)]
    exact .refl _
  · rw [if_neg hwide, map_dashComponents hg]
    by_cases hnarrow : isCanonicalUuid (component.map f) = true
    · have hcanonical := isCanonicalUuid_canonical hf hnarrow
      have hpieces : ∀ piece ∈ dashComponents (canonicalizeAscii component), IsPiece piece :=
        fun piece => isPiece_of_mem_dashComponents hcanonical
      have hcut := Widens.cut hcanonical hpieces .nil
      rw [if_pos hnarrow]
      rwa [List.append_nil] at hcut
    · rw [if_neg hnarrow, map_dashComponents hf]
      exact .refl _

theorem widens_compoundTokens {token : List UInt8}
    (htoken : trimTokenPunctuation token = token ∧ token ≠ []) :
    Widens ((compoundTokens (token.map f)).map canonicalizeAscii)
      ((compoundTokens (token.map g)).map canonicalizeAscii) := by
  have hcompound : ∀ {k : UInt8 → UInt8}, KeepsLetters k →
      (compoundTokens (token.map k)).map canonicalizeAscii = canonicalizeAscii token ::
        if token.any (· == slash) then
          (slashComponents token).flatMap fun component =>
            canonicalizeAscii component :: (innerTokens (component.map k)).map canonicalizeAscii
        else (innerTokens (token.map k)).map canonicalizeAscii := by
    intro k hk
    have htrim : trimTokenPunctuation (token.map k) = token.map k := by
      rw [trimTokenPunctuation_map hk, htoken.1]
    have hany : (token.map k).any (· == slash) = token.any (· == slash) := by
      rw [List.any_map]
      congr 1
      exact funext (class_map (p := (· == slash)) hk eq_slash_lower)
    rw [compoundTokens_eq htrim (by simpa using htoken.2), List.map_cons, hany,
      canonicalizeAscii_map hk, slashComponents_map hk]
    split
    · rw [List.flatMap_map, List.map_flatMap]
      refine congrArg _ (List.flatMap_congr fun component _ => ?_)
      rw [List.map_cons, canonicalizeAscii_map hk]
    · rfl
  rw [hcompound hf, hcompound hg]
  split
  · exact .cons _ (.flatMap fun component _ => widens_innerTokens hf hg huuid component)
  · exact widens_innerTokens hf hg huuid token

/-- Two changes of case, of which the first sees every canonical UUID that the second
sees: the second cuts more. -/
theorem widens_asciiTokens (bytes : List UInt8) :
    Widens ((asciiTokens (bytes.map f)).map canonicalizeAscii)
      ((asciiTokens (bytes.map g)).map canonicalizeAscii) := by
  have htokens : ∀ {k : UInt8 → UInt8}, KeepsLetters k →
      (asciiTokens (bytes.map k)).map canonicalizeAscii =
        (compoundsFrom [] bytes).flatMap fun token =>
          (compoundTokens (token.map k)).map canonicalizeAscii := by
    intro k hk
    have hcompounds := compoundsFrom_map hk bytes []
    rw [List.map_nil] at hcompounds
    rw [asciiTokens, hcompounds, List.flatMap_map, List.map_flatMap]
  rw [htokens hf, htokens hg]
  exact .flatMap fun token htoken =>
    widens_compoundTokens hf hg huuid (compounds_trimmed bytes [] token htoken)

end Spellings

end Evidentrail
