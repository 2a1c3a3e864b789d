import Evidentrail.Core.Hash
import Evidentrail.Lib.Ascii
import Evidentrail.Lib.Split
import Evidentrail.Lib.Visit
import Mathlib.Data.List.DropRight

/-!
# ASCII tokens

Questions and events are read as ASCII compounds: runs of token bytes without the
dots and hyphens around them. A compound is visited whole, then its slash
components, then their dot and hyphen components; the components of a canonical
UUID are not visited. The visitor may stop the loop.

`asciiTokens` lists what a visitor sees that never stops, and every visitor is fed
that list (`forEachAsciiToken_eq_feed`).
-/

namespace Evidentrail

open Ascii Visit Split

/-! ## Bytes -/

def slash : UInt8 := 47
def dot : UInt8 := 46
def hyphen : UInt8 := 45
def underscore : UInt8 := 95

def isTokenByte (byte : UInt8) : Bool :=
  isAsciiAlphanumeric byte || byte = underscore || byte = hyphen || byte = dot || byte = slash

/-- `b'.' | b'-'`. -/
def isDotOrHyphen (byte : UInt8) : Bool := byte = dot || byte = hyphen

/-- The two loops drop from the front, then from the end. -/
def trimTokenPunctuation (token : List UInt8) : List UInt8 :=
  (token.dropWhile isDotOrHyphen).rdropWhile isDotOrHyphen

/-- The form of one byte of a UUID. -/
def isUuidByte (position : Nat) (byte : UInt8) : Bool :=
  if position = 8 ∨ position = 13 ∨ position = 18 ∨ position = 23 then byte = hyphen
  else isAsciiHexdigit byte

/-- The version is one of `1` to `8` and the variant one of `8`, `9`, `a` and `b`,
of which the letters are small. -/
def isCanonicalUuid (token : List UInt8) : Bool :=
  token.length = 36
    && token.zipIdx.all (fun (byte, position) => isUuidByte position byte)
    && token[14]?.any (fun byte => 49 ≤ byte && byte ≤ 56)
    && token[19]?.any (fun byte => byte = 56 || byte = 57 || byte = 97 || byte = 98)

/-! ## Visiting -/

section Visiting

variable {σ : Type*} (visit : σ → List UInt8 → σ × Bool)

/-- The dot and hyphen components that are visited. -/
def visitedComponents (token slashComponent : List UInt8) : List (List UInt8) :=
  (slashComponent.splitOnP isDotOrHyphen).filter fun component =>
    !(component = [] || component = slashComponent || component = token)

/-- The loop over the slash components, with the state and whether to go on. -/
def visitSlashComponents (token : List UInt8) (s : σ) : List (List UInt8) → σ × Bool
  | [] => (s, true)
  | component :: rest =>
      let slashComponent := trimTokenPunctuation component
      if slashComponent = [] then visitSlashComponents token s rest
      else
        match if slashComponent ≠ token then visit s slashComponent else (s, true) with
        | (s, false) => (s, false)
        | (s, true) =>
            if isCanonicalUuid slashComponent then visitSlashComponents token s rest
            else
              match feed visit s (visitedComponents token slashComponent) with
              | (s, false) => (s, false)
              | (s, true) => visitSlashComponents token s rest

def visitCompoundTokens (s : σ) (token : List UInt8) : σ × Bool :=
  match visit s token with
  | (s, false) => (s, false)
  | (s, true) => visitSlashComponents visit token s (token.splitOn slash)

/-- The loop over the bytes. The source keeps the start of the run it is in;
`run` is the slice from there on, empty when there is none. -/
def forEachFrom (run : List UInt8) (s : σ) : List UInt8 → σ
  | [] =>
      let token := trimTokenPunctuation run
      if run = [] ∨ token = [] then s else (visitCompoundTokens visit s token).1
  | byte :: rest =>
      if isTokenByte byte then forEachFrom (run ++ [byte]) s rest
      else
        let token := trimTokenPunctuation run
        if run = [] ∨ token = [] then forEachFrom [] s rest
        else
          match visitCompoundTokens visit s token with
          | (s, false) => s
          | (s, true) => forEachFrom [] s rest

def forEachAsciiToken (s : σ) (bytes : List UInt8) : σ :=
  forEachFrom visit [] s bytes

end Visiting

/-! ## The list of tokens -/

/-- The compounds of the bytes, after this run. -/
def compoundsFrom (run : List UInt8) : List UInt8 → List (List UInt8)
  | [] => if trimTokenPunctuation run = [] then [] else [trimTokenPunctuation run]
  | byte :: rest =>
      if isTokenByte byte then compoundsFrom (run ++ [byte]) rest
      else if trimTokenPunctuation run = [] then compoundsFrom [] rest
      else trimTokenPunctuation run :: compoundsFrom [] rest

/-- What is visited for one slash component that is not empty. -/
def slashTokens (token slashComponent : List UInt8) : List (List UInt8) :=
  (if slashComponent ≠ token then [slashComponent] else []) ++
    if isCanonicalUuid slashComponent then [] else visitedComponents token slashComponent

def slashComponents (token : List UInt8) : List (List UInt8) :=
  ((token.splitOn slash).map trimTokenPunctuation).filter (· ≠ [])

def compoundTokens (token : List UInt8) : List (List UInt8) :=
  token :: (slashComponents token).flatMap (slashTokens token)

def asciiTokens (bytes : List UInt8) : List (List UInt8) :=
  (compoundsFrom [] bytes).flatMap compoundTokens

section Feeding

variable {σ : Type*} (visit : σ → List UInt8 → σ × Bool)

theorem visitSlashComponents_eq_feed (token : List UInt8) (components : List (List UInt8)) :
    ∀ s : σ, visitSlashComponents visit token s components =
      feed visit s (((components.map trimTokenPunctuation).filter (· ≠ [])).flatMap
        (slashTokens token)) := by
  induction components with
  | nil => exact fun _ => rfl
  | cons component rest ih =>
      intro s
      rw [visitSlashComponents, List.map_cons]
      by_cases hempty : trimTokenPunctuation component = []
      · rw [if_pos hempty, ih, List.filter_cons_of_neg (by simpa using hempty)]
      · have hfirst : (if trimTokenPunctuation component ≠ token then
              visit s (trimTokenPunctuation component) else (s, true)) =
            feed visit s (if trimTokenPunctuation component ≠ token then
              [trimTokenPunctuation component] else []) := by
          split
          · exact (feed_singleton ..).symm
          · rfl
        rw [if_neg hempty, List.filter_cons_of_pos (by simpa using hempty), List.flatMap_cons,
          slashTokens, feed_append, feed_append, hfirst]
        obtain ⟨s', more⟩ := feed visit s _
        cases more with
        | false => rfl
        | true =>
            by_cases huuid : isCanonicalUuid (trimTokenPunctuation component)
            · simp only [huuid, if_true, feed_nil, ih]
            · simp only [huuid, Bool.false_eq_true, if_false, ih]
              obtain ⟨s'', more⟩ := feed visit s' _
              cases more <;> rfl

theorem visitCompoundTokens_eq_feed (s : σ) (token : List UInt8) :
    visitCompoundTokens visit s token = feed visit s (compoundTokens token) := by
  rw [visitCompoundTokens, compoundTokens, feed]
  obtain ⟨s', more⟩ := visit s token
  cases more with
  | false => rfl
  | true => exact visitSlashComponents_eq_feed visit token _ s'

theorem trimTokenPunctuation_nil : trimTokenPunctuation [] = [] := rfl

theorem forEachFrom_eq_feed (bytes : List UInt8) : ∀ (run : List UInt8) (s : σ),
    forEachFrom visit run s bytes =
      (feed visit s ((compoundsFrom run bytes).flatMap compoundTokens)).1 := by
  induction bytes with
  | nil =>
      intro run s
      rw [forEachFrom, compoundsFrom]
      by_cases htoken : trimTokenPunctuation run = []
      · rw [if_pos (.inr htoken), if_pos htoken]
        rfl
      · have hrun : run ≠ [] := fun hnil => htoken (hnil ▸ trimTokenPunctuation_nil)
        rw [if_neg (by simp [hrun, htoken]), if_neg htoken, List.flatMap_singleton,
          visitCompoundTokens_eq_feed]
  | cons byte rest ih =>
      intro run s
      rw [forEachFrom, compoundsFrom]
      by_cases hbyte : isTokenByte byte
      · rw [if_pos hbyte, if_pos hbyte, ih]
      · rw [if_neg hbyte, if_neg hbyte]
        by_cases htoken : trimTokenPunctuation run = []
        · rw [if_pos (.inr htoken), if_pos htoken, ih]
        · have hrun : run ≠ [] := fun hnil => htoken (hnil ▸ trimTokenPunctuation_nil)
          rw [if_neg (by simp [hrun, htoken]), if_neg htoken, List.flatMap_cons, feed_append,
            visitCompoundTokens_eq_feed]
          obtain ⟨s', more⟩ := feed visit s _
          cases more with
          | false => rfl
          | true => exact ih [] s'

theorem forEachAsciiToken_eq_feed (s : σ) (bytes : List UInt8) :
    forEachAsciiToken visit s bytes = (feed visit s (asciiTokens bytes)).1 :=
  forEachFrom_eq_feed visit bytes [] s

end Feeding

/-! ## How many tokens there are -/

theorem length_trimTokenPunctuation_le (token : List UInt8) :
    (trimTokenPunctuation token).length ≤ token.length :=
  ((List.rdropWhile_prefix _ _).length_le).trans (List.dropWhile_suffix _).length_le

theorem compounds_trimmed : ∀ (bytes run : List UInt8), ∀ token ∈ compoundsFrom run bytes,
    trimTokenPunctuation token = token ∧ token ≠ [] := by
  intro bytes
  induction bytes with
  | nil =>
      intro run token htoken
      rw [compoundsFrom] at htoken
      split at htoken
      · cases htoken
      · rename_i hne
        rw [List.mem_singleton.mp htoken]
        exact ⟨trim_trim run, hne⟩
  | cons byte rest ih =>
      intro run token htoken
      rw [compoundsFrom] at htoken
      split at htoken
      · exact ih _ token htoken
      · split at htoken
        · exact ih _ token htoken
        · rename_i hne
          rcases List.mem_cons.mp htoken with rfl | htoken
          · exact ⟨trim_trim run, hne⟩
          · exact ih _ token htoken

theorem sum_length_compoundsFrom_le : ∀ bytes run : List UInt8,
    ((compoundsFrom run bytes).map List.length).sum ≤ run.length + bytes.length := by
  intro bytes
  induction bytes with
  | nil =>
      intro run
      have hrun := length_trimTokenPunctuation_le run
      rw [compoundsFrom]
      split
      · exact Nat.zero_le _
      · simpa using hrun
  | cons byte rest ih =>
      intro run
      have hrun := length_trimTokenPunctuation_le run
      have hnext := ih (run ++ [byte])
      have hempty := ih []
      rw [List.length_append, List.length_singleton] at hnext
      rw [List.length_nil] at hempty
      rw [compoundsFrom, List.length_cons]
      split
      · omega
      split
      · omega
      · rw [List.map_cons, List.sum_cons]
        omega

theorem sum_length_slashComponents_le (token : List UInt8) :
    ((slashComponents token).map List.length).sum ≤ token.length := by
  have hsplit := sum_length_splitOnP_le (p := (· == slash)) token
  rw [slashComponents, List.splitOn_eq_splitOnP]
  refine le_trans ?_ hsplit
  generalize token.splitOnP (· == slash) = parts
  induction parts with
  | nil => simp
  | cons part rest ih =>
      have hpart := length_trimTokenPunctuation_le part
      rw [List.map_cons, List.filter_cons]
      split
      · simp only [List.map_cons, List.sum_cons]
        omega
      · simp only [List.map_cons, List.sum_cons]
        omega

theorem length_visitedComponents_le (token component : List UInt8) :
    (visitedComponents token component).length ≤ component.length := by
  refine (length_filter_le_sum_length _ fun part _ hkept => ?_).trans
    (sum_length_splitOnP_le component)
  simp only [Bool.not_eq_true', Bool.or_eq_false_iff, decide_eq_false_iff_not] at hkept
  exact hkept.1.1

theorem length_slashTokens_le (token component : List UInt8) :
    (slashTokens token component).length ≤ 1 + component.length := by
  have hvisited := length_visitedComponents_le token component
  rw [slashTokens, List.length_append]
  split <;> split <;> simp only [List.length_nil, List.length_singleton] <;> omega

theorem length_compoundTokens_le {token : List UInt8} (hne : token ≠ []) :
    (compoundTokens token).length ≤ 3 * token.length := by
  have hsum := sum_length_slashComponents_le token
  have hpos := List.length_pos_iff.mpr hne
  have hne' : ∀ component ∈ slashComponents token, 1 ≤ component.length := by
    intro component hcomponent
    have hkept := (List.mem_filter.mp hcomponent).2
    exact List.length_pos_iff.mpr (by simpa using hkept)
  have hparts : ((slashComponents token).flatMap (slashTokens token)).length ≤
      2 * ((slashComponents token).map List.length).sum := by
    generalize slashComponents token = components at hne'
    induction components with
    | nil => simp
    | cons component rest ih =>
        obtain ⟨hcomponent, hrest⟩ := List.forall_mem_cons.mp hne'
        have hlater := ih hrest
        have hfirst := length_slashTokens_le token component
        rw [List.flatMap_cons, List.length_append, List.map_cons, List.sum_cons]
        omega
  rw [compoundTokens, List.length_cons]
  omega

/-- A byte gives three tokens at most. -/
theorem length_asciiTokens_le (bytes : List UInt8) :
    (asciiTokens bytes).length ≤ 3 * bytes.length := by
  have hsum := sum_length_compoundsFrom_le bytes []
  have htrimmed := compounds_trimmed bytes []
  rw [List.length_nil, Nat.zero_add] at hsum
  have hcompounds : (asciiTokens bytes).length ≤
      3 * ((compoundsFrom [] bytes).map List.length).sum := by
    rw [asciiTokens]
    clear hsum
    generalize compoundsFrom [] bytes = compounds at htrimmed
    induction compounds with
    | nil => simp
    | cons compound rest ih =>
        obtain ⟨hcompound, hrest⟩ := List.forall_mem_cons.mp htrimmed
        have hlater := ih hrest
        have hfirst := length_compoundTokens_le hcompound.2
        rw [List.flatMap_cons, List.length_append, List.map_cons, List.sum_cons]
        omega
  omega

end Evidentrail
