import Mathlib.Data.List.Basic

/-!
# Text as lines

A text built from lines that do not contain the separator splits back into
exactly these lines. So whatever is said line by line, about their number,
their order or their prefixes, is a fact about the text.
-/

namespace Lines

variable {α : Type*} (nl : α)

/-- Every line, ended by the separator. -/
def unlines (lines : List (List α)) : List α :=
  lines.flatMap (· ++ [nl])

theorem unlines_append (xs ys : List (List α)) :
    unlines nl (xs ++ ys) = unlines nl xs ++ unlines nl ys := by
  simp [unlines]

theorem unlines_cons (line : List α) (rest : List (List α)) :
    unlines nl (line :: rest) = line ++ nl :: unlines nl rest := by
  simp [unlines]

variable [DecidableEq α]

/-- The lines of a text; `current` is the line being read. -/
def splitFrom (current : List α) : List α → List (List α)
  | [] => if current = [] then [] else [current]
  | a :: rest =>
      if a = nl then current :: splitFrom [] rest else splitFrom (current ++ [a]) rest

/-- `str::lines`: a last line without separator counts unless it is empty. -/
def splitLines (text : List α) : List (List α) := splitFrom nl [] text

theorem splitFrom_line (line rest : List α) (h : nl ∉ line) : ∀ current : List α,
    splitFrom nl current (line ++ nl :: rest) = (current ++ line) :: splitFrom nl [] rest := by
  induction line with
  | nil =>
      intro current
      simp [splitFrom]
  | cons a line ih =>
      intro current
      rw [List.mem_cons, not_or] at h
      rw [List.cons_append, splitFrom, if_neg (Ne.symm h.1), ih h.2, List.append_assoc,
        List.singleton_append]

theorem splitLines_unlines {lines : List (List α)} (h : ∀ line ∈ lines, nl ∉ line) :
    splitLines nl (unlines nl lines) = lines := by
  induction lines with
  | nil => simp [splitLines, splitFrom, unlines]
  | cons line rest ih =>
      have hrest := ih fun later hlater => h later (List.mem_cons_of_mem _ hlater)
      rw [splitLines] at hrest ⊢
      rw [unlines_cons, splitFrom_line nl line _ (h line (List.mem_cons_self ..)), List.nil_append]
      exact congrArg _ hrest

/-- The lines can be read back. -/
theorem unlines_inj {xs ys : List (List α)} (hx : ∀ line ∈ xs, nl ∉ line)
    (hy : ∀ line ∈ ys, nl ∉ line) (h : unlines nl xs = unlines nl ys) : xs = ys := by
  rw [← splitLines_unlines nl hx, h, splitLines_unlines nl hy]

/-! ## Labelled lines

A line is a heading, or a label with a value after it. A reader that looks
for one label finds exactly the values written under it when no other label
could be mistaken for it.
-/

inductive Line (α : Type*) where
  | heading (text : List α)
  | field (label value : List α)

/-- The physical line. -/
def Line.toList : Line α → List α
  | .heading text => text
  | .field label value => label ++ value

def Line.value? (label : List α) : Line α → Option (List α)
  | .heading _ => none
  | .field l value => if l = label then some value else none

/-- The values under this label, in order. -/
def Line.valuesOf (label : List α) (lines : List (Line α)) : List (List α) :=
  lines.filterMap (Line.value? label)

/-- What a reader of the text finds under this label. -/
def valuesOf (label text : List α) : List (List α) :=
  (splitLines nl text).filterMap label.isPrefixOf?

/-- Neither a heading nor another label can be taken for this label. -/
def Line.Distinct (label : List α) : Line α → Prop
  | .heading text => ¬ label <+: text
  | .field l _ => l = label ∨ (¬ label <+: l ∧ ¬ l <+: label)

theorem isPrefixOf?_eq_none {label line : List α} (h : ¬ label <+: line) :
    label.isPrefixOf? line = none := by
  cases hread : label.isPrefixOf? line with
  | none => rfl
  | some value => exact absurd ⟨value, List.isPrefixOf?_eq_some_iff_append_eq.mp hread⟩ h

theorem Line.isPrefixOf?_toList {label : List α} {line : Line α} (h : line.Distinct label) :
    label.isPrefixOf? line.toList = line.value? label := by
  cases line with
  | heading text => exact isPrefixOf?_eq_none h
  | field l value =>
      simp only [Line.toList, Line.value?]
      rcases h with rfl | ⟨hlabel, hl⟩
      · rw [if_pos rfl, List.isPrefixOf?_eq_some_iff_append_eq]
      · have hne : ¬ l = label := fun heq => hl (heq ▸ List.prefix_rfl)
        rw [if_neg hne]
        refine isPrefixOf?_eq_none fun hread => ?_
        rcases List.prefix_or_prefix_of_prefix hread (List.prefix_append l value) with hp | hp
        · exact hlabel hp
        · exact hl hp

/-- The reader finds what was written. -/
theorem valuesOf_unlines {label : List α} {lines : List (Line α)}
    (hline : ∀ line ∈ lines, nl ∉ line.toList)
    (hlabel : ∀ line ∈ lines, line.Distinct label) :
    valuesOf nl label (unlines nl (lines.map Line.toList)) = Line.valuesOf label lines := by
  have hsplit : splitLines nl (unlines nl (lines.map Line.toList)) = lines.map Line.toList :=
    splitLines_unlines nl fun line hmem => by
      obtain ⟨line, hsource, rfl⟩ := List.mem_map.mp hmem
      exact hline line hsource
  rw [valuesOf, hsplit, List.filterMap_map]
  exact List.filterMap_congr fun line hmem => Line.isPrefixOf?_toList (hlabel line hmem)

end Lines
