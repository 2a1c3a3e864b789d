import Evidentrail.Candidates.Casing
import Evidentrail.Lib.Sha2

/-!
# Questions in two spellings

The pieces of a UUID are no identifiers and stand between no label and its value, so
the identifiers of two spellings agree. The pieces are terms, though, and count
against the caps. `preprocess_case_insensitive_iff` says for which questions that
makes a difference.
-/

namespace Evidentrail

open Rust Std Ascii Slice

/-! ## Identifiers -/

/-- The label in front of a token, in terms of the two tokens before it. -/
def isLabelled (isLabel : List UInt8 → Bool) (word : String)
    (before last : Option (List UInt8)) : Bool :=
  last.any isLabel || (before = some (asciiBytes word) && last = some (asciiBytes "id"))

/-- The kind of a token behind these two. -/
def identifierKindAfter (before last : Option (List UInt8)) (token : List UInt8) :
    Option ValidatedIdentifierKindV1 :=
  if isCanonicalUuid token then some .canonicalUuid
  else if isRustErrorCode token then some .rustCompilerErrorCode
  else if isLabelled isTraceLabel "trace" before last && isTraceHex token 32 then
    some .traceIdHex128
  else if isLabelled isSpanLabel "span" before last && isTraceHex token 16 then
    some .spanIdHex64
  else none

/-- The identifiers of tokens behind these two. -/
def identifiersAfter (before last : Option (List UInt8)) :
    List (List UInt8) → List ValidatedQueryIdentifierV1
  | [] => []
  | token :: rest =>
      ((identifierKindAfter before last token).map
          (ValidatedQueryIdentifierV1.mk · token)).toList ++
        identifiersAfter last (some token) rest

/-- What a position in the tokens sees of those in front of it. -/
theorem hasLabel_append {isLabel : List UInt8 → Bool} {word : String}
    (seen rest : List (List UInt8)) :
    hasLabel isLabel word (seen ++ rest) seen.length =
      isLabelled isLabel word seen.dropLast.getLast? seen.getLast? := by
  rcases List.eq_nil_or_concat seen with rfl | ⟨front, last, rfl⟩
  · simp [hasLabel, isLabelled]
  rcases List.eq_nil_or_concat front with rfl | ⟨front, before, rfl⟩
  · simp [hasLabel, isLabelled]
  · simp [hasLabel, isLabelled]

theorem identifierKind_append (seen : List (List UInt8)) (token : List UInt8)
    (rest : List (List UInt8)) :
    identifierKind (seen ++ rest) seen.length token =
      identifierKindAfter seen.dropLast.getLast? seen.getLast? token := by
  rw [identifierKind, hasTraceLabel, hasSpanLabel, hasLabel_append, hasLabel_append]
  rfl

theorem identifiersAfter_eq (tokens : List (List UInt8)) : ∀ seen : List (List UInt8),
    (tokens.zipIdx seen.length).filterMap (fun (token, position) =>
      (identifierKind (seen ++ tokens) position token).map
        (ValidatedQueryIdentifierV1.mk · token)) =
      identifiersAfter seen.dropLast.getLast? seen.getLast? tokens := by
  induction tokens with
  | nil => exact fun _ => rfl
  | cons token rest ih =>
      intro seen
      have hrest := ih (seen ++ [token])
      rw [List.length_append, List.length_singleton, List.append_assoc, List.singleton_append,
        List.dropLast_concat, List.getLast?_concat] at hrest
      rw [List.zipIdx_cons, List.filterMap_cons, identifiersAfter, ← hrest]
      simp only [identifierKind_append]
      cases identifierKindAfter seen.dropLast.getLast? seen.getLast? token <;> rfl

theorem identifierMaterial_eq (tokens : List (List UInt8)) :
    identifierMaterial tokens = ExtTreeSet.ofList (identifiersAfter none none tokens) := by
  have hafter := identifiersAfter_eq tokens []
  rw [List.nil_append, List.length_nil] at hafter
  rw [identifierMaterial, hafter]
  rfl

/-! ## Tokens that are no label -/

/-- No label, and no word of one. -/
structure Neutral (token : List UInt8) : Prop where
  trace_label : isTraceLabel token = false
  span_label : isSpanLabel token = false
  trace : token ≠ asciiBytes "trace"
  span : token ≠ asciiBytes "span"
  id : token ≠ asciiBytes "id"

theorem neutral_of_isCanonicalUuid {token : List UInt8} (h : isCanonicalUuid token = true) :
    Neutral token := by
  have hlength := length_of_isCanonicalUuid h
  have hother : ∀ word : String, (asciiBytes word).length ≠ 36 → token ≠ asciiBytes word := by
    rintro word hword rfl
    exact hword hlength
  constructor
  · simp only [isTraceLabel, traceLabels, List.any_eq_false, decide_eq_true_eq]
    exact fun word hword => hother word (by revert word; decide)
  · simp only [isSpanLabel, spanLabels, List.any_eq_false, decide_eq_true_eq]
    exact fun word hword => hother word (by revert word; decide)
  all_goals exact hother _ (by decide)

theorem IsPiece.ne_word {piece : List UInt8} (h : IsPiece piece) {word : String}
    (hword : ¬ ((asciiBytes word).all isAsciiHexdigit = true ∧ ((asciiBytes word).length = 4 ∨
      (asciiBytes word).length = 8 ∨ (asciiBytes word).length = 12))) :
    piece ≠ asciiBytes word := by
  rintro rfl
  exact hword ⟨h.hex, h.length⟩

theorem IsPiece.neutral {piece : List UInt8} (h : IsPiece piece) : Neutral piece := by
  constructor
  · simp only [isTraceLabel, traceLabels, List.any_eq_false, decide_eq_true_eq]
    exact fun word hword => h.ne_word (by revert word; decide +kernel)
  · simp only [isSpanLabel, spanLabels, List.any_eq_false, decide_eq_true_eq]
    exact fun word hword => h.ne_word (by revert word; decide +kernel)
  all_goals exact h.ne_word (by decide +kernel)

theorem IsPiece.isStopTerm {piece : List UInt8} (h : IsPiece piece) :
    isStopTerm piece = false := by
  simp only [Evidentrail.isStopTerm, stopTerms, List.any_eq_false, decide_eq_true_eq]
  exact fun word hword => h.ne_word (by revert word; decide +kernel)

theorem IsPiece.identifierKindAfter {piece : List UInt8} (h : IsPiece piece)
    (before last : Option (List UInt8)) : identifierKindAfter before last piece = none := by
  have hlength := h.length
  have huuid : isCanonicalUuid piece = false := Bool.eq_false_iff.mpr fun huuid => by
    have := length_of_isCanonicalUuid huuid
    omega
  have hcode : isRustErrorCode piece = false := Bool.eq_false_iff.mpr fun hcode => by
    simp only [isRustErrorCode, Bool.and_eq_true, decide_eq_true_eq] at hcode
    omega
  have hhex : ∀ count, count = 32 ∨ count = 16 → isTraceHex piece count = false := by
    intro count hcount
    refine Bool.eq_false_iff.mpr fun hhex => ?_
    simp only [isTraceHex, Bool.and_eq_true, decide_eq_true_eq] at hhex
    omega
  simp [Evidentrail.identifierKindAfter, huuid, hcode, hhex]

/-- Nothing, or nothing of a label, stands there. -/
def IsUnlabelled (token : Option (List UInt8)) : Prop := ∀ named ∈ token, Neutral named

/-- The same token, or two that are no label. -/
def IsAlike (token token' : Option (List UInt8)) : Prop :=
  token = token' ∨ IsUnlabelled token ∧ IsUnlabelled token'

/-- Two places that make the same of a token, and of the one behind it. -/
inductive SameContext : Option (List UInt8) → Option (List UInt8) →
    Option (List UInt8) → Option (List UInt8) → Prop
  | same {before before' last : Option (List UInt8)} :
      IsAlike before before' → SameContext before last before' last
  | unlabelled {before last before' last' : Option (List UInt8)} :
      IsUnlabelled last → IsUnlabelled last' → SameContext before last before' last'

theorem isLabelled_of_unlabelled {isLabel : List UInt8 → Bool} {word : String}
    (hlabel : ∀ {token}, Neutral token → isLabel token = false)
    {before last : Option (List UInt8)} (h : IsUnlabelled last) :
    isLabelled isLabel word before last = false := by
  cases last with
  | none => simp [isLabelled]
  | some token =>
      have hneutral := h token rfl
      simp [isLabelled, hlabel hneutral, hneutral.id]

namespace SameContext

variable {before last before' last' : Option (List UInt8)}
  (h : SameContext before last before' last')

include h

theorem isLabelled {isLabel : List UInt8 → Bool} {word : String}
    (hlabel : ∀ {token}, Neutral token → isLabel token = false)
    (hword : ∀ {token}, Neutral token → token ≠ asciiBytes word) :
    isLabelled isLabel word before last = isLabelled isLabel word before' last' := by
  cases h with
  | same hbefore =>
      have hiff : before = some (asciiBytes word) ↔ before' = some (asciiBytes word) := by
        rcases hbefore with rfl | ⟨hneutral, hneutral'⟩
        · exact Iff.rfl
        · exact ⟨fun heq => absurd rfl (hword (hneutral _ heq)),
            fun heq => absurd rfl (hword (hneutral' _ heq))⟩
      rw [Evidentrail.isLabelled, Evidentrail.isLabelled, decide_eq_decide.mpr hiff]
  | unlabelled hlast hlast' =>
      rw [isLabelled_of_unlabelled hlabel hlast, isLabelled_of_unlabelled hlabel hlast']

theorem identifierKindAfter (token : List UInt8) :
    identifierKindAfter before last token = identifierKindAfter before' last' token := by
  rw [Evidentrail.identifierKindAfter, Evidentrail.identifierKindAfter,
    h.isLabelled Neutral.trace_label Neutral.trace, h.isLabelled Neutral.span_label Neutral.span]

theorem next (token : List UInt8) : SameContext last (some token) last' (some token) := by
  cases h with
  | same _ => exact .same (.inl rfl)
  | unlabelled hlast hlast' => exact .same (.inr ⟨hlast, hlast'⟩)

end SameContext

/-- The pieces behind a UUID give no identifier and leave a place where nothing is
labelled. -/
theorem identifiersAfter_pieces {pieces rest : List (List UInt8)} :
    ∀ {before last : Option (List UInt8)}, (∀ piece ∈ pieces, IsPiece piece) →
      IsUnlabelled last → ∃ before' last', IsUnlabelled last' ∧
        identifiersAfter before last (pieces ++ rest) = identifiersAfter before' last' rest := by
  induction pieces with
  | nil => exact fun _ hlast => ⟨_, _, hlast, rfl⟩
  | cons piece pieces ih =>
      intro before last hpieces hlast
      obtain ⟨hpiece, hpieces⟩ := List.forall_mem_cons.mp hpieces
      have hneutral : IsUnlabelled (some piece) := by
        rintro token ⟨⟩
        exact hpiece.neutral
      obtain ⟨before', last', hlast', heq⟩ := ih hpieces hneutral
      refine ⟨before', last', hlast', ?_⟩
      rw [List.cons_append, identifiersAfter, hpiece.identifierKindAfter, ← heq]
      rfl

theorem identifiersAfter_of_widens {narrow wide : List (List UInt8)} (h : Widens narrow wide) :
    ∀ {before last before' last' : Option (List UInt8)},
      SameContext before last before' last' →
      identifiersAfter before last narrow = identifiersAfter before' last' wide := by
  induction h with
  | nil => exact fun _ => rfl
  | cons token _ ih =>
      intro before last before' last' hcontext
      rw [identifiersAfter, identifiersAfter, hcontext.identifierKindAfter,
        ih (hcontext.next token)]
  | @cut uuid pieces narrow wide huuid hpieces _ ih =>
      intro before last before' last' hcontext
      have hneutral : IsUnlabelled (some uuid) := by
        rintro token ⟨⟩
        exact neutral_of_isCanonicalUuid huuid
      obtain ⟨before'', last'', hlast'', heq⟩ :=
        @identifiersAfter_pieces pieces wide last' _ hpieces hneutral
      rw [List.cons_append, identifiersAfter, identifiersAfter, hcontext.identifierKindAfter, heq,
        ih (.unlabelled hneutral hlast'')]

/-- The identifiers do not depend on the spelling. -/
theorem Widens.identifierMaterial_eq {narrow wide : List (List UInt8)} (h : Widens narrow wide) :
    identifierMaterial wide = identifierMaterial narrow := by
  rw [Evidentrail.identifierMaterial_eq, Evidentrail.identifierMaterial_eq,
    identifiersAfter_of_widens h (.same (.inl rfl))]

/-! ## Terms -/

/-- No identifier is as short as a piece. -/
theorem IsPiece.not_mem_identifierTokens {piece : List UInt8} (h : IsPiece piece)
    (tokens : List (List UInt8)) : piece ∉ identifierTokens (identifierMaterial tokens) := by
  intro hmem
  obtain ⟨identifier, hidentifier, rfl⟩ := mem_identifierTokens.mp hmem
  obtain ⟨position, _, hkind⟩ := mem_identifierMaterial.mp hidentifier
  have hlength := length_of_identifierKind hkind
  have hpiece := h.length
  revert hlength
  cases identifier.kind <;> simp only [ValidatedIdentifierKindV1.tokenLength] <;> omega

/-- The terms of a question with these tokens. -/
def queryTerms (tokens : List (List UInt8)) : ExtTreeSet (List UInt8) :=
  termTokens tokens (identifierTokens (identifierMaterial tokens))

namespace Widens

variable {narrow wide : List (List UInt8)} (h : Widens narrow wide)

include h

theorem mem_queryTerms {token : List UInt8} :
    token ∈ queryTerms wide ↔
      token ∈ queryTerms narrow ∨ token ∈ wide ∧ token ∉ narrow := by
  rw [queryTerms, queryTerms, h.identifierMaterial_eq, mem_termTokens, mem_termTokens]
  by_cases hnarrow : token ∈ narrow
  · simp [hnarrow, h.sublist.subset hnarrow]
  · refine ⟨fun hwide => .inr ⟨hwide.1, hnarrow⟩, ?_⟩
    rintro (hterm | ⟨hwide, _⟩)
    · exact absurd hterm.1 hnarrow
    · have hpiece := h.isPiece_of_not_mem hwide hnarrow
      have hlength := hpiece.length
      refine ⟨hwide, ?_, hpiece.not_mem_identifierTokens narrow, hpiece.isStopTerm, ?_⟩
      · simp only [minQueryTermBytesV1]
        omega
      · simp [isIdentifierLabel, hpiece.neutral.trace_label, hpiece.neutral.span_label]

theorem queryTerms_eq_iff : queryTerms wide = queryTerms narrow ↔ wide ⊆ narrow := by
  constructor
  · intro heq token htoken
    by_contra hnew
    have hterm := h.mem_queryTerms.mpr (.inr ⟨htoken, hnew⟩)
    rw [heq, queryTerms, mem_termTokens] at hterm
    exact hnew hterm.1
  · intro hsub
    refine ExtTreeSet.ext_mem fun token => ?_
    rw [h.mem_queryTerms, or_iff_left]
    exact fun ⟨hwide, hnew⟩ => hnew (hsub hwide)

theorem size_queryTerms_le : (queryTerms narrow).size ≤ (queryTerms wide).size := by
  have hunion : queryTerms narrow ∪ queryTerms wide = queryTerms wide := by
    refine ExtTreeSet.ext_mem fun token => ?_
    rw [ExtTreeSet.mem_union_iff, or_iff_right_of_imp]
    exact fun hnarrow => h.mem_queryTerms.mpr (.inl hnarrow)
  rw [← hunion]
  exact ExtTreeSet.size_left_le_size_union

theorem isOverlong (hwide : IsOverlong wide) : IsOverlong narrow :=
  h.exists_long (by decide) hwide

end Widens

/-! ## Answers -/

section Answers

variable [Sha256]

/-- What a caller reads of the answer: the reason, or the terms and identifiers. The
digest is of the bytes as written. -/
def queryAnswer (question : List UInt8) :
    Except CandidateNeedsMoreV1 (List QueryTermV1 × List ValidatedQueryIdentifierV1) :=
  (preprocessQueryV1 question).map fun query => (query.terms, query.identifiers)

def SameAnswer (question question' : List UInt8) : Prop :=
  queryAnswer question = queryAnswer question'

instance (question question' : List UInt8) : Decidable (SameAnswer question question') :=
  inferInstanceAs (Decidable (queryAnswer question = queryAnswer question'))

/-- The answer for these tokens. -/
def answerOfTokens (tokens : List (List UInt8)) :
    Except CandidateNeedsMoreV1 (List QueryTermV1 × List ValidatedQueryIdentifierV1) :=
  if IsOverlong tokens then .error ⟨.queryTokenBytesCap⟩
  else if maxQueryTokensV1 < tokens.length then .error ⟨.queryTokenCountCap⟩
  else if maxValidatedQueryIdentifiersV1 < (identifierMaterial tokens).size then
    .error ⟨.validatedIdentifierCountCap⟩
  else if maxQueryTermsV1 < (queryTerms tokens).size then .error ⟨.queryTermCountCap⟩
  else .ok ((queryTerms tokens).toList.map QueryTermV1.mk,
    sortByKey ValidatedQueryIdentifierV1.key (identifierMaterial tokens).toList)

omit [Sha256] in
theorem isOverlong_canonical {tokens : List (List UInt8)} :
    IsOverlong (tokens.map canonicalizeAscii) ↔ IsOverlong tokens := by
  simp [IsOverlong, ← List.map_take, canonicalizeAscii]

theorem queryAnswer_eq (question : List UInt8) :
    queryAnswer question =
      if maxQuestionBytesV1 < question.length then .error ⟨.questionBytesCap⟩
      else answerOfTokens ((asciiTokens question).map canonicalizeAscii) := by
  simp only [queryAnswer, preprocessQueryV1_eq, answerOfTokens, isOverlong_canonical,
    List.length_map, gt_iff_lt]
  split
  · rfl
  split
  · rfl
  split
  · rfl
  rw [queryOfTokens]
  simp only [gt_iff_lt]
  split
  · rfl
  rw [queryTerms]
  split <;> rfl

/-! ## When the spelling makes no difference -/

omit [Sha256]

/-- The spelling with fewer tokens is over a cap that the other is over as well, or
no token of the other is new. -/
def PiecesAgree (narrow wide : List (List UInt8)) : Prop :=
  IsOverlong wide ∨ ¬ IsOverlong narrow ∧
    (maxQueryTokensV1 < narrow.length ∨ wide.length ≤ maxQueryTokensV1 ∧
      (maxValidatedQueryIdentifiersV1 < (identifierMaterial narrow).size ∨
        maxQueryTermsV1 < (queryTerms narrow).size ∨ wide ⊆ narrow))

/-- A spelling in between agrees as well. -/
theorem PiecesAgree.between {narrow middle wide : List (List UInt8)}
    (h : PiecesAgree narrow wide) (hwide : Widens middle wide) : PiecesAgree narrow middle := by
  rcases h with hlong | ⟨hshort, hmany | ⟨hfew, hcap⟩⟩
  · exact .inl (hwide.isOverlong hlong)
  · exact .inr ⟨hshort, .inl hmany⟩
  · refine .inr ⟨hshort, .inr ⟨hwide.sublist.length_le.trans hfew, ?_⟩⟩
    rcases hcap with hidentifiers | hterms | hsub
    · exact .inl hidentifiers
    · exact .inr (.inl hterms)
    · exact .inr (.inr fun token htoken => hsub (hwide.sublist.subset htoken))

theorem terms_toList_injective {terms terms' : ExtTreeSet (List UInt8)}
    (h : terms.toList.map QueryTermV1.mk = terms'.toList.map QueryTermV1.mk) :
    terms = terms' := by
  have hmk : Function.Injective QueryTermV1.mk := fun _ _ heq => (QueryTermV1.mk.inj heq)
  refine ExtTreeSet.ext_mem fun token => ?_
  rw [← ExtTreeSet.mem_toList, List.map_injective_iff.mpr hmk h, ExtTreeSet.mem_toList]

theorem answerOfTokens_eq_iff {narrow wide : List (List UInt8)} (h : Widens narrow wide) :
    answerOfTokens wide = answerOfTokens narrow ↔ PiecesAgree narrow wide := by
  have hlength := h.sublist.length_le
  have hsize := h.size_queryTerms_le
  unfold answerOfTokens PiecesAgree
  rw [h.identifierMaterial_eq]
  by_cases hlong : IsOverlong wide
  · simp [hlong, h.isOverlong hlong]
  simp only [hlong, if_false, false_or]
  by_cases hlong' : IsOverlong narrow
  · simp only [hlong', if_true, not_true_eq_false, false_and, iff_false]
    split
    · simp
    split
    · simp
    split <;> simp
  simp only [hlong', if_false, not_false_eq_true, true_and]
  by_cases hmany' : maxQueryTokensV1 < narrow.length
  · simp [hmany', Nat.lt_of_lt_of_le hmany' hlength]
  simp only [hmany', if_false, false_or]
  by_cases hmany : maxQueryTokensV1 < wide.length
  · simp only [hmany, if_true, Nat.not_le.mpr hmany, false_and, iff_false]
    split
    · simp
    split <;> simp
  simp only [hmany, if_false, Nat.le_of_not_gt hmany, true_and]
  by_cases hidentifiers : maxValidatedQueryIdentifiersV1 < (identifierMaterial narrow).size
  · simp [hidentifiers]
  simp only [hidentifiers, if_false, false_or]
  by_cases hterms' : maxQueryTermsV1 < (queryTerms narrow).size
  · simp [hterms', Nat.lt_of_lt_of_le hterms' hsize]
  simp only [hterms', if_false, false_or]
  rw [← h.queryTerms_eq_iff]
  by_cases hterms : maxQueryTermsV1 < (queryTerms wide).size
  · have hdiffer : queryTerms wide ≠ queryTerms narrow := fun heq => hterms' (heq ▸ hterms)
    simp [hterms, hdiffer]
  · rw [if_neg hterms, Except.ok.injEq, Prod.mk.injEq]
    exact ⟨fun heq => terms_toList_injective heq.1, fun heq => ⟨by rw [heq], rfl⟩⟩

/-- The tokens of the question in small letters and in capitals. -/
def smallTokens (question : List UInt8) : List (List UInt8) :=
  (asciiTokens (question.map toAsciiLowercase)).map canonicalizeAscii

def capitalTokens (question : List UInt8) : List (List UInt8) :=
  (asciiTokens (question.map toAsciiUppercase)).map canonicalizeAscii

theorem widens_smallTokens (question : List UInt8) :
    Widens (smallTokens question) ((asciiTokens question).map canonicalizeAscii) := by
  have h := widens_asciiTokens keepsLetters_lower keepsLetters_id
    (fun _ => isCanonicalUuid_lower) question
  rwa [List.map_id] at h

theorem widens_capitalTokens (question : List UInt8) :
    Widens ((asciiTokens question).map canonicalizeAscii) (capitalTokens question) := by
  have h := widens_asciiTokens keepsLetters_id keepsLetters_upper
    (fun _ => isCanonicalUuid_of_upper) question
  rwa [List.map_id] at h

namespace CaseVariant

variable {question question' : List UInt8} (h : CaseVariant question question')

include h

theorem length_eq : question'.length = question.length := by
  have hlength := congrArg List.length h
  rw [List.length_map, List.length_map] at hlength
  exact hlength.symm

theorem smallTokens_eq : smallTokens question' = smallTokens question := by
  rw [smallTokens, smallTokens, h]

theorem capitalTokens_eq : capitalTokens question' = capitalTokens question := by
  have hupper : ∀ bytes : List UInt8,
      bytes.map toAsciiUppercase = (bytes.map toAsciiLowercase).map toAsciiUppercase := by
    intro bytes
    rw [List.map_map]
    exact List.map_congr_left fun b _ => (toAsciiUppercase_toAsciiLowercase b).symm
  rw [capitalTokens, capitalTokens, hupper question, hupper question', h]

end CaseVariant

theorem caseVariant_map {f : UInt8 → UInt8} (hf : KeepsLetters f) (question : List UInt8) :
    CaseVariant question (question.map f) := by
  rw [CaseVariant, List.map_map]
  exact List.map_congr_left fun b _ => (hf b).symm

end Answers

/-- For every question and every other spelling of it, the reason or the terms and
identifiers are the same, and what is answered is well formed, exactly if the
question is over the byte cap or its spellings in small letters and in capitals agree
about the pieces of its UUIDs. -/
theorem preprocess_case_insensitive_iff [Sha256] (question : List UInt8) :
    ((∀ question', CaseVariant question question' → SameAnswer question question') ∧
      ∀ query, preprocessQueryV1 question = .ok query → query.WellFormed) ↔
    maxQuestionBytesV1 < question.length ∨
      PiecesAgree (smallTokens question) (capitalTokens question) := by
  rw [and_iff_left fun query => preprocessQueryV1_wellFormed]
  by_cases hbytes : maxQuestionBytesV1 < question.length
  · refine iff_of_true (fun question' hvariant => ?_) (.inl hbytes)
    rw [SameAnswer, queryAnswer_eq, queryAnswer_eq, hvariant.length_eq, if_pos hbytes,
      if_pos hbytes]
  -- the answer of a spelling is that of its tokens
  have hanswer : ∀ question', CaseVariant question question' →
      queryAnswer question' = answerOfTokens ((asciiTokens question').map canonicalizeAscii) := by
    intro question' hvariant
    rw [queryAnswer_eq, hvariant.length_eq, if_neg hbytes]
  rw [or_iff_right hbytes]
  constructor
  · intro h
    have hsmall := caseVariant_map keepsLetters_lower question
    have hcapital := caseVariant_map keepsLetters_upper question
    have hsame := (h _ hsmall).symm.trans (h _ hcapital)
    rw [hanswer _ hsmall, hanswer _ hcapital] at hsame
    have hwidens := widens_smallTokens (question.map toAsciiUppercase)
    rw [hcapital.smallTokens_eq] at hwidens
    exact (answerOfTokens_eq_iff hwidens).mp hsame.symm
  · intro hagree question' hvariant
    have hsmall : ∀ variant, CaseVariant question variant →
        queryAnswer variant = answerOfTokens (smallTokens question) := by
      intro variant hvariant
      have hnarrow := widens_smallTokens variant
      have hwide := widens_capitalTokens variant
      rw [hvariant.smallTokens_eq] at hnarrow
      rw [hvariant.capitalTokens_eq] at hwide
      rw [hanswer variant hvariant]
      exact (answerOfTokens_eq_iff hnarrow).mpr (hagree.between hwide)
    rw [SameAnswer, hsmall question rfl, hsmall question' hvariant]

/-- A UUID whose variant digit is a capital is cut, and its five pieces are terms. -/
theorem capital_variant_adds_terms :
    letI := fips180
    let question := asciiBytes "550e8400-e29b-41d4-A716-446655440000"
    let question' := asciiBytes "550e8400-e29b-41d4-a716-446655440000"
    CaseVariant question question' ∧ ¬ SameAnswer question question' := by
  let := fips180
  exact ⟨by decide +kernel, by decide +kernel⟩

end Evidentrail
