import Evidentrail.Candidates.Tokens
import Evidentrail.Lib.Search

/-!
# Query preprocessing

The question is read as ASCII tokens in small letters. Tokens that validate as
identifiers, by their own form or by a label in front of them, become identifiers;
what is left, without stop words and labels, becomes terms. Each count has a cap,
and the first one passed is the answer.
-/

namespace Evidentrail

open Rust Std Ascii Visit Slice

/-! ## Bounds -/

def maxQuestionBytesV1 : Nat := 64 * 1024
def maxQueryTokensV1 : Nat := 256
def minQueryTermBytesV1 : Nat := 2
def maxQueryTermBytesV1 : Nat := 128
def maxQueryTermsV1 : Nat := 128
def maxValidatedQueryIdentifiersV1 : Nat := 32

/-! ## Vocabulary -/

inductive CandidateNeedsMoreReasonV1 where
  | questionBytesCap
  | queryTokenCountCap
  | queryTokenBytesCap
  | queryTermCountCap
  | validatedIdentifierCountCap
  | primaryBlockCountCap
  | primaryBytesScannedCap
  | identifierBlockFanoutCap
  | mandatoryBlockCountCap
  | emittedSignalCountCap
  | coverageAnalysisTokenCap
  | coverageSignalObservationCap
  | coverageSourceLaneCap
  | coverageFacetOutputCap
  | coverageAffinityOutputCap
  | coverageSentinelOutputCap
  | providerIdentityBytesScannedCap
  | providerAttestationBytesScannedCap
  | providerAttestationCountCap
  | providerCorrelationKeyCap
  | providerGraphNodeCap
  | providerGraphEdgeCap
  | providerRelationFanoutCap
  | providerGraphDegreeCap
  | providerFacetOutputCap
  | providerAffinityOutputCap
  | arithmeticCapacity
deriving DecidableEq

structure CandidateNeedsMoreV1 where
  reason : CandidateNeedsMoreReasonV1
deriving DecidableEq

/-- Closed identifier grammar. -/
inductive ValidatedIdentifierKindV1 where
  | canonicalUuid
  | traceIdHex128
  | spanIdHex64
  | rustCompilerErrorCode
deriving DecidableEq

namespace ValidatedIdentifierKindV1

def code : ValidatedIdentifierKindV1 → String
  | .canonicalUuid => "canonical_uuid"
  | .traceIdHex128 => "trace_id_hex_128"
  | .spanIdHex64 => "span_id_hex_64"
  | .rustCompilerErrorCode => "rust_compiler_error_code"

/-- The declaration order, which `derive(Ord)` follows. -/
def rank : ValidatedIdentifierKindV1 → UInt8
  | .canonicalUuid => 0
  | .traceIdHex128 => 1
  | .spanIdHex64 => 2
  | .rustCompilerErrorCode => 3

theorem rank_injective : Function.Injective rank := by
  intro a b h
  cases a <;> cases b <;> first | rfl | cases h

end ValidatedIdentifierKindV1

/-- One canonical free-text term in small letters. -/
structure QueryTermV1 where
  canonicalToken : List UInt8
deriving DecidableEq

structure ValidatedQueryIdentifierV1 where
  kind : ValidatedIdentifierKindV1
  canonicalToken : List UInt8
deriving DecidableEq

namespace ValidatedQueryIdentifierV1

/-- The pair in a B-tree: the kind, then the token. -/
def rank (identifier : ValidatedQueryIdentifierV1) : List (List UInt8) :=
  [[identifier.kind.rank], identifier.canonicalToken]

theorem rank_injective : Function.Injective rank := by
  rintro ⟨kind, token⟩ ⟨kind', token'⟩ h
  simp only [rank, List.cons.injEq, and_true] at h
  rw [ValidatedIdentifierKindV1.rank_injective h.1, h.2]

instance : Ord ValidatedQueryIdentifierV1 := ⟨compareOn rank⟩

instance : TransOrd ValidatedQueryIdentifierV1 := inferInstanceAs (TransCmp (compareOn rank))

instance : LawfulEqOrd ValidatedQueryIdentifierV1 := lawfulEqCmp_compareOn rank_injective

/-- The order of the answer: the token, then the kind. -/
def key (identifier : ValidatedQueryIdentifierV1) : List (List UInt8) :=
  [identifier.canonicalToken, [identifier.kind.rank]]

/-- The kind's code, a zero byte and the token. -/
def canonicalSemanticKey (identifier : ValidatedQueryIdentifierV1) : List UInt8 :=
  asciiBytes identifier.kind.code ++ [0] ++ identifier.canonicalToken

end ValidatedQueryIdentifierV1

structure PreprocessedQueryV1 where
  questionDigest : QuestionDigest
  terms : List QueryTermV1
  identifiers : List ValidatedQueryIdentifierV1
deriving DecidableEq

/-! ## Grammars -/

def canonicalizeAscii (token : List UInt8) : List UInt8 := token.map toAsciiLowercase

def isRustErrorCode (token : List UInt8) : Bool :=
  token.length = 5 && token[0]? = some 101 && (token.drop 1).all isAsciiDigit
    && token.drop 1 ≠ asciiBytes "0000"

def isTraceHex (token : List UInt8) (expectedLen : Nat) : Bool :=
  token.length = expectedLen && token.all isAsciiHexdigit && token.any (· ≠ 48)

def traceLabels : List String := ["trace", "trace_id", "trace-id", "trace.id", "traceid"]

def spanLabels : List String := ["span", "span_id", "span-id", "span.id", "spanid"]

def isTraceLabel (token : List UInt8) : Bool := traceLabels.any (token = asciiBytes ·)

def isSpanLabel (token : List UInt8) : Bool := spanLabels.any (token = asciiBytes ·)

/-- The token in front is a label, or the two in front are its words. -/
def hasLabel (isLabel : List UInt8 → Bool) (word : String) (tokens : List (List UInt8))
    (valuePosition : Nat) : Bool :=
  (1 ≤ valuePosition && tokens[valuePosition - 1]?.any isLabel)
    || (2 ≤ valuePosition && tokens[valuePosition - 2]? = some (asciiBytes word)
      && tokens[valuePosition - 1]? = some (asciiBytes "id"))

def hasTraceLabel (tokens : List (List UInt8)) (valuePosition : Nat) : Bool :=
  hasLabel isTraceLabel "trace" tokens valuePosition

def hasSpanLabel (tokens : List (List UInt8)) (valuePosition : Nat) : Bool :=
  hasLabel isSpanLabel "span" tokens valuePosition

def isIdentifierLabel (token : List UInt8) : Bool := isTraceLabel token || isSpanLabel token

def stopTerms : List String :=
  ["an", "and", "are", "did", "do", "does", "for", "from", "how", "in", "is", "it", "log",
    "logs", "of", "on", "the", "to", "was", "were", "what", "when", "where", "why", "with"]

def isStopTerm (token : List UInt8) : Bool := stopTerms.any (token = asciiBytes ·)

/-! ## Preprocessing -/

/-- The visitor that keeps the tokens. An empty one marks a token that is too long. -/
def keepToken (tokens : List (List UInt8)) (token : List UInt8) : List (List UInt8) × Bool :=
  if tokens.length ≥ maxQueryTokensV1 then (tokens, false)
  else if token.length > maxQueryTermBytesV1 then (tokens ++ [[]], false)
  else (tokens ++ [canonicalizeAscii token], true)

/-- The visitor that counts up to a limit. -/
def countToken (limit count : Nat) (_ : List UInt8) : Nat × Bool :=
  match checkedAdd count 1 with
  | none => (count, false)
  | some next => (next, next < limit)

def countAsciiTokensUpTo (bytes : List UInt8) (limit : Nat) : Nat :=
  forEachAsciiToken (countToken limit) 0 bytes

/-- The kind a token validates as, at its place in the question. -/
def identifierKind (tokens : List (List UInt8)) (position : Nat) (token : List UInt8) :
    Option ValidatedIdentifierKindV1 :=
  if isCanonicalUuid token then some .canonicalUuid
  else if isRustErrorCode token then some .rustCompilerErrorCode
  else if hasTraceLabel tokens position && isTraceHex token 32 then some .traceIdHex128
  else if hasSpanLabel tokens position && isTraceHex token 16 then some .spanIdHex64
  else none

def identifierMaterial (tokens : List (List UInt8)) : ExtTreeSet ValidatedQueryIdentifierV1 :=
  ExtTreeSet.ofList (tokens.zipIdx.filterMap fun (token, position) =>
    (identifierKind tokens position token).map (ValidatedQueryIdentifierV1.mk · token))

/-- The tokens of the identifiers, as a set. -/
def identifierTokens (material : ExtTreeSet ValidatedQueryIdentifierV1) :
    ExtTreeSet (List UInt8) :=
  ExtTreeSet.ofList (material.toList.map (·.canonicalToken))

def termTokens (tokens : List (List UInt8)) (excluded : ExtTreeSet (List UInt8)) :
    ExtTreeSet (List UInt8) :=
  ExtTreeSet.ofList (tokens.filter fun token =>
    token.length ≥ minQueryTermBytesV1 && !(token ∈ excluded)
      && !isStopTerm token && !isIdentifierLabel token)

section Preprocess

variable [Sha256]

/-- What follows when the tokens are within their caps. -/
def queryOfTokens (question : List UInt8) (tokens : List (List UInt8)) :
    Except CandidateNeedsMoreV1 PreprocessedQueryV1 :=
  let material := identifierMaterial tokens
  if material.size > maxValidatedQueryIdentifiersV1 then
    .error ⟨.validatedIdentifierCountCap⟩
  else
    let terms := termTokens tokens (identifierTokens material)
    if terms.size > maxQueryTermsV1 then .error ⟨.queryTermCountCap⟩
    else .ok {
      questionDigest := deriveQuestionDigestV1 question
      terms := terms.toList.map QueryTermV1.mk
      identifiers := sortByKey ValidatedQueryIdentifierV1.key material.toList }

def preprocessQueryV1 (question : List UInt8) :
    Except CandidateNeedsMoreV1 PreprocessedQueryV1 :=
  if question.length > maxQuestionBytesV1 then .error ⟨.questionBytesCap⟩
  else
    let tokens := forEachAsciiToken keepToken [] question
    if tokens.getLast?.any (· = []) then .error ⟨.queryTokenBytesCap⟩
    else if countAsciiTokensUpTo question (maxQueryTokensV1 + 1) > maxQueryTokensV1 then
      .error ⟨.queryTokenCountCap⟩
    else queryOfTokens question tokens

end Preprocess

/-! ## What the visitors see -/

/-- A token among the first that are kept is too long. -/
def IsOverlong (tokens : List (List UInt8)) : Prop :=
  ∃ token ∈ tokens.take maxQueryTokensV1, maxQueryTermBytesV1 < token.length

instance (tokens : List (List UInt8)) : Decidable (IsOverlong tokens) :=
  inferInstanceAs (Decidable (∃ token ∈ tokens.take maxQueryTokensV1, _))

/-- The tokens that fit beside those that are kept already. -/
theorem feed_keepToken {tokens : List (List UInt8)} : ∀ {kept : List (List UInt8)},
    kept.length ≤ maxQueryTokensV1 →
    if ∃ token ∈ tokens.take (maxQueryTokensV1 - kept.length), maxQueryTermBytesV1 < token.length
    then (feed keepToken kept tokens).1.getLast? = some []
    else (feed keepToken kept tokens).1 =
      kept ++ (tokens.take (maxQueryTokensV1 - kept.length)).map canonicalizeAscii := by
  induction tokens with
  | nil =>
      intro kept _
      simp
  | cons token rest ih =>
      intro kept hroom
      rw [feed, keepToken]
      by_cases hfull : kept.length ≥ maxQueryTokensV1
      · rw [if_pos hfull, show maxQueryTokensV1 - kept.length = 0 by omega]
        simp
      · obtain ⟨room, hleft⟩ : ∃ room, maxQueryTokensV1 - kept.length = room + 1 :=
          ⟨maxQueryTokensV1 - kept.length - 1, by omega⟩
        rw [if_neg hfull, hleft, List.take_succ_cons]
        by_cases hlong : token.length > maxQueryTermBytesV1
        · rw [if_pos ⟨token, List.mem_cons_self .., hlong⟩, if_pos hlong]
          exact List.getLast?_concat
        · rw [if_neg hlong]
          have hnext := @ih (kept ++ [canonicalizeAscii token]) (by
            rw [List.length_append, List.length_singleton]
            omega)
          have hroom' : maxQueryTokensV1 - (kept ++ [canonicalizeAscii token]).length = room := by
            rw [List.length_append, List.length_singleton]
            omega
          rw [hroom'] at hnext
          by_cases hlater : ∃ token ∈ rest.take room, maxQueryTermBytesV1 < token.length
          · obtain ⟨later, hin, hlength⟩ := hlater
            rw [if_pos ⟨later, List.mem_cons_of_mem _ hin, hlength⟩]
            rwa [if_pos ⟨later, hin, hlength⟩] at hnext
          · rw [if_neg hlater] at hnext
            rw [if_neg, hnext, List.append_assoc]
            · rfl
            · rintro ⟨later, hin, hlength⟩
              rcases List.mem_cons.mp hin with rfl | hin
              · exact hlong hlength
              · exact hlater ⟨later, hin, hlength⟩

theorem feed_countToken {limit : Nat} (hlimit : limit < u64Bound) {tokens : List (List UInt8)} :
    ∀ {count : Nat}, count < limit →
      (feed (countToken limit) count tokens).1 = min (count + tokens.length) limit := by
  induction tokens with
  | nil =>
      intro count hcount
      rw [feed_nil, List.length_nil]
      omega
  | cons token rest ih =>
      intro count hcount
      have hnext : checkedAdd count 1 = some (count + 1) := checkedAdd_of_lt (by omega)
      rw [feed, countToken, hnext, List.length_cons]
      by_cases hmore : count + 1 < limit
      · simp only [hmore, decide_true]
        rw [ih hmore]
        omega
      · simp only [hmore, decide_false]
        omega

theorem countAsciiTokensUpTo_eq (bytes : List UInt8) {limit : Nat} (hpos : 0 < limit)
    (hlimit : limit < u64Bound) :
    countAsciiTokensUpTo bytes limit = min (asciiTokens bytes).length limit := by
  rw [countAsciiTokensUpTo, forEachAsciiToken_eq_feed, feed_countToken hlimit hpos, Nat.zero_add]

theorem ne_nil_of_mem_asciiTokens {bytes token : List UInt8} (h : token ∈ asciiTokens bytes) :
    token ≠ [] := by
  obtain ⟨compound, hcompound, htoken⟩ := List.mem_flatMap.mp h
  rcases List.mem_cons.mp htoken with rfl | htoken
  · exact (compounds_trimmed bytes [] _ hcompound).2
  · obtain ⟨component, hcomponent, htoken⟩ := List.mem_flatMap.mp htoken
    rcases List.mem_append.mp htoken with hself | hpart
    · split at hself
      · rw [List.mem_singleton.mp hself]
        simpa using (List.mem_filter.mp hcomponent).2
      · cases hself
    · split at hpart
      · cases hpart
      · have hne := (List.mem_filter.mp hpart).2
        simp only [Bool.not_eq_true', Bool.or_eq_false_iff, decide_eq_false_iff_not] at hne
        exact hne.1.1

theorem canonicalizeAscii_ne_nil {token : List UInt8} (h : token ≠ []) :
    canonicalizeAscii token ≠ [] := by
  rwa [canonicalizeAscii, ne_eq, List.map_eq_nil_iff]

/-- The exits in terms of the list of tokens. -/
theorem preprocessQueryV1_eq [Sha256] (question : List UInt8) :
    preprocessQueryV1 question =
      if question.length > maxQuestionBytesV1 then .error ⟨.questionBytesCap⟩
      else if IsOverlong (asciiTokens question) then .error ⟨.queryTokenBytesCap⟩
      else if (asciiTokens question).length > maxQueryTokensV1 then .error ⟨.queryTokenCountCap⟩
      else queryOfTokens question ((asciiTokens question).map canonicalizeAscii) := by
  have hcount : countAsciiTokensUpTo question (maxQueryTokensV1 + 1) > maxQueryTokensV1 ↔
      (asciiTokens question).length > maxQueryTokensV1 := by
    rw [countAsciiTokensUpTo_eq question (Nat.succ_pos _) (by decide)]
    omega
  have hkept := @feed_keepToken (asciiTokens question) [] (Nat.zero_le _)
  rw [← forEachAsciiToken_eq_feed, List.length_nil, Nat.sub_zero, List.nil_append] at hkept
  change if IsOverlong (asciiTokens question) then _ else _ at hkept
  simp only [preprocessQueryV1, hcount]
  by_cases hlong : IsOverlong (asciiTokens question)
  · rw [if_pos hlong] at hkept
    rw [hkept, if_pos hlong]
    rfl
  · rw [if_neg hlong] at hkept
    rw [hkept, if_neg hlong]
    have hlast : ¬ (((asciiTokens question).take maxQueryTokensV1).map
        canonicalizeAscii).getLast?.any (· = []) = true := by
      rw [Option.any_eq_true]
      rintro ⟨last, hlast, hnil⟩
      obtain ⟨token, htoken, rfl⟩ := List.mem_map.mp (List.mem_of_getLast? hlast)
      exact canonicalizeAscii_ne_nil (ne_nil_of_mem_asciiTokens (List.mem_of_mem_take htoken))
        (of_decide_eq_true hnil)
    rw [if_neg hlast]
    by_cases hmany : (asciiTokens question).length > maxQueryTokensV1
    · rw [if_pos hmany, if_pos hmany]
    · rw [if_neg hmany, if_neg hmany, List.take_of_length_le (Nat.le_of_not_gt hmany)]

/-! ## The answer -/

namespace ValidatedIdentifierKindV1

/-- Kinds are told apart by the length of their tokens. -/
def tokenLength : ValidatedIdentifierKindV1 → Nat
  | .canonicalUuid => 36
  | .traceIdHex128 => 32
  | .spanIdHex64 => 16
  | .rustCompilerErrorCode => 5

theorem tokenLength_injective : Function.Injective tokenLength := by
  intro a b h
  cases a <;> cases b <;> first | rfl | cases h

end ValidatedIdentifierKindV1

theorem length_of_identifierKind {tokens : List (List UInt8)} {position : Nat}
    {token : List UInt8} {kind : ValidatedIdentifierKindV1}
    (h : identifierKind tokens position token = some kind) : token.length = kind.tokenLength := by
  unfold identifierKind at h
  split at h
  · rename_i huuid
    cases h
    simp only [isCanonicalUuid, Bool.and_eq_true, decide_eq_true_eq] at huuid
    exact huuid.1.1.1
  split at h
  · rename_i hcode
    cases h
    simp only [isRustErrorCode, Bool.and_eq_true, decide_eq_true_eq] at hcode
    exact hcode.1.1.1
  split at h
  · rename_i htrace
    cases h
    simp only [isTraceHex, Bool.and_eq_true, decide_eq_true_eq] at htrace
    exact htrace.2.1.1
  split at h
  · rename_i hspan
    cases h
    simp only [isTraceHex, Bool.and_eq_true, decide_eq_true_eq] at hspan
    exact hspan.2.1.1
  · cases h

theorem mem_identifierMaterial {tokens : List (List UInt8)}
    {identifier : ValidatedQueryIdentifierV1} :
    identifier ∈ identifierMaterial tokens ↔ ∃ position,
      tokens[position]? = some identifier.canonicalToken ∧
        identifierKind tokens position identifier.canonicalToken = some identifier.kind := by
  rw [identifierMaterial, mem_ofList, List.mem_filterMap]
  constructor
  · rintro ⟨⟨token, position⟩, hin, hkind⟩
    obtain ⟨kind, hfound, rfl⟩ := Option.map_eq_some_iff.mp hkind
    exact ⟨position, List.mem_zipIdx_iff_getElem?.mp hin, hfound⟩
  · rintro ⟨position, htoken, hkind⟩
    exact ⟨(_, position), List.mem_zipIdx_iff_getElem?.mpr htoken,
      by simp only [hkind, Option.map_some]⟩

theorem mem_identifierTokens {material : ExtTreeSet ValidatedQueryIdentifierV1}
    {token : List UInt8} :
    token ∈ identifierTokens material ↔
      ∃ identifier : ValidatedQueryIdentifierV1, identifier ∈ material ∧
        identifier.canonicalToken = token := by
  simp only [identifierTokens, mem_ofList, List.mem_map, ExtTreeSet.mem_toList]

theorem mem_termTokens {tokens : List (List UInt8)} {excluded : ExtTreeSet (List UInt8)}
    {token : List UInt8} :
    token ∈ termTokens tokens excluded ↔ token ∈ tokens ∧ minQueryTermBytesV1 ≤ token.length ∧
      token ∉ excluded ∧ isStopTerm token = false ∧ isIdentifierLabel token = false := by
  simp only [termTokens, mem_ofList, List.mem_filter, Bool.and_eq_true, decide_eq_true_eq,
    Bool.not_eq_true', decide_eq_false_iff_not, and_assoc, ge_iff_le]

/-- What preprocessing promises of its answer. -/
structure PreprocessedQueryV1.WellFormed (query : PreprocessedQueryV1) : Prop where
  terms_sorted : query.terms.Pairwise fun a b =>
    compare a.canonicalToken b.canonicalToken = .lt
  identifiers_sorted : query.identifiers.Pairwise fun a b =>
    compare a.canonicalToken b.canonicalToken = .lt
  excluded : ∀ identifier ∈ query.identifiers, ∀ term ∈ query.terms,
    term.canonicalToken ≠ identifier.canonicalToken
  one_kind : ∀ a ∈ query.identifiers, ∀ b ∈ query.identifiers,
    a.canonicalToken = b.canonicalToken → a.kind = b.kind

section Answer

variable [Sha256]

theorem queryOfTokens_eq_ok {question : List UInt8} {tokens : List (List UInt8)}
    {query : PreprocessedQueryV1} (h : queryOfTokens question tokens = .ok query) :
    (identifierMaterial tokens).size ≤ maxValidatedQueryIdentifiersV1 ∧
    (termTokens tokens (identifierTokens (identifierMaterial tokens))).size ≤ maxQueryTermsV1 ∧
    query = ⟨deriveQuestionDigestV1 question,
      (termTokens tokens (identifierTokens (identifierMaterial tokens))).toList.map QueryTermV1.mk,
      sortByKey ValidatedQueryIdentifierV1.key (identifierMaterial tokens).toList⟩ := by
  unfold queryOfTokens at h
  simp only at h
  split at h
  · cases h
  rename_i hidentifiers
  split at h
  · cases h
  rename_i hterms
  cases h
  exact ⟨Nat.le_of_not_gt hidentifiers, Nat.le_of_not_gt hterms, rfl⟩

theorem wellFormed_of_queryOfTokens {question : List UInt8} {tokens : List (List UInt8)}
    {query : PreprocessedQueryV1} (h : queryOfTokens question tokens = .ok query) :
    query.WellFormed := by
  obtain ⟨_, _, rfl⟩ := queryOfTokens_eq_ok h
  have hkind : ∀ a ∈ sortByKey ValidatedQueryIdentifierV1.key (identifierMaterial tokens).toList,
      ∀ b ∈ sortByKey ValidatedQueryIdentifierV1.key (identifierMaterial tokens).toList,
        a.canonicalToken = b.canonicalToken → a.kind = b.kind := by
    intro a ha b hb hsame
    obtain ⟨_, _, hka⟩ := mem_identifierMaterial.mp
      (ExtTreeSet.mem_toList.mp ((mem_sortByKey _).mp ha))
    obtain ⟨_, _, hkb⟩ := mem_identifierMaterial.mp
      (ExtTreeSet.mem_toList.mp ((mem_sortByKey _).mp hb))
    refine ValidatedIdentifierKindV1.tokenLength_injective ?_
    rw [← length_of_identifierKind hka, ← length_of_identifierKind hkb, hsame]
  refine ⟨?_, ?_, ?_, hkind⟩
  · have hsorted := (termTokens tokens
      (identifierTokens (identifierMaterial tokens))).ordered_toList
    rw [List.pairwise_map]
    exact hsorted
  · have hinjective : Function.Injective ValidatedQueryIdentifierV1.key := by
      rintro ⟨kind, token⟩ ⟨kind', token'⟩ heq
      simp only [ValidatedQueryIdentifierV1.key, List.cons.injEq, and_true] at heq
      rw [ValidatedIdentifierKindV1.rank_injective heq.2, heq.1]
    have hsorted := strictlySorted_of_nodup ValidatedQueryIdentifierV1.key
      ((nodup_toList (identifierMaterial tokens)).map hinjective)
    -- one kind a token: the order of the keys is decided by the tokens
    refine hsorted.imp_of_mem fun {a b} ha hb hlt => ?_
    simp only [ValidatedQueryIdentifierV1.key, List.compare_cons_cons, Ordering.then_eq_lt] at hlt
    rcases hlt with hlt | ⟨heq, hlt⟩
    · exact hlt
    · rw [hkind a ha b hb (LawfulEqOrd.eq_of_compare heq), ReflOrd.compare_self] at hlt
      simp at hlt
  · intro identifier hidentifier term hterm heq
    obtain ⟨token, htoken, rfl⟩ := List.mem_map.mp hterm
    refine (mem_termTokens.mp (ExtTreeSet.mem_toList.mp htoken)).2.2.1 ?_
    exact mem_identifierTokens.mpr
      ⟨identifier, ExtTreeSet.mem_toList.mp ((mem_sortByKey _).mp hidentifier), heq.symm⟩

/-- The lengths of the tokens in the answer. -/
structure PreprocessedQueryV1.Bounded (query : PreprocessedQueryV1) : Prop where
  terms : ∀ term ∈ query.terms, minQueryTermBytesV1 ≤ term.canonicalToken.length ∧
    term.canonicalToken.length ≤ maxQueryTermBytesV1
  identifiers : ∀ identifier ∈ query.identifiers,
    identifier.canonicalToken.length = identifier.kind.tokenLength

theorem preprocessQueryV1_bounded {question : List UInt8} {query : PreprocessedQueryV1}
    (h : preprocessQueryV1 question = .ok query) : query.Bounded := by
  rw [preprocessQueryV1_eq] at h
  split at h
  · cases h
  split at h
  · cases h
  rename_i hshort
  split at h
  · cases h
  rename_i hfew
  obtain ⟨_, _, rfl⟩ := queryOfTokens_eq_ok h
  constructor
  · intro term hterm
    obtain ⟨token, htoken, rfl⟩ := List.mem_map.mp hterm
    obtain ⟨hin, hmin, _⟩ := mem_termTokens.mp (ExtTreeSet.mem_toList.mp htoken)
    obtain ⟨raw, hraw, rfl⟩ := List.mem_map.mp hin
    refine ⟨hmin, ?_⟩
    rw [canonicalizeAscii, List.length_map]
    refine Nat.le_of_not_lt fun hlong => hshort ⟨raw, ?_, hlong⟩
    rwa [List.take_of_length_le (Nat.le_of_not_gt hfew)]
  · intro identifier hidentifier
    obtain ⟨_, _, hkind⟩ := mem_identifierMaterial.mp
      (ExtTreeSet.mem_toList.mp ((mem_sortByKey _).mp hidentifier))
    exact length_of_identifierKind hkind

theorem preprocessQueryV1_wellFormed {question : List UInt8} {query : PreprocessedQueryV1}
    (h : preprocessQueryV1 question = .ok query) : query.WellFormed := by
  rw [preprocessQueryV1_eq] at h
  split at h
  · cases h
  split at h
  · cases h
  split at h
  · cases h
  exact wellFormed_of_queryOfTokens h

end Answer

end Evidentrail
