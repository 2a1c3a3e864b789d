import Evidentrail.Candidates.Counts
import Evidentrail.Candidates.Scores
import Mathlib.Algebra.Order.BigOperators.Group.List

/-!
# Lexical annotation is exact

What the lane emits, in terms of the tokens of each block. It answers for every
preprocessed query and every index, with a universe exactly within the caps: terms
have the floor of the saturation, identifiers the full scale, and the totals are
sums over the blocks (`annotate_exact`).
-/

namespace Evidentrail

open Rust Std Ascii Slice

/-! ## What is emitted -/

section Emitted

variable [Sha256]

def termFacetId (term : QueryTermV1) : FacetIdV1 :=
  ⟨Sha256.digest (facetPreimage .queryTerm term.canonicalToken)⟩

def identifierFacetId (identifier : ValidatedQueryIdentifierV1) : FacetIdV1 :=
  ⟨Sha256.digest (facetPreimage .validatedQueryIdentifier identifier.canonicalSemanticKey)⟩

/-- The score of a term in a block. -/
def termMicros (index : BlockIndex) (block : EventBlock) (term : QueryTermV1) : Nat :=
  bm25Micros ((blockTokens index block).count term.canonicalToken)
    (blockTokens index block).length (totalTokens index index.blocks) index.blocks.length

/-- The terms, of these, that stand in a block. -/
def termsIn (index : BlockIndex) (block : EventBlock) (terms : List QueryTermV1) :
    List QueryTermV1 :=
  terms.filter (·.canonicalToken ∈ blockTokens index block)

def identifiersIn (index : BlockIndex) (block : EventBlock)
    (identifiers : List ValidatedQueryIdentifierV1) : List ValidatedQueryIdentifierV1 :=
  identifiers.filter (·.canonicalToken ∈ blockTokens index block)

/-- The signals of a block: a term is one, an identifier is an affinity and a reason. -/
def blockSignals (query : PreprocessedQueryV1) (index : BlockIndex) (block : EventBlock) : Nat :=
  (termsIn index block query.terms).length +
    2 * (identifiersIn index block query.identifiers).length

/-- The caps of the lane, on the tokens. -/
structure LexicalCaps (query : PreprocessedQueryV1) (index : BlockIndex) : Prop where
  blocks : index.blocks.length ≤ maxPrimaryBlocksV1
  bytes : totalBytes index index.blocks ≤ maxPrimaryBytesScannedV1
  fanout : ∀ identifier ∈ query.identifiers,
    documentFrequency index index.blocks identifier.canonicalToken ≤ maxIdentifierBlockFanoutV1
  mandatory : index.blocks.countP (fun block => identifiersIn index block query.identifiers ≠ [])
    ≤ maxMandatoryBlocksV1
  signals : (index.blocks.map (blockSignals query index)).sum ≤ maxEmittedSignalsV1

/-- A block with the score of every term in it, and the full scale for identifiers. -/
structure ScoredBlock (query : PreprocessedQueryV1) (index : BlockIndex) (block : EventBlock)
    (candidate : PrimaryBlockCandidateV1) : Prop where
  blockId : candidate.blockId = block.id
  packetId : candidate.packetId = ⟨block.id.digest⟩
  events : candidate.orderedEventIds = block.memberIds
  bytes : candidate.exactByteCount = blockBytes index block
  tokens : candidate.documentTokenCount = (blockTokens index block).length
  affinities : (candidate.affinities.map fun a => (a.facetId, a.affinity.micros)).Perm
    ((termsIn index block query.terms).map (fun term =>
        (termFacetId term, termMicros index block term)) ++
      (identifiersIn index block query.identifiers).map fun identifier =>
        (identifierFacetId identifier, affinityScaleV1))
  mandatoryReasons : candidate.mandatoryReasons.Perm
    ((identifiersIn index block query.identifiers).map fun identifier =>
      ⟨identifierFacetId identifier, identifier.kind⟩)

structure ExactUniverse (query : PreprocessedQueryV1) (index : BlockIndex)
    (candidates : LexicalCandidateUniverseV1) : Prop where
  retrievalId : candidates.retrievalId = index.ledger.retrievalId
  questionDigest : candidates.questionDigest = query.questionDigest
  facets : (candidates.facets.map fun facet => (facet.facet.id, facet.facet.weight.micros)).Perm
    (query.terms.map (fun term => (termFacetId term, idfMicros index.blocks.length
        (documentFrequency index index.blocks term.canonicalToken))) ++
      query.identifiers.map fun identifier => (identifierFacetId identifier, affinityScaleV1))
  weights : ∀ facet ∈ candidates.facets,
    1 ≤ facet.facet.weight.micros ∧ facet.facet.weight.micros ≤ affinityScaleV1
  blocks : List.Forall₂ (ScoredBlock query index) index.blocks candidates.primaryBlocks
  affinities : ∀ candidate ∈ candidates.primaryBlocks, ∀ a ∈ candidate.affinities,
    1 ≤ a.affinity.micros ∧ a.affinity.micros ≤ affinityScaleV1
  scannedBytes : candidates.scannedBytes = (candidates.primaryBlocks.map (·.exactByteCount)).sum
  scannedTokens :
    candidates.scannedTokens = (candidates.primaryBlocks.map (·.documentTokenCount)).sum
  emittedSignalCount : candidates.emittedSignalCount = (candidates.primaryBlocks.map
    fun candidate => candidate.affinities.length + candidate.mandatoryReasons.length).sum
  mandatoryBlockCount : candidates.mandatoryBlockCount =
    candidates.primaryBlocks.countP (·.mandatoryReasons ≠ [])

/-! ## Facets -/

theorem ProductionFacetV1.new_eq_ok (kind : ProductionFacetKindV1) (key : List UInt8)
    (hkind : kind ≠ .providerAttestedGraphRelation) (hpos : 0 < key.length)
    (hlength : key.length ≤ 256) (weight : FacetWeightV1) :
    ProductionFacetV1.new kind key weight =
      .ok ⟨⟨Sha256.digest (facetPreimage kind key)⟩, kind, weight⟩ := by
  have hmax : maxFacetSemanticKeyBytesV1 = 65536 := rfl
  rw [new, if_neg (List.length_pos_iff.mp hpos), if_neg (by omega), if_neg fun h => hkind h.1]

theorem termFacet_eq {blockCount documentFrequency : Nat} {term : QueryTermV1}
    (hterm : minQueryTermBytesV1 ≤ term.canonicalToken.length ∧
      term.canonicalToken.length ≤ maxQueryTermBytesV1)
    (hdf : documentFrequency ≤ blockCount) (hblocks : blockCount ≤ maxPrimaryBlocksV1) :
    termFacet blockCount term documentFrequency = .ok
      ⟨termFacetId term, .queryTerm, .clamp (idfMicros blockCount documentFrequency)⟩ := by
  have hmin : minQueryTermBytesV1 = 2 := rfl
  have hmax : maxQueryTermBytesV1 = 128 := rfl
  have hmaxBlocks : maxPrimaryBlocksV1 = 4096 := rfl
  have h64 : u64Bound = 2 ^ 64 := rfl
  have hnarrow : u64TryFrom documentFrequency = some documentFrequency :=
    u64TryFrom_eq_some.mpr ⟨by omega, rfl⟩
  simp only [termFacet, hnarrow, idfWeight_eq hdf hblocks,
    ProductionFacetV1.new_eq_ok .queryTerm term.canonicalToken (by decide)
      (by omega) (by omega)]
  rfl

theorem identifierFacet_eq {identifier : ValidatedQueryIdentifierV1} (fullWeight : FacetWeightV1)
    (hidentifier : identifier.canonicalToken.length = identifier.kind.tokenLength) :
    identifierFacet fullWeight identifier = .ok
      ⟨identifierFacetId identifier, .validatedQueryIdentifier, fullWeight⟩ := by
  have hkey : identifier.canonicalSemanticKey.length ≤ 256 ∧
      0 < identifier.canonicalSemanticKey.length := by
    rw [ValidatedQueryIdentifierV1.canonicalSemanticKey, List.length_append, List.length_append,
      List.length_singleton, hidentifier]
    cases identifier.kind <;> decide
  simp only [identifierFacet, ProductionFacetV1.new_eq_ok
    .validatedQueryIdentifier _ (by decide) hkey.2 hkey.1]
  rfl

/-! ## Emission -/

omit [Sha256] in
theorem checkedSignalIncrement_eq_ok {current : Nat} (h : current + 1 ≤ maxEmittedSignalsV1) :
    checkedSignalIncrement current = .ok (current + 1) := by
  have hmax : maxEmittedSignalsV1 = 65536 := rfl
  have h64 : u64Bound = 2 ^ 64 := rfl
  rw [checkedSignalIncrement, checkedAdd_of_lt (by omega)]
  simp only [if_neg (Nat.not_lt.mpr h)]

omit [Sha256] in
theorem checkedSignalIncrement_eq_error {current : Nat} (h : ¬ current + 1 ≤ maxEmittedSignalsV1) :
    ∃ reason, checkedSignalIncrement current = .error reason := by
  unfold checkedSignalIncrement
  split
  · exact ⟨_, rfl⟩
  · rename_i next hnext
    obtain ⟨_, rfl⟩ := checkedAdd_eq_some.mp hnext
    rw [if_pos (Nat.lt_of_not_le h)]
    exact ⟨_, rfl⟩

variable {query : PreprocessedQueryV1} {index : BlockIndex}

def termAffinity (index : BlockIndex) (block : EventBlock) (term : QueryTermV1) :
    FacetAffinityV1 :=
  ⟨termFacetId term, .clamp (termMicros index block term)⟩

def identifierAffinity (identifier : ValidatedQueryIdentifierV1) : FacetAffinityV1 :=
  ⟨identifierFacetId identifier, .clamp affinityScaleV1⟩

def identifierReason (identifier : ValidatedQueryIdentifierV1) : MandatoryIdentifierReasonV1 :=
  ⟨identifierFacetId identifier, identifier.kind⟩

/-- The block is one of the index, within the caps on blocks and bytes. -/
structure Scorable (index : BlockIndex) (block : EventBlock) : Prop where
  mem : block ∈ index.blocks
  blocks : index.blocks.length ≤ maxPrimaryBlocksV1
  bytes : totalBytes index index.blocks ≤ maxPrimaryBytesScannedV1

omit [Sha256] in
theorem Scorable.length_le {block : EventBlock} (h : Scorable index block) :
    (blockTokens index block).length ≤ totalTokens index index.blocks :=
  List.le_sum_of_mem (List.mem_map_of_mem h.mem)

omit [Sha256] in
theorem Scorable.bm25Affinity_eq {block : EventBlock} (h : Scorable index block)
    {term : QueryTermV1} (hterm : term.canonicalToken ∈ blockTokens index block) :
    bm25Affinity ((blockTokens index block).count term.canonicalToken)
        (blockTokens index block).length (totalTokens index index.blocks) index.blocks.length =
      .ok (.clamp (termMicros index block term)) := by
  have hbytes := h.bytes
  have htokens := totalTokens_le index index.blocks
  exact Evidentrail.bm25Affinity_eq (List.count_pos_iff.mpr hterm) List.count_le_length
    h.length_le (by omega) (List.length_pos_of_mem h.mem) h.blocks

omit [Sha256] in
theorem termsIn_append (block : EventBlock) (seen : List QueryTermV1) (term : QueryTermV1) :
    termsIn index block (seen ++ [term]) = termsIn index block seen ++
      if term.canonicalToken ∈ blockTokens index block then [term] else [] := by
  rw [termsIn, List.filter_append, List.filter_singleton, Bool.cond_decide]
  rfl

omit [Sha256] in
theorem identifiersIn_append (block : EventBlock) (seen : List ValidatedQueryIdentifierV1)
    (identifier : ValidatedQueryIdentifierV1) :
    identifiersIn index block (seen ++ [identifier]) = identifiersIn index block seen ++
      if identifier.canonicalToken ∈ blockTokens index block then [identifier] else [] := by
  rw [identifiersIn, List.filter_append, List.filter_singleton, Bool.cond_decide]
  rfl

/-- What is emitted for these terms of a block. -/
def termEmission (index : BlockIndex) (block : EventBlock) (start : Nat)
    (terms : List QueryTermV1) : BlockEmission :=
  ⟨(termsIn index block terms).map (termAffinity index block), [],
    start + (termsIn index block terms).length⟩

/-- What is emitted for these identifiers of a block, behind its terms. -/
def identifierEmission (index : BlockIndex) (block : EventBlock) (emission : BlockEmission)
    (identifiers : List ValidatedQueryIdentifierV1) : BlockEmission :=
  ⟨emission.affinities ++ (identifiersIn index block identifiers).map identifierAffinity,
    emission.mandatoryReasons ++ (identifiersIn index block identifiers).map identifierReason,
    emission.emittedSignalCount + 2 * (identifiersIn index block identifiers).length⟩

omit [Sha256] in
theorem emitTerm_absent {facets : List ProductionFacetV1} {scannedTokens blockCount : Nat}
    {block : EventBlock} {emission : BlockEmission} {position : Fin query.terms.length}
    (h : (query.terms.get position).canonicalToken ∉ blockTokens index block) :
    emitTerm facets scannedTokens blockCount (.of index block : BlockStatistics query) emission
      position = .ok emission := by
  have hzero :
      (BlockStatistics.of index block : BlockStatistics query).termFrequencies position = 0 :=
    List.count_eq_zero_of_not_mem h
  rw [emitTerm, if_pos hzero]

/-- The lists of facets stand beside the terms and identifiers of the query. -/
def IdsOf {α : Type} (facets : List ProductionFacetV1) (facetId : α → FacetIdV1) (l : List α) :
    Prop :=
  ∀ position : Fin l.length, ∃ facet,
    facets[position.val]? = some facet ∧ facet.id = facetId (l.get position)

theorem emitTerm_present {block : EventBlock} (h : Scorable index block)
    {facets : List ProductionFacetV1} (hfacets : IdsOf facets termFacetId query.terms)
    {emission : BlockEmission} {position : Fin query.terms.length}
    (hin : (query.terms.get position).canonicalToken ∈ blockTokens index block) :
    let result := emitTerm facets (totalTokens index index.blocks) index.blocks.length
      (.of index block : BlockStatistics query) emission position
    (emission.emittedSignalCount + 1 ≤ maxEmittedSignalsV1 →
      result = .ok { emission with
        affinities := emission.affinities ++ [termAffinity index block (query.terms.get position)]
        emittedSignalCount := emission.emittedSignalCount + 1 }) ∧
    (¬ emission.emittedSignalCount + 1 ≤ maxEmittedSignalsV1 →
      ∃ e, result = .error e ∧ e.IsNeedsMore) := by
  have hfrequency : (BlockStatistics.of index block : BlockStatistics query).termFrequencies
      position ≠ 0 := Nat.ne_of_gt (List.count_pos_iff.mpr hin)
  have hscore : bm25Affinity
      ((BlockStatistics.of index block : BlockStatistics query).termFrequencies position)
      (BlockStatistics.of index block : BlockStatistics query).documentTokens
      (totalTokens index index.blocks) index.blocks.length =
        .ok (.clamp (termMicros index block (query.terms.get position))) := h.bm25Affinity_eq hin
  obtain ⟨facet, hfacet, hid⟩ := hfacets position
  simp only [emitTerm, if_neg hfrequency, hscore, hfacet]
  constructor
  · intro hfits
    simp only [checkedSignalIncrement_eq_ok hfits, hid, termAffinity]
  · intro hfits
    obtain ⟨reason, hreason⟩ := checkedSignalIncrement_eq_error hfits
    simp only [hreason]
    exact ⟨_, rfl, _, rfl⟩

/-- One term more, if it is in the block and the signal fits. -/
theorem steps_emitTerm {block : EventBlock} (h : Scorable index block) {start : Nat}
    (hstart : start ≤ maxEmittedSignalsV1) {facets : List ProductionFacetV1}
    (hfacets : IdsOf facets termFacetId query.terms) :
    Loop.Steps
      (emitTerm facets (totalTokens index index.blocks) index.blocks.length
        (.of index block : BlockStatistics query))
      (fun seen => termEmission index block start (seen.map query.terms.get))
      (fun seen => (termEmission index block start (seen.map query.terms.get)).emittedSignalCount
        ≤ maxEmittedSignalsV1)
      CandidateExit.IsNeedsMore (List.finRange query.terms.length) := by
  have habsent : ∀ {seen : List (Fin query.terms.length)} {position : Fin query.terms.length},
      (query.terms.get position).canonicalToken ∉ blockTokens index block →
      termEmission index block start ((seen ++ [position]).map query.terms.get) =
        termEmission index block start (seen.map query.terms.get) := by
    intro seen position hout
    rw [List.map_append, List.map_singleton, termEmission, termsIn_append, if_neg hout,
      List.append_nil]
    rfl
  have hpresent : ∀ {seen : List (Fin query.terms.length)} {position : Fin query.terms.length},
      (query.terms.get position).canonicalToken ∈ blockTokens index block →
      termEmission index block start ((seen ++ [position]).map query.terms.get) =
        let emission := termEmission index block start (seen.map query.terms.get)
        { emission with
          affinities := emission.affinities ++ [termAffinity index block (query.terms.get position)]
          emittedSignalCount := emission.emittedSignalCount + 1 } := by
    intro seen position hin
    rw [List.map_append, List.map_singleton, termEmission, termsIn_append, if_pos hin,
      List.map_append, List.map_singleton, List.length_append, List.length_singleton]
    rfl
  refine ⟨hstart, fun seen rest hall hfits => ?_, fun seen position rest _ hseen hfits => ?_,
    fun seen position rest _ hseen hfits => ?_⟩
  · rw [hall, termEmission, termsIn, List.map_append, List.filter_append,
      List.length_append] at hfits
    rw [termEmission, termsIn]
    simp only at hfits ⊢
    omega
  all_goals by_cases hin : (query.terms.get position).canonicalToken ∈ blockTokens index block
  · rw [hpresent hin] at hfits ⊢
    exact (emitTerm_present h hfacets hin).1 hfits
  · rw [habsent hin]
    exact emitTerm_absent hin
  · rw [hpresent hin] at hfits
    exact (emitTerm_present h hfacets hin).2 hfits
  · rw [habsent hin] at hfits
    exact absurd hseen hfits

omit [Sha256] in
theorem emitIdentifier_absent {facets : List ProductionFacetV1} {fullAffinity : AffinityV1}
    {block : EventBlock} {emission : BlockEmission} {position : Fin query.identifiers.length}
    (h : (query.identifiers.get position).canonicalToken ∉ blockTokens index block) :
    emitIdentifier facets fullAffinity (.of index block : BlockStatistics query) emission
      position = .ok emission := by
  have hfalse :
      (BlockStatistics.of index block : BlockStatistics query).identifierMatches position =
        false := decide_eq_false h
  rw [emitIdentifier, if_pos hfalse]

theorem emitIdentifier_present {block : EventBlock} {facets : List ProductionFacetV1}
    (hfacets : IdsOf facets identifierFacetId query.identifiers)
    {emission : BlockEmission} {position : Fin query.identifiers.length}
    (hin : (query.identifiers.get position).canonicalToken ∈ blockTokens index block) :
    let result := emitIdentifier facets (.clamp affinityScaleV1)
      (.of index block : BlockStatistics query) emission position
    (emission.emittedSignalCount + 2 ≤ maxEmittedSignalsV1 →
      result = .ok {
        affinities := emission.affinities ++ [identifierAffinity (query.identifiers.get position)]
        mandatoryReasons := emission.mandatoryReasons ++
          [identifierReason (query.identifiers.get position)]
        emittedSignalCount := emission.emittedSignalCount + 2 }) ∧
    (¬ emission.emittedSignalCount + 2 ≤ maxEmittedSignalsV1 →
      ∃ e, result = .error e ∧ e.IsNeedsMore) := by
  have htrue :
      ¬ (BlockStatistics.of index block : BlockStatistics query).identifierMatches position =
        false := by
    rw [Bool.not_eq_false]
    exact decide_eq_true hin
  obtain ⟨facet, hfacet, hid⟩ := hfacets position
  simp only [emitIdentifier, if_neg htrue, hfacet]
  constructor
  · intro hfits
    have hfirst : emission.emittedSignalCount + 1 ≤ maxEmittedSignalsV1 := by omega
    simp only [checkedSignalIncrement_eq_ok hfirst, checkedSignalIncrement_eq_ok hfits, hid,
      identifierAffinity, identifierReason]
  · intro hfits
    by_cases hfirst : emission.emittedSignalCount + 1 ≤ maxEmittedSignalsV1
    · obtain ⟨reason, hreason⟩ :=
        @checkedSignalIncrement_eq_error (emission.emittedSignalCount + 1) hfits
      simp only [checkedSignalIncrement_eq_ok hfirst, hreason]
      exact ⟨_, rfl, _, rfl⟩
    · obtain ⟨reason, hreason⟩ := checkedSignalIncrement_eq_error hfirst
      simp only [hreason]
      exact ⟨_, rfl, _, rfl⟩

/-- One identifier more, if it is in the block and its two signals fit. -/
theorem steps_emitIdentifier (index : BlockIndex) (block : EventBlock) {emission : BlockEmission}
    (hstart : emission.emittedSignalCount ≤ maxEmittedSignalsV1) {facets : List ProductionFacetV1}
    (hfacets : IdsOf facets identifierFacetId query.identifiers) :
    Loop.Steps
      (emitIdentifier facets (.clamp affinityScaleV1) (.of index block : BlockStatistics query))
      (fun seen => identifierEmission index block emission (seen.map query.identifiers.get))
      (fun seen => (identifierEmission index block emission
        (seen.map query.identifiers.get)).emittedSignalCount ≤ maxEmittedSignalsV1)
      CandidateExit.IsNeedsMore (List.finRange query.identifiers.length) := by
  have habsent : ∀ {seen : List (Fin query.identifiers.length)}
      {position : Fin query.identifiers.length},
      (query.identifiers.get position).canonicalToken ∉ blockTokens index block →
      identifierEmission index block emission ((seen ++ [position]).map query.identifiers.get) =
        identifierEmission index block emission (seen.map query.identifiers.get) := by
    intro seen position hout
    rw [List.map_append, List.map_singleton, identifierEmission, identifiersIn_append,
      if_neg hout, List.append_nil]
    rfl
  have hpresent : ∀ {seen : List (Fin query.identifiers.length)}
      {position : Fin query.identifiers.length},
      (query.identifiers.get position).canonicalToken ∈ blockTokens index block →
      identifierEmission index block emission ((seen ++ [position]).map query.identifiers.get) =
        let before := identifierEmission index block emission (seen.map query.identifiers.get)
        { affinities := before.affinities ++ [identifierAffinity (query.identifiers.get position)]
          mandatoryReasons := before.mandatoryReasons ++
            [identifierReason (query.identifiers.get position)]
          emittedSignalCount := before.emittedSignalCount + 2 } := by
    intro seen position hin
    rw [List.map_append, List.map_singleton, identifierEmission, identifiersIn_append,
      if_pos hin, List.map_append, List.map_append, List.map_singleton, List.map_singleton,
      List.length_append, List.length_singleton, Nat.mul_add, ← List.append_assoc,
      ← List.append_assoc]
    rfl
  refine ⟨hstart, fun seen rest hall hfits => ?_, fun seen position rest _ hseen hfits => ?_,
    fun seen position rest _ hseen hfits => ?_⟩
  · rw [hall, identifierEmission, identifiersIn, List.map_append, List.filter_append,
      List.length_append] at hfits
    rw [identifierEmission, identifiersIn]
    simp only at hfits ⊢
    omega
  all_goals
    by_cases hin : (query.identifiers.get position).canonicalToken ∈ blockTokens index block
  · rw [hpresent hin] at hfits ⊢
    exact (emitIdentifier_present hfacets hin).1 hfits
  · rw [habsent hin]
    exact emitIdentifier_absent hin
  · rw [hpresent hin] at hfits
    exact (emitIdentifier_present hfacets hin).2 hfits
  · rw [habsent hin] at hfits
    exact absurd hseen hfits

theorem emitTerms_eq {block : EventBlock} (h : Scorable index block) {start : Nat}
    (hstart : start ≤ maxEmittedSignalsV1) {facets : List ProductionFacetV1}
    (hfacets : IdsOf facets termFacetId query.terms) :
    let result := (List.finRange query.terms.length).foldlM
      (emitTerm facets (totalTokens index index.blocks) index.blocks.length
        (.of index block : BlockStatistics query)) ⟨[], [], start⟩
    (start + (termsIn index block query.terms).length ≤ maxEmittedSignalsV1 →
      result = .ok (termEmission index block start query.terms)) ∧
    (¬ start + (termsIn index block query.terms).length ≤ maxEmittedSignalsV1 →
      ∃ e, result = .error e ∧ e.IsNeedsMore) := by
  have hloop := (steps_emitTerm h hstart hfacets).foldlM
  rw [List.map_get_finRange] at hloop
  exact hloop

theorem emitIdentifiers_eq (index : BlockIndex) (block : EventBlock) (emission : BlockEmission)
    (hstart : emission.emittedSignalCount ≤ maxEmittedSignalsV1) {facets : List ProductionFacetV1}
    (hfacets : IdsOf facets identifierFacetId query.identifiers) :
    let result := (List.finRange query.identifiers.length).foldlM
      (emitIdentifier facets (.clamp affinityScaleV1) (.of index block : BlockStatistics query))
      emission
    let after := identifierEmission index block emission query.identifiers
    (after.emittedSignalCount ≤ maxEmittedSignalsV1 → result = .ok after) ∧
    (¬ after.emittedSignalCount ≤ maxEmittedSignalsV1 →
      ∃ e, result = .error e ∧ e.IsNeedsMore) := by
  have hloop := (steps_emitIdentifier index block hstart hfacets).foldlM
  have hnil : identifierEmission index block emission [] = emission := by
    simp [identifierEmission, identifiersIn]
  rw [List.map_get_finRange, List.map_nil, hnil] at hloop
  exact hloop

/-- The candidate of a block. -/
def candidateOf (query : PreprocessedQueryV1) (index : BlockIndex) (block : EventBlock) :
    PrimaryBlockCandidateV1 where
  blockId := block.id
  packetId := ⟨block.id.digest⟩
  orderedEventIds := block.memberIds
  affinities := sortByKey FacetAffinityV1.facetId
    ((termsIn index block query.terms).map (termAffinity index block) ++
      (identifiersIn index block query.identifiers).map identifierAffinity)
  mandatoryReasons := sortByKey MandatoryIdentifierReasonV1.facetId
    ((identifiersIn index block query.identifiers).map identifierReason)
  exactByteCount := blockBytes index block
  documentTokenCount := (blockTokens index block).length

def emittedSignals (query : PreprocessedQueryV1) (index : BlockIndex) (blocks : List EventBlock) :
    Nat :=
  (blocks.map (blockSignals query index)).sum

/-- One block more, if its signals fit. -/
theorem steps_emitBlock (hblocks : index.blocks.length ≤ maxPrimaryBlocksV1)
    (hbytes : totalBytes index index.blocks ≤ maxPrimaryBytesScannedV1)
    {termFacets identifierFacets : List ProductionFacetV1}
    (hterms : IdsOf termFacets termFacetId query.terms)
    (hidentifiers : IdsOf identifierFacets identifierFacetId query.identifiers) :
    Loop.Steps
      (fun state block => emitBlock termFacets identifierFacets (.clamp affinityScaleV1)
        (totalTokens index index.blocks) index.blocks.length state
        (.of index block : BlockStatistics query))
      (fun seen => (seen.map (candidateOf query index), emittedSignals query index seen))
      (fun seen => emittedSignals query index seen ≤ maxEmittedSignalsV1)
      CandidateExit.IsNeedsMore index.blocks := by
  have hone : ∀ seen block, emittedSignals query index (seen ++ [block]) =
      emittedSignals query index seen + (termsIn index block query.terms).length
        + 2 * (identifiersIn index block query.identifiers).length := by
    intro seen block
    rw [emittedSignals, List.map_append, List.sum_append, List.map_singleton, List.sum_singleton,
      blockSignals, ← Nat.add_assoc]
    rfl
  refine ⟨Nat.zero_le _, fun seen rest hall hfits => ?_, fun seen block rest hall hseen hfits => ?_,
    fun seen block rest hall hseen hfits => ?_⟩
  · rw [hall, emittedSignals, List.map_append, List.sum_append] at hfits
    rw [emittedSignals]
    omega
  all_goals
    have hscorable : Scorable index block := ⟨by rw [hall]; simp, hblocks, hbytes⟩
    have hterm := emitTerms_eq hscorable hseen hterms
    rw [hone] at hfits
  · have hidentifier := (emitIdentifiers_eq index block
      (termEmission index block (emittedSignals query index seen) query.terms)
      (by simp only [termEmission]; omega) hidentifiers).1 hfits
    simp only [emitBlock, hterm.1 (by omega), hidentifier, hone, List.map_append,
      List.map_singleton]
    rfl
  · by_cases hfirst : emittedSignals query index seen + (termsIn index block query.terms).length
        ≤ maxEmittedSignalsV1
    · obtain ⟨e, herror, hstops⟩ := (emitIdentifiers_eq index block
        (termEmission index block (emittedSignals query index seen) query.terms)
        hfirst hidentifiers).2 hfits
      refine ⟨e, ?_, hstops⟩
      simp only [emitBlock, hterm.1 hfirst, herror]
    · obtain ⟨e, herror, hstops⟩ := hterm.2 hfirst
      refine ⟨e, ?_, hstops⟩
      simp only [emitBlock, herror]

/-! ## The universe -/

def termFacetOf (index : BlockIndex) (term : QueryTermV1) : ProductionFacetV1 :=
  ⟨termFacetId term, .queryTerm, .clamp (idfMicros index.blocks.length
    (documentFrequency index index.blocks term.canonicalToken))⟩

def identifierFacetOf (identifier : ValidatedQueryIdentifierV1) : ProductionFacetV1 :=
  ⟨identifierFacetId identifier, .validatedQueryIdentifier, .clamp affinityScaleV1⟩

def mandatoryBlocks (query : PreprocessedQueryV1) (index : BlockIndex) : Nat :=
  index.blocks.countP fun block => identifiersIn index block query.identifiers ≠ []

def universeOf (query : PreprocessedQueryV1) (index : BlockIndex) : LexicalCandidateUniverseV1 where
  retrievalId := index.ledger.retrievalId
  questionDigest := query.questionDigest
  facets := sortByKey (·.facet.id) ((query.terms.map (termFacetOf index)).map .queryTerm ++
    ((query.identifiers.map identifierFacetOf).zip query.identifiers).map
      fun (facet, identifier) => .validatedQueryIdentifier facet identifier.kind)
  primaryBlocks := index.blocks.map (candidateOf query index)
  scannedBytes := totalBytes index index.blocks
  scannedTokens := totalTokens index index.blocks
  emittedSignalCount := emittedSignals query index index.blocks
  mandatoryBlockCount := mandatoryBlocks query index

omit [Sha256] in
theorem any_finRange {α : Type} (l : List α) (p : α → Bool) :
    (List.finRange l.length).any (fun position => p (l.get position)) = l.any p := by
  have hmap := congrArg (List.any · p) (List.map_get_finRange l)
  rwa [List.any_map] at hmap

omit [Sha256] in
theorem isMandatory_of (block : EventBlock) :
    (BlockStatistics.of index block : BlockStatistics query).isMandatory =
      decide (identifiersIn index block query.identifiers ≠ []) := by
  have hany := any_finRange query.identifiers fun identifier =>
    decide (identifier.canonicalToken ∈ blockTokens index block)
  refine Eq.trans hany ?_
  rw [Bool.eq_iff_iff, List.any_eq_true, decide_eq_true_eq, identifiersIn, ne_eq,
    List.filter_eq_nil_iff]
  push Not
  rfl

omit [Sha256] in
theorem countP_isMandatory :
    (LexicalScan.of index index.blocks : LexicalScan query).statistics.countP (·.isMandatory) =
      mandatoryBlocks query index := by
  rw [LexicalScan.of, List.countP_map]
  exact List.countP_congr fun block _ => by
    rw [Function.comp_apply, isMandatory_of]

omit [Sha256] in
theorem idsOf_map {α : Type} (facetOf : α → ProductionFacetV1) {facetId : α → FacetIdV1}
    (h : ∀ a, (facetOf a).id = facetId a) (l : List α) : IdsOf (l.map facetOf) facetId l := by
  intro position
  refine ⟨facetOf (l.get position), ?_, h _⟩
  simp

theorem mapM_termFacet (hbounded : query.Bounded)
    (hblocks : index.blocks.length ≤ maxPrimaryBlocksV1) :
    ((List.finRange query.terms.length).mapM fun position =>
      termFacet index.blocks.length (query.terms.get position)
        ((LexicalScan.of index index.blocks : LexicalScan query).termDocumentFrequencies
          position)) =
      .ok (query.terms.map (termFacetOf index)) := by
  have hmap : (List.finRange query.terms.length).map (fun position =>
      termFacetOf index (query.terms.get position)) = query.terms.map (termFacetOf index) := by
    have hget := congrArg (List.map (termFacetOf index)) (List.map_get_finRange query.terms)
    rwa [List.map_map] at hget
  rw [← hmap]
  exact Loop.mapM_eq_ok fun position _ =>
    termFacet_eq (hbounded.terms _ (List.getElem_mem _)) List.countP_le_length hblocks

omit [Sha256] in
theorem any_identifierFanout : (List.finRange query.identifiers.length).any
      ((LexicalScan.of index index.blocks : LexicalScan query).identifierFanout ·
        > maxIdentifierBlockFanoutV1) = true ↔
    ∃ identifier ∈ query.identifiers, maxIdentifierBlockFanoutV1 <
      documentFrequency index index.blocks identifier.canonicalToken := by
  have hany := any_finRange query.identifiers fun identifier => decide
    (documentFrequency index index.blocks identifier.canonicalToken > maxIdentifierBlockFanoutV1)
  refine (Bool.eq_iff_iff.mp hany).trans ?_
  simp only [List.any_eq_true, decide_eq_true_eq, gt_iff_lt]

/-- After the scan the lane emits its universe, or stops at one of the later caps. -/
theorem emitUniverse_eq (hbounded : query.Bounded)
    (hblocks : index.blocks.length ≤ maxPrimaryBlocksV1)
    (hbytes : totalBytes index index.blocks ≤ maxPrimaryBytesScannedV1) :
    (LexicalCaps query index →
      emitUniverse query index (.of index index.blocks) = .ok (universeOf query index)) ∧
    (¬ LexicalCaps query index →
      ∃ e, emitUniverse query index (.of index index.blocks) = .error e ∧ e.IsNeedsMore) := by
  have hmax : maxPrimaryBlocksV1 = 4096 := rfl
  have h64 : u64Bound = 2 ^ 64 := rfl
  have hlength :
      u64TryFrom (LexicalScan.of index index.blocks : LexicalScan query).statistics.length =
        some index.blocks.length := by
    rw [LexicalScan.of, List.length_map]
    exact u64TryFrom_eq_some.mpr ⟨by omega, rfl⟩
  have hidentifiers : query.identifiers.mapM (identifierFacet (.clamp affinityScaleV1)) =
      .ok (query.identifiers.map identifierFacetOf) :=
    Loop.mapM_eq_ok fun identifier hin => identifierFacet_eq _ (hbounded.identifiers _ hin)
  have hloop := (steps_emitBlock hblocks hbytes
    (idsOf_map (termFacetOf index) (fun _ => rfl) query.terms)
    (idsOf_map identifierFacetOf (fun _ => rfl) query.identifiers)).foldlM
  have hemit : (LexicalScan.of index index.blocks : LexicalScan query).statistics.foldlM
      (emitBlock (query.terms.map (termFacetOf index)) (query.identifiers.map identifierFacetOf)
        (.clamp affinityScaleV1)
        (LexicalScan.of index index.blocks : LexicalScan query).scannedTokens index.blocks.length)
      ([], 0) = index.blocks.foldlM
        (fun state block => emitBlock (query.terms.map (termFacetOf index))
          (query.identifiers.map identifierFacetOf) (.clamp affinityScaleV1)
          (totalTokens index index.blocks) index.blocks.length state
          (.of index block : BlockStatistics query))
        (([] : List EventBlock).map (candidateOf query index), emittedSignals query index []) :=
    List.foldlM_map
  rw [← hemit] at hloop
  constructor
  · intro h
    have hfanout : ¬ _ := fun hany => by
      obtain ⟨identifier, hin, hlarge⟩ := any_identifierFanout.mp hany
      exact absurd (h.fanout identifier hin) (Nat.not_le.mpr hlarge)
    have hmandatory : ¬ mandatoryBlocks query index > maxMandatoryBlocksV1 :=
      Nat.not_lt.mpr h.mandatory
    simp only [emitUniverse, if_neg hfanout, countP_isMandatory, if_neg hmandatory, hlength,
      mapM_termFacet hbounded hblocks, fullScale_eq, hidentifiers, hloop.1 h.signals]
    rfl
  · intro h
    by_cases hfanout : (List.finRange query.identifiers.length).any
        ((LexicalScan.of index index.blocks : LexicalScan query).identifierFanout ·
          > maxIdentifierBlockFanoutV1) = true
    · exact ⟨.needsMore .identifierBlockFanoutCap, by simp only [emitUniverse, if_pos hfanout],
        _, rfl⟩
    by_cases hmandatory : mandatoryBlocks query index > maxMandatoryBlocksV1
    · exact ⟨.needsMore .mandatoryBlockCountCap, by simp only [emitUniverse, if_neg hfanout,
        countP_isMandatory, if_pos hmandatory], _, rfl⟩
    have hsignals : ¬ emittedSignals query index index.blocks ≤ maxEmittedSignalsV1 := by
      intro hsignals
      refine h ⟨hblocks, hbytes, fun identifier hin => Nat.le_of_not_lt fun hlarge => ?_,
        Nat.le_of_not_gt hmandatory, hsignals⟩
      exact hfanout (any_identifierFanout.mpr ⟨identifier, hin, hlarge⟩)
    obtain ⟨e, herror, hstops⟩ := hloop.2 hsignals
    refine ⟨e, ?_, hstops⟩
    simp only [emitUniverse, if_neg hfanout, countP_isMandatory, if_neg hmandatory, hlength,
      mapM_termFacet hbounded hblocks, fullScale_eq, hidentifiers, herror]

/-! ## The universe is exact -/

omit [Sha256] in
theorem termMicros_range {block : EventBlock} (h : Scorable index block) {term : QueryTermV1}
    (hterm : term.canonicalToken ∈ blockTokens index block) :
    1 ≤ termMicros index block term ∧ termMicros index block term ≤ affinityScaleV1 := by
  have hpos := List.length_pos_of_mem hterm
  have hlength := h.length_le
  exact bm25Micros_range (List.count_pos_iff.mpr hterm) (by omega) hlength h.blocks

theorem scoredBlock_candidateOf {block : EventBlock} (h : Scorable index block) :
    ScoredBlock query index block (candidateOf query index block) := by
  refine ⟨rfl, rfl, rfl, rfl, rfl, ?_, perm_sortByKey _ _⟩
  refine ((perm_sortByKey _ _).map _).trans (List.Perm.of_eq ?_)
  rw [List.map_append, List.map_map, List.map_map]
  congr 1
  refine List.map_congr_left fun term hterm => ?_
  obtain ⟨hpos, hscale⟩ := termMicros_range h (of_decide_eq_true (List.mem_filter.mp hterm).2)
  simp only [Function.comp_apply, termAffinity, FixedPointV1.clamp_micros hpos hscale]

omit [Sha256] in
theorem FixedPointV1.range (value : FixedPointV1) :
    1 ≤ value.micros ∧ value.micros ≤ affinityScaleV1 := ⟨value.pos, value.le_scale⟩

omit [Sha256] in
theorem map_zip_self {α β : Type} (f : α → β) (l : List α) :
    (l.map f).zip l = l.map fun a => (f a, a) := by
  induction l with
  | nil => rfl
  | cons a rest ih => rw [List.map_cons, List.zip_cons_cons, ih, List.map_cons]

theorem exactUniverse_universeOf (h : LexicalCaps query index) :
    ExactUniverse query index (universeOf query index) := by
  have hscorable : ∀ block ∈ index.blocks, Scorable index block :=
    fun block hin => ⟨hin, h.blocks, h.bytes⟩
  have hprimary : (universeOf query index).primaryBlocks =
      index.blocks.map (candidateOf query index) := rfl
  constructor
  · rfl
  · rfl
  · refine ((perm_sortByKey _ _).map _).trans (List.Perm.of_eq ?_)
    rw [map_zip_self, List.map_append, List.map_map, List.map_map, List.map_map, List.map_map]
    congr 1
    refine List.map_congr_left fun term _ => ?_
    obtain ⟨hpos, hscale⟩ : 1 ≤ idfMicros index.blocks.length
        (documentFrequency index index.blocks term.canonicalToken) ∧ _ := idfMicros_range h.blocks
    simp only [Function.comp_apply, termFacetOf, CandidateFacetV1.facet,
      FixedPointV1.clamp_micros hpos hscale]
  · exact fun facet _ => facet.facet.weight.range
  · rw [hprimary, List.forall₂_map_right_iff]
    exact List.forall₂_same.mpr fun block hin => scoredBlock_candidateOf (hscorable block hin)
  · exact fun candidate _ a _ => a.affinity.range
  · rw [hprimary, List.map_map]
    rfl
  · rw [hprimary, List.map_map]
    rfl
  · rw [hprimary, List.map_map]
    refine congrArg List.sum (List.map_congr_left fun block _ => ?_)
    simp only [Function.comp_apply, candidateOf, length_sortByKey, List.length_append,
      List.length_map, blockSignals]
    omega
  · rw [hprimary, List.countP_map]
    refine List.countP_congr fun block _ => ?_
    simp only [Function.comp_apply, candidateOf, decide_eq_true_eq, ne_eq,
      ← List.length_eq_zero_iff, length_sortByKey, List.length_map]

/-- For every preprocessed query and every index the lane answers, with a universe
exactly within the caps. Its weights and affinities are on the scale; a term of a
block scores the floor of `10^6 * 10 T f / (10 T f + 3 T + 9 d N)` and an identifier
the whole scale; totals are sums over the blocks. The score of a term does not fall
with its frequency and does not rise with the length of the block. -/
theorem annotate_exact {question : List UInt8}
    (hquery : preprocessQueryV1 question = .ok query) {ledger : EventLedger}
    (hledger : ledger.Obtained) {assignments : List BlockAssignment}
    (hindex : BlockIndex.reconcile ledger assignments = .ok index) :
    (LexicalCaps query index → ∃ candidates,
      annotatePreprocessedQueryV1 query index = .ok (.ready candidates) ∧
        ExactUniverse query index candidates) ∧
    (¬ LexicalCaps query index → ∃ reason,
      annotatePreprocessedQueryV1 query index = .ok (.needsMore ⟨reason⟩)) ∧
    ∀ f f' d d' totalTokens blockCount : Nat, f ≤ f' → d' ≤ d →
      bm25Micros f d totalTokens blockCount ≤ bm25Micros f' d' totalTokens blockCount := by
  have hwellFormed := preprocessQueryV1_wellFormed hquery
  have hbounded := preprocessQueryV1_bounded hquery
  have hreconciled := (BlockIndex.Reconciled.of_reconcile hledger hindex).1
  refine ⟨fun hcaps => ?_, fun hcaps => ?_,
    fun f f' d d' totalTokens blockCount => bm25Micros_mono totalTokens blockCount⟩
  · have hscan := (steps_scanBlock hwellFormed hreconciled hcaps.blocks).foldlM.1 hcaps.bytes
    rw [← LexicalScan.empty_eq_of] at hscan
    have hblocks : ¬ index.blocks.length > maxPrimaryBlocksV1 := Nat.not_lt.mpr hcaps.blocks
    refine ⟨universeOf query index, ?_, exactUniverse_universeOf hcaps⟩
    simp only [annotatePreprocessedQueryV1, annotateBlocks, if_neg hblocks, hscan,
      (emitUniverse_eq hbounded hcaps.blocks hcaps.bytes).1 hcaps]
  · have hstops : ∃ e, annotateBlocks query index = .error e ∧ e.IsNeedsMore := by
      by_cases hblocks : index.blocks.length > maxPrimaryBlocksV1
      · exact ⟨.needsMore .primaryBlockCountCap, by simp only [annotateBlocks, if_pos hblocks],
          _, rfl⟩
      have hsteps := (steps_scanBlock hwellFormed hreconciled
        (Nat.le_of_not_gt hblocks)).foldlM
      rw [← LexicalScan.empty_eq_of] at hsteps
      by_cases hbytes : totalBytes index index.blocks ≤ maxPrimaryBytesScannedV1
      · obtain ⟨e, herror, he⟩ :=
          (emitUniverse_eq hbounded (Nat.le_of_not_gt hblocks) hbytes).2 hcaps
        exact ⟨e, by simp only [annotateBlocks, if_neg hblocks, hsteps.1 hbytes, herror], he⟩
      · obtain ⟨e, herror, he⟩ := hsteps.2 hbytes
        exact ⟨e, by simp only [annotateBlocks, if_neg hblocks, herror], he⟩
    obtain ⟨e, herror, reason, rfl⟩ := hstops
    exact ⟨reason, by simp only [annotatePreprocessedQueryV1, herror]⟩

end Emitted

/-! ## Runs -/

/-- What a run leaves to read: the bytes of the events, the number of blocks and of
tokens, and of each block the tokens and affinities. -/
structure LexicalSummary where
  raws : List (List UInt8)
  blockCount : Nat
  scannedTokens : Nat
  scores : List (Nat × List Nat)
deriving DecidableEq

def LexicalSummary.of (ledger : EventLedger) (index : BlockIndex) :
    CandidateGenerationDecisionV1 → Option LexicalSummary
  | .ready candidates => some ⟨ledger.events.map (·.raw), index.blocks.length,
      candidates.scannedTokens, candidates.primaryBlocks.map fun candidate =>
        (candidate.documentTokenCount, candidate.affinities.map (·.affinity.micros))⟩
  | .needsMore _ => none

/-- The run of a question over the lines, each in a block of its own. -/
def lexicalSummary [Sha256] (question : List UInt8) (es : List RawEnvelopeV1) (bytes : Nat) :
    Option LexicalSummary := do
  let found ← BlockIndex.replayIndex es bytes
  let query ← (preprocessQueryV1 question).toOption
  let decision ← (annotatePreprocessedQueryV1 query found.2).toOption
  LexicalSummary.of found.1 found.2 decision

theorem exists_of_lexicalSummary [Sha256] {question : List UInt8} {es : List RawEnvelopeV1}
    {bytes : Nat} {summary : LexicalSummary}
    (h : lexicalSummary question es bytes = some summary) :
    ∃ (query : PreprocessedQueryV1) (ledger : EventLedger) (assignments : List BlockAssignment)
      (index : BlockIndex) (candidates : LexicalCandidateUniverseV1),
      preprocessQueryV1 question = .ok query ∧ ledger.Obtained ∧
      BlockIndex.reconcile ledger assignments = .ok index ∧
      annotatePreprocessedQueryV1 query index = .ok (.ready candidates) ∧
      ledger.events.map (·.raw) = summary.raws ∧ index.blocks.length = summary.blockCount ∧
      candidates.scannedTokens = summary.scannedTokens ∧
      candidates.primaryBlocks.map (fun candidate =>
        (candidate.documentTokenCount, candidate.affinities.map (·.affinity.micros))) =
        summary.scores := by
  simp only [lexicalSummary, Option.bind_eq_bind, Option.bind_eq_some_iff] at h
  obtain ⟨found, hfound, query, hquery, decision, hdecision, h⟩ := h
  obtain ⟨hledger, hindex⟩ := BlockIndex.of_replayIndex hfound
  cases decision with
  | needsMore needsMore => cases h
  | ready candidates =>
      obtain rfl := Option.some.inj h
      exact ⟨query, found.1, _, found.2, candidates, toOption_eq_some.mp hquery, hledger, hindex,
        toOption_eq_some.mp hdecision, rfl, rfl, rfl, rfl⟩

def queriedLines : List RawEnvelopeV1 :=
  [streamLine 0 .stderr 0 ⟨asciiBytes "checkout timeout timeout", by decide⟩,
    streamLine 1 .stdout 0 ⟨asciiBytes "timeout E0308", by decide⟩,
    streamLine 2 .stderr 1 ⟨asciiBytes "all quiet here", by decide⟩]

/-- Two terms and an identifier over three lines: the first line has both terms, one of
them twice, the second one has the other term and the identifier. -/
theorem annotate_exact_three_lines :
    letI := fips180
    ∃ (query : PreprocessedQueryV1) (index : BlockIndex) (candidates : LexicalCandidateUniverseV1),
      preprocessQueryV1 (asciiBytes "checkout timeout E0308") = .ok query ∧
      annotatePreprocessedQueryV1 query index = .ok (.ready candidates) ∧
      ExactUniverse query index candidates ∧ candidates.scannedTokens = 8 ∧
      candidates.primaryBlocks.map (fun candidate =>
        (candidate.documentTokenCount, candidate.affinities.map (·.affinity.micros))) =
        [(3, [bm25Micros 2 3 8 3, bm25Micros 1 3 8 3]), (2, [bm25Micros 1 2 8 3, 1000000]),
          (3, [])] := by
  rw [fips180_eq]
  let := fips180Evaluated
  have hrun : lexicalSummary (asciiBytes "checkout timeout E0308") queriedLines 51 = some
      ⟨queriedLines.map (·.record.payload), 3, 8,
        [(3, [bm25Micros 2 3 8 3, bm25Micros 1 3 8 3]), (2, [bm25Micros 1 2 8 3, 1000000]),
          (3, [])]⟩ := by
    decide +kernel
  obtain ⟨query, ledger, assignments, index, candidates, hquery, hledger, hindex, hready, _, _,
    htokens, hscores⟩ := exists_of_lexicalSummary hrun
  obtain ⟨hwithin, hbeyond, _⟩ := annotate_exact hquery hledger hindex
  by_cases hcaps : LexicalCaps query index
  · obtain ⟨candidates', hready', hexact⟩ := hwithin hcaps
    rw [hready, Except.ok.injEq, CandidateGenerationDecisionV1.ready.injEq] at hready'
    exact ⟨query, index, candidates, hquery, hready, hready' ▸ hexact, htokens, hscores⟩
  · obtain ⟨reason, hneeds⟩ := hbeyond hcaps
    rw [hready] at hneeds
    cases hneeds

/-- The saturation is below the scale, but an identifier has all of it. -/
theorem identifier_affinity_is_no_saturation :
    letI := fips180
    ∃ (query : PreprocessedQueryV1) (ledger : EventLedger) (assignments : List BlockAssignment)
      (index : BlockIndex) (candidates : LexicalCandidateUniverseV1),
      preprocessQueryV1 (asciiBytes "E0308") = .ok query ∧ ledger.Obtained ∧
      ledger.events.map (·.raw) = [asciiBytes "E0308"] ∧
      BlockIndex.reconcile ledger assignments = .ok index ∧
      annotatePreprocessedQueryV1 query index = .ok (.ready candidates) ∧
      ∃ candidate ∈ candidates.primaryBlocks, ∃ a ∈ candidate.affinities,
        ∀ frequency, a.affinity.micros ≠ bm25Micros frequency candidate.documentTokenCount
          candidates.scannedTokens index.blocks.length := by
  rw [fips180_eq]
  let := fips180Evaluated
  have hrun : lexicalSummary (asciiBytes "E0308")
      [replayEnvelope 0 (.whole ⟨asciiBytes "E0308", by decide⟩) .complete] 5 =
        some ⟨[asciiBytes "E0308"], 1, 1, [(1, [1000000])]⟩ := by
    decide +kernel
  obtain ⟨query, ledger, assignments, index, candidates, hquery, hledger, hindex, hready, hraw,
    hlength, htokens, hblocks⟩ := exists_of_lexicalSummary hrun
  dsimp only at hlength htokens
  obtain ⟨candidate, rest, hcandidates⟩ := List.exists_cons_of_length_pos
    (l := candidates.primaryBlocks) (by
      have hcount := congrArg List.length hblocks
      rw [List.length_map] at hcount
      rw [hcount]
      exact Nat.one_pos)
  rw [hcandidates, List.map_cons, List.cons.injEq, Prod.mk.injEq] at hblocks
  obtain ⟨⟨hdocument, hmicros⟩, _⟩ := hblocks
  obtain ⟨a, ha, hfull⟩ : ∃ a ∈ candidate.affinities, a.affinity.micros = 1000000 := by
    have hin : 1000000 ∈ candidate.affinities.map (·.affinity.micros) := by
      rw [hmicros]
      exact List.mem_singleton.mpr rfl
    exact List.mem_map.mp hin
  refine ⟨query, ledger, assignments, index, candidates, hquery, hledger, hraw, hindex, hready,
    candidate, hcandidates ▸ List.mem_cons_self .., a, ha, fun frequency => ?_⟩
  have hscale : affinityScaleV1 = 1000000 := rfl
  rw [hfull, hdocument, htokens, hlength, bm25Micros, hscale]
  refine Nat.ne_of_gt ((Nat.div_lt_iff_lt_mul (by omega)).mpr ?_)
  omega

end Evidentrail
