import Evidentrail.Candidates.Query
import Evidentrail.Core.BlockLookup
import Evidentrail.Select.Types

/-!
# Lexical annotation

Every block of an index is scanned for the terms and identifiers of a query. Terms
score by a saturated frequency in millionths, identifiers force their block. The
scan stops at a cap with an answer that asks for more, and a value outside the
fixed-point scale is an error.
-/

namespace Evidentrail

open Rust Std Ascii Slice

/-! ## Bounds -/

def maxPrimaryBlocksV1 : Nat := 4096
def maxPrimaryBytesScannedV1 : Nat := 64 * 1024 * 1024
def maxIdentifierBlockFanoutV1 : Nat := 64
def maxMandatoryBlocksV1 : Nat := 64
def maxEmittedSignalsV1 : Nat := 65536

/-! ## Answers -/

inductive CandidateBuildErrorV1 where
  | facetContractViolation
  | fixedPointContractViolation
  | blockIndexContractViolation
deriving DecidableEq

inductive CandidateFacetV1 where
  | queryTerm (facet : ProductionFacetV1)
  | validatedQueryIdentifier (facet : ProductionFacetV1)
      (identifierKind : ValidatedIdentifierKindV1)
deriving DecidableEq

def CandidateFacetV1.facet : CandidateFacetV1 → ProductionFacetV1
  | .queryTerm facet => facet
  | .validatedQueryIdentifier facet _ => facet

structure MandatoryIdentifierReasonV1 where
  facetId : FacetIdV1
  identifierKind : ValidatedIdentifierKindV1
deriving DecidableEq

/-- One block with its scores. Its members are those of the index. -/
structure PrimaryBlockCandidateV1 where
  blockId : BlockId
  packetId : PacketIdV1
  orderedEventIds : List EventId
  affinities : List FacetAffinityV1
  mandatoryReasons : List MandatoryIdentifierReasonV1
  exactByteCount : Nat
  documentTokenCount : Nat
deriving DecidableEq

structure LexicalCandidateUniverseV1 where
  retrievalId : RetrievalId
  questionDigest : QuestionDigest
  facets : List CandidateFacetV1
  primaryBlocks : List PrimaryBlockCandidateV1
  scannedBytes : Nat
  scannedTokens : Nat
  emittedSignalCount : Nat
  mandatoryBlockCount : Nat
deriving DecidableEq

inductive CandidateGenerationDecisionV1 where
  | ready (candidates : LexicalCandidateUniverseV1)
  | needsMore (needsMore : CandidateNeedsMoreV1)
deriving DecidableEq

/-- How a lane returns early: with `Ok(NeedsMore)`, or with an error or a panic. -/
inductive CandidateExit where
  | needsMore (reason : CandidateNeedsMoreReasonV1)
  | fault (fault : Fault CandidateBuildErrorV1)
deriving DecidableEq

/-! ## Fixed-point scores -/

/-- `u32::try_from` and the checked constructor, with one error for both. -/
def fixedPointOfMicros (micros : Nat) : Except CandidateBuildErrorV1 FixedPointV1 := do
  let micros ← okOr .fixedPointContractViolation (u32TryFrom micros)
  (FixedPointV1.new micros).mapError fun _ => .fixedPointContractViolation

/-- The linear rarity `(N - df + 1) / (N + 1)`. -/
def idfWeight (blockCount documentFrequency : Nat) :
    Except CandidateBuildErrorV1 FacetWeightV1 := do
  let rarity ← okOr .fixedPointContractViolation
    ((checkedSub blockCount documentFrequency).bind (checkedAdd · 1))
  let numerator ← okOr .fixedPointContractViolation (checkedMul128 affinityScaleV1 rarity)
  let denominator ← okOr .fixedPointContractViolation (checkedAdd blockCount 1)
  fixedPointOfMicros (numerator / denominator)

/-- The saturation `tf / (tf + 0.3 + 0.9 * dl / avg_dl)`. -/
def bm25Affinity (termFrequency documentTokens totalDocumentTokens blockCount : Nat) :
    Except CandidateBuildErrorV1 AffinityV1 :=
  if termFrequency = 0 ∨ totalDocumentTokens = 0 ∨ blockCount = 0 then
    .error .fixedPointContractViolation
  else do
    let base ← okOr .fixedPointContractViolation
      ((checkedMul128 10 totalDocumentTokens).bind (checkedMul128 · termFrequency))
    let numerator ← okOr .fixedPointContractViolation (checkedMul128 base affinityScaleV1)
    let constant ← okOr .fixedPointContractViolation (checkedMul128 3 totalDocumentTokens)
    let denominator ← okOr .fixedPointContractViolation
      ((checkedAdd128 base constant).bind fun value =>
        ((checkedMul128 9 documentTokens).bind (checkedMul128 · blockCount)).bind
          (checkedAdd128 value ·))
    fixedPointOfMicros (numerator / denominator)

/-! ## Scanning one block -/

def compareCanonicalToRaw (canonical raw : List UInt8) : Ordering :=
  compare canonical (raw.map toAsciiLowercase)

/-- What the scan of a block counts. A vector as long as the terms, or the
identifiers, of the query is a function on their positions. -/
structure TokenScan (query : PreprocessedQueryV1) where
  documentTokens : Nat
  termFrequencies : Fin query.terms.length → Nat
  identifierMatches : Fin query.identifiers.length → Bool
  scanArithmeticExhausted : Bool

variable {query : PreprocessedQueryV1}

def TokenScan.empty : TokenScan query := ⟨0, fun _ => 0, fun _ => false, false⟩

/-- The term the token is, counted; `none` is an overflow. -/
def TokenScan.countTerm (scan : TokenScan query) (token : List UInt8) : Option (TokenScan query) :=
  match binarySearchBy (fun term => compareCanonicalToRaw term.canonicalToken token)
      query.terms with
  | .error _ => some scan
  | .ok position =>
      (checkedAdd (scan.termFrequencies position) 1).map fun frequency =>
        { scan with termFrequencies := Function.update scan.termFrequencies position frequency }

def TokenScan.matchIdentifier (scan : TokenScan query) (token : List UInt8) : TokenScan query :=
  match binarySearchBy (fun identifier => compareCanonicalToRaw identifier.canonicalToken token)
      query.identifiers with
  | .error _ => scan
  | .ok position =>
      { scan with identifierMatches := Function.update scan.identifierMatches position true }

def visitDocumentToken (scan : TokenScan query) (token : List UInt8) : TokenScan query × Bool :=
  match checkedAdd scan.documentTokens 1 with
  | none => ({ scan with scanArithmeticExhausted := true }, false)
  | some documentTokens =>
      let scan := { scan with documentTokens }
      match scan.countTerm token with
      | none => ({ scan with scanArithmeticExhausted := true }, false)
      | some scan => (scan.matchIdentifier token, true)

def checkedScannedBytes (current additional : Nat) : Except CandidateNeedsMoreReasonV1 Nat :=
  match checkedAdd current additional with
  | none => .error .arithmeticCapacity
  | some next =>
      if next > maxPrimaryBytesScannedV1 then .error .primaryBytesScannedCap else .ok next

/-- The scan is looked at only after the whole event fits. -/
def withAuthorizedEventScan {α : Type*} (alreadyScanned currentBlockBytes eventBytes : Nat)
    (scan : Unit → α) : Except CandidateNeedsMoreReasonV1 (Nat × α) :=
  match checkedAdd currentBlockBytes eventBytes with
  | none => .error .arithmeticCapacity
  | some nextBlockBytes =>
      match checkedScannedBytes alreadyScanned nextBlockBytes with
      | .error reason => .error reason
      | .ok _ => .ok (nextBlockBytes, scan ())

def scanEvent (scannedBytes : Nat) (state : Nat × TokenScan query) (event : Event) :
    Except CandidateExit (Nat × TokenScan query) :=
  match u64TryFrom event.raw.length with
  | none => .error (.needsMore .arithmeticCapacity)
  | some eventBytes =>
      match withAuthorizedEventScan scannedBytes state.1 eventBytes
          fun _ => forEachAsciiToken visitDocumentToken state.2 event.raw with
      | .error reason => .error (.needsMore reason)
      | .ok (exactBytes, scan) =>
          if scan.scanArithmeticExhausted then .error (.needsMore .arithmeticCapacity)
          else .ok (exactBytes, scan)

/-! ## Scanning all blocks -/

structure BlockStatistics (query : PreprocessedQueryV1) where
  blockId : BlockId
  orderedEventIds : List EventId
  exactBytes : Nat
  documentTokens : Nat
  termFrequencies : Fin query.terms.length → Nat
  identifierMatches : Fin query.identifiers.length → Bool

structure LexicalScan (query : PreprocessedQueryV1) where
  statistics : List (BlockStatistics query)
  scannedBytes : Nat
  scannedTokens : Nat
  termDocumentFrequencies : Fin query.terms.length → Nat
  identifierFanout : Fin query.identifiers.length → Nat

def LexicalScan.empty : LexicalScan query := ⟨[], 0, 0, fun _ => 0, fun _ => 0⟩

/-- The loop that counts a block at each position it was seen at. -/
def bumpCounts {n : Nat} (counts : Fin n → Nat) (seen : Fin n → Bool) : Option (Fin n → Nat) :=
  (List.finRange n).foldlM (fun counts position =>
    if seen position then
      (checkedAdd (counts position) 1).map (Function.update counts position ·)
    else some counts) counts

def scanBlock (blocks : BlockIndex) (scan : LexicalScan query) (block : EventBlock) :
    Except CandidateExit (LexicalScan query) :=
  match blocks.expandBlock block.id with
  -- `expect`
  | .error _ => .error (.fault .panicked)
  | .ok expansion =>
      match expansion.events.foldlM (scanEvent scan.scannedBytes) (0, TokenScan.empty) with
      | .error exit => .error exit
      | .ok (exactBytes, tokens) =>
          match checkedScannedBytes scan.scannedBytes exactBytes with
          | .error reason => .error (.needsMore reason)
          | .ok scannedBytes =>
              match checkedAdd scan.scannedTokens tokens.documentTokens,
                  bumpCounts scan.termDocumentFrequencies (tokens.termFrequencies · > 0),
                  bumpCounts scan.identifierFanout tokens.identifierMatches with
              | some scannedTokens, some termDocumentFrequencies, some identifierFanout =>
                  .ok {
                    statistics := scan.statistics ++ [{
                      blockId := block.id
                      orderedEventIds := block.memberIds
                      exactBytes
                      documentTokens := tokens.documentTokens
                      termFrequencies := tokens.termFrequencies
                      identifierMatches := tokens.identifierMatches }]
                    scannedBytes, scannedTokens, termDocumentFrequencies, identifierFanout }
              | _, _, _ => .error (.needsMore .arithmeticCapacity)

def BlockStatistics.isMandatory (statistics : BlockStatistics query) : Bool :=
  (List.finRange query.identifiers.length).any statistics.identifierMatches

/-! ## Facets -/

section Facets

variable [Sha256]

def termFacet (blockCount : Nat) (term : QueryTermV1) (documentFrequency : Nat) :
    Except CandidateBuildErrorV1 ProductionFacetV1 :=
  match u64TryFrom documentFrequency with
  | none => .error .fixedPointContractViolation
  | some documentFrequency =>
      match idfWeight blockCount documentFrequency with
      | .error error => .error error
      | .ok weight =>
          match ProductionFacetV1.new .queryTerm term.canonicalToken weight with
          | .error _ => .error .facetContractViolation
          | .ok facet => .ok facet

def identifierFacet (fullWeight : FacetWeightV1) (identifier : ValidatedQueryIdentifierV1) :
    Except CandidateBuildErrorV1 ProductionFacetV1 :=
  match ProductionFacetV1.new .validatedQueryIdentifier identifier.canonicalSemanticKey
      fullWeight with
  | .error _ => .error .facetContractViolation
  | .ok facet => .ok facet

/-- `FacetWeightV1::new` and `AffinityV1::new` of the whole scale. -/
def fullScale : Except CandidateBuildErrorV1 FixedPointV1 :=
  match FixedPointV1.new affinityScaleV1 with
  | .error _ => .error .fixedPointContractViolation
  | .ok value => .ok value

end Facets

/-! ## Emission -/

def checkedSignalIncrement (current : Nat) : Except CandidateNeedsMoreReasonV1 Nat :=
  match checkedAdd current 1 with
  | none => .error .arithmeticCapacity
  | some next =>
      if next > maxEmittedSignalsV1 then .error .emittedSignalCountCap else .ok next

/-- What is emitted for one block so far, and the signals of all blocks. -/
structure BlockEmission where
  affinities : List FacetAffinityV1
  mandatoryReasons : List MandatoryIdentifierReasonV1
  emittedSignalCount : Nat

def emitTerm (termFacets : List ProductionFacetV1) (scannedTokens blockCount : Nat)
    (statistics : BlockStatistics query) (emission : BlockEmission)
    (position : Fin query.terms.length) : Except CandidateExit BlockEmission :=
  if statistics.termFrequencies position = 0 then .ok emission
  else
    match bm25Affinity (statistics.termFrequencies position) statistics.documentTokens
        scannedTokens blockCount with
    | .error error => .error (.fault (.err error))
    | .ok affinity =>
        match termFacets[position.val]? with
        | none => .error (.fault .panicked)
        | some facet =>
            match checkedSignalIncrement emission.emittedSignalCount with
            | .error reason => .error (.needsMore reason)
            | .ok emittedSignalCount => .ok { emission with
                affinities := emission.affinities ++ [⟨facet.id, affinity⟩]
                emittedSignalCount }

def emitIdentifier (identifierFacets : List ProductionFacetV1) (fullAffinity : AffinityV1)
    (statistics : BlockStatistics query) (emission : BlockEmission)
    (position : Fin query.identifiers.length) : Except CandidateExit BlockEmission :=
  if statistics.identifierMatches position = false then .ok emission
  else
    match identifierFacets[position.val]? with
    | none => .error (.fault .panicked)
    | some facet =>
        match checkedSignalIncrement emission.emittedSignalCount with
        | .error reason => .error (.needsMore reason)
        | .ok afterAffinity =>
            match checkedSignalIncrement afterAffinity with
            | .error reason => .error (.needsMore reason)
            | .ok emittedSignalCount => .ok {
                affinities := emission.affinities ++ [⟨facet.id, fullAffinity⟩]
                mandatoryReasons := emission.mandatoryReasons ++
                  [⟨facet.id, (query.identifiers.get position).kind⟩]
                emittedSignalCount }

def emitBlock (termFacets identifierFacets : List ProductionFacetV1) (fullAffinity : AffinityV1)
    (scannedTokens blockCount : Nat) (state : List PrimaryBlockCandidateV1 × Nat)
    (statistics : BlockStatistics query) :
    Except CandidateExit (List PrimaryBlockCandidateV1 × Nat) :=
  match (List.finRange query.terms.length).foldlM
      (emitTerm termFacets scannedTokens blockCount statistics) ⟨[], [], state.2⟩ with
  | .error exit => .error exit
  | .ok emission =>
      match (List.finRange query.identifiers.length).foldlM
          (emitIdentifier identifierFacets fullAffinity statistics) emission with
      | .error exit => .error exit
      | .ok emission => .ok (state.1 ++ [{
          blockId := statistics.blockId
          packetId := ⟨statistics.blockId.digest⟩
          orderedEventIds := statistics.orderedEventIds
          affinities := sortByKey FacetAffinityV1.facetId emission.affinities
          mandatoryReasons := sortByKey MandatoryIdentifierReasonV1.facetId
            emission.mandatoryReasons
          exactByteCount := statistics.exactBytes
          documentTokenCount := statistics.documentTokens }], emission.emittedSignalCount)

/-! ## Annotation -/

section Annotate

variable [Sha256]

/-- The facets of the query and the universe, after the scan. -/
def emitUniverse (query : PreprocessedQueryV1) (blocks : BlockIndex) (scan : LexicalScan query) :
    Except CandidateExit LexicalCandidateUniverseV1 :=
  let fault := fun error => CandidateExit.fault (.err error)
  let mandatoryBlockCount := scan.statistics.countP (·.isMandatory)
  if (List.finRange query.identifiers.length).any
      (scan.identifierFanout · > maxIdentifierBlockFanoutV1) then
    .error (.needsMore .identifierBlockFanoutCap)
  else if mandatoryBlockCount > maxMandatoryBlocksV1 then
    .error (.needsMore .mandatoryBlockCountCap)
  else
    match u64TryFrom scan.statistics.length with
    | none => .error (fault .fixedPointContractViolation)
    | some blockCount =>
        match (List.finRange query.terms.length).mapM fun position =>
            termFacet blockCount (query.terms.get position)
              (scan.termDocumentFrequencies position) with
        | .error error => .error (fault error)
        | .ok termFacets =>
            match fullScale with
            | .error error => .error (fault error)
            | .ok full =>
                match query.identifiers.mapM (identifierFacet full) with
                | .error error => .error (fault error)
                | .ok identifierFacets =>
                    match scan.statistics.foldlM (emitBlock termFacets identifierFacets full
                        scan.scannedTokens blockCount) ([], 0) with
                    | .error exit => .error exit
                    | .ok (primaryBlocks, emittedSignalCount) => .ok {
                        retrievalId := blocks.ledger.retrievalId
                        questionDigest := query.questionDigest
                        facets := sortByKey (·.facet.id) (termFacets.map .queryTerm ++
                          (identifierFacets.zip query.identifiers).map fun (facet, identifier) =>
                            .validatedQueryIdentifier facet identifier.kind)
                        primaryBlocks
                        scannedBytes := scan.scannedBytes
                        scannedTokens := scan.scannedTokens
                        emittedSignalCount
                        mandatoryBlockCount }

def annotateBlocks (query : PreprocessedQueryV1) (blocks : BlockIndex) :
    Except CandidateExit LexicalCandidateUniverseV1 :=
  if blocks.blocks.length > maxPrimaryBlocksV1 then .error (.needsMore .primaryBlockCountCap)
  else
    match blocks.blocks.foldlM (scanBlock blocks) (LexicalScan.empty : LexicalScan query) with
    | .error exit => .error exit
    | .ok scan => emitUniverse query blocks scan

def annotatePreprocessedQueryV1 (query : PreprocessedQueryV1) (blocks : BlockIndex) :
    Except (Fault CandidateBuildErrorV1) CandidateGenerationDecisionV1 :=
  match annotateBlocks query blocks with
  | .ok candidates => .ok (.ready candidates)
  | .error (.needsMore reason) => .ok (.needsMore ⟨reason⟩)
  | .error (.fault fault) => .error fault

end Annotate

end Evidentrail
