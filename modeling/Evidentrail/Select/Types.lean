import Evidentrail.Core.Hash
import Evidentrail.Lib.Search

/-!
# Selection vocabulary

Facets, affinities, packets, costs and budgets. Every bounded value of the
selection crate is built by a checked constructor; the bounds are fields
here, so the objective and the budget never see a value outside them.
-/

namespace Evidentrail

open Rust Std Encoding Slice

abbrev PacketIdV1 := HashId .packet
abbrev FacetIdV1 := HashId .facet

/-- Integer scale of facet weights and packet affinities. -/
def affinityScaleV1 : Nat := 1000000

def providerRelationEndpointWeightMicrosV1 : Nat := affinityScaleV1 / 2
def maxSelectionPacketsV1 : Nat := 4096
def maxSelectionFacetsV1 : Nat := 4096
def maxPacketEventsV1 : Nat := 4096
def maxSelectionEventsV1 : Nat := 65536
def maxMandatoryPacketsV1 : Nat := 64
def coverageOnlyOptionalBudgetDenominatorV1 : Nat := 8
def maxFacetSemanticKeyBytesV1 : Nat := 64 * 1024
def jsonSafeIntegerMax : Nat := 2 ^ 53 - 1

/-! ## Facet kinds -/

inductive ProductionFacetKindV1 where
  | validatedQueryIdentifier
  | queryTerm
  | failureRole
  | onsetRole
  | sourceCoverageStratum
  | serviceCoverageStratum
  | timeCoverageStratum
  | validatedTypedChange
  | providerAttestedGraphRelation
  | reconstructionRiskCoverage
deriving DecidableEq

/-- How many distinct selected packets may contribute to one facet. -/
inductive FacetSaturationCardinalityV1 where
  | one
  | two
deriving DecidableEq

def FacetSaturationCardinalityV1.count : FacetSaturationCardinalityV1 → Nat
  | .one => 1
  | .two => 2

namespace ProductionFacetKindV1

def code : ProductionFacetKindV1 → String
  | .validatedQueryIdentifier => "validated_query_identifier"
  | .queryTerm => "query_term"
  | .failureRole => "failure_role"
  | .onsetRole => "onset_role"
  | .sourceCoverageStratum => "source_coverage_stratum"
  | .serviceCoverageStratum => "service_coverage_stratum"
  | .timeCoverageStratum => "time_coverage_stratum"
  | .validatedTypedChange => "validated_typed_change"
  | .providerAttestedGraphRelation => "provider_attested_graph_relation"
  | .reconstructionRiskCoverage => "reconstruction_risk_coverage"

def isCoverageOnly : ProductionFacetKindV1 → Bool
  | .sourceCoverageStratum | .serviceCoverageStratum | .timeCoverageStratum => true
  | _ => false

def saturationCardinality : ProductionFacetKindV1 → FacetSaturationCardinalityV1
  | .providerAttestedGraphRelation => .two
  | _ => .one

/-- The declaration order, which `derive(Ord)` follows. -/
def rank : ProductionFacetKindV1 → Nat
  | .validatedQueryIdentifier => 0
  | .queryTerm => 1
  | .failureRole => 2
  | .onsetRole => 3
  | .sourceCoverageStratum => 4
  | .serviceCoverageStratum => 5
  | .timeCoverageStratum => 6
  | .validatedTypedChange => 7
  | .providerAttestedGraphRelation => 8
  | .reconstructionRiskCoverage => 9

instance : Ord ProductionFacetKindV1 := ⟨compareOn rank⟩

end ProductionFacetKindV1

/-! ## Fixed-point values -/

inductive FixedPointConstructionError where
  | zero
  | aboveUnitScale
deriving DecidableEq

/-- A fraction in `(0, 1]`, in millionths. -/
structure FixedPointV1 where
  micros : Nat
  pos : 0 < micros
  le_scale : micros ≤ affinityScaleV1
deriving DecidableEq

def FixedPointV1.new (micros : Nat) : Except FixedPointConstructionError FixedPointV1 :=
  if h0 : micros = 0 then .error .zero
  else if h : micros > affinityScaleV1 then .error .aboveUnitScale
  else .ok ⟨micros, Nat.pos_of_ne_zero h0, Nat.le_of_not_gt h⟩

abbrev FacetWeightV1 := FixedPointV1
abbrev AffinityV1 := FixedPointV1

/-! ## Token values -/

inductive TokenValueConstructionError where
  | zeroCost
  | aboveJsonSafeInteger
deriving DecidableEq

/-- Identity declared for one renderer, tokenizer and cost bound. -/
structure ComposableCostModelV1 where
  artifactDigest : ArtifactDigest
deriving DecidableEq

structure ComposablePacketCostV1 where
  costModel : ComposableCostModelV1
  upperBoundTokens : Nat
  pos : 0 < upperBoundTokens
  le_max : upperBoundTokens ≤ jsonSafeIntegerMax
deriving DecidableEq

def ComposablePacketCostV1.new (costModel : ComposableCostModelV1) (upperBoundTokens : Nat) :
    Except TokenValueConstructionError ComposablePacketCostV1 :=
  if h0 : upperBoundTokens = 0 then .error .zeroCost
  else if h : upperBoundTokens > jsonSafeIntegerMax then .error .aboveJsonSafeInteger
  else .ok ⟨costModel, upperBoundTokens, Nat.pos_of_ne_zero h0, Nat.le_of_not_gt h⟩

structure ReservedFixedOverheadV1 where
  costModel : ComposableCostModelV1
  upperBoundTokens : Nat
  le_max : upperBoundTokens ≤ jsonSafeIntegerMax
deriving DecidableEq

def ReservedFixedOverheadV1.new (costModel : ComposableCostModelV1)
    (upperBoundTokens : Nat) :
    Except TokenValueConstructionError ReservedFixedOverheadV1 :=
  if h : upperBoundTokens > jsonSafeIntegerMax then .error .aboveJsonSafeInteger
  else .ok ⟨costModel, upperBoundTokens, Nat.le_of_not_gt h⟩

structure TotalTokenBudgetV1 where
  tokens : Nat
  le_max : tokens ≤ jsonSafeIntegerMax
deriving DecidableEq

def TotalTokenBudgetV1.new (tokens : Nat) :
    Except TokenValueConstructionError TotalTokenBudgetV1 :=
  if h : tokens > jsonSafeIntegerMax then .error .aboveJsonSafeInteger
  else .ok ⟨tokens, Nat.le_of_not_gt h⟩

/-! ## Facets -/

inductive FacetConstructionError where
  | emptySemanticKey
  | semanticKeyTooLarge
  | invalidProviderRelationWeight
deriving DecidableEq

structure ProductionFacetV1 where
  id : FacetIdV1
  kind : ProductionFacetKindV1
  weight : FacetWeightV1
deriving DecidableEq

/-- What the facet id hashes. The label is raw, with a trailing zero byte. -/
def facetPreimage (kind : ProductionFacetKindV1) (canonicalSemanticKey : List UInt8) :
    List UInt8 :=
  asciiBytes "evidentrail/select/facet/v1" ++ [0] ++ field (asciiBytes kind.code)
    ++ field canonicalSemanticKey

def ProductionFacetV1.new [Sha256] (kind : ProductionFacetKindV1)
    (canonicalSemanticKey : List UInt8) (weight : FacetWeightV1) :
    Except FacetConstructionError ProductionFacetV1 :=
  if canonicalSemanticKey = [] then .error .emptySemanticKey
  else if canonicalSemanticKey.length > maxFacetSemanticKeyBytesV1 then
    .error .semanticKeyTooLarge
  else if kind = .providerAttestedGraphRelation ∧
      weight.micros ≠ providerRelationEndpointWeightMicrosV1 then
    .error .invalidProviderRelationWeight
  else .ok ⟨⟨Sha256.digest (facetPreimage kind canonicalSemanticKey)⟩, kind, weight⟩

structure FacetAffinityV1 where
  facetId : FacetIdV1
  affinity : AffinityV1
deriving DecidableEq

/-! ## Packets -/

inductive PacketConstructionError where
  | emptyEventSet
  | tooManyEvents
  | duplicateEvent
  | emptyAffinitySet
  | tooManyAffinities
  | duplicateFacetAffinity
deriving DecidableEq

/-- One indivisible candidate packet, in canonical order. -/
structure IntactPacketV1 where
  id : PacketIdV1
  eventIds : List EventId
  composableTokenUpperBound : ComposablePacketCostV1
  affinities : List FacetAffinityV1
  eventIds_ne : eventIds ≠ []
  eventIds_le : eventIds.length ≤ maxPacketEventsV1
  eventIds_sorted : StrictlySorted (fun event => event) eventIds
  affinities_ne : affinities ≠ []
  affinities_le : affinities.length ≤ maxSelectionFacetsV1
  affinities_sorted : StrictlySorted FacetAffinityV1.facetId affinities

instance : DecidableEq IntactPacketV1 := fun a b =>
  decidable_of_iff (a.id = b.id ∧ a.eventIds = b.eventIds ∧
      a.composableTokenUpperBound = b.composableTokenUpperBound ∧
      a.affinities = b.affinities) (by cases a; cases b; simp)

namespace IntactPacketV1

/-- `composable_token_upper_bound().upper_bound_tokens()`. -/
def cost (p : IntactPacketV1) : Nat := p.composableTokenUpperBound.upperBoundTokens

/-- The events are checked before the affinities, each set after sorting. -/
def new (id : PacketIdV1) (eventIds : List EventId)
    (composableTokenUpperBound : ComposablePacketCostV1)
    (affinities : List FacetAffinityV1) : Except PacketConstructionError IntactPacketV1 :=
  let sortedEvents := sortByKey (fun event => event) eventIds
  let sortedAffinities := sortByKey FacetAffinityV1.facetId affinities
  if he : eventIds = [] then .error .emptyEventSet
  else if hel : eventIds.length > maxPacketEventsV1 then .error .tooManyEvents
  else if hes : hasEqualNeighbours (fun event => event) sortedEvents = true then
    .error .duplicateEvent
  else if ha : affinities = [] then .error .emptyAffinitySet
  else if hal : affinities.length > maxSelectionFacetsV1 then .error .tooManyAffinities
  else if has : hasEqualNeighbours FacetAffinityV1.facetId sortedAffinities = true then
    .error .duplicateFacetAffinity
  else .ok {
    id, composableTokenUpperBound
    eventIds := sortedEvents
    affinities := sortedAffinities
    eventIds_ne := fun h => he (by
      simpa [sortedEvents] using congrArg List.length h)
    eventIds_le := by simpa [sortedEvents] using hel
    eventIds_sorted := strictlySorted_sortByKey _ (by simpa using hes)
    affinities_ne := fun h => ha (by
      simpa [sortedAffinities] using congrArg List.length h)
    affinities_le := by simpa [sortedAffinities] using hal
    affinities_sorted := strictlySorted_sortByKey _ (by simpa using has) }

def affinityFor (p : IntactPacketV1) (facetId : FacetIdV1) : Option AffinityV1 :=
  match binarySearchByKey FacetAffinityV1.facetId facetId p.affinities with
  | .ok index => some p.affinities[index].affinity
  | .error _ => none

end IntactPacketV1

/-- Membership forced by a validated identifier facet. -/
structure MandatoryPacketV1 where
  packetId : PacketIdV1
  validatedIdentifierFacetId : FacetIdV1
deriving DecidableEq

end Evidentrail
