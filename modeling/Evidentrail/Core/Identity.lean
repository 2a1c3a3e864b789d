import Evidentrail.Core.Hash
import Mathlib.Data.Set.Function

/-!
# What the identities commit to

Each preimage of `Core.Hash` is taken apart piece by piece with the
rules of `Lib.Encoding`. All of them determine every argument, with one
exception: `hashRecordState` hashes the code of a fragment reason and
forgets the version and code that `OtherVersioned` carries, although
`hashStream` hashes the same two numbers of a stream. Two envelopes that
differ there only share their source-record identity.
-/

namespace Evidentrail

open Rust Encoding

/-! ## The pieces -/

theorem commits_id {k : IdKind} :
    Commits (fun id : HashId k => field id.asBytes) (fun id => id) :=
  (commits_field (f := HashId.asBytes) (by simp)).map fun _ _ => HashId.asBytes_inj

theorem commits_vec :
    Commits (fun v : Vec UInt8 => field v.toList) (fun v => v) :=
  (commits_field (f := Vec.toList) Vec.length_lt_u64).map fun _ _ => Vec.ext

theorem commits_opaqueBytes {kind : OpaqueKind} :
    Commits (fun v : OpaqueBytes kind => field v.asBytes) (fun v => v) :=
  (commits_field (f := OpaqueBytes.asBytes) OpaqueBytes.length_asBytes_lt).map
    fun _ _ => OpaqueBytes.asBytes_inj

theorem commits_optionalOpaqueBytes {kind : OpaqueKind} :
    Commits (fun v : Option (OpaqueBytes kind) =>
      optionalField (v.map OpaqueBytes.asBytes)) (fun v => v) := by
  refine (commits_optionalField
    (f := fun v : Option (OpaqueBytes kind) => v.map OpaqueBytes.asBytes) ?_).map ?_
  · intro a v hv
    obtain ⟨w, -, rfl⟩ := Option.map_eq_some_iff.mp hv
    exact w.length_asBytes_lt
  · exact fun a b h => Option.map_injective (fun _ _ => OpaqueBytes.asBytes_inj) h

/-- A field that holds a fixed-width integer. -/
theorem commits_leField {α : Type*} (width : Nat) (hw : width < 2 ^ 64) {f : α → Nat}
    (hf : ∀ a, f a < 256 ^ width) : Commits (fun a => field (leBytes width (f a))) f :=
  (commits_field (f := fun a => leBytes width (f a))
    (fun _ => by rw [length_leBytes]; exact hw)).map
    fun a b h => leBytes_inj (hf a) (hf b) h

theorem commits_u64Field {α : Type*} (f : α → UInt64) :
    Commits (fun a => field (leBytes 8 (f a).toNat)) f :=
  (commits_leField 8 (by decide) (fun a => (f a).toNat_lt)).map
    fun _ _ => UInt64.toNat_inj.mp

theorem commits_u16Field {α : Type*} (f : α → UInt16) :
    Commits (fun a => field (leBytes 2 (f a).toNat)) f :=
  (commits_leField 2 (by decide) (fun a => (f a).toNat_lt)).map
    fun _ _ => UInt16.toNat_inj.mp

/-- A field that is the same for every input. -/
theorem commits_constField {α : Type*} (v : List UInt8) (hv : v.length < 2 ^ 64) :
    Commits (fun _ : α => field v) (fun _ => ()) :=
  (commits_field (f := fun _ => v) fun _ => hv).map fun _ _ _ => rfl

/-- A code field followed by what the variant carries: it is enough to
read the payload back variant by variant. -/
theorem commits_tagged {α κ : Type*} (code : α → String) (payload : α → List UInt8)
    {key : α → κ} (hcode : ∀ a, (asciiBytes (code a)).length < 2 ^ 64)
    (h : ∀ a b s t, asciiBytes (code a) = asciiBytes (code b) →
      payload a ++ s = payload b ++ t → key a = key b ∧ s = t) :
    Commits (fun a => field (asciiBytes (code a)) ++ payload a) key :=
  ((commits_field (f := fun a => asciiBytes (code a)) hcode).bind h).map
    fun _ _ hab => congrArg Prod.snd hab

/-- What follows the code of a stream. -/
def SourceStream.payload : SourceStream → List UInt8
  | .otherVersioned version code =>
      field (leBytes 2 version.toNat) ++ field (leBytes 2 code.toNat)
  | _ => []

theorem commits_hashStream : Commits hashStream (fun s => s) := by
  refine commits_tagged SourceStream.code SourceStream.payload ?_ ?_
  · intro a
    cases a <;> (simp only [SourceStream.code]; decide)
  · intro a b s t hcode hrest
    have hpair := (commits_u16Field (Prod.fst : UInt16 × UInt16 → UInt16)).append
      (commits_u16Field Prod.snd)
    cases a <;> cases b <;>
      first
      | exact ⟨rfl, hrest⟩
      | exact absurd hcode (by simp only [SourceStream.code]; decide)
      | obtain ⟨hkey, hst⟩ := hpair (a := (_, _)) (b := (_, _)) hrest
        simp only [Prod.mk.injEq] at hkey
        exact ⟨by rw [hkey.1, hkey.2], hst⟩

/-! ## The state of a record

`hashRecordState` commits the variant and the code of the reason. -/

/-- The reason as far as its code determines it. -/
def RecordFragmentReason.coded : RecordFragmentReason → RecordFragmentReason
  | .otherVersioned _ _ => .otherVersioned 0 0
  | reason => reason

/-- The state as far as `hashRecordState` looks at it. -/
def RecordState.coded : RecordState → RecordState
  | .complete => .complete
  | .sourceTruncated reason => .sourceTruncated reason.coded
  | .adapterFragment reason => .adapterFragment reason.coded

/-- Fragments of one variant whose versioned reasons differ. -/
inductive RecordState.SharesReasonCode : RecordState → RecordState → Prop where
  | sourceTruncated {v c v' c' : UInt16} (h : (v, c) ≠ (v', c')) :
      SharesReasonCode (.sourceTruncated (.otherVersioned v c))
        (.sourceTruncated (.otherVersioned v' c'))
  | adapterFragment {v c v' c' : UInt16} (h : (v, c) ≠ (v', c')) :
      SharesReasonCode (.adapterFragment (.otherVersioned v c))
        (.adapterFragment (.otherVersioned v' c'))

theorem RecordFragmentReason.coded_eq_iff {r r' : RecordFragmentReason} :
    r.coded = r'.coded ↔ asciiBytes r.code = asciiBytes r'.code := by
  cases r <;> cases r' <;>
    simp only [RecordFragmentReason.coded, RecordFragmentReason.code] <;> decide

theorem RecordFragmentReason.eq_or_of_coded {r r' : RecordFragmentReason}
    (h : r.coded = r'.coded) :
    r = r' ∨ ∃ v c v' c', r = .otherVersioned v c ∧ r' = .otherVersioned v' c'
      ∧ (v, c) ≠ (v', c') := by
  cases r with
  | otherVersioned v c =>
      cases r' with
      | otherVersioned v' c' =>
          by_cases hvc : (v, c) = (v', c')
          · obtain ⟨rfl, rfl⟩ := Prod.mk.injEq .. |>.mp hvc
            exact .inl rfl
          · exact .inr ⟨v, c, v', c', rfl, rfl, hvc⟩
      | _ => cases h
  | _ =>
      cases r' with
      | otherVersioned v' c' => cases h
      | _ => exact .inl h

/-- The two ways to share a hashed state. -/
theorem RecordState.coded_eq_iff {s t : RecordState} :
    s.coded = t.coded ↔ s = t ∨ s.SharesReasonCode t := by
  constructor
  · intro h
    cases s with
    | complete =>
        cases t with
        | complete => exact .inl rfl
        | _ => cases h
    | sourceTruncated r =>
        cases t with
        | sourceTruncated r' =>
            obtain rfl | ⟨v, c, v', c', rfl, rfl, hne⟩ :=
              RecordFragmentReason.eq_or_of_coded (RecordState.sourceTruncated.inj h)
            · exact .inl rfl
            · exact .inr (.sourceTruncated hne)
        | _ => cases h
    | adapterFragment r =>
        cases t with
        | adapterFragment r' =>
            obtain rfl | ⟨v, c, v', c', rfl, rfl, hne⟩ :=
              RecordFragmentReason.eq_or_of_coded (RecordState.adapterFragment.inj h)
            · exact .inl rfl
            · exact .inr (.adapterFragment hne)
        | _ => cases h
  · rintro (rfl | h)
    · rfl
    · cases h <;> rfl

theorem RecordState.SharesReasonCode.ne {s t : RecordState}
    (h : s.SharesReasonCode t) : s ≠ t := by
  cases h with
  | sourceTruncated hne =>
      intro heq
      injection heq with heq
      injection heq with hv hc
      exact hne (by rw [hv, hc])
  | adapterFragment hne =>
      intro heq
      injection heq with heq
      injection heq with hv hc
      exact hne (by rw [hv, hc])

theorem commits_hashRecordState : Commits hashRecordState RecordState.coded := by
  have hreason : ∀ {r r' : RecordFragmentReason} {s t : List UInt8},
      field (asciiBytes r.code) ++ s = field (asciiBytes r'.code) ++ t →
      r.coded = r'.coded ∧ s = t := by
    intro r r' s t h
    obtain ⟨hcode, hst⟩ :=
      commits_field (f := fun r : RecordFragmentReason => asciiBytes r.code)
        (by intro a; cases a <;> (simp only [RecordFragmentReason.code]; decide)) h
    exact ⟨RecordFragmentReason.coded_eq_iff.mpr hcode, hst⟩
  refine commits_tagged RecordState.code
    (fun state => match state with
      | .complete => []
      | .sourceTruncated reason => field (asciiBytes reason.code)
      | .adapterFragment reason => field (asciiBytes reason.code)) ?_ ?_
  · intro a
    cases a <;> (simp only [RecordState.code]; decide)
  · intro a b s t hcode hrest
    cases a <;> cases b <;>
      first
      | exact ⟨rfl, hrest⟩
      | exact absurd hcode (by simp only [RecordState.code]; decide)
      | obtain ⟨hr, hst⟩ := hreason hrest
        exact ⟨by simp only [RecordState.coded, hr], hst⟩

theorem hashRecordState_congr {s t : RecordState} (h : s.coded = t.coded) :
    hashRecordState s = hashRecordState t := by
  rcases RecordState.coded_eq_iff.mp h with rfl | hshare
  · rfl
  · cases hshare <;> rfl

/-! ## Source records -/

/-- The envelope facts that a source-record identity is about. -/
structure HashedEnvelopeFacts where
  contractVersion : Nat
  identity : RawEnvelopeIdentityV1
  ordering : EnvelopeOrdering
  nativeEventId : Option NativeEventId
  cursor : Option SourceCursor
  state : RecordState
deriving DecidableEq

def RawEnvelopeV1.hashedFacts (e : RawEnvelopeV1) : HashedEnvelopeFacts :=
  ⟨e.contractVersion, e.identity, e.ordering, e.nativeEventId, e.cursor, e.state⟩

/-- The facts with the state as `hashRecordState` sees it. -/
def HashedEnvelopeFacts.coded (f : HashedEnvelopeFacts) : HashedEnvelopeFacts :=
  { f with state := f.state.coded }

theorem commits_domainHasher {α : Type*} (domain : HashDomain) :
    Commits (fun _ : α => domainHasher domain) (fun _ => ()) :=
  commits_constField _ (by cases domain <;> decide)

theorem commits_sourceRecordPreimage :
    Commits sourceRecordPreimage (fun e => e.hashedFacts.coded) := by
  have hpieces := commits_domainHasher (α := RawEnvelopeV1) .sourceRecord
    |>.append (commits_constField (leBytes 2 1) (by decide))
    |>.append (commits_id.comp fun e => e.identity.retrievalId)
    |>.append (commits_id.comp fun e => e.identity.planId)
    |>.append (commits_id.comp fun e => e.identity.planDigest)
    |>.append (commits_vec.comp fun e => e.identity.adapter.kind)
    |>.append (commits_vec.comp fun e => e.identity.adapter.version)
    |>.append (commits_id.comp fun e => e.identity.sourceIdentityDigest)
    |>.append (commits_u64Field fun e => e.ordering.acquisitionSequence.value)
    |>.append (commits_opaqueBytes.comp fun e => e.ordering.lane.member)
    |>.append (commits_hashStream.comp fun e => e.ordering.lane.stream)
    |>.append (commits_u64Field fun e => e.ordering.laneSequence.value)
    |>.append (commits_optionalOpaqueBytes.comp fun e => e.nativeEventId)
    |>.append (commits_optionalOpaqueBytes.comp fun e => e.cursor)
    |>.append (commits_hashRecordState.comp fun e => e.state)
  refine Commits.map (f := sourceRecordPreimage) hpieces ?_
  rintro ⟨⟨r, p, d, ⟨k, v, hk, hv⟩, i⟩, ⟨⟨q⟩, ⟨m, st⟩, ⟨l⟩⟩, n, c, _, state, _, _, _, _⟩
    ⟨⟨r', p', d', ⟨k', v', hk', hv'⟩, i'⟩, ⟨⟨q'⟩, ⟨m', st'⟩, ⟨l'⟩⟩, n', c', _, state',
      _, _, _, _⟩ h
  simp only [Prod.mk.injEq, true_and] at h
  obtain ⟨⟨⟨⟨⟨⟨⟨⟨⟨⟨⟨⟨rfl, rfl⟩, rfl⟩, rfl⟩, rfl⟩, rfl⟩, rfl⟩, rfl⟩, rfl⟩, rfl⟩, rfl⟩, rfl⟩,
    hstate⟩ := h
  simp only [RawEnvelopeV1.hashedFacts, HashedEnvelopeFacts.coded,
    RawEnvelopeV1.contractVersion, hstate]

/-- The preimage is a function of the coded facts. -/
theorem sourceRecordPreimage_congr {e e' : RawEnvelopeV1}
    (h : e.hashedFacts.coded = e'.hashedFacts.coded) :
    sourceRecordPreimage e = sourceRecordPreimage e' := by
  simp only [RawEnvelopeV1.hashedFacts, HashedEnvelopeFacts.coded,
    HashedEnvelopeFacts.mk.injEq] at h
  obtain ⟨-, hidentity, hordering, hnative, hcursor, hstate⟩ := h
  simp only [sourceRecordPreimage, RawEnvelopeV1.contractVersion, hidentity, hordering,
    hnative, hcursor, hashRecordState_congr hstate]

/-! ## Events -/

theorem commits_hashAttestation : Commits hashAttestation (fun a => a) := by
  have hkind : ∀ a b : ProviderAttestedRelationKindV1,
      asciiBytes a.code = asciiBytes b.code → a = b := by
    intro a b
    cases a <;> cases b <;> decide
  have hpieces := commits_id.comp ProviderAttestedCorrelationV1.scopeDigest
    |>.append (commits_field (f := fun a => asciiBytes a.relationKind.code)
      (by intro a; cases a.relationKind <;> decide))
    |>.append (commits_field (f := fun a => asciiBytes a.origin.code)
      (by intro a; cases a.origin; decide))
    |>.append (commits_field (f := fun a => a.value.bytes)
      (fun a => Nat.lt_of_le_of_lt a.value.length_le (by decide)))
  refine Commits.map (f := hashAttestation) hpieces ?_
  rintro ⟨s, k, ⟨⟩, v⟩ ⟨s', k', ⟨⟩, v'⟩ h
  simp only [Prod.mk.injEq, and_true] at h
  obtain ⟨⟨rfl, hk⟩, hv⟩ := h
  rw [hkind k k' hk, ProviderAttestationValueV1.ext hv]

theorem ends_hashPersistedProviderAttestations :
    Ends hashPersistedProviderAttestations (fun a => a) := by
  intro a b h
  have hlen : ∀ x : ProviderAttestationsV1, x.entries.length < 2 ^ 64 :=
    fun x => Nat.lt_of_le_of_lt x.length_le (by decide)
  have hlong := ((commits_constField (α := ProviderAttestationsV1)
    (asciiBytes "evidentrail/authorized-event/provider-attestations/v1")
    (by decide)).append (commits_counted commits_hashAttestation hlen)).ends
  unfold hashPersistedProviderAttestations at h
  -- an absent list hashes to nothing, a present one never does
  split at h <;> split at h
  · rename_i ha hb
    exact ProviderAttestationsV1.ext (ha.trans hb.symm)
  · exact absurd (List.append_eq_nil_iff.mp h.symm).1 (field_ne_nil _)
  · exact absurd (List.append_eq_nil_iff.mp h).1 (field_ne_nil _)
  · have hkey := congrArg Prod.snd (hlong h)
    exact ProviderAttestationsV1.ext (by simpa using hkey)

/-- What follows the code of an exactness basis. -/
def ExactnessBasis.payload : ExactnessBasis → List UInt8
  | .sourceExact => []
  | .postPolicy policyDigest transformationReceiptId =>
      field policyDigest.asBytes ++ field transformationReceiptId.asBytes

theorem commits_hashExactnessBasis : Commits hashExactnessBasis (fun b => b) := by
  have hpair := (commits_id.comp (Prod.fst : PolicyDigest × TransformationReceiptId → _)).append
    (commits_id.comp Prod.snd)
  refine commits_tagged ExactnessBasis.code ExactnessBasis.payload ?_ ?_
  · intro a
    cases a <;> (simp only [ExactnessBasis.code]; decide)
  · intro a b s t hcode hrest
    cases a <;> cases b <;>
      first
      | exact ⟨rfl, hrest⟩
      | exact absurd hcode (by simp only [ExactnessBasis.code]; decide)
      | obtain ⟨hkey, hst⟩ := hpair (a := (_, _)) (b := (_, _)) hrest
        simp only [Prod.mk.injEq] at hkey
        exact ⟨by rw [hkey.1, hkey.2], hst⟩

/-- The arguments of `event_id`. -/
structure EventMaterial where
  retrievalId : RetrievalId
  sourceRecordId : SourceRecordId
  contentHash : ContentHash
  exactnessBasis : ExactnessBasis
  providerAttestations : ProviderAttestationsV1
deriving DecidableEq

def EventMaterial.preimage (m : EventMaterial) : List UInt8 :=
  eventPreimage m.retrievalId m.sourceRecordId m.contentHash m.exactnessBasis
    m.providerAttestations

theorem ends_eventPreimage : Ends EventMaterial.preimage (fun m => m) := by
  have hpieces := commits_domainHasher (α := EventMaterial) .authorizedEvent
    |>.append (commits_id.comp EventMaterial.retrievalId)
    |>.append (commits_id.comp EventMaterial.sourceRecordId)
    |>.append (commits_id.comp EventMaterial.contentHash)
    |>.append (commits_hashExactnessBasis.comp EventMaterial.exactnessBasis)
    |>.append_ends (fun m => hashPersistedProviderAttestations m.providerAttestations)
      EventMaterial.providerAttestations
      (fun _ _ h => ends_hashPersistedProviderAttestations h)
  refine Ends.map (f := EventMaterial.preimage) hpieces ?_
  rintro ⟨r, s, c, b, a⟩ ⟨r', s', c', b', a'⟩ h
  simp only [Prod.mk.injEq, true_and] at h
  obtain ⟨⟨⟨⟨rfl, rfl⟩, rfl⟩, rfl⟩, rfl⟩ := h
  rfl

/-! ## Blocks -/

/-- The arguments of `block_id`. -/
structure BlockMaterial where
  retrievalId : RetrievalId
  memberIds : Vec EventId
  framingPolicy : FramingPolicy
deriving DecidableEq

def BlockMaterial.preimage (m : BlockMaterial) : List UInt8 :=
  eventBlockPreimage m.retrievalId m.memberIds.toList m.framingPolicy

theorem ends_eventBlockPreimage : Ends BlockMaterial.preimage (fun m => m) := by
  have hpieces := commits_domainHasher (α := BlockMaterial) .eventBlock
    |>.append (commits_id.comp BlockMaterial.retrievalId)
    |>.append (commits_counted commits_id fun m => m.memberIds.length_lt_u64)
    |>.append (commits_vec.comp fun m => m.framingPolicy.policy)
    |>.append (commits_vec.comp fun m => m.framingPolicy.version)
  refine Ends.map (f := BlockMaterial.preimage) hpieces.ends ?_
  rintro ⟨r, m, ⟨p, v⟩⟩ ⟨r', m', ⟨p', v'⟩⟩ h
  simp only [Prod.mk.injEq, true_and, List.map_id'] at h
  obtain ⟨⟨⟨rfl, hm⟩, rfl⟩, rfl⟩ := h
  rw [Vec.ext hm]

/-- The arguments of the outer hash of `same_lane_block_id_v1`. -/
structure LaneMaterial where
  membershipId : BlockId
  lane : LaneKey
  memberLaneSequences : List LaneSequence
deriving DecidableEq

def LaneMaterial.preimage (m : LaneMaterial) : List UInt8 :=
  sameLaneBlockPreimage m.membershipId m.lane m.memberLaneSequences

theorem ends_sameLaneBlockPreimage : Ends LaneMaterial.preimage (fun m => m) := by
  have hseq : Ends (fun l : List LaneSequence => l.flatMap fun s => field (leBytes 8 s.get))
      (fun l => l.map LaneSequence.value) :=
    Ends.flatMap (commits_u64Field LaneSequence.value) (fun _ => field_ne_nil _)
  have hlast : Ends (fun m : LaneMaterial =>
        m.memberLaneSequences.flatMap fun s => field (leBytes 8 s.get))
      (fun m => m.memberLaneSequences.map LaneSequence.value) := fun _ _ h => hseq h
  have hpieces := commits_domainHasher (α := LaneMaterial) .sameLaneBlock
    |>.append (commits_id.comp LaneMaterial.membershipId)
    |>.append (commits_opaqueBytes.comp fun m => m.lane.member)
    |>.append (commits_hashStream.comp fun m => m.lane.stream)
    |>.append_ends _ _ hlast
  refine Ends.map (f := LaneMaterial.preimage) hpieces ?_
  rintro ⟨i, ⟨m, s⟩, l⟩ ⟨i', ⟨m', s'⟩, l'⟩ h
  simp only [Prod.mk.injEq, true_and] at h
  obtain ⟨⟨⟨rfl, rfl⟩, rfl⟩, hl⟩ := h
  have hvalue : Function.Injective LaneSequence.value := by
    rintro ⟨a⟩ ⟨b⟩ rfl
    rfl
  rw [List.map_injective_iff.mpr hvalue hl]

/-! ## Receipts and references -/

/-- What follows the code of an outcome. -/
def AcquisitionOutcome.payload : AcquisitionOutcome → List UInt8
  | .persisted eventId .sourceExact => field eventId.asBytes
  | .persisted eventId (.postPolicy policyDigest transformationReceiptId) =>
      field eventId.asBytes ++ field policyDigest.asBytes
        ++ field transformationReceiptId.asBytes
  | .omittedByPolicy policyDigest => field policyDigest.asBytes

theorem commits_hashAcquisitionOutcome :
    Commits hashAcquisitionOutcome (fun o => o) := by
  have hone := commits_id (k := .event)
  have homit := commits_id (k := .policy)
  have hthree := commits_id.comp
      (fun x : EventId × PolicyDigest × TransformationReceiptId => x.1)
    |>.append (commits_id.comp fun x => x.2.1)
    |>.append (commits_id.comp fun x => x.2.2)
  refine commits_tagged AcquisitionOutcome.code AcquisitionOutcome.payload ?_ ?_
  · rintro (⟨e, _ | _⟩ | _) <;> (simp only [AcquisitionOutcome.code]; decide)
  · rintro (⟨e, _ | ⟨p, r⟩⟩ | p) (⟨e', _ | ⟨p', r'⟩⟩ | p') s t hcode hrest <;>
      first
      | exact absurd hcode (by simp only [AcquisitionOutcome.code]; decide)
      | skip
    · obtain ⟨rfl, hst⟩ := hone hrest
      exact ⟨rfl, hst⟩
    · obtain ⟨hkey, hst⟩ := hthree (a := (e, p, r)) (b := (e', p', r')) hrest
      simp only [Prod.mk.injEq] at hkey
      obtain ⟨⟨rfl, rfl⟩, rfl⟩ := hkey
      exact ⟨rfl, hst⟩
    · obtain ⟨rfl, hst⟩ := homit hrest
      exact ⟨rfl, hst⟩

theorem commits_hashAcquisitionEntry : Commits hashAcquisitionEntry (fun e => e) := by
  refine Commits.map (f := hashAcquisitionEntry)
    ((commits_id.comp AcquisitionReceiptEntry.sourceRecordId).append
      (commits_hashAcquisitionOutcome.comp AcquisitionReceiptEntry.outcome)) ?_
  rintro ⟨s, o⟩ ⟨s', o'⟩ h
  simp only [Prod.mk.injEq] at h
  obtain ⟨rfl, rfl⟩ := h
  rfl

theorem ends_acquisitionReceiptPreimage :
    Ends (fun m : RetrievalId × List AcquisitionReceiptEntry =>
      acquisitionReceiptPreimage m.1 m.2) (fun m => m) := by
  have hentries := Ends.flatMap commits_hashAcquisitionEntry
    (fun a h => field_ne_nil _ (List.append_eq_nil_iff.mp h).1)
  have hpieces := commits_domainHasher .acquisitionReceipt
    |>.append (commits_id.comp (Prod.fst : RetrievalId × List AcquisitionReceiptEntry → _))
    |>.append_ends (fun m => m.2.flatMap hashAcquisitionEntry)
      (fun m => m.2.map fun e => e) (fun _ _ h => hentries h)
  refine Ends.map hpieces ?_
  rintro ⟨r, l⟩ ⟨r', l'⟩ h
  simpa only [Prod.mk.injEq, true_and, List.map_id'] using h

/-- What follows the word of a disposition. -/
def PresentationDisposition.payload : PresentationDisposition → List UInt8
  | .patternRepresented patternId => field patternId.asBytes
  | _ => []

theorem commits_hashPresentationDisposition :
    Commits hashPresentationDisposition (fun d => d) := by
  refine commits_tagged PresentationDisposition.hashWord PresentationDisposition.payload ?_ ?_
  · intro a
    cases a <;> (simp only [PresentationDisposition.hashWord]; decide)
  · intro a b s t hcode hrest
    cases a <;> cases b <;>
      first
      | exact ⟨rfl, hrest⟩
      | exact absurd hcode (by simp only [PresentationDisposition.hashWord]; decide)
      | obtain ⟨rfl, hst⟩ := commits_id hrest
        exact ⟨rfl, hst⟩

theorem commits_hashPresentationEntry : Commits hashPresentationEntry (fun e => e) := by
  refine Commits.map (f := hashPresentationEntry)
    ((commits_id.comp PresentationReceiptEntry.eventId).append
      (commits_hashPresentationDisposition.comp PresentationReceiptEntry.disposition)) ?_
  rintro ⟨s, o⟩ ⟨s', o'⟩ h
  simp only [Prod.mk.injEq] at h
  obtain ⟨rfl, rfl⟩ := h
  rfl

theorem ends_presentationReceiptPreimage :
    Ends (fun m : RetrievalId × List PresentationReceiptEntry =>
      presentationReceiptPreimage m.1 m.2) (fun m => m) := by
  have hentries := Ends.flatMap commits_hashPresentationEntry
    (fun a h => field_ne_nil _ (List.append_eq_nil_iff.mp h).1)
  have hpieces := commits_domainHasher .presentationReceipt
    |>.append (commits_id.comp (Prod.fst : RetrievalId × List PresentationReceiptEntry → _))
    |>.append_ends (fun m => m.2.flatMap hashPresentationEntry)
      (fun m => m.2.map fun e => e) (fun _ _ h => hentries h)
  refine Ends.map hpieces ?_
  rintro ⟨r, l⟩ ⟨r', l'⟩ h
  simpa only [Prod.mk.injEq, true_and, List.map_id'] using h

/-- The arguments of `receipt_id`, with the source's integer widths. -/
structure TransformationMaterial where
  policy : PolicyDigest
  operations : Vec ByteRangeReplacementV1
  inputLength : UInt64
  outputLength : UInt64
  outputHash : ContentHash
  payloadLength : UInt64
  terminatorLength : Option UInt64
deriving DecidableEq

def TransformationMaterial.preimage (m : TransformationMaterial) : List UInt8 :=
  transformationReceiptPreimage m.policy m.operations.toList m.inputLength.toNat
    m.outputLength.toNat m.outputHash m.payloadLength.toNat
    (m.terminatorLength.map UInt64.toNat)

theorem commits_hashReplacement : Commits hashReplacement (fun o => o) := by
  refine Commits.map (f := hashReplacement)
    ((commits_u64Field ByteRangeReplacementV1.start).append
      (commits_u64Field ByteRangeReplacementV1.stop) |>.append
      (commits_vec.comp ByteRangeReplacementV1.replacement)) ?_
  rintro ⟨s, e, r⟩ ⟨s', e', r'⟩ h
  simp only [Prod.mk.injEq] at h
  obtain ⟨⟨rfl, rfl⟩, rfl⟩ := h
  rfl

theorem ends_transformationReceiptPreimage :
    Ends TransformationMaterial.preimage (fun m => m) := by
  have hterm : Commits (fun m : TransformationMaterial =>
      optionalField ((m.terminatorLength.map UInt64.toNat).map (leBytes 8)))
      TransformationMaterial.terminatorLength := by
    refine (commits_optionalField ?_).map ?_
    · intro m v hv
      obtain ⟨n, -, rfl⟩ := Option.map_eq_some_iff.mp hv
      rw [length_leBytes]
      decide
    · intro a b h
      rw [Option.map_map, Option.map_map] at h
      exact Option.map_injective (fun x y hxy => UInt64.toNat_inj.mp
        (leBytes_inj x.toNat_lt y.toNat_lt hxy)) h
  have hpieces := commits_domainHasher (α := TransformationMaterial) .transformationReceipt
    |>.append (commits_id.comp TransformationMaterial.policy)
    |>.append (commits_u64Field TransformationMaterial.inputLength)
    |>.append (commits_u64Field TransformationMaterial.outputLength)
    |>.append (commits_id.comp TransformationMaterial.outputHash)
    |>.append (commits_u64Field TransformationMaterial.payloadLength)
    |>.append hterm
    |>.append (commits_counted commits_hashReplacement
      fun m => m.operations.length_lt_u64)
  refine Ends.map (f := TransformationMaterial.preimage) hpieces.ends ?_
  rintro ⟨p, o, i, u, h, l, t⟩ ⟨p', o', i', u', h', l', t'⟩ heq
  simp only [Prod.mk.injEq, true_and, List.map_id'] at heq
  obtain ⟨⟨⟨⟨⟨⟨rfl, rfl⟩, rfl⟩, rfl⟩, rfl⟩, rfl⟩, ho⟩ := heq
  rw [Vec.ext ho]

/-- The arguments of `evidence_reference_id`. -/
structure ReferenceMaterial where
  resultId : ResultId
  targets : Vec EvidenceTargetRef
  allowedRelations : Vec ExpansionRelationV1
  issuedAt : UnixTimestampNanos
  expiresAt : UnixTimestampNanos
deriving DecidableEq

def ReferenceMaterial.preimage (m : ReferenceMaterial) : List UInt8 :=
  evidenceReferencePreimage m.resultId m.targets.toList m.allowedRelations.toList
    m.issuedAt m.expiresAt

theorem commits_i128Field :
    Commits (fun t : UnixTimestampNanos => field (i128LeBytes t)) (fun t => t) := by
  have hbound : ∀ t : UnixTimestampNanos, (t.get % 2 ^ 128).toNat < 256 ^ 16 := by
    intro t
    have := Int.emod_lt_of_pos t.get (show (0 : Int) < 2 ^ 128 by decide)
    omega
  refine (commits_leField 16 (by decide) hbound).map ?_
  rintro ⟨a, ha, ha'⟩ ⟨b, hb, hb'⟩ h
  obtain rfl : a = b := by
    simp only at h
    omega
  rfl

theorem commits_target : Commits (fun target : EvidenceTargetRef =>
    field (asciiBytes target.code) ++ field target.hashBytes) (fun t => t) := by
  refine commits_tagged EvidenceTargetRef.code (fun target => field target.hashBytes) ?_ ?_
  · rintro (_ | _) <;> (simp only [EvidenceTargetRef.code]; decide)
  · rintro (a | a) (b | b) s t hcode hrest <;>
      first
      | exact absurd hcode (by simp only [EvidenceTargetRef.code]; decide)
      | obtain ⟨rfl, hst⟩ := commits_id hrest
        exact ⟨rfl, hst⟩

theorem ends_evidenceReferencePreimage :
    Ends ReferenceMaterial.preimage (fun m => m) := by
  have hrelation : Commits (fun r : ExpansionRelationV1 => field (asciiBytes r.code))
      (fun r => r) := by
    refine (commits_field (f := fun r : ExpansionRelationV1 => asciiBytes r.code) ?_).map ?_
    · intro r
      cases r <;> decide
    · intro a b
      cases a <;> cases b <;> decide
  have hpieces := commits_domainHasher (α := ReferenceMaterial) .evidenceReference
    |>.append (commits_constField (leBytes 2 1) (by decide))
    |>.append (commits_id.comp ReferenceMaterial.resultId)
    |>.append (commits_i128Field.comp ReferenceMaterial.issuedAt)
    |>.append (commits_i128Field.comp ReferenceMaterial.expiresAt)
    |>.append (commits_counted commits_target fun m => m.targets.length_lt_u64)
    |>.append (commits_counted hrelation fun m => m.allowedRelations.length_lt_u64)
  refine Ends.map (f := ReferenceMaterial.preimage) hpieces.ends ?_
  rintro ⟨r, t, a, i, e⟩ ⟨r', t', a', i', e'⟩ h
  simp only [Prod.mk.injEq, true_and, List.map_id'] at h
  obtain ⟨⟨⟨⟨rfl, rfl⟩, rfl⟩, ht⟩, ha⟩ := h
  rw [Vec.ext ht, Vec.ext ha]

/-! ## All identities together -/

/-- What an identity is taken of, for every identity of the core. -/
inductive IdMaterial where
  | sourceRecord (envelope : RawEnvelopeV1)
  | event (material : EventMaterial)
  | eventBlock (material : BlockMaterial)
  | sameLaneBlock (material : BlockMaterial) (lane : LaneKey)
      (memberLaneSequences : List LaneSequence)
  | acquisitionReceipt (receipt : AcquisitionReceipt)
  | presentationReceipt (retrievalId : RetrievalId)
      (entries : List PresentationReceiptEntry)
  | transformationReceipt (material : TransformationMaterial)
  | evidenceReference (material : ReferenceMaterial)

namespace IdMaterial

def domain : IdMaterial → HashDomain
  | .sourceRecord _ => .sourceRecord
  | .event _ => .authorizedEvent
  | .eventBlock _ => .eventBlock
  | .sameLaneBlock _ _ _ => .sameLaneBlock
  | .acquisitionReceipt _ => .acquisitionReceipt
  | .presentationReceipt _ _ => .presentationReceipt
  | .transformationReceipt _ => .transformationReceipt
  | .evidenceReference _ => .evidenceReference

section Digests

variable [Sha256]

/-- The identity, by the core function that derives it. -/
def digest : IdMaterial → Digest
  | .sourceRecord envelope => (sourceRecordId envelope).digest
  | .event m => (eventId m.retrievalId m.sourceRecordId m.contentHash m.exactnessBasis
      m.providerAttestations).digest
  | .eventBlock m => (blockId m.retrievalId m.memberIds.toList m.framingPolicy).digest
  | .sameLaneBlock m lane sequences => (sameLaneBlockIdV1 m.retrievalId lane
      m.memberIds.toList sequences m.framingPolicy).digest
  | .acquisitionReceipt receipt => (acquisitionReceiptId receipt).digest
  | .presentationReceipt retrievalId entries =>
      (presentationReceiptId retrievalId entries).digest
  | .transformationReceipt m => (receiptId m.policy m.operations.toList
      m.inputLength.toNat m.outputLength.toNat m.outputHash m.payloadLength.toNat
      (m.terminatorLength.map UInt64.toNat)).digest
  | .evidenceReference m => (evidenceReferenceId m.resultId m.targets.toList
      m.allowedRelations.toList m.issuedAt m.expiresAt).digest

/-- The byte string whose digest the identity is. -/
def preimage : IdMaterial → List UInt8
  | .sourceRecord envelope => sourceRecordPreimage envelope
  | .event m => m.preimage
  | .eventBlock m => m.preimage
  | .sameLaneBlock m lane sequences => LaneMaterial.preimage
      ⟨blockId m.retrievalId m.memberIds.toList m.framingPolicy, lane, sequences⟩
  | .acquisitionReceipt receipt =>
      acquisitionReceiptPreimage receipt.retrievalId receipt.entries
  | .presentationReceipt retrievalId entries =>
      presentationReceiptPreimage retrievalId entries
  | .transformationReceipt m => m.preimage
  | .evidenceReference m => m.preimage

/-- Every byte string hashed on the way to the identity. -/
def preimages : IdMaterial → List (List UInt8)
  | .sameLaneBlock m lane sequences =>
      [m.preimage, (IdMaterial.sameLaneBlock m lane sequences).preimage]
  | m => [m.preimage]

theorem digest_eq (m : IdMaterial) : m.digest = Sha256.digest m.preimage := by
  cases m <;> rfl

theorem preimage_mem_preimages (m : IdMaterial) : m.preimage ∈ m.preimages := by
  cases m <;> simp [preimages]

/-- Every preimage starts with the label of its domain. -/
theorem preimage_domain (m : IdMaterial) :
    ∃ rest, m.preimage = domainHasher m.domain ++ rest := by
  cases m <;>
    simp only [preimage, domain, sourceRecordPreimage, EventMaterial.preimage,
      eventPreimage, BlockMaterial.preimage, eventBlockPreimage, LaneMaterial.preimage,
      sameLaneBlockPreimage, acquisitionReceiptPreimage, presentationReceiptPreimage,
      TransformationMaterial.preimage, transformationReceiptPreimage,
      ReferenceMaterial.preimage, evidenceReferencePreimage, List.append_assoc] <;>
    exact ⟨_, rfl⟩

theorem domain_eq_of_preimage {m m' : IdMaterial} (h : m.preimage = m'.preimage) :
    m.domain = m'.domain := by
  have hlabel : Commits domainHasher (fun d => asciiBytes d.label) :=
    commits_field (f := fun d : HashDomain => asciiBytes d.label)
      (by intro d; cases d <;> decide)
  obtain ⟨rest, hrest⟩ := m.preimage_domain
  obtain ⟨rest', hrest'⟩ := m'.preimage_domain
  rw [hrest, hrest'] at h
  have hkey := (hlabel h).1
  cases hd : m.domain <;> cases hd' : m'.domain <;>
    first
    | rfl
    | rw [hd, hd'] at hkey
      exact absurd hkey (by decide)

end Digests

/-- The two identities are of the same material: for a source record, of
the same hashed facts. -/
def Agree : IdMaterial → IdMaterial → Prop
  | .sourceRecord e, .sourceRecord e' => e.hashedFacts = e'.hashedFacts
  | m, m' => m = m'

/-- Two envelopes that agree on everything hashed except that their
fragment reasons of one variant carry different versioned codes. -/
def DropsFragmentReason : IdMaterial → IdMaterial → Prop
  | .sourceRecord e, .sourceRecord e' =>
      { e.hashedFacts with state := e'.state } = e'.hashedFacts ∧
        e.state.SharesReasonCode e'.state
  | _, _ => False

theorem sourceRecord_cases {e e' : RawEnvelopeV1}
    (h : e.hashedFacts.coded = e'.hashedFacts.coded) :
    e.hashedFacts = e'.hashedFacts ∨
      DropsFragmentReason (.sourceRecord e) (.sourceRecord e') := by
  simp only [RawEnvelopeV1.hashedFacts, HashedEnvelopeFacts.coded,
    HashedEnvelopeFacts.mk.injEq] at h
  obtain ⟨hversion, hidentity, hordering, hnative, hcursor, hstate⟩ := h
  rcases RecordState.coded_eq_iff.mp hstate with heq | hshare
  · exact .inl (by simp only [RawEnvelopeV1.hashedFacts, hversion, hidentity, hordering,
      hnative, hcursor, heq])
  · exact .inr ⟨by simp only [RawEnvelopeV1.hashedFacts, hversion, hidentity, hordering,
      hnative, hcursor], hshare⟩

theorem DropsFragmentReason.coded_eq {e e' : RawEnvelopeV1}
    (h : DropsFragmentReason (.sourceRecord e) (.sourceRecord e')) :
    e.hashedFacts.coded = e'.hashedFacts.coded := by
  obtain ⟨hfacts, hshare⟩ := h
  have hstate := RecordState.coded_eq_iff.mpr (.inr hshare)
  rw [← hfacts]
  simp only [HashedEnvelopeFacts.coded, RawEnvelopeV1.hashedFacts, hstate]

/-- Equal preimages, with the inner hash of a block read back. -/
theorem agree_or_drops_of_preimage [Sha256] {m m' : IdMaterial}
    (h : m.preimage = m'.preimage)
    (hinner : ∀ b b' l l' s s', m = .sameLaneBlock b l s → m' = .sameLaneBlock b' l' s' →
      blockId b.retrievalId b.memberIds.toList b.framingPolicy =
        blockId b'.retrievalId b'.memberIds.toList b'.framingPolicy →
      b.preimage = b'.preimage) :
    m.Agree m' ∨ m.DropsFragmentReason m' := by
  have hdomain := domain_eq_of_preimage h
  cases m <;> cases m' <;> simp only [domain, reduceCtorEq] at hdomain
  case sourceRecord.sourceRecord e e' =>
      exact sourceRecord_cases (commits_sourceRecordPreimage.ends h)
  case event.event m m' =>
      exact .inl (congrArg _ (ends_eventPreimage h))
  case eventBlock.eventBlock m m' =>
      exact .inl (congrArg _ (ends_eventBlockPreimage h))
  case sameLaneBlock.sameLaneBlock b l s b' l' s' =>
      have hlane := ends_sameLaneBlockPreimage h
      simp only [LaneMaterial.mk.injEq] at hlane
      obtain ⟨hid, rfl, rfl⟩ := hlane
      have hb := ends_eventBlockPreimage (hinner b b' l l s s rfl rfl hid)
      simp only at hb
      exact .inl (by rw [hb]; rfl)
  case acquisitionReceipt.acquisitionReceipt r r' =>
      have hpair := ends_acquisitionReceiptPreimage
        (a := (r.retrievalId, r.entries)) (b := (r'.retrievalId, r'.entries)) h
      simp only [Prod.mk.injEq] at hpair
      exact .inl (congrArg _ (AcquisitionReceipt.ext hpair.1 hpair.2))
  case presentationReceipt.presentationReceipt r l r' l' =>
      have hpair := ends_presentationReceiptPreimage (a := (r, l)) (b := (r', l')) h
      simp only [Prod.mk.injEq] at hpair
      obtain ⟨rfl, rfl⟩ := hpair
      exact .inl rfl
  case transformationReceipt.transformationReceipt m m' =>
      exact .inl (congrArg _ (ends_transformationReceiptPreimage h))
  case evidenceReference.evidenceReference m m' =>
      exact .inl (congrArg _ (ends_evidenceReferencePreimage h))

end IdMaterial

/-- Where the digest does not collide, two identities of the core are
equal only if they are of the same domain and of the same arguments,
unless the arguments are envelopes that differ in the payload of a
versioned fragment reason only; those always share their identity. -/
theorem identity_commits_iff [Sha256] (S : Set (List UInt8))
    (hS : Set.InjOn Sha256.digest S) (m m' : IdMaterial)
    (hm : ∀ p ∈ m.preimages, p ∈ S) (hm' : ∀ p ∈ m'.preimages, p ∈ S) :
    (m.digest = m'.digest → m.Agree m') ↔ ¬ m.DropsFragmentReason m' := by
  constructor
  · intro hcommit hdrops
    cases m with
    | sourceRecord e =>
        cases m' with
        | sourceRecord e' =>
            have hpre := sourceRecordPreimage_congr hdrops.coded_eq
            have hagree := hcommit (by
              rw [IdMaterial.digest_eq, IdMaterial.digest_eq]
              exact congrArg _ hpre)
            exact hdrops.2.ne (congrArg HashedEnvelopeFacts.state hagree)
        | _ => exact hdrops
    | _ => exact hdrops
  · intro hkeeps hdigest
    rw [IdMaterial.digest_eq, IdMaterial.digest_eq] at hdigest
    have hpre := hS (hm _ m.preimage_mem_preimages) (hm' _ m'.preimage_mem_preimages)
      hdigest
    refine (IdMaterial.agree_or_drops_of_preimage hpre ?_).resolve_right hkeeps
    rintro b b' l l' s s' rfl rfl hid
    exact hS (hm _ (by simp [IdMaterial.preimages])) (hm' _ (by simp [IdMaterial.preimages]))
      (congrArg HashId.digest hid)

theorem identity_commits_iff_replay :
    letI := fips180
    let m := IdMaterial.sourceRecord (replayEnvelope 0 (.whole .empty) .complete)
    let m' := IdMaterial.sourceRecord (replayEnvelope 1 (.whole .empty) .complete)
    m.digest ≠ m'.digest ∧
      ((m.digest = m'.digest → m.Agree m') ↔ ¬ m.DropsFragmentReason m') := by
  rw [fips180_eq]
  let := fips180Evaluated
  intro m m'
  have hne : m.digest ≠ m'.digest := by decide +kernel
  refine ⟨hne, identity_commits_iff {m.preimage, m'.preimage} ?_ m m' ?_ ?_⟩
  · rintro p (rfl | rfl) q (rfl | rfl) hpq
    · rfl
    · exact absurd hpq hne
    · exact absurd hpq.symm hne
    · rfl
  · simp [m, IdMaterial.preimages]
  · simp [m', IdMaterial.preimages]

/-- Two truncated records whose reasons are different versioned codes. -/
theorem versioned_reasons_share_identity :
    letI := fips180
    let e := replayEnvelope 0 (.whole .empty) (.sourceTruncated (.otherVersioned 1 1))
    let e' := replayEnvelope 0 (.whole .empty) (.sourceTruncated (.otherVersioned 1 2))
    sourceRecordId e = sourceRecordId e' ∧ e.hashedFacts ≠ e'.hashedFacts := by
  rw [fips180_eq]
  let := fips180Evaluated
  intro e e'
  exact ⟨congrArg (fun p => HashId.fromBytes (Sha256.digest p))
    (sourceRecordPreimage_congr rfl), by decide⟩

end Evidentrail
