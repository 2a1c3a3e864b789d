import Evidentrail.Candidates.Provider
import Evidentrail.Core.Identity

/-!
# Provider identities and their keys

A key hashes length-framed fields under one of two domains. Two identities of a
retrieval with the same preimage are the same identity.
-/

namespace Evidentrail

open Rust Std Encoding Bytes

/-- What a provider says an event is part of. -/
inductive ProviderIdentity where
  | native (lane : LaneKey) (nativeEventId : NativeEventId)
  | attested (attestation : ProviderAttestedCorrelationV1)
deriving DecidableEq

/-- The identities of an event, in the order they are read. -/
def Event.identities (event : Event) : List ProviderIdentity :=
  event.nativeEventId.toList.map (.native event.lane) ++
    event.providerAttestations.entries.map .attested

namespace ProviderIdentity

def preimage (retrievalId : RetrievalId) : ProviderIdentity → List UInt8
  | native lane nativeEventId => nativeKeyPreimage retrievalId lane nativeEventId
  | attested attestation => attestedKeyPreimage attestation

def source : ProviderIdentity → ProviderRelationSourceV1
  | native _ _ => .nativeEventId
  | attested _ => .adapterAttestation

def relationKind : ProviderIdentity → ProviderRelationKindV1
  | native _ _ => .sharedNativeEventIdentity
  | attested attestation => .sharedAdapterAttestedIdentity attestation.relationKind

def key [Sha256] (retrievalId : RetrievalId) (identity : ProviderIdentity) :
    ProviderCorrelationKeyV1 :=
  .fromDerivedBytes (Sha256.digest (identity.preimage retrievalId))

end ProviderIdentity

/-! ## Fields -/

theorem commits_updateHashField {α : Type*} {f : α → List UInt8}
    (hf : ∀ a, (f a).length < 2 ^ 64) : Commits (fun a => updateHashField (f a)) f := by
  intro a b s t hab
  simp only [updateHashField, List.append_assoc] at hab
  obtain ⟨hlength, hrest⟩ := List.append_inj hab (by rw [length_beBytes, length_beBytes])
  exact List.append_inj hrest (beBytes_inj (hf a) (hf b) hlength)

/-- The label in front, which is the same for every input. -/
theorem commits_label {α : Type*} (label : List UInt8) :
    Commits (fun _ : α => label) (fun _ => ()) :=
  commits_of_length label.length (fun _ => rfl) fun _ _ _ => rfl

theorem commits_u16BeField {α : Type*} (f : α → UInt16) :
    Commits (fun a => updateHashField (u16Be (f a))) f :=
  (commits_updateHashField (f := fun a => u16Be (f a)) fun a => by
    rw [length_u16Be]
    decide).map fun a b h => UInt16.toNat_inj.mp
      (beBytes_inj (f a).toNat_lt (f b).toNat_lt h)

theorem commits_streamHashFields : Commits streamHashFields (fun stream => stream) := by
  have hcode : ∀ stream : SourceStream, (asciiBytes stream.code).length < 2 ^ 64 := by
    intro stream
    cases stream <;> (simp only [SourceStream.code]; decide)
  suffices hboth : Commits streamHashFields fun stream => (asciiBytes stream.code, stream) from
    hboth.map fun _ _ hab => congrArg Prod.snd hab
  refine (commits_updateHashField hcode).bind fun a b s t hcode hrest => ?_
  have hpair := (commits_u16BeField (Prod.fst : UInt16 × UInt16 → UInt16)).append
    (commits_u16BeField Prod.snd)
  cases a <;> cases b <;>
    first
    | exact ⟨rfl, hrest⟩
    | exact absurd hcode (by simp only [SourceStream.code]; decide)
    | obtain ⟨hkey, hst⟩ := hpair (a := (_, _)) (b := (_, _)) hrest
      simp only [Prod.mk.injEq] at hkey
      exact ⟨by rw [hkey.1, hkey.2], hst⟩

/-! ## Preimages -/

theorem ends_nativeKeyPreimage (retrievalId : RetrievalId) :
    Ends (fun p : LaneKey × NativeEventId => nativeKeyPreimage retrievalId p.1 p.2)
      (fun p => p) := by
  have hmember := commits_updateHashField (f := fun p : LaneKey × NativeEventId =>
    p.1.member.asBytes) fun p => p.1.member.length_asBytes_lt
  have hnative := commits_updateHashField (f := fun p : LaneKey × NativeEventId =>
    p.2.asBytes) fun p => p.2.length_asBytes_lt
  have hstream := commits_streamHashFields.comp fun p : LaneKey × NativeEventId => p.1.stream
  have hall := ((((commits_label (asciiBytes
    "evidentrail/provider-correlation-key/native-event/v1" ++ [0])).append
      (commits_label (updateHashField retrievalId.asBytes))).append hmember).append
        hstream).append hnative
  rintro ⟨⟨member, stream⟩, native⟩ ⟨⟨member', stream'⟩, native'⟩ hab
  have hkeys := hall.ends hab
  simp only [Prod.mk.injEq] at hkeys
  obtain ⟨⟨⟨_, hmember⟩, rfl⟩, hnative⟩ := hkeys
  rw [OpaqueBytes.asBytes_inj hmember, OpaqueBytes.asBytes_inj hnative]

theorem ends_attestedKeyPreimage : Ends attestedKeyPreimage (fun a => a) := by
  have hscope := commits_updateHashField (f := fun a : ProviderAttestedCorrelationV1 =>
    a.scopeDigest.asBytes) fun a => by
      rw [HashId.length_asBytes]
      decide
  have hkind := commits_updateHashField (f := fun a : ProviderAttestedCorrelationV1 =>
    asciiBytes a.relationKind.code) fun a => by
      cases a.relationKind <;> (simp only [ProviderAttestedRelationKindV1.code]; decide)
  have hvalue := commits_updateHashField (f := fun a : ProviderAttestedCorrelationV1 =>
    a.value.bytes) fun a => Nat.lt_of_le_of_lt a.value.length_le (by decide)
  have hall := (((commits_label (asciiBytes
    "evidentrail/provider-correlation-key/adapter-attestation/v1" ++ [0])).append
      hscope).append hkind).append hvalue
  rintro ⟨scope, kind, ⟨⟩, value⟩ ⟨scope', kind', ⟨⟩, value'⟩ hab
  have hkeys := hall.ends hab
  simp only [Prod.mk.injEq] at hkeys
  obtain ⟨⟨⟨_, hscope⟩, hkind⟩, hvalue⟩ := hkeys
  have hsame : kind = kind' := by
    cases kind <;> cases kind' <;> first | rfl | exact absurd hkind (by decide)
  rw [HashId.asBytes_inj hscope, hsame, ProviderAttestationValueV1.ext hvalue]

/-- The two domains differ where the kind of identity is named. -/
theorem preimage_domains_ne (retrievalId : RetrievalId) (lane : LaneKey)
    (nativeEventId : NativeEventId) (attestation : ProviderAttestedCorrelationV1) :
    nativeKeyPreimage retrievalId lane nativeEventId ≠ attestedKeyPreimage attestation := by
  intro heq
  have htake := congrArg (List.take 38) heq
  simp only [nativeKeyPreimage, attestedKeyPreimage, List.append_assoc] at htake
  rw [List.take_append_of_le_length (by decide), List.take_append_of_le_length (by decide)]
    at htake
  exact absurd htake (by decide)

/-- Identities of one retrieval are told apart by what is hashed. -/
theorem ProviderIdentity.preimage_injective (retrievalId : RetrievalId) :
    Function.Injective (preimage retrievalId) := by
  intro a b hab
  cases a with
  | native lane nativeEventId =>
      cases b with
      | native lane' nativeEventId' =>
          have hpair := ends_nativeKeyPreimage retrievalId
            (a := (lane, nativeEventId)) (b := (lane', nativeEventId')) hab
          obtain ⟨rfl, rfl⟩ := Prod.mk.injEq .. |>.mp hpair
          rfl
      | attested attestation =>
          exact absurd hab (preimage_domains_ne retrievalId lane nativeEventId attestation)
  | attested attestation =>
      cases b with
      | native lane nativeEventId =>
          exact absurd hab.symm (preimage_domains_ne retrievalId lane nativeEventId attestation)
      | attested attestation' => exact congrArg attested (ends_attestedKeyPreimage hab)

end Evidentrail
