import Mathlib.Data.List.Infix
import Evidentrail.Store.Keychain
import Evidentrail.Store.Published
import Evidentrail.Store.Reading

/-!
# Completing a publication

A publication can stop between any two of its effects. What it leaves is a
sealed result in exactly one directory, or a published one, and recovery
finishes it, as long as the authority grants recovery a generation of its
own. The keychain does not when the stopped call had reserved one under
another operation.
-/

namespace Evidentrail

open Rust Std Slice Attempt KeyAuthorityV2 LawfulKeyAuthorityV2

namespace RepositoryV2

/-- Recovery never publishes under the zero operation. -/
theorem recoveryOperation_isZero (digest : LifecycleDigestV1) :
    (recoveryOperation digest).isZero = false := by
  unfold recoveryOperation
  split
  · decide
  · rename_i hzero
    simpa using hzero

theorem rank_cases {state : ResultLifecycleStateV1} (h : 2 ≤ state.rank) :
    state = .sealed ∨ state = .published := by
  cases state with
  | opened => exact absurd h (by decide)
  | dataCommitted => exact absurd h (by decide)
  | «sealed» => exact .inl rfl
  | published => exact .inr rfl

section Begins

variable {A : Type} [KeyAuthorityV2 A] [Sha256] {r : ResultId} {s : RepositoryV2 A}

/-- A `begin` that the authority accepts while a final directory exists, and
that creates the record anew or goes on to the directories. -/
def BeginsOver (r : ResultId) (s : RepositoryV2 A) : CommandV2 → Prop
  | .begin faults entropy q created expires operation request =>
      q = r ∧ s.finals[r]?.isSome ∧ ∃ authority record transition,
        KeyAuthorityV2.begin s.authority entropy q created expires operation
          (digestBegin q created expires request) = .ok (authority, record, transition) ∧
        (transition = .applied ∨ faults .afterAuthorityBegin = false)
  | _ => False

theorem clearBegin_of_not_beginsOver {command : CommandV2} (h : ¬BeginsOver r s command) :
    ClearBegin always r s command := by
  cases command with
  | begin faults entropy q created expires operation request =>
      rintro rfl authority record transition hbegin hgoes
      by_contra hfinal
      refine h ⟨rfl, Option.isSome_iff_ne_none.mpr hfinal, authority, record, transition,
        hbegin, ?_⟩
      rcases hgoes with ⟨hnew, _⟩ | ⟨hgoes, _⟩
      · exact .inl hnew
      · exact .inr hgoes
  | _ => trivial

end Begins

section Granted

variable {A : Type} [KeyAuthorityV2 A] [Sha256] [LawfulKeyAuthorityV2 A]
  {r : ResultId} {record : ResultAuthorityRecordV2} {key : ResultDekV1} {s : RepositoryV2 A}

/-- An operation that is granted a generation can publish under it. -/
theorem publishes_of_grants (hs : Sound s.authority)
    (hstored : stored s.authority r = some (record, key)) (hstate : record.state = .sealed)
    (hpending : record.hasPendingNonceReservation = false)
    (hadmits : Admits A (deriveRepositoryCommitment record.sealCommitments))
    {operation : OperationIdV1} (hoperation : operation.isZero = false)
    (hgrants : Grants s.authority r operation) :
    ∃ generation a₁ a₂ published,
      reservePublicationGeneration s.authority r operation
        (deriveRepositoryCommitment record.sealCommitments) = .ok (a₁, generation) ∧
      KeyAuthorityV2.publish a₁ r operation generation
        (deriveRepositoryCommitment record.sealCommitments) = .ok (a₂, .applied) ∧
      stored a₂ r = some (published, key) ∧ published.state = .published := by
  obtain ⟨a₁, generation, hreserve⟩ :=
    reservation_granted hs hstored hstate hoperation rfl hgrants
  have hcommitment : ∀ record' key', stored s.authority r = some (record', key') →
      deriveRepositoryCommitment record.sealCommitments =
        deriveRepositoryCommitment record'.sealCommitments := by
    intro record' key' hstored'
    rw [hstored] at hstored'
    cases hstored'
    rfl
  obtain ⟨hs₁, hsame, _⟩ := reserveGeneration_ok hs hcommitment hadmits hreserve
  obtain ⟨a₂, hpublish⟩ := publication_follows hs hstored hpending rfl hadmits hreserve
  obtain ⟨before, key', published, hbefore, hrecord, hstep⟩ := publish_ok hs₁ hpublish
  rw [hsame, hstored] at hbefore
  cases hbefore
  refine ⟨generation, a₁, a₂, published, hreserve, hpublish, ?_, ?_⟩
  · rw [hstep.stored_eq, Function.update_self]
  · rcases (ResultAuthorityRecordV2.publish_ok hrecord).2 with ⟨hdone, _⟩ | ⟨_, _, _, rfl⟩
    · cases hdone.symm.trans hstate
    · rfl

/-! ## What a stopped publication leaves -/

/-- The call gets as far as a reservation, and is granted it. -/
def Reserves (stops : PublishPointV2 → Bool) (r : ResultId) (operation : OperationIdV1)
    (s : RepositoryV2 A) : Prop :=
  operation.isZero = false ∧ stops .beforeReservation = false ∧ Grants s.authority r operation

/-- The call stops after its reservation. A result that is already in its
final directory passes neither of the last two points. -/
def Interrupts (stops : PublishPointV2 → Bool) (r : ResultId) (s : RepositoryV2 A) : Prop :=
  stops .afterReservation = true ∨
    (s.staging[r]?.isSome ∧ (stops .afterCommitmentDurabilityBeforeRename = true ∨
      stops .afterPublishRenameBeforeAuthority = true))

/-- Without a reservation, the authority is as before. -/
theorem publish_unreserved {stops : PublishPointV2 → Bool} {operation : OperationIdV1}
    (hs : Sound s.authority) (hstored : stored s.authority r = some (record, key))
    (hstate : record.state = .sealed) (hfree : ¬Reserves stops r operation s) :
    Leaves (fun s' => s'.authority = s.authority) (RepositoryV2.publish stops r operation) s := by
  unfold RepositoryV2.publish
  refine leaves_require rfl fun hoperation => ?_
  refine leaves_read ?_
  refine leaves_lockIn rfl fun storage _ _ => ?_
  refine leaves_snapshotOf hs rfl fun record' key' hstored' => ?_
  rw [hstored] at hstored'
  cases hstored'
  rw [hstate, if_neg (by decide)]
  refine leaves_require rfl fun _ => ?_
  refine leaves_keyOf hs hstored ?_
  refine leaves_lift_bind rfl fun _ _ => ?_
  refine leaves_require rfl fun _ => ?_
  refine leaves_require rfl fun hgoes => ?_
  refine leaves_authorityCall_bind rfl fun authority generation hreserve => ?_
  exact absurd ⟨by simpa using hoperation, by simpa using hgoes,
    grants_of_reservation hs hreserve⟩ hfree

end Granted

section Recovery

variable {A : Type} [KeyAuthorityV2 A] [Sha256] [LawfulKeyAuthorityV2 A] [SnapshotFormatV2]
  {r : ResultId} {record : ResultAuthorityRecordV2} {key : ResultDekV1} {s s' : RepositoryV2 A}
  {C : Option ResultLifecycleStateV1 → Prop} {S : Prop}

/-! ## What a publication leaves alone -/

/-- A sealed or published result with these times and batches. -/
def Kept (r : ResultId) (created expires : Int) (batches : List (SegmentV2 BatchCommitInputV2))
    (s : RepositoryV2 A) : Prop :=
  ∃ record key d, stored s.authority r = some (record, key) ∧ 2 ≤ record.state.rank ∧
    record.createdUnixNanos = created ∧ record.expiresUnixNanos = expires ∧
    s.storageOf r = some d ∧ d.batches = batches

/-- Past sealing, the record keeps its times. -/
theorem RecordEffect.kept {value : Option (ResultAuthorityRecordV2 × ResultDekV1)}
    (heffect : RecordEffect C False S r s value)
    (hstored : stored s.authority r = some (record, key)) (hrank : 2 ≤ record.state.rank) :
    ∃ record', value = some (record', key) ∧ 2 ≤ record'.state.rank ∧
      record'.createdUnixNanos = record.createdUnixNanos ∧
      record'.expiresUnixNanos = record.expiresUnixNanos := by
  have hsame : ∀ {before key'}, stored s.authority r = some (before, key') →
      before = record ∧ key' = key := by
    intro before key' hbefore
    rw [hstored] at hbefore
    cases hbefore
    exact ⟨rfl, rfl⟩
  cases heffect with
  | fresh hnone _ _ => rw [hstored] at hnone; cases hnone
  | @nonces _ record' _ _ hbefore _ hnonces _ =>
      obtain ⟨rfl, rfl⟩ := hsame hbefore
      have hcreated := congrArg ResultAuthorityRecordV2.createdUnixNanos hnonces
      have hexpires := congrArg ResultAuthorityRecordV2.expiresUnixNanos hnonces
      exact ⟨record', rfl,
        by rw [ResultAuthorityRecordV2.state_of_withoutNonces hnonces]; exact hrank,
        hcreated, hexpires⟩
  | commitData hbefore hcommit _ =>
      obtain ⟨rfl, rfl⟩ := hsame hbefore
      rcases (ResultAuthorityRecordV2.commitData_ok hcommit).2 with ⟨_, rfl⟩ | ⟨hopen, _⟩
      · exact ⟨_, rfl, hrank, rfl, rfl⟩
      · rw [hopen] at hrank
        exact absurd hrank (by decide)
  | sealResult hbefore hseal _ =>
      obtain ⟨rfl, rfl⟩ := hsame hbefore
      rcases (ResultAuthorityRecordV2.seal_ok hseal).2 with ⟨_, rfl⟩ | ⟨hcommitted, _⟩
      · exact ⟨_, rfl, hrank, rfl, rfl⟩
      · rw [hcommitted] at hrank
        exact absurd hrank (by decide)
  | publish hbefore hpublish _ =>
      obtain ⟨rfl, rfl⟩ := hsame hbefore
      rcases (ResultAuthorityRecordV2.publish_ok hpublish).2 with ⟨_, rfl⟩ | ⟨_, _, _, rfl⟩
      · exact ⟨_, rfl, hrank, rfl, rfl⟩
      · exact ⟨_, rfl, by show 2 ≤ 3; decide, rfl, rfl⟩
  | destroyed hallowed =>
      rcases hallowed _ _ hstored with ⟨hopen, _⟩ | hnever
      · rw [hopen] at hrank
        exact absurd hrank (by decide)
      · exact hnever.elim

/-- Past sealing, nothing is written to the batches. -/
theorem DirectoryEffect.batches {d' : ResultDirectoryV2}
    (heffect : DirectoryEffect always r s record key d') (h : Intact r s)
    (hstored : stored s.authority r = some (record, key)) (hrank : 2 ≤ record.state.rank) :
    ∃ d, s.staging[r]? = some d ∧ d'.batches = d.batches := by
  have hpast : ∀ {state : ResultLifecycleStateV1}, record.state = state → 2 ≤ state.rank :=
    fun hstate => hstate ▸ hrank
  cases heffect with
  | make hstaging hclear =>
      have hstage := h.stage _ _ hstored
      rw [hstaging, hclear trivial] at hstage
      cases hstate : record.state with
      | opened => exact absurd (hpast hstate) (by decide)
      | dataCommitted => exact absurd (hpast hstate) (by decide)
      | «sealed» =>
          rcases ((Stage.sealed hstate).mp hstage).2 with ⟨_, _, hnone, _⟩ | ⟨_, _, hnone, _⟩
          · cases hnone
          · cases hnone
      | published =>
          obtain ⟨_, _, _, hnone, _⟩ := (Stage.published hstate).mp hstage
          cases hnone
  | lock hstaging => exact ⟨_, hstaging, rfl⟩
  | request hstaging _ => exact ⟨_, hstaging, rfl⟩
  | batch hstate _ => exact absurd (hpast hstate) (by decide)
  | dataCommit hstate _ _ _ => exact absurd (hpast hstate) (by decide)
  | sealedProducts hstate _ _ _ => exact absurd (hpast hstate) (by decide)
  | commitment _ hstaging hcommitment =>
      exact ⟨_, hstaging, by rw [ensureCommitment_ok hcommitment]⟩

theorem Effect.kept {created expires : Int} {batches : List (SegmentV2 BatchCommitInputV2)}
    (heffect : Effect always False S r s s') (h : Intact r s)
    (hkept : Kept r created expires batches s) : Kept r created expires batches s' := by
  obtain ⟨record, key, d, hstored, hrank, hcreated, hexpires, hstorage, hbatches⟩ := hkept
  cases heffect with
  | record hstep heffect =>
      obtain ⟨record', rfl, hrank', hcreated', hexpires'⟩ := heffect.kept hstored hrank
      exact ⟨record', key, d, by rw [hstep.stored_eq, Function.update_self], hrank',
        hcreated'.trans hcreated, hexpires'.trans hexpires, hstorage, hbatches⟩
  | reserve _ _ _ hsame =>
      exact ⟨record, key, d, by rw [hsame]; exact hstored, hrank, hcreated, hexpires, hstorage,
        hbatches⟩
  | @staging _ _ d' hstored' heffect =>
      rw [hstored] at hstored'
      cases hstored'
      obtain ⟨d₀, hd₀, hsame⟩ := heffect.batches h hstored hrank
      have hd : d₀ = d := by
        rw [storageOf, hd₀] at hstorage
        exact Option.some.inj hstorage
      exact ⟨record, key, d', hstored, hrank, hcreated, hexpires, by simp [storageOf],
        by rw [hsame, hd]; exact hbatches⟩
  | @install _ _ d₀ _ _ hstaging _ _ _ =>
      have hd : d₀ = d := by
        rw [storageOf, hstaging] at hstorage
        exact Option.some.inj hstorage
      exact ⟨record, key, d, hstored, hrank, hcreated, hexpires, by simp [storageOf, hd],
        hbatches⟩
  | quarantine hmisplaced _ _ _ => exact absurd hmisplaced (h.not_misplaced hstored)
  | remove hnone => rw [hstored] at hnone; cases hnone

theorem Chain.kept {created expires : Int} {batches : List (SegmentV2 BatchCommitInputV2)}
    (hchain : Chain always False S r s s') (h : Intact r s)
    (hkept : Kept r created expires batches s) :
    Intact r s' ∧ Kept r created expires batches s' := by
  induction hchain with
  | refl => exact ⟨h, hkept⟩
  | tail _ heffect ih => exact ⟨heffect.intact ih.1, heffect.kept ih.1 ih.2⟩

/-! ## Recovery after sealing -/

/-- There is nothing that recovery would quarantine. -/
theorem Intact.placed (h : Intact r s) (hstored : stored s.authority r = some (record, key)) :
    ¬(invalidActiveObject s.staging[r]? || invalidActiveObject s.finals[r]? ||
      (s.staging[r]?.isSome && s.finals[r]?.isSome)) = true := by
  simp only [Bool.or_eq_true, Bool.and_eq_true, invalidActiveObject_eq_true]
  rintro ((⟨d, hd, hlock⟩ | ⟨d, hd, hlock⟩) | ⟨hstaging, hfinal⟩)
  · rw [(h.staging d hd).lock] at hlock
    cases hlock
  · rw [(h.final d hd).lock] at hlock
    cases hlock
  · rcases (h.stage _ _ hstored).single with hnone | hnone
    · rw [hnone] at hstaging
      cases hstaging
    · rw [hnone] at hfinal
      cases hfinal

/-- The commitment file of a sealed directory is there or can be written. -/
theorem ensureCommitment_of_sealed {d : ResultDirectoryV2} (hok : DirectoryOk r d)
    (hsealed : SealedAs d record key) :
    ∃ d', ensureCommitment d (deriveRepositoryCommitment record.sealCommitments) = .ok d' := by
  unfold ensureCommitment
  cases hfile : d.repositoryCommitment with
  | none => exact ⟨_, rfl⟩
  | some stored =>
      obtain ⟨_, segment, hsegment, _, hcommitments⟩ := hsealed
      obtain ⟨segment', hsegment', hstored⟩ := hok.commitment stored hfile
      rw [hsegment] at hsegment'
      cases hsegment'
      exact ⟨d, if_pos (by rw [hstored, hcommitments])⟩

/-- Recovery finishes what was sealed, from either directory. -/
theorem recoverSealed_completes (hs : Sound s.authority) (h : Intact r s)
    (hstored : stored s.authority r = some (record, key)) (hstate : record.state = .sealed)
    (hadmits : Admits A (deriveRepositoryCommitment record.sealCommitments))
    (hgrants : Grants s.authority r (recoveryOperation record.sealCommitments.finalManifest)) :
    ∃ s' published, recoverSealed r record s = (.ok .completedPublication, s') ∧
      stored s'.authority r = some (published, key) ∧ published.state = .published := by
  obtain ⟨hpending, hplace⟩ := (Stage.sealed hstate).mp (h.stage _ _ hstored)
  obtain ⟨generation, a₁, a₂, published, hreserve, hpublish, hafter, hdone⟩ :=
    publishes_of_grants hs hstored hstate hpending hadmits (recoveryOperation_isZero _) hgrants
  have hkey : (keyOf r : RepositoryM A ResultDekV1) s = (.ok key, s) := by
    unfold keyOf ofAuthority
    rw [resultKey_eq hs, hstored]
    rfl
  rcases hplace with ⟨hfinal, d, hstaging, hsealed⟩ | ⟨hstaging, d, hfinal, hsealed, _⟩
  · have hok := h.staging d hstaging
    obtain ⟨manifest, hmanifest, hdigest, _⟩ := readFinalManifest_ok hok hsealed
    obtain ⟨d', hensure⟩ := ensureCommitment_of_sealed hok hsealed
    have hcontains : s.finals.contains r = false := by
      rw [ExtTreeMap.contains_eq_isSome_getElem?, hfinal]
      rfl
    refine ⟨{ s with
      authority := a₂, staging := (s.staging.insert r d').erase r
      finals := s.finals.insert r d' }, published, ?_, hafter, hdone⟩
    unfold recoverSealed installFinal setStaging
    simp only [bind_apply, read_apply, hfinal, hstaging, Option.orElse_none, hkey, lift_apply,
      hmanifest, hdigest, hensure, update_apply, require_apply, hcontains, ne_eq,
      not_true_eq_false, if_false, Bool.not_false, if_true, authorityCall, ofAuthority, hreserve,
      hpublish, Except.mapError, pure_apply]
  · obtain ⟨manifest, hmanifest, hdigest, _⟩ := readFinalManifest_ok (h.final d hfinal) hsealed
    refine ⟨{ s with authority := a₂ }, published, ?_, hafter, hdone⟩
    unfold recoverSealed
    simp only [bind_apply, read_apply, hfinal, hstaging, Option.orElse_some, hkey, lift_apply,
      hmanifest, hdigest, ne_eq, not_true_eq_false, if_false, authorityCall, ofAuthority, hreserve,
      hpublish, Except.mapError, pure_apply]

theorem recover_published (hs : Sound s.authority) (h : Intact r s)
    (hstored : stored s.authority r = some (record, key))
    (hpublished : record.state = .published) {now : Int} (hnow : now < record.expiresUnixNanos)
    (context : Option BuildContextDigestsV1) :
    recover r now context s = (.ok .alreadyVisible, s) := by
  unfold recover
  simp only [bind_apply, read_apply, snapshot_eq hs, hstored, Option.map_some, okOr_some]
  rw [if_neg (h.placed hstored), if_neg (Int.not_le.mpr hnow), hpublished]
  dsimp only
  rw [verifyVisible_ok hs h hstored hpublished]
  rfl

theorem recover_sealed (hs : Sound s.authority) (h : Intact r s)
    (hstored : stored s.authority r = some (record, key))
    (hsealed : record.state = .sealed) {now : Int} (hnow : now < record.expiresUnixNanos)
    (context : Option BuildContextDigestsV1) :
    recover r now context s = recoverSealed r record s := by
  unfold recover
  simp only [bind_apply, read_apply, snapshot_eq hs, hstored, Option.map_some, okOr_some]
  rw [if_neg (h.placed hstored), if_neg (Int.not_le.mpr hnow), hsealed]

/-- What a call with a reservation leaves: the result is published, or the
call stopped and the authority has the reservation. -/
def PublishedOrReserved (stops : PublishPointV2 → Bool) (r : ResultId)
    (operation : OperationIdV1) (digest : LifecycleDigestV1) (s s' : RepositoryV2 A) : Prop :=
  (∃ published key, stored s'.authority r = some (published, key) ∧
    published.state = .published) ∨
  (Interrupts stops r s ∧ ∃ generation,
    reservePublicationGeneration s.authority r operation digest = .ok (s'.authority, generation))

/-- With a reservation, the call publishes unless it stops later. -/
theorem publish_reserved {stops : PublishPointV2 → Bool} {operation : OperationIdV1}
    (hs : Sound s.authority) (h : Intact r s)
    (hstored : stored s.authority r = some (record, key)) (hstate : record.state = .sealed)
    (hadmits : Admits A (deriveRepositoryCommitment record.sealCommitments))
    (hreserves : Reserves stops r operation s) :
    Leaves (PublishedOrReserved stops r operation
        (deriveRepositoryCommitment record.sealCommitments) s)
      (RepositoryV2.publish stops r operation) s := by
  obtain ⟨hoperation, hbefore, hgrants⟩ := hreserves
  obtain ⟨hpending, hplace⟩ := (Stage.sealed hstate).mp (h.stage _ _ hstored)
  obtain ⟨generation, a₁, a₂, published, hreserve, hpublish, hafter, hdone⟩ :=
    publishes_of_grants hs hstored hstate hpending hadmits hoperation hgrants
  obtain ⟨d, hstorage, hok, hsealed, hfinal⟩ : ∃ d, s.storageOf r = some d ∧ DirectoryOk r d ∧
      SealedAs d record key ∧ (s.staging[r]? = none → Visible d record key) := by
    rcases hplace with ⟨_, d, hstaging, hsealed⟩ | ⟨hstaging, d, hfinal, hvisible⟩
    · exact ⟨d, by rw [storageOf, hstaging], h.staging d hstaging, hsealed,
        fun hnone => by rw [hstaging] at hnone; cases hnone⟩
    · exact ⟨d, by rw [storageOf, hstaging, hfinal], h.final d hfinal, hvisible.1,
        fun _ => hvisible⟩
  obtain ⟨manifest, hmanifest, hdigest, _⟩ := readFinalManifest_ok hok hsealed
  have hrecord : (snapshotOf r : RepositoryM A ResultAuthorityRecordV2) s = (.ok record, s) := by
    unfold snapshotOf ofAuthority
    rw [snapshot_eq hs, hstored]
    rfl
  have hlock : (lockIn (s.storageOf r) : RepositoryM A ResultDirectoryV2) s = (.ok d, s) := by
    rw [hstorage]
    simp [lockIn, hok.lock]
  have hreserved : (authorityCall (reservePublicationGeneration · r operation
      (deriveRepositoryCommitment record.sealCommitments)) : RepositoryM A Nat) s =
        (.ok generation, { s with authority := a₁ }) := by
    unfold authorityCall ofAuthority
    dsimp only
    rw [hreserve]
    rfl
  have hfinish : ∀ (s₁ : RepositoryV2 A), s₁.authority = a₁ →
      Leaves (PublishedOrReserved stops r operation
          (deriveRepositoryCommitment record.sealCommitments) s)
        (authorityCall (KeyAuthorityV2.publish · r operation generation
          (deriveRepositoryCommitment record.sealCommitments))) s₁ := by
    rintro s₁ rfl
    unfold Leaves authorityCall ofAuthority
    dsimp only
    rw [hpublish]
    exact .inl ⟨published, key, hafter, hdone⟩
  -- from the reservation on, a stop leaves it with the authority
  have hstopped : ∀ (s₁ : RepositoryV2 A), s₁.authority = a₁ → Interrupts stops r s →
      PublishedOrReserved stops r operation
        (deriveRepositoryCommitment record.sealCommitments) s s₁ := by
    rintro s₁ rfl hinterrupts
    exact .inr ⟨hinterrupts, generation, hreserve⟩
  unfold RepositoryV2.publish
  refine leaves_of_ok (by rw [require_apply, hoperation]; rfl) ?_
  refine leaves_read ?_
  refine leaves_of_ok hlock ?_
  refine leaves_of_ok hrecord ?_
  rw [hstate, if_neg (by decide)]
  refine leaves_of_ok rfl ?_
  refine leaves_keyOf hs hstored ?_
  refine leaves_of_ok (a := manifest) (t := s) (by rw [lift_apply, hmanifest]) ?_
  refine leaves_of_ok (by rw [require_apply, hdigest, decide_eq_true rfl]; rfl) ?_
  refine leaves_of_ok (by rw [checkpoint, require_apply, hbefore]; rfl) ?_
  refine leaves_of_ok hreserved ?_
  refine leaves_check (fun hstop => hstopped _ rfl (.inl (by simpa using hstop))) fun _ => ?_
  cases hstaging : s.staging[r]? with
  | none =>
      have hmem : r ∉ s.staging := by simp [ExtTreeMap.mem_iff_isSome_getElem?, hstaging]
      rw [if_neg hmem]
      refine leaves_of_ok (a := deriveRepositoryCommitment record.sealCommitments)
        (t := { s with authority := a₁ }) (by rw [lift_apply, (hfinal hstaging).2]; rfl) ?_
      refine leaves_of_ok (by rw [require_apply, decide_eq_true rfl]; rfl) ?_
      exact hfinish _ rfl
  | some d₀ =>
      have hmem : r ∈ s.staging := by simp [ExtTreeMap.mem_iff_isSome_getElem?, hstaging]
      have hinterrupts : stops .afterCommitmentDurabilityBeforeRename = true ∨
          stops .afterPublishRenameBeforeAuthority = true → Interrupts stops r s := by
        intro hstop
        exact .inr ⟨by rw [hstaging]; rfl, hstop⟩
      have hcontains : s.finals.contains r = false := by
        rcases hplace with ⟨hnone, _⟩ | ⟨hgone, _⟩
        · rw [ExtTreeMap.contains_eq_isSome_getElem?, hnone]
          rfl
        · rw [hstaging] at hgone
          cases hgone
      obtain ⟨d', hensure⟩ := ensureCommitment_of_sealed hok hsealed
      rw [if_pos hmem]
      refine leaves_of_ok (a := d') (t := { s with authority := a₁ })
        (by rw [lift_apply, hensure]) ?_
      refine leaves_update ?_
      refine leaves_check (fun hstop => hstopped _ rfl
        (hinterrupts (.inl (by simpa using hstop)))) fun _ => ?_
      refine leaves_of_ok (a := ()) (t := { s with
        authority := a₁, staging := (s.staging.insert r d').erase r
        finals := s.finals.insert r d' }) ?_ ?_
      · unfold installFinal
        simp only [bind_apply, read_apply, require_apply, hcontains, Bool.not_false, if_true,
          update_apply]
      · refine leaves_check (fun hstop => hstopped _ rfl
          (hinterrupts (.inr (by simpa using hstop)))) fun _ => ?_
        exact hfinish _ rfl

/-! ## The recovery that follows -/

/-- Recovery completes the publication of a result that holds these events:
it says so, every selection of the events can be read afterwards, and no
further publication changes the record. -/
def Completes (r : ResultId) (operation : OperationIdV1) (created expires : Int)
    (held : List DurableEventInputV2) (s : RepositoryV2 A) : Prop :=
  ∀ now context, now < expires →
    ((recover r now context s).1 = .ok .completedPublication ∨
      (recover r now context s).1 = .ok .alreadyVisible) ∧
    (∀ events maxEvents maxBytes t, events ≠ [] → (∀ event ∈ events, event ∈ held) →
      (events.map DurableEventInputV2.eventId).Nodup →
      events.length ≤ maxEvents → maxEvents ≤ maxDurableExpansionEvents →
      totalBytes events ≤ maxBytes → maxBytes ≠ 0 → maxBytes ≤ maxDurableExpansionBytes →
      created ≤ t → t < expires →
      (recover r now context s).2.expand r (events.map DurableEventInputV2.eventId)
        maxEvents maxBytes t = .ok ⟨events, totalBytes events⟩) ∧
    ∃ published, snapshot (recover r now context s).2.authority r = .ok published ∧
      published.state = .published ∧
      ∀ stops, snapshot (RepositoryV2.publish stops r operation
        (recover r now context s).2).2.authority r = .ok published

/-- Recovery publishes what is sealed and recognises what is published. -/
theorem recover_outcome (hs : Sound s.authority) (h : Intact r s)
    (hstored : stored s.authority r = some (record, key)) (hrank : 2 ≤ record.state.rank)
    (hsealed : record.state = .sealed →
      Admits A (deriveRepositoryCommitment record.sealCommitments) ∧
      Grants s.authority r (recoveryOperation record.sealCommitments.finalManifest))
    {now : Int} (hnow : now < record.expiresUnixNanos)
    (context : Option BuildContextDigestsV1) :
    ((recover r now context s).1 = .ok .completedPublication ∨
      (recover r now context s).1 = .ok .alreadyVisible) ∧
    ∃ published, stored (recover r now context s).2.authority r = some (published, key) ∧
      published.state = .published := by
  rcases rank_cases hrank with hstate | hstate
  · obtain ⟨hadmits, hgrants⟩ := hsealed hstate
    obtain ⟨s', published, hrun, hafter, hdone⟩ :=
      recoverSealed_completes hs h hstored hstate hadmits hgrants
    rw [recover_sealed hs h hstored hstate hnow, hrun]
    exact ⟨.inl rfl, published, hafter, hdone⟩
  · rw [recover_published hs h hstored hstate hnow]
    exact ⟨.inr rfl, record, hstored, hstate⟩

/-- No publication changes a published record. -/
theorem publish_settled {d : ResultDirectoryV2} (hs : Sound s.authority)
    (hsettled : Settled r record key d s) (stops : PublishPointV2 → Bool)
    (operation : OperationIdV1) :
    snapshot (RepositoryV2.publish stops r operation s).2.authority r = .ok record := by
  have hchain : Chain isPublished False True r s (RepositoryV2.publish stops r operation s).2 :=
    publish_chain stops operation hs fun record' key' hstored hstate => by
      rw [hsettled.stored] at hstored
      cases hstored
      cases hsettled.published.symm.trans hstate
  rw [snapshot_eq (hchain.sound hs), (hchain.moves.frame_of_settled hsettled).stored,
    hsettled.stored]
  rfl

theorem completes_of_grants {created expires : Int}
    {batches : List (SegmentV2 BatchCommitInputV2)} (operation : OperationIdV1)
    (hs : Sound s.authority) (h : Intact r s) (hkept : Kept r created expires batches s)
    (hsealed : ∀ record key, stored s.authority r = some (record, key) →
      record.state = .sealed → Admits A (deriveRepositoryCommitment record.sealCommitments) ∧
      Grants s.authority r (recoveryOperation record.sealCommitments.finalManifest)) :
    Completes r operation created expires
      (batches.flatMap fun segment => segment.content.events) s := by
  intro now context hnow
  obtain ⟨record, key, d, hstored, hrank, rfl, rfl, hstorage, rfl⟩ := hkept
  obtain ⟨hdisposition, published, hafter, hdone⟩ :=
    recover_outcome hs h hstored hrank (hsealed record key hstored) hnow context
  have hchain : Chain always False True r s (recover r now context s).2 :=
    recover_chain now context hs (fun _ _ hstored' hstate => (hsealed _ _ hstored' hstate).1)
      fun record' key' hstored' hexpired => by
        rw [hstored] at hstored'
        cases hstored'
        omega
  have hs' := hchain.sound hs
  obtain ⟨h', record', key', d', hstored', _, hcreated, hexpires, hstorage', hbatches⟩ :=
    hchain.kept h ⟨record, key, d, hstored, hrank, rfl, rfl, hstorage, rfl⟩
  rw [hafter] at hstored'
  cases hstored'
  obtain ⟨hstaging, _, final, hfinal, _⟩ := (Stage.published hdone).mp (h'.stage _ _ hafter)
  have hsame : final = d' := by
    rw [storageOf, hstaging, hfinal] at hstorage'
    exact Option.some.inj hstorage'
  subst hsame
  refine ⟨hdisposition, ?_, published, ?_, hdone, ?_⟩
  · intro events maxEvents maxBytes t hne hheld hnodup hcount hmaxEvents hbytes hpos hmaxBytes
      hfrom hto
    refine expand_ok hs' h' hafter hdone hfinal hne (fun event hevent => ?_) hnodup hcount
      hmaxEvents hbytes hpos hmaxBytes ⟨by omega, by omega⟩
    rw [committedEvents, hbatches]
    exact hheld event hevent
  · rw [snapshot_eq hs', hafter]
    rfl
  · exact fun stops => publish_settled hs'
      ⟨hafter, hdone, hstaging, hfinal, (h'.final final hfinal).lock⟩ stops operation

/-! ## Stopped publications -/

/-- When recovery is free to finish. `beside` says that a reservation under
one operation leaves room for one under another. A call that reserves nothing
leaves recovery what it finds; one that reserves must leave room, or go on. -/
def RecoveryFree (beside : A → ResultId → OperationIdV1 → OperationIdV1 → Prop)
    (stops : PublishPointV2 → Bool) (r : ResultId) (operation : OperationIdV1)
    (record : ResultAuthorityRecordV2) (s : RepositoryV2 A) : Prop :=
  (¬Reserves stops r operation s →
    Grants s.authority r (recoveryOperation record.sealCommitments.finalManifest)) ∧
  (Reserves stops r operation s → Interrupts stops r s →
    beside s.authority r operation (recoveryOperation record.sealCommitments.finalManifest))

theorem publish_then_recover
    {beside : A → ResultId → OperationIdV1 → OperationIdV1 → Prop}
    (hbeside : ∀ {a a' : A} {operation operation' digest generation},
      Sound a → reservePublicationGeneration a r operation digest = .ok (a', generation) →
      beside a r operation operation' → Grants a' r operation')
    {stops : PublishPointV2 → Bool} {operation : OperationIdV1} {d : ResultDirectoryV2}
    (hs : Sound s.authority) (h : Intact r s)
    (hstored : stored s.authority r = some (record, key)) (hrank : 2 ≤ record.state.rank)
    (hadmits : record.state = .sealed →
      Admits A (deriveRepositoryCommitment record.sealCommitments))
    (hstorage : s.storageOf r = some d)
    (hfree : record.state = .sealed → RecoveryFree beside stops r operation record s) :
    Completes r operation record.createdUnixNanos record.expiresUnixNanos (committedEvents d)
      (RepositoryV2.publish stops r operation s).2 := by
  have hchain : Chain always False True r s (RepositoryV2.publish stops r operation s).2 :=
    publish_chain stops operation hs fun record' key' hstored' hstate => by
      rw [hstored] at hstored'
      cases hstored'
      exact hadmits hstate
  obtain ⟨h', hkept⟩ := hchain.kept h ⟨record, key, d, hstored, hrank, rfl, rfl, hstorage, rfl⟩
  refine completes_of_grants operation (hchain.sound hs) h' hkept
    fun record' key' hstored' hstate' => ?_
  rcases rank_cases hrank with hstate | hpublished
  · by_cases hreserves : Reserves stops r operation s
    · rcases publish_reserved hs h hstored hstate (hadmits hstate) hreserves with
        ⟨published, _, hafter, hdone⟩ | ⟨hinterrupts, generation, hreserve⟩
      · rw [hstored'] at hafter
        cases hafter
        cases hstate'.symm.trans hdone
      · obtain ⟨_, hsame, _⟩ := reserveGeneration_ok hs (fun _ _ hstored' => by
          rw [hstored] at hstored'
          cases hstored'
          rfl) (hadmits hstate) hreserve
        rw [hsame, hstored] at hstored'
        cases hstored'
        exact ⟨hadmits hstate, hbeside hs hreserve ((hfree hstate).2 hreserves hinterrupts)⟩
    · have hsame := publish_unreserved hs hstored hstate hreserves
      unfold Leaves at hsame
      rw [hsame, hstored] at hstored'
      cases hstored'
      exact ⟨hadmits hstate, by rw [hsame]; exact (hfree hstate).1 hreserves⟩
  · obtain ⟨hstaging, _, final, hfinal, _⟩ :=
      (Stage.published hpublished).mp (h.stage _ _ hstored)
    have hsame := publish_settled hs
      ⟨hstored, hpublished, hstaging, hfinal, (h.final final hfinal).lock⟩ stops operation
    rw [snapshot_eq (hchain.sound hs), hstored'] at hsame
    cases hsame
    cases hstate'.symm.trans hpublished

/-! ## Runs -/

/-- Directories match their record in every run without such a call. -/
theorem intact_run {authority : A} (hs : Sound authority) (hnone : stored authority r = none)
    {before : List CommandV2}
    (hbefore : Follows (fun s command => AllAdmitted s ∧ ¬BeginsOver r s command)
      { authority } before) :
    Sound (run { authority } before).authority ∧ Intact r (run { authority } before) := by
  refine Follows.invariant (I := fun s => Sound s.authority ∧ Intact r s) ?_
    ⟨hs, ⟨by simp, by simp, ?_⟩⟩ hbefore
  · rintro s command ⟨hsound, hintact⟩ ⟨hadmitted, hbegin⟩
    have hmoves := step_moves (D := True) command hsound hadmitted
      (clearBegin_of_not_beginsOver hbegin) fun _ => trivial
    exact ⟨hmoves.sound hsound, hmoves.intact hintact⟩
  · intro record key hstored
    rw [show stored authority r = some (record, key) from hstored] at hnone
    cases hnone

/-- Every run that follows the conditions, then a publication that leaves
recovery free, then recovery. -/
theorem completes_after_run {beside : A → ResultId → OperationIdV1 → OperationIdV1 → Prop}
    (hbeside : ∀ {a a' : A} {operation operation' digest generation},
      Sound a → reservePublicationGeneration a r operation digest = .ok (a', generation) →
      beside a r operation operation' → Grants a' r operation')
    {authority : A} (hs : Sound authority) (hnone : stored authority r = none)
    {before : List CommandV2} (hrun : s = run { authority } before)
    (hbefore : Follows (fun s command => AllAdmitted s ∧ ¬BeginsOver r s command)
      { authority } before) (hadmitted : AllAdmitted s)
    (hrecord : snapshot s.authority r = .ok record)
    (hstate : record.state = .sealed ∨ record.state = .published)
    {stops : PublishPointV2 → Bool} {operation : OperationIdV1}
    (hfree : record.state = .sealed → RecoveryFree beside stops r operation record s) :
    ∃ d, s.storageOf r = some d ∧ Completes r operation record.createdUnixNanos
      record.expiresUnixNanos (committedEvents d)
      (RepositoryV2.publish stops r operation s).2 := by
  obtain ⟨hsound, hintact⟩ := intact_run hs hnone hbefore
  rw [← hrun] at hsound hintact
  rw [snapshot_eq hsound, okOr_eq_ok, Option.map_eq_some_iff] at hrecord
  obtain ⟨⟨record, key⟩, hstored, rfl⟩ := hrecord
  obtain ⟨d, hstorage⟩ : ∃ d, s.storageOf r = some d := by
    have hstage := hintact.stage _ _ hstored
    rcases hstate with hstate | hstate
    · rcases ((Stage.sealed hstate).mp hstage).2 with ⟨_, d, hd, _⟩ | ⟨hnone, d, hd, _⟩
      · exact ⟨d, by rw [storageOf, hd]⟩
      · exact ⟨d, by rw [storageOf, hnone, hd]⟩
    · obtain ⟨hnone, _, d, hd, _⟩ := (Stage.published hstate).mp hstage
      exact ⟨d, by rw [storageOf, hnone, hd]⟩
  have hrank : 2 ≤ record.state.rank := by
    rcases hstate with hstate | hstate
    · rw [show record.state = .sealed from hstate]
      decide
    · rw [show record.state = .published from hstate]
      decide
  exact ⟨d, hstorage, publish_then_recover hbeside hsound hintact hstored hrank
    (hadmitted _ _ _ hstored) hstorage hfree⟩

end Recovery

end RepositoryV2

/-! ## The two authorities -/

/-- Reservations in process memory stand beside each other while a generation
is left: this one takes another unless it is there already. -/
def ProcessKeyAuthorityV2.GrantsBeside (a : ProcessKeyAuthorityV2) (r : ResultId)
    (operation other : OperationIdV1) : Prop :=
  other = operation ∨ (a.operations[(r, other)]?).isSome ∨
    (checkedAdd a.highWater (if (a.operations[(r, operation)]?).isSome then 1 else 2)).isSome

/-- An entry of the keychain holds one reservation. -/
def MacOsKeychainAuthorityV2.GrantsBeside (_ : MacOsKeychainAuthorityV2) (_ : ResultId)
    (operation other : OperationIdV1) : Prop :=
  other = operation

section Authorities

variable {r : ResultId} {operation other : OperationIdV1} {digest : LifecycleDigestV1}
  {generation : Nat}

theorem ProcessKeyAuthorityV2.grants_of_beside {a a' : ProcessKeyAuthorityV2}
    (h : reservePublicationGeneration a r operation digest = .ok (a', generation))
    (hbeside : a.GrantsBeside r operation other) : Grants a' r other := by
  have hreserved := ProcessKeyAuthorityV2.reserveGeneration_cases h
  rcases hbeside with rfl | hother | hnext
  · refine .inl ?_
    rcases hreserved with ⟨rfl, hknown⟩ | ⟨_, _, _, _, _, _, rfl⟩
    · rw [hknown]
      rfl
    · simp
  · refine .inl ?_
    rcases hreserved with ⟨rfl, _⟩ | ⟨_, _, _, _, _, _, rfl⟩
    · exact hother
    · simp only [ExtTreeMap.getElem?_insert]
      split
      · rfl
      · exact hother
  · refine .inr ?_
    obtain ⟨next, hnext⟩ := Option.isSome_iff_exists.mp hnext
    have hbound := (checkedAdd_eq_some.mp hnext).1
    rcases hreserved with ⟨rfl, hknown⟩ | ⟨_, _, _, _, hknown, hgeneration, rfl⟩
    · simp only [hknown, Option.isSome_some, if_true] at hbound
      rw [checkedAdd_of_lt hbound]
      rfl
    · simp only [hknown, Option.isSome_none, Bool.false_eq_true, if_false] at hbound
      have hnext : (checkedAdd generation 1).isSome = true := by
        rw [(checkedAdd_eq_some.mp hgeneration).2, checkedAdd_of_lt (by omega)]
        rfl
      exact hnext

theorem MacOsKeychainAuthorityV2.grants_of_beside [Sha256] {a a' : MacOsKeychainAuthorityV2}
    (hs : Sound a)
    (h : reservePublicationGeneration a r operation digest = .ok (a', generation))
    (hbeside : a.GrantsBeside r operation other) : Grants a' r other := by
  cases hbeside
  intro entry' hentry'
  refine .inl ?_
  obtain ⟨entry, hentry, _, _, ⟨hmine, _, _, hsame⟩ | ⟨_, _, hset⟩⟩ :=
    MacOsKeychainAuthorityV2.reserveGeneration_cases hs h
  · rw [hsame, hentry] at hentry'
    cases hentry'
    exact hmine
  · rw [hset, ExtTreeMap.getElem?_insert_self] at hentry'
    cases hentry'
    rfl

/-- No entry holds a reservation, and a generation is left. -/
def MacOsKeychainAuthorityV2.unreserved (a : MacOsKeychainAuthorityV2) : Bool :=
  (a.entries.toList.all fun (_, entry) => entry.publicationOperation.isZero) &&
    a.nextGeneration.isSome

theorem MacOsKeychainAuthorityV2.grants_of_unreserved {a : MacOsKeychainAuthorityV2}
    (h : a.unreserved = true) : Grants a r operation := by
  intro entry hentry
  rw [MacOsKeychainAuthorityV2.unreserved, Bool.and_eq_true] at h
  exact .inr ⟨List.all_eq_true.mp h.1 (r, entry)
    (ExtTreeMap.mem_toList_iff_getElem?_eq_some.mpr hentry), h.2⟩

end Authorities

namespace RepositoryV2

section Authorities

variable [Sha256] [SnapshotFormatV2]

/-- With either authority, recovery completes every stopped publication of a
sealed result, in every run without a `begin` over a final directory, as long
as the reservation of the stopped call leaves recovery free. With the keychain,
no repository commitment may be all zeros either: its entry would not decode. -/
theorem recovery_completes_publication (capacity : Nat) (r : ResultId)
    (before : List CommandV2) (stops : PublishPointV2 → Bool) (operation : OperationIdV1)
    (record : ResultAuthorityRecordV2)
    (hstate : record.state = .sealed ∨ record.state = .published) :
    (∀ (authority : ProcessKeyAuthorityV2) (s : RepositoryV2 ProcessKeyAuthorityV2),
      ProcessKeyAuthorityV2.new capacity = .ok authority → s = run { authority } before →
      Follows (fun s command => ¬BeginsOver r s command) { authority } before →
      snapshot s.authority r = .ok record →
      (record.state = .sealed →
        RecoveryFree ProcessKeyAuthorityV2.GrantsBeside stops r operation record s) →
      ∃ d, s.storageOf r = some d ∧ Completes r operation record.createdUnixNanos
        record.expiresUnixNanos (committedEvents d)
        (RepositoryV2.publish stops r operation s).2) ∧
    (∀ (authority : MacOsKeychainAuthorityV2) (s : RepositoryV2 MacOsKeychainAuthorityV2),
      MacOsKeychainAuthorityV2.new capacity = .ok authority → s = run { authority } before →
      Follows (fun s command => AllAdmitted s ∧ ¬BeginsOver r s command) { authority } before →
      AllAdmitted s → snapshot s.authority r = .ok record →
      (record.state = .sealed →
        RecoveryFree MacOsKeychainAuthorityV2.GrantsBeside stops r operation record s) →
      ∃ d, s.storageOf r = some d ∧ Completes r operation record.createdUnixNanos
        record.expiresUnixNanos (committedEvents d)
        (RepositoryV2.publish stops r operation s).2) := by
  refine ⟨?_, ?_⟩
  · intro authority s hnew hrun hbefore hrecord hfree
    have hnone : stored authority r = none := by
      unfold ProcessKeyAuthorityV2.new at hnew
      split at hnew
      · cases hnew
      · cases hnew
        rfl
    exact completes_after_run (fun _ => ProcessKeyAuthorityV2.grants_of_beside)
      (sound_new hnew) hnone hrun (hbefore.mono fun s _ h => ⟨allAdmitted_process s, h⟩)
      (allAdmitted_process s) hrecord hstate hfree
  · intro authority s hnew hrun hbefore hadmitted hrecord hfree
    obtain ⟨hsound, hnone⟩ : Sound authority ∧ stored authority r = none := by
      unfold MacOsKeychainAuthorityV2.new at hnew
      split at hnew
      · cases hnew
      · cases hnew
        refine ⟨?_, rfl⟩
        intro r' entry hentry
        simp at hentry
    exact completes_after_run MacOsKeychainAuthorityV2.grants_of_beside
      hsound hnone hrun hbefore hadmitted hrecord hstate hfree

end Authorities

/-! ## One stopped publication -/

/-- `AllAdmitted`, entry by entry. -/
def keychainAdmitted [Sha256] (s : RepositoryV2 MacOsKeychainAuthorityV2) : Bool :=
  s.authority.entries.toList.all fun (_, entry) => entry.record.state ≠ .sealed ||
    !(deriveRepositoryCommitment entry.record.sealCommitments).isZero

theorem allAdmitted_keychain [Sha256] {s : RepositoryV2 MacOsKeychainAuthorityV2}
    (h : s.keychainAdmitted = true) : AllAdmitted s := by
  intro q record key hstored hstate
  obtain ⟨entry, hentry, rfl, rfl⟩ := MacOsKeychainAuthorityV2.entry_of_stored hstored
  have hall := List.all_eq_true.mp h (q, entry)
    (ExtTreeMap.mem_toList_iff_getElem?_eq_some.mpr hentry)
  have hnonzero : (deriveRepositoryCommitment entry.record.sealCommitments).isZero = false := by
    simpa [hstate] using hall
  exact hnonzero

/-- An empty keychain. -/
def emptyKeychain : RepositoryV2 MacOsKeychainAuthorityV2 := { authority := { capacity := 1 } }

/-- A stop at one point. -/
def stopAt (point : PublishPointV2) : PublishPointV2 → Bool := fun other => other = point

/-- The keychain after the run, and after a publication that stopped with its
reservation: recovery asks for one of its own and is refused. -/
theorem keychainRun_outcome :
    letI := fips180
    letI := plainFormat
    (life (emptyKeychain.run sealedRun) sampleResult = some (.sealed, 0, 1000) ∧
      (recover sampleResult 5 none (RepositoryV2.publish (stopAt .afterReservation) sampleResult
        (.repeated 5) (emptyKeychain.run sealedRun)).2).1 = .error .operationConflict) ∧
    (sealedRun.inits.all fun commands => (emptyKeychain.run commands).keychainAdmitted) = true ∧
    (emptyKeychain.run sealedRun).authority.unreserved = true ∧
    (emptyRoot.run sealedRun).authority.highWater = 0 := by
  rw [fips180_eq]
  decide +kernel

/-- With the keychain, recovery of a publication that stopped between its
reservation and the authority's publication is refused. -/
theorem keychain_reservation_blocks_recovery :
    letI := fips180
    letI := plainFormat
    let s := emptyKeychain.run sealedRun
    let stopped := (RepositoryV2.publish (stopAt .afterReservation) sampleResult (.repeated 5) s).2
    life s sampleResult = some (.sealed, 0, 1000) ∧
      (recover sampleResult 5 none stopped).1 = .error .operationConflict :=
  keychainRun_outcome.1

theorem follows_of_states {A : Type} [KeyAuthorityV2 A] [Sha256] [SnapshotFormatV2]
    {I : RepositoryV2 A → Prop} {condition : RepositoryV2 A → CommandV2 → Prop} :
    ∀ {commands : List CommandV2} {s : RepositoryV2 A},
      (∀ before ∈ commands.inits, I (s.run before)) → Follows condition s commands →
      Follows (fun s command => I s ∧ condition s command) s commands
  | [], _, _, _ => trivial
  | command :: rest, s, hstates, hfollows => by
      refine ⟨⟨hstates [] (by simp), hfollows.1⟩, follows_of_states ?_ hfollows.2⟩
      intro before hbefore
      exact hstates (command :: before) (by simpa using hbefore)

/-- The only `begin` of the run finds nothing. -/
theorem sealedRun_begins {A : Type} [KeyAuthorityV2 A] [Sha256] [SnapshotFormatV2]
    (authority : A) :
    Follows (fun s command => ¬BeginsOver sampleResult s command) { authority } sealedRun := by
  refine ⟨?_, id, id, id, trivial⟩
  rintro ⟨_, hfinal, _⟩
  simp at hfinal

/-- In process memory the same stop is harmless, and with the keychain a stop
before the reservation. -/
theorem recovery_completes_publication_sample :
    letI := fips180
    letI := plainFormat
    let stopped := (RepositoryV2.publish (stopAt .afterReservation) sampleResult (.repeated 5)
      (emptyRoot.run sealedRun)).2
    let stoppedEarly := (RepositoryV2.publish (stopAt .beforeReservation) sampleResult
      (.repeated 5) (emptyKeychain.run sealedRun)).2
    ((recover sampleResult 5 none stopped).1 = .ok .completedPublication ∨
      (recover sampleResult 5 none stopped).1 = .ok .alreadyVisible) ∧
    ((recover sampleResult 5 none stoppedEarly).1 = .ok .completedPublication ∨
      (recover sampleResult 5 none stoppedEarly).1 = .ok .alreadyVisible) := by
  let := fips180
  let := plainFormat
  refine ⟨?_, ?_⟩
  · obtain ⟨record, hrecord, hstate, _, hexpires⟩ := life_eq_some sealedRun_outcome.1.1
    have hcounter := keychainRun_outcome.2.2.2
    have hfree : RecoveryFree ProcessKeyAuthorityV2.GrantsBeside (stopAt .afterReservation)
        sampleResult (.repeated 5) record (emptyRoot.run sealedRun) := by
      refine ⟨fun _ => .inr ?_, fun _ _ => .inr (.inr ?_)⟩
      · rw [hcounter]
        rfl
      · rw [hcounter]
        split
        · rfl
        · rfl
    obtain ⟨d, _, hcompletes⟩ := (recovery_completes_publication 1 sampleResult
      sealedRun (stopAt .afterReservation) (.repeated 5) record (.inl hstate)).1
      emptyRoot.authority _ rfl rfl (sealedRun_begins _) hrecord fun _ => hfree
    exact (hcompletes 5 none (by omega)).1
  · obtain ⟨⟨hlife, _⟩, hadmitted, hunreserved, _⟩ := keychainRun_outcome
    obtain ⟨record, hrecord, hstate, _, hexpires⟩ := life_eq_some hlife
    have hall : ∀ commands ∈ sealedRun.inits, AllAdmitted (emptyKeychain.run commands) :=
      fun commands hcommands => allAdmitted_keychain (List.all_eq_true.mp hadmitted _ hcommands)
    have hfree : RecoveryFree MacOsKeychainAuthorityV2.GrantsBeside (stopAt .beforeReservation)
        sampleResult (.repeated 5) record (emptyKeychain.run sealedRun) := by
      refine ⟨fun _ => MacOsKeychainAuthorityV2.grants_of_unreserved hunreserved, ?_⟩
      rintro ⟨_, hgoes, _⟩
      cases hgoes
    obtain ⟨d, _, hcompletes⟩ := (recovery_completes_publication 1 sampleResult
      sealedRun (stopAt .beforeReservation) (.repeated 5) record (.inl hstate)).2
      emptyKeychain.authority _ rfl rfl (follows_of_states hall (sealedRun_begins _))
      (hall sealedRun ((List.mem_inits ..).mpr (List.prefix_refl _))) hrecord fun _ => hfree
    exact (hcompletes 5 none (by omega)).1

end RepositoryV2

end Evidentrail
