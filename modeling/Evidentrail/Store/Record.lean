import Evidentrail.Store.Lifecycle

/-!
# Transitions of the authority record

What each transition of a record can do, said once: the exact retry leaves
the record as it is, and the first call writes the fields of its own state
and no others.
-/

namespace Evidentrail

open Rust

/-! ## What a transition does -/

namespace ResultAuthorityRecordV2

variable {r r' : ResultAuthorityRecordV2} {operation : OperationIdV1}
  {digest : LifecycleDigestV1} {transition : LifecycleTransitionV1}

/-- The record without its nonce bookkeeping. -/
def withoutNonces (r : ResultAuthorityRecordV2) : ResultAuthorityRecordV2 :=
  { r with
    nonceHighWater := 0, pendingNonceOperation := .zero, pendingNonceDigest := .zero
    pendingNonceFirst := 0, pendingNonceCount := 0 }

theorem reserveNonceRange_ok {count : Nat} {reservation : NonceReservationV1}
    (h : r.reserveNonceRange count = .ok (r', reservation)) :
    0 < count ∧ checkedAdd r.nonceHighWater count = some r'.nonceHighWater ∧
      reservation.firstCounter = r.nonceHighWater ∧
      r' = { r with nonceHighWater := r'.nonceHighWater } := by
  unfold reserveNonceRange at h
  split at h
  · cases h
  · rename_i hcount
    obtain ⟨next, hnext, h⟩ := except_bind_eq_ok.mp h
    obtain ⟨value, hvalue, h⟩ := except_bind_eq_ok.mp h
    cases h
    refine ⟨by omega, okOr_eq_ok.mp hnext, ?_, rfl⟩
    unfold NonceReservationV1.new at hvalue
    split at hvalue
    · cases hvalue
    · cases hvalue
      rfl

/-- A reservation of nonces either is the pending one or becomes it. -/
theorem reservePendingNonceRange_ok {count : Nat} {reservation : NonceReservationV1}
    (h : r.reservePendingNonceRange operation digest count = .ok (r', reservation)) :
    r' = r ∨
      (operation.isZero = false ∧ 0 < count ∧
        checkedAdd r.nonceHighWater count = some r'.nonceHighWater ∧
        r' = { r with
          nonceHighWater := r'.nonceHighWater
          pendingNonceOperation := operation, pendingNonceDigest := digest
          pendingNonceFirst := r.nonceHighWater, pendingNonceCount := count }) := by
  unfold reservePendingNonceRange at h
  split at h
  · cases h
  · rename_i hvalid
    push Not at hvalid
    split at h
    · split at h
      · obtain ⟨value, _, h⟩ := except_map_eq_ok.mp h
        cases h
        exact .inl rfl
      · cases h
    · obtain ⟨⟨r₁, value⟩, hreserve, h⟩ := except_bind_eq_ok.mp h
      cases h
      obtain ⟨hcount, hnext, hfirst, hr₁⟩ := reserveNonceRange_ok hreserve
      refine .inr ⟨by simpa using hvalid.1, hcount, hnext, ?_⟩
      rw [hr₁]
      simp only [hfirst]

theorem reservePendingNonceRange_withoutNonces {count : Nat}
    {reservation : NonceReservationV1}
    (h : r.reservePendingNonceRange operation digest count = .ok (r', reservation)) :
    r'.withoutNonces = r.withoutNonces := by
  rcases reservePendingNonceRange_ok h with rfl | ⟨_, _, _, hr'⟩
  · rfl
  · rw [hr']
    rfl

theorem completePendingNonceRange_ok
    (h : r.completePendingNonceRange operation digest = .ok (r', transition)) :
    r'.hasPendingNonceReservation = false ∧
      (r' = r ∨ r' = { r with
        pendingNonceOperation := .zero, pendingNonceDigest := .zero
        pendingNonceFirst := 0, pendingNonceCount := 0 }) := by
  unfold completePendingNonceRange at h
  split at h
  · rename_i hzero
    cases h
    exact ⟨by simp [hasPendingNonceReservation, hzero], .inl rfl⟩
  · split at h
    · cases h
    · cases h
      exact ⟨by simp [hasPendingNonceReservation, FixedBytes.isZero_zero], .inr rfl⟩

theorem completePendingNonceRange_idle (h : r.hasPendingNonceReservation = false) :
    r.completePendingNonceRange operation digest = .ok (r, .alreadyApplied) := by
  unfold hasPendingNonceReservation at h
  rw [completePendingNonceRange, if_pos (by simpa using h)]

theorem completePendingNonceRange_pending (hoperation : operation.isZero = false)
    (hpending : r.pendingNonceOperation = operation) (hdigest : r.pendingNonceDigest = digest) :
    r.completePendingNonceRange operation digest = .ok ({ r with
      pendingNonceOperation := .zero, pendingNonceDigest := .zero
      pendingNonceFirst := 0, pendingNonceCount := 0 }, .applied) := by
  rw [completePendingNonceRange, if_neg (by rw [hpending, hoperation]; exact Bool.false_ne_true),
    if_neg]
  rintro (h | h)
  · exact h hpending
  · exact h hdigest

theorem completePendingNonceRange_withoutNonces
    (h : r.completePendingNonceRange operation digest = .ok (r', transition)) :
    r'.withoutNonces = r.withoutNonces := by
  rcases (completePendingNonceRange_ok h).2 with rfl | hr'
  · rfl
  · rw [hr']
    rfl

theorem commitData_ok [Sha256] {buildContext : BuildContextDigestsV1}
    (h : r.commitData operation digest buildContext = .ok (r', transition)) :
    operation.isZero = false ∧
      ((1 ≤ r.state.rank ∧ r' = r) ∨
        (r.state = .opened ∧ r.hasPendingNonceReservation = false ∧
          r' = { r with
            dataOperation := operation, dataDigest := digest
            buildContext := buildContext.aggregate, state := .dataCommitted })) := by
  unfold commitData at h
  split at h
  · cases h
  · rename_i hoperation
    refine ⟨by simpa using hoperation, ?_⟩
    split at h
    · rename_i hrank
      split at h
      · cases h
        exact .inl ⟨hrank, rfl⟩
      · cases h
    · split at h
      · cases h
      · rename_i hopen
        push Not at hopen
        cases h
        exact .inr ⟨hopen.1, by simpa using hopen.2, rfl⟩

theorem seal_ok {commitments : SealCommitmentsV1}
    (h : r.seal operation commitments = .ok (r', transition)) :
    operation.isZero = false ∧
      ((2 ≤ r.state.rank ∧ r' = r) ∨
        (r.state = .dataCommitted ∧
          r' = { r with
            sealOperation := operation, sealCommitments := commitments, state := .sealed })) := by
  unfold «seal» at h
  split at h
  · cases h
  · rename_i hoperation
    refine ⟨by simpa using hoperation, ?_⟩
    split at h
    · rename_i hrank
      split at h
      · cases h
        exact .inl ⟨hrank, rfl⟩
      · cases h
    · split at h
      · cases h
      · rename_i hstate
        push Not at hstate
        cases h
        exact .inr ⟨hstate, rfl⟩

theorem publish_ok {generation : Nat}
    (h : r.publish operation generation digest = .ok (r', transition)) :
    operation.isZero = false ∧
      ((r.state = .published ∧ r' = r) ∨
        (r.state = .sealed ∧ generation ≠ 0 ∧ r.hasPendingNonceReservation = false ∧
          r' = { r with
            publishOperation := operation, publicationGeneration := generation
            repositoryCommitment := digest, state := .published })) := by
  unfold publish at h
  split at h
  · cases h
  · rename_i hoperation
    refine ⟨by simpa using hoperation, ?_⟩
    split at h
    · rename_i hstate
      split at h
      · cases h
        exact .inl ⟨hstate, rfl⟩
      · cases h
    · split at h
      · cases h
      · rename_i hsealed
        push Not at hsealed
        cases h
        exact .inr ⟨hsealed.1, hsealed.2.1, by simpa using hsealed.2.2, rfl⟩

/-- A sealed record without a pending nonce range is published by its first
reservation. -/
theorem publish_sealed {generation : Nat} (digest : LifecycleDigestV1)
    (hoperation : operation.isZero = false)
    (hstate : r.state = .sealed) (hgeneration : generation ≠ 0)
    (hpending : r.hasPendingNonceReservation = false) :
    ∃ r', r.publish operation generation digest = .ok (r', .applied) := by
  simp [publish, hoperation, hstate, hgeneration, hpending]

/-! ## What a transition leaves -/

theorem commitData_fields [Sha256] {buildContext : BuildContextDigestsV1}
    (h : r.commitData operation digest buildContext = .ok (r', transition)) :
    operation.isZero = false ∧ 1 ≤ r'.state.rank ∧ r'.dataOperation = operation ∧
      r'.dataDigest = digest ∧ r'.buildContext = buildContext.aggregate := by
  unfold commitData at h
  split at h
  · cases h
  · rename_i hoperation
    refine ⟨by simpa using hoperation, ?_⟩
    split at h
    · rename_i hrank
      split at h
      · rename_i hsame
        cases h
        exact ⟨hrank, hsame⟩
      · cases h
    · split at h
      · cases h
      · cases h
        exact ⟨Nat.le_refl _, rfl, rfl, rfl⟩

theorem commitData_again [Sha256] {buildContext : BuildContextDigestsV1}
    (hoperation : operation.isZero = false) (hrank : 1 ≤ r.state.rank)
    (h : r.dataOperation = operation ∧ r.dataDigest = digest ∧
      r.buildContext = buildContext.aggregate) :
    r.commitData operation digest buildContext = .ok (r, .alreadyApplied) := by
  unfold commitData
  rw [if_neg (by rw [hoperation]; exact Bool.false_ne_true),
    if_pos (show r.state.rank ≥ ResultLifecycleStateV1.dataCommitted.rank from hrank), if_pos h]

theorem seal_fields {commitments : SealCommitmentsV1}
    (h : r.seal operation commitments = .ok (r', transition)) :
    operation.isZero = false ∧ 2 ≤ r'.state.rank ∧ r'.sealOperation = operation ∧
      r'.sealCommitments = commitments := by
  unfold «seal» at h
  split at h
  · cases h
  · rename_i hoperation
    refine ⟨by simpa using hoperation, ?_⟩
    split at h
    · rename_i hrank
      split at h
      · rename_i hsame
        cases h
        exact ⟨hrank, hsame⟩
      · cases h
    · split at h
      · cases h
      · cases h
        exact ⟨Nat.le_refl _, rfl, rfl⟩

theorem seal_again {commitments : SealCommitmentsV1} (hoperation : operation.isZero = false)
    (hrank : 2 ≤ r.state.rank)
    (h : r.sealOperation = operation ∧ r.sealCommitments = commitments) :
    r.seal operation commitments = .ok (r, .alreadyApplied) := by
  unfold «seal»
  rw [if_neg (by rw [hoperation]; exact Bool.false_ne_true),
    if_pos (show r.state.rank ≥ ResultLifecycleStateV1.sealed.rank from hrank), if_pos h]

theorem publish_fields {generation : Nat}
    (h : r.publish operation generation digest = .ok (r', transition)) :
    operation.isZero = false ∧ r'.state = .published ∧ r'.publishOperation = operation ∧
      r'.publicationGeneration = generation ∧ r'.repositoryCommitment = digest := by
  unfold publish at h
  split at h
  · cases h
  · rename_i hoperation
    refine ⟨by simpa using hoperation, ?_⟩
    split at h
    · rename_i hstate
      split at h
      · rename_i hsame
        cases h
        exact ⟨hstate, hsame⟩
      · cases h
    · split at h
      · cases h
      · cases h
        exact ⟨rfl, rfl, rfl, rfl⟩

theorem publish_again (hoperation : r.publishOperation.isZero = false)
    (hstate : r.state = .published) :
    r.publish r.publishOperation r.publicationGeneration r.repositoryCommitment =
      .ok (r, .alreadyApplied) := by
  rw [publish, if_neg (by rw [hoperation]; exact Bool.false_ne_true), if_pos hstate,
    if_pos ⟨rfl, rfl, rfl⟩]

theorem newOpen_matches {resultId : ResultId} {created expires : Int}
    {nonceBase : ResultNoncePrefixV1}
    (h : newOpen resultId created expires nonceBase operation digest = .ok r) :
    r.matchesBegin created expires operation digest = true := by
  unfold newOpen at h
  split at h
  · cases h
  · split at h
    · cases h
    · split at h
      · cases h
      · cases h
        simp [matchesBegin]

theorem newOpen_ok {resultId : ResultId} {created expires : Int}
    {nonceBase : ResultNoncePrefixV1}
    (h : newOpen resultId created expires nonceBase operation digest = .ok r) :
    r.state = .opened ∧ r.resultId = resultId ∧ r.validateCanonical = .ok () := by
  unfold newOpen at h
  split at h
  · cases h
  · rename_i hrange
    split at h
    · cases h
    · rename_i hbase
      split at h
      · cases h
      · rename_i hoperation
        cases h
        push Not at hrange
        refine ⟨rfl, rfl, ?_⟩
        simp only [validateCanonical]
        simp [hrange.1, hbase, hoperation, FixedBytes.isZero_zero, Int.not_le.mpr hrange.2]

/-! ## Canonical records -/

/-- The part of `validate_canonical` that no transition touches. -/
def HeaderCanonical (r : ResultAuthorityRecordV2) : Prop :=
  ¬(r.resultId.asBytes.all (· == 0) ∨ r.expiresUnixNanos ≤ r.createdUnixNanos ∨
    r.nonceBase.isZero ∨ r.beginOperation.isZero)

/-- The fields that each state must and must not have. -/
def stageCanonical (r : ResultAuthorityRecordV2) : Bool :=
  let dataZero := r.dataOperation.isZero && r.dataDigest.isZero && r.buildContext.isZero
  let sealZero := r.sealOperation.isZero && decide (r.sealCommitments = zeroSealCommitments)
  let publishZero := r.publishOperation.isZero && r.publicationGeneration == 0 &&
    r.repositoryCommitment.isZero
  match r.state with
  | .opened => dataZero && sealZero && publishZero
  | .dataCommitted => !r.dataOperation.isZero && sealZero && publishZero
  | .sealed => !r.dataOperation.isZero && !r.sealOperation.isZero && publishZero
  | .published => !r.dataOperation.isZero && !r.sealOperation.isZero &&
      !r.publishOperation.isZero && decide (0 < r.publicationGeneration)

def pendingCanonical (r : ResultAuthorityRecordV2) : Bool :=
  (r.pendingNonceOperation.isZero && r.pendingNonceDigest.isZero &&
      r.pendingNonceFirst == 0 && r.pendingNonceCount == 0) ||
    (!r.pendingNonceOperation.isZero && decide (0 < r.pendingNonceCount) &&
      decide (checkedAdd r.pendingNonceFirst r.pendingNonceCount = some r.nonceHighWater))

theorem validateCanonical_eq_ok : r.validateCanonical = .ok () ↔
    r.HeaderCanonical ∧ r.stageCanonical = true ∧ r.pendingCanonical = true := by
  unfold HeaderCanonical validateCanonical
  split
  · rename_i hheader
    simp only [reduceCtorEq, false_iff, not_and]
    exact fun h => absurd hheader h
  · rename_i hheader
    show (if (!r.stageCanonical || !r.pendingCanonical) = true then
      Except.error LifecycleRecordErrorV1.noncanonicalState else .ok ()) = .ok () ↔ _
    rw [and_iff_right hheader]
    cases r.stageCanonical <;> cases r.pendingCanonical <;> simp

/-- Each transition fills the fields of its own stage. -/
theorem stageCanonical_next (h : r.stageCanonical = true) (hoperation : operation.isZero = false) :
    (r.state = .opened → ∀ buildContext, stageCanonical { r with
      dataOperation := operation, dataDigest := digest
      buildContext := buildContext, state := .dataCommitted } = true) ∧
    (r.state = .dataCommitted → ∀ commitments, stageCanonical { r with
      sealOperation := operation, sealCommitments := commitments, state := .sealed } = true) ∧
    (r.state = .sealed → ∀ generation, generation ≠ 0 → stageCanonical { r with
      publishOperation := operation, publicationGeneration := generation
      repositoryCommitment := digest, state := .published } = true) := by
  refine ⟨fun hstate _ => ?_, fun hstate _ => ?_, fun hstate generation hgeneration => ?_⟩
  all_goals simp only [stageCanonical, hstate, Bool.and_eq_true] at h
  · simp [stageCanonical, hoperation, h]
  · simp [stageCanonical, hoperation, h]
  · simp [stageCanonical, hoperation, h, Nat.pos_of_ne_zero hgeneration]

/-- A range is pending with all of its fields or with none. -/
theorem pendingCanonical_next : pendingCanonical { r with
      pendingNonceOperation := .zero, pendingNonceDigest := .zero
      pendingNonceFirst := 0, pendingNonceCount := 0 } = true ∧
    ∀ count next, operation.isZero = false → 0 < count →
      checkedAdd r.nonceHighWater count = some next → pendingCanonical { r with
        nonceHighWater := next
        pendingNonceOperation := operation, pendingNonceDigest := digest
        pendingNonceFirst := r.nonceHighWater, pendingNonceCount := count } = true := by
  refine ⟨by simp [pendingCanonical, FixedBytes.isZero_zero], ?_⟩
  intro count next hoperation hcount hnext
  simp [pendingCanonical, hoperation, hcount, hnext]

theorem canonical_reserve {count : Nat} {reservation : NonceReservationV1}
    (hr : r.validateCanonical = .ok ())
    (h : r.reservePendingNonceRange operation digest count = .ok (r', reservation)) :
    r'.validateCanonical = .ok () := by
  rcases reservePendingNonceRange_ok h with rfl | ⟨hoperation, hcount, hnext, hr'⟩
  · exact hr
  · obtain ⟨hheader, hstage, _⟩ := validateCanonical_eq_ok.mp hr
    rw [hr']
    exact validateCanonical_eq_ok.mpr
      ⟨hheader, hstage, pendingCanonical_next.2 count _ hoperation hcount hnext⟩

theorem canonical_complete (hr : r.validateCanonical = .ok ())
    (h : r.completePendingNonceRange operation digest = .ok (r', transition)) :
    r'.validateCanonical = .ok () := by
  rcases (completePendingNonceRange_ok h).2 with rfl | hr'
  · exact hr
  · obtain ⟨hheader, hstage, _⟩ := validateCanonical_eq_ok.mp hr
    rw [hr']
    exact validateCanonical_eq_ok.mpr
      ⟨hheader, hstage, (@pendingCanonical_next r operation digest).1⟩

theorem canonical_commitData [Sha256] {buildContext : BuildContextDigestsV1}
    (hr : r.validateCanonical = .ok ())
    (h : r.commitData operation digest buildContext = .ok (r', transition)) :
    r'.validateCanonical = .ok () := by
  obtain ⟨hoperation, ⟨_, rfl⟩ | ⟨hstate, _, hr'⟩⟩ := commitData_ok h
  · exact hr
  · obtain ⟨hheader, hstage, hpending⟩ := validateCanonical_eq_ok.mp hr
    rw [hr']
    exact validateCanonical_eq_ok.mpr
      ⟨hheader, (stageCanonical_next hstage hoperation).1 hstate _, hpending⟩

theorem canonical_seal {commitments : SealCommitmentsV1} (hr : r.validateCanonical = .ok ())
    (h : r.seal operation commitments = .ok (r', transition)) :
    r'.validateCanonical = .ok () := by
  obtain ⟨hoperation, ⟨_, rfl⟩ | ⟨hstate, hr'⟩⟩ := seal_ok h
  · exact hr
  · obtain ⟨hheader, hstage, hpending⟩ := validateCanonical_eq_ok.mp hr
    rw [hr']
    exact validateCanonical_eq_ok.mpr ⟨hheader,
      (@stageCanonical_next _ _ .zero hstage hoperation).2.1 hstate _, hpending⟩

theorem canonical_publish {generation : Nat} (hr : r.validateCanonical = .ok ())
    (h : r.publish operation generation digest = .ok (r', transition)) :
    r'.validateCanonical = .ok () := by
  obtain ⟨hoperation, ⟨_, rfl⟩ | ⟨hstate, hgeneration, _, hr'⟩⟩ := publish_ok h
  · exact hr
  · obtain ⟨hheader, hstage, hpending⟩ := validateCanonical_eq_ok.mp hr
    rw [hr']
    exact validateCanonical_eq_ok.mpr ⟨hheader,
      (stageCanonical_next hstage hoperation).2.2 hstate _ hgeneration, hpending⟩

theorem resultId_of_withoutNonces (h : r'.withoutNonces = r.withoutNonces) :
    r'.resultId = r.resultId := by
  have hid := congrArg ResultAuthorityRecordV2.resultId h
  exact hid

theorem resultId_commitData [Sha256] {buildContext : BuildContextDigestsV1}
    (h : r.commitData operation digest buildContext = .ok (r', transition)) :
    r'.resultId = r.resultId := by
  rcases (commitData_ok h).2 with ⟨_, rfl⟩ | ⟨_, _, rfl⟩ <;> rfl

theorem resultId_seal {commitments : SealCommitmentsV1}
    (h : r.seal operation commitments = .ok (r', transition)) : r'.resultId = r.resultId := by
  rcases (seal_ok h).2 with ⟨_, rfl⟩ | ⟨_, rfl⟩ <;> rfl

theorem resultId_publish {generation : Nat}
    (h : r.publish operation generation digest = .ok (r', transition)) :
    r'.resultId = r.resultId := by
  rcases (publish_ok h).2 with ⟨_, rfl⟩ | ⟨_, _, _, rfl⟩ <;> rfl

/-! ## Sealed records -/

/-- A sealed record stays sealed under the same commitments. -/
def KeepsSeal (r r' : ResultAuthorityRecordV2) : Prop :=
  2 ≤ r.state.rank → 2 ≤ r'.state.rank ∧ r'.sealCommitments = r.sealCommitments

theorem state_of_withoutNonces (h : r'.withoutNonces = r.withoutNonces) :
    r'.state = r.state := by
  have hstate := congrArg ResultAuthorityRecordV2.state h
  exact hstate

theorem keepsSeal_of_withoutNonces (h : r'.withoutNonces = r.withoutNonces) :
    KeepsSeal r r' := by
  intro hrank
  have hcommitments := congrArg ResultAuthorityRecordV2.sealCommitments h
  exact ⟨by rw [state_of_withoutNonces h]; exact hrank, hcommitments⟩

theorem keepsSeal_commitData [Sha256] {buildContext : BuildContextDigestsV1}
    (h : r.commitData operation digest buildContext = .ok (r', transition)) :
    KeepsSeal r r' := by
  intro hrank
  rcases (commitData_ok h).2 with ⟨_, rfl⟩ | ⟨hstate, _, _⟩
  · exact ⟨hrank, rfl⟩
  · rw [hstate] at hrank
    cases hrank

theorem keepsSeal_seal {commitments : SealCommitmentsV1}
    (h : r.seal operation commitments = .ok (r', transition)) : KeepsSeal r r' := by
  intro hrank
  rcases (seal_ok h).2 with ⟨_, rfl⟩ | ⟨hstate, _⟩
  · exact ⟨hrank, rfl⟩
  · rw [hstate] at hrank
    exact absurd hrank (by decide)

theorem keepsSeal_publish {generation : Nat}
    (h : r.publish operation generation digest = .ok (r', transition)) : KeepsSeal r r' := by
  intro hrank
  rcases (publish_ok h).2 with ⟨_, rfl⟩ | ⟨_, _, _, hr'⟩
  · exact ⟨hrank, rfl⟩
  · rw [hr']
    exact ⟨by show 2 ≤ 3; decide, rfl⟩

end ResultAuthorityRecordV2

end Evidentrail
