import Evidentrail.Lib.Attempt
import Evidentrail.Store.RecordCodec

/-!
# Calls on an authority record

The mutators change the record in place, so a call that fails half way
could leave it changed. None does. What they keep is that the record can be
read back, with one exception: `reserve_nonce_range` moves the high-water
mark and forgets the pending range that has to end there.
-/

namespace Evidentrail

open Rust Std Attempt

abbrev RecordM (α : Type) := Attempt ResultAuthorityRecordV2 LifecycleRecordErrorV1 α

/-! ## The mutators in place -/

namespace RecordM

def reserveNonceRange (count : UInt64) : RecordM NonceReservationV1 := do
  if count = 0 then fail .invalidNonceReservation
  else do
    let r ← read
    let next ← lift (okOr .nonceNamespaceExhausted (checkedAdd r.nonceHighWater count.toNat))
    let reservation ← lift (NonceReservationV1.new r.nonceBase r.nonceHighWater count.toNat)
    update fun r => { r with nonceHighWater := next }
    pure reservation

def reservePendingNonceRange (operation : OperationIdV1) (canonicalDigest : LifecycleDigestV1)
    (count : UInt64) : RecordM NonceReservationV1 := do
  if operation.isZero ∨ count = 0 then fail .invalidNonceReservation
  else do
    let r ← read
    if !r.pendingNonceOperation.isZero then
      if r.pendingNonceOperation = operation ∧ r.pendingNonceDigest = canonicalDigest ∧
          r.pendingNonceCount = count.toNat then
        lift (NonceReservationV1.new r.nonceBase r.pendingNonceFirst count.toNat)
      else fail .operationConflict
    else do
      let reservation ← reserveNonceRange count
      update fun r => { r with pendingNonceOperation := operation }
      update fun r => { r with pendingNonceDigest := canonicalDigest }
      update fun r => { r with pendingNonceFirst := reservation.firstCounter }
      update fun r => { r with pendingNonceCount := count.toNat }
      pure reservation

def completePendingNonceRange (operation : OperationIdV1) (canonicalDigest : LifecycleDigestV1) :
    RecordM LifecycleTransitionV1 := do
  let r ← read
  if r.pendingNonceOperation.isZero then pure .alreadyApplied
  else if r.pendingNonceOperation ≠ operation ∨ r.pendingNonceDigest ≠ canonicalDigest then
    fail .operationConflict
  else do
    update fun r => { r with pendingNonceOperation := .zero }
    update fun r => { r with pendingNonceDigest := .zero }
    update fun r => { r with pendingNonceFirst := 0 }
    update fun r => { r with pendingNonceCount := 0 }
    pure .applied

def commitData [Sha256] (operation : OperationIdV1) (canonicalDigest : LifecycleDigestV1)
    (buildContext : BuildContextDigestsV1) : RecordM LifecycleTransitionV1 := do
  if operation.isZero then fail .invalidOperationId
  else do
    let r ← read
    if r.state.rank ≥ ResultLifecycleStateV1.dataCommitted.rank then
      if r.dataOperation = operation ∧ r.dataDigest = canonicalDigest ∧
          r.buildContext = buildContext.aggregate then pure .alreadyApplied
      else fail .operationConflict
    else if r.state ≠ .opened ∨ r.hasPendingNonceReservation then fail .invalidStateTransition
    else do
      update fun r => { r with dataOperation := operation }
      update fun r => { r with dataDigest := canonicalDigest }
      update fun r => { r with buildContext := buildContext.aggregate }
      update fun r => { r with state := .dataCommitted }
      pure .applied

def «seal» (operation : OperationIdV1) (commitments : SealCommitmentsV1) :
    RecordM LifecycleTransitionV1 := do
  if operation.isZero then fail .invalidOperationId
  else do
    let r ← read
    if r.state.rank ≥ ResultLifecycleStateV1.sealed.rank then
      if r.sealOperation = operation ∧ r.sealCommitments = commitments then pure .alreadyApplied
      else fail .operationConflict
    else if r.state ≠ .dataCommitted then fail .invalidStateTransition
    else do
      update fun r => { r with sealOperation := operation }
      update fun r => { r with sealCommitments := commitments }
      update fun r => { r with state := .sealed }
      pure .applied

def publish (operation : OperationIdV1) (generation : UInt64)
    (repositoryCommitment : LifecycleDigestV1) : RecordM LifecycleTransitionV1 := do
  if operation.isZero then fail .invalidOperationId
  else do
    let r ← read
    if r.state = .published then
      if r.publishOperation = operation ∧ r.publicationGeneration = generation.toNat ∧
          r.repositoryCommitment = repositoryCommitment then pure .alreadyApplied
      else fail .operationConflict
    else if r.state ≠ .sealed ∨ generation = 0 ∨ r.hasPendingNonceReservation then
      fail .publicationGenerationInvalid
    else do
      update fun r => { r with publishOperation := operation }
      update fun r => { r with publicationGeneration := generation.toNat }
      update fun r => { r with repositoryCommitment := repositoryCommitment }
      update fun r => { r with state := .published }
      pure .applied

/-! ## The same, as functions -/

/-- A change that happens as a whole or not at all. -/
def settle {α : Type} (r : ResultAuthorityRecordV2) :
    Except LifecycleRecordErrorV1 (ResultAuthorityRecordV2 × α) →
      Except LifecycleRecordErrorV1 α × ResultAuthorityRecordV2
  | .ok (r', output) => (.ok output, r')
  | .error error => (.error error, r)

variable {r : ResultAuthorityRecordV2} {operation : OperationIdV1} {digest : LifecycleDigestV1}

theorem toNat_eq_zero {count : UInt64} : count.toNat = 0 ↔ count = 0 := by
  rw [← UInt64.toNat_inj]
  rfl

theorem reserveNonceRange_eq {count : UInt64} :
    reserveNonceRange count r = settle r (r.reserveNonceRange count.toNat) := by
  unfold reserveNonceRange ResultAuthorityRecordV2.reserveNonceRange
  by_cases hcount : count = 0
  · rw [if_pos hcount, if_pos (toNat_eq_zero.mpr hcount)]
    rfl
  · rw [if_neg hcount, if_neg (fun h => hcount (toNat_eq_zero.mp h))]
    simp only [bind_apply, read_apply, lift_apply]
    cases okOr LifecycleRecordErrorV1.nonceNamespaceExhausted
        (checkedAdd r.nonceHighWater count.toNat) with
    | error e => rfl
    | ok next =>
        simp only [except_bind_ok]
        cases NonceReservationV1.new r.nonceBase r.nonceHighWater count.toNat with
        | error e => rfl
        | ok reservation => rfl

theorem reservePendingNonceRange_eq {count : UInt64} :
    reservePendingNonceRange operation digest count r =
      settle r (r.reservePendingNonceRange operation digest count.toNat) := by
  unfold reservePendingNonceRange ResultAuthorityRecordV2.reservePendingNonceRange
  by_cases hinvalid : operation.isZero = true ∨ count = 0
  · rw [if_pos hinvalid, if_pos (hinvalid.imp_right toNat_eq_zero.mpr)]
    rfl
  · rw [if_neg hinvalid, if_neg (fun h => hinvalid (h.imp_right toNat_eq_zero.mp))]
    simp only [bind_apply, read_apply]
    split
    · split
      · rw [lift_apply]
        cases NonceReservationV1.new r.nonceBase r.pendingNonceFirst count.toNat with
        | error e => rfl
        | ok reservation => rfl
      · rfl
    · rw [bind_apply, reserveNonceRange_eq]
      cases r.reserveNonceRange count.toNat with
      | error e => rfl
      | ok out => rfl

theorem completePendingNonceRange_eq :
    completePendingNonceRange operation digest r =
      settle r (r.completePendingNonceRange operation digest) := by
  unfold completePendingNonceRange ResultAuthorityRecordV2.completePendingNonceRange
  simp only [bind_apply, read_apply]
  split
  · rfl
  · split
    · rfl
    · rfl

theorem commitData_eq [Sha256] {buildContext : BuildContextDigestsV1} :
    commitData operation digest buildContext r =
      settle r (r.commitData operation digest buildContext) := by
  unfold commitData ResultAuthorityRecordV2.commitData
  split
  · rfl
  · simp only [bind_apply, read_apply]
    split
    · split
      · rfl
      · rfl
    · split
      · rfl
      · rfl

theorem seal_eq {commitments : SealCommitmentsV1} :
    «seal» operation commitments r = settle r (r.seal operation commitments) := by
  unfold «seal» ResultAuthorityRecordV2.seal
  split
  · rfl
  · simp only [bind_apply, read_apply]
    split
    · split
      · rfl
      · rfl
    · split
      · rfl
      · rfl

theorem publish_eq {generation : UInt64} :
    publish operation generation digest r =
      settle r (r.publish operation generation.toNat digest) := by
  unfold publish ResultAuthorityRecordV2.publish
  split
  · rfl
  · simp only [bind_apply, read_apply, toNat_eq_zero]
    split
    · split
      · rfl
      · rfl
    · split
      · rfl
      · rfl

end RecordM

/-! ## Runs -/

/-- A call with its arguments. -/
inductive RecordCallV2 where
  | reserveNonceRange (count : UInt64)
  | reservePendingNonceRange (operation : OperationIdV1) (canonicalDigest : LifecycleDigestV1)
      (count : UInt64)
  | completePendingNonceRange (operation : OperationIdV1) (canonicalDigest : LifecycleDigestV1)
  | commitData (operation : OperationIdV1) (canonicalDigest : LifecycleDigestV1)
      (buildContext : BuildContextDigestsV1)
  | sealRecord (operation : OperationIdV1) (commitments : SealCommitmentsV1)
  | publish (operation : OperationIdV1) (generation : UInt64)
      (repositoryCommitment : LifecycleDigestV1)

namespace RecordCallV2

theorem run_of_settle {α : Type} {m : RecordM α} {r : ResultAuthorityRecordV2}
    {x : Except LifecycleRecordErrorV1 (ResultAuthorityRecordV2 × α)}
    (h : m r = RecordM.settle r x) :
    (m >>= fun _ => pure ()) r = RecordM.settle r (x.map fun p => (p.1, ())) := by
  rw [bind_apply, h]
  cases x with
  | error e => rfl
  | ok p => rfl

/-- A direct reservation that is granted while another one is pending. -/
def disturbs (r : ResultAuthorityRecordV2) : RecordCallV2 → Bool
  | .reserveNonceRange count => r.hasPendingNonceReservation && count != 0 &&
      decide (r.nonceHighWater + count.toNat < 2 ^ 64)
  | _ => false

variable [Sha256]

/-- The call, without what it returns. -/
def run : RecordCallV2 → RecordM Unit
  | .reserveNonceRange count => do let _ ← RecordM.reserveNonceRange count
  | .reservePendingNonceRange operation digest count => do
      let _ ← RecordM.reservePendingNonceRange operation digest count
  | .completePendingNonceRange operation digest => do
      let _ ← RecordM.completePendingNonceRange operation digest
  | .commitData operation digest buildContext => do
      let _ ← RecordM.commitData operation digest buildContext
  | .sealRecord operation commitments => do let _ ← RecordM.seal operation commitments
  | .publish operation generation digest => do let _ ← RecordM.publish operation generation digest

/-- The record a call leaves, or its error. -/
def apply (r : ResultAuthorityRecordV2) : RecordCallV2 →
    Except LifecycleRecordErrorV1 ResultAuthorityRecordV2
  | .reserveNonceRange count => (r.reserveNonceRange count.toNat).map Prod.fst
  | .reservePendingNonceRange operation digest count =>
      (r.reservePendingNonceRange operation digest count.toNat).map Prod.fst
  | .completePendingNonceRange operation digest =>
      (r.completePendingNonceRange operation digest).map Prod.fst
  | .commitData operation digest buildContext =>
      (r.commitData operation digest buildContext).map Prod.fst
  | .sealRecord operation commitments => (r.seal operation commitments).map Prod.fst
  | .publish operation generation digest =>
      (r.publish operation generation.toNat digest).map Prod.fst

variable {r r' : ResultAuthorityRecordV2}

/-- Every call changes the record as a whole or not at all. -/
theorem run_eq (call : RecordCallV2) :
    call.run r = RecordM.settle r ((call.apply r).map fun r' => (r', ())) := by
  have hmap : ∀ {α : Type} (x : Except LifecycleRecordErrorV1 (ResultAuthorityRecordV2 × α)),
      (x.map fun p => (p.1, ())) = (x.map Prod.fst).map fun r' => (r', ()) := by
    intro α x
    cases x with
    | error e => rfl
    | ok p => rfl
  cases call with
  | reserveNonceRange count =>
      exact (run_of_settle RecordM.reserveNonceRange_eq).trans (by rw [hmap]; rfl)
  | reservePendingNonceRange operation digest count =>
      exact (run_of_settle RecordM.reservePendingNonceRange_eq).trans (by rw [hmap]; rfl)
  | completePendingNonceRange operation digest =>
      exact (run_of_settle RecordM.completePendingNonceRange_eq).trans (by rw [hmap]; rfl)
  | commitData operation digest buildContext =>
      exact (run_of_settle RecordM.commitData_eq).trans (by rw [hmap]; rfl)
  | sealRecord operation commitments =>
      exact (run_of_settle RecordM.seal_eq).trans (by rw [hmap]; rfl)
  | publish operation generation digest =>
      exact (run_of_settle RecordM.publish_eq).trans (by rw [hmap]; rfl)

theorem run_ok {call : RecordCallV2} (h : call.apply r = .ok r') : call.run r = (.ok (), r') := by
  rw [run_eq, h]
  rfl

theorem run_error {call : RecordCallV2} {e : LifecycleRecordErrorV1}
    (h : call.apply r = .error e) : call.run r = (.error e, r) := by
  rw [run_eq, h]
  rfl

/-! ## What a call keeps -/

/-- The state and the high-water mark only go up, and numbers stay in range. -/
theorem apply_grows {call : RecordCallV2} (h : call.apply r = .ok r') :
    r.state.rank ≤ r'.state.rank ∧ r.nonceHighWater ≤ r'.nonceHighWater ∧
      (r.Fits → r'.Fits) := by
  have hsame : ∀ {x : ResultAuthorityRecordV2}, x = r → r.state.rank ≤ x.state.rank ∧
      r.nonceHighWater ≤ x.nonceHighWater ∧ (r.Fits → x.Fits) := by
    rintro x rfl
    exact ⟨le_rfl, le_rfl, id⟩
  cases call with
  | reserveNonceRange count =>
      obtain ⟨⟨x, reservation⟩, hcall, rfl⟩ := except_map_eq_ok.mp h
      obtain ⟨_, hnext, _, hx⟩ := ResultAuthorityRecordV2.reserveNonceRange_ok hcall
      obtain ⟨hlt, hvalue⟩ := checkedAdd_eq_some.mp hnext
      dsimp only at hx ⊢
      rw [hx]
      refine ⟨le_rfl, by dsimp only; omega, fun hr => ?_⟩
      exact ⟨hr.created, hr.expires, by dsimp only; rw [hvalue]; exact hlt,
        hr.publicationGeneration, hr.pendingNonceFirst, hr.pendingNonceCount⟩
  | reservePendingNonceRange operation digest count =>
      obtain ⟨⟨x, reservation⟩, hcall, rfl⟩ := except_map_eq_ok.mp h
      rcases ResultAuthorityRecordV2.reservePendingNonceRange_ok hcall with
        hx | ⟨_, _, hnext, hx⟩
      · exact hsame hx
      · obtain ⟨hlt, hvalue⟩ := checkedAdd_eq_some.mp hnext
        dsimp only at hx ⊢
        rw [hx]
        refine ⟨le_rfl, by dsimp only; omega, fun hr => ?_⟩
        exact ⟨hr.created, hr.expires, by dsimp only; rw [hvalue]; exact hlt,
          hr.publicationGeneration, hr.nonceHighWater, count.toNat_lt⟩
  | completePendingNonceRange operation digest =>
      obtain ⟨⟨x, transition⟩, hcall, rfl⟩ := except_map_eq_ok.mp h
      rcases (ResultAuthorityRecordV2.completePendingNonceRange_ok hcall).2 with hx | hx
      · exact hsame hx
      · dsimp only at hx ⊢
        rw [hx]
        exact ⟨le_rfl, le_rfl, fun hr => ⟨hr.created, hr.expires, hr.nonceHighWater,
          hr.publicationGeneration, Nat.two_pow_pos 64, Nat.two_pow_pos 64⟩⟩
  | commitData operation digest buildContext =>
      obtain ⟨⟨x, transition⟩, hcall, rfl⟩ := except_map_eq_ok.mp h
      rcases (ResultAuthorityRecordV2.commitData_ok hcall).2 with ⟨_, hx⟩ | ⟨hstate, _, hx⟩
      · exact hsame hx
      · dsimp only at hx ⊢
        rw [hx, hstate]
        exact ⟨Nat.le_succ _, le_rfl, fun hr => ⟨hr.created, hr.expires, hr.nonceHighWater,
          hr.publicationGeneration, hr.pendingNonceFirst, hr.pendingNonceCount⟩⟩
  | sealRecord operation commitments =>
      obtain ⟨⟨x, transition⟩, hcall, rfl⟩ := except_map_eq_ok.mp h
      rcases (ResultAuthorityRecordV2.seal_ok hcall).2 with ⟨_, hx⟩ | ⟨hstate, hx⟩
      · exact hsame hx
      · dsimp only at hx ⊢
        rw [hx, hstate]
        exact ⟨Nat.le_succ _, le_rfl, fun hr => ⟨hr.created, hr.expires, hr.nonceHighWater,
          hr.publicationGeneration, hr.pendingNonceFirst, hr.pendingNonceCount⟩⟩
  | publish operation generation digest =>
      obtain ⟨⟨x, transition⟩, hcall, rfl⟩ := except_map_eq_ok.mp h
      rcases (ResultAuthorityRecordV2.publish_ok hcall).2 with ⟨_, hx⟩ | ⟨hstate, _, _, hx⟩
      · exact hsame hx
      · dsimp only at hx ⊢
        rw [hx, hstate]
        exact ⟨Nat.le_succ _, le_rfl, fun hr => ⟨hr.created, hr.expires, hr.nonceHighWater,
          generation.toNat_lt, hr.pendingNonceFirst, hr.pendingNonceCount⟩⟩

theorem apply_canonical {call : RecordCallV2} (hr : r.validateCanonical = .ok ())
    (hcall : call.disturbs r = false) (h : call.apply r = .ok r') :
    r'.validateCanonical = .ok () := by
  cases call with
  | reserveNonceRange count =>
      obtain ⟨⟨x, reservation⟩, hreserve, rfl⟩ := except_map_eq_ok.mp h
      obtain ⟨hcount, hnext, _, hx⟩ := ResultAuthorityRecordV2.reserveNonceRange_ok hreserve
      obtain ⟨hlt, _⟩ := checkedAdd_eq_some.mp hnext
      have hidle : r.hasPendingNonceReservation = false := by
        have hne : count ≠ 0 := fun h => by rw [h] at hcount; exact absurd hcount (by decide)
        have hfits : decide (r.nonceHighWater + count.toNat < 2 ^ 64) = true :=
          decide_eq_true hlt
        simpa only [disturbs, hfits, bne_iff_ne.mpr hne, Bool.and_true] using hcall
      obtain ⟨hheader, hstage, hpending⟩ := ResultAuthorityRecordV2.validateCanonical_eq_ok.mp hr
      dsimp only at hx ⊢
      rw [hx]
      refine ResultAuthorityRecordV2.validateCanonical_eq_ok.mpr ⟨hheader, hstage, ?_⟩
      -- nothing is pending, so nothing has to end at the high-water mark
      simp only [ResultAuthorityRecordV2.hasPendingNonceReservation, Bool.not_eq_false'] at hidle
      simp only [ResultAuthorityRecordV2.pendingCanonical, hidle, Bool.not_true, Bool.false_and,
        Bool.or_false] at hpending ⊢
      exact hpending
  | reservePendingNonceRange operation digest count =>
      obtain ⟨⟨x, reservation⟩, hreserve, rfl⟩ := except_map_eq_ok.mp h
      exact ResultAuthorityRecordV2.canonical_reserve hr hreserve
  | completePendingNonceRange operation digest =>
      obtain ⟨⟨x, transition⟩, hcomplete, rfl⟩ := except_map_eq_ok.mp h
      exact ResultAuthorityRecordV2.canonical_complete hr hcomplete
  | commitData operation digest buildContext =>
      obtain ⟨⟨x, transition⟩, hcommit, rfl⟩ := except_map_eq_ok.mp h
      exact ResultAuthorityRecordV2.canonical_commitData hr hcommit
  | sealRecord operation commitments =>
      obtain ⟨⟨x, transition⟩, hseal, rfl⟩ := except_map_eq_ok.mp h
      exact ResultAuthorityRecordV2.canonical_seal hr hseal
  | publish operation generation digest =>
      obtain ⟨⟨x, transition⟩, hpublish, rfl⟩ := except_map_eq_ok.mp h
      exact ResultAuthorityRecordV2.canonical_publish hr hpublish

/-- The pending range of the record no longer ends at its high-water mark. -/
theorem not_canonical_of_disturbs {call : RecordCallV2} (hr : r.validateCanonical = .ok ())
    (hcall : call.disturbs r = true) : (call.run r).2.validateCanonical ≠ .ok () := by
  cases call with
  | reserveNonceRange count =>
      simp only [disturbs, Bool.and_eq_true, decide_eq_true_eq, bne_iff_ne] at hcall
      obtain ⟨⟨hpending, hcount⟩, hfits⟩ := hcall
      have hpos : count.toNat ≠ 0 := fun h => hcount (RecordM.toNat_eq_zero.mp h)
      obtain ⟨hheader, _, hends⟩ := ResultAuthorityRecordV2.validateCanonical_eq_ok.mp hr
      have hbase : r.nonceBase.isZero = false := by
        simp only [ResultAuthorityRecordV2.HeaderCanonical, not_or] at hheader
        simpa using hheader.2.2.1
      have hnext : checkedAdd r.nonceHighWater count.toNat =
          some (r.nonceHighWater + count.toNat) := checkedAdd_of_lt hfits
      have hrange : NonceReservationV1.new r.nonceBase r.nonceHighWater count.toNat =
          .ok ⟨r.nonceBase, r.nonceHighWater, count.toNat⟩ := by
        simp [NonceReservationV1.new, hbase, hpos, hnext]
      have happly : (RecordCallV2.reserveNonceRange count).apply r =
          .ok { r with nonceHighWater := r.nonceHighWater + count.toNat } := by
        simp [apply, ResultAuthorityRecordV2.reserveNonceRange, hpos, hnext, hrange, except_bind_ok,
          Except.map]
      rw [run_ok happly]
      intro hcanonical
      obtain ⟨_, _, hends'⟩ := ResultAuthorityRecordV2.validateCanonical_eq_ok.mp hcanonical
      simp only [ResultAuthorityRecordV2.hasPendingNonceReservation, Bool.not_eq_true'] at hpending
      simp only [ResultAuthorityRecordV2.pendingCanonical, hpending, Bool.false_and, Bool.not_false,
        Bool.true_and, Bool.false_or, Bool.and_eq_true, decide_eq_true_eq] at hends hends'
      have hsum := Option.some.inj (hends.2.symm.trans hends'.2)
      omega
  | _ => cases hcall

end RecordCallV2

namespace ResultAuthorityRecordV2

theorem newOpen_fits {r : ResultAuthorityRecordV2} {resultId : ResultId} {created expires : Int64}
    {nonceBase : ResultNoncePrefixV1} {operation : OperationIdV1} {digest : LifecycleDigestV1}
    (h : newOpen resultId created.toInt expires.toInt nonceBase operation digest = .ok r) :
    r.Fits := by
  unfold newOpen at h
  split at h
  · cases h
  · split at h
    · cases h
    · split at h
      · cases h
      · cases h
        exact ⟨⟨created.le_toInt, created.toInt_lt⟩, ⟨expires.le_toInt, expires.toInt_lt⟩,
          Nat.two_pow_pos 64, Nat.two_pow_pos 64, Nat.two_pow_pos 64, Nat.two_pow_pos 64⟩

section Runs

variable [Sha256]

/-- One call after the other. -/
def runCalls (r : ResultAuthorityRecordV2) (calls : List RecordCallV2) :
    ResultAuthorityRecordV2 :=
  calls.foldl (fun r call => (call.run r).2) r

/-- No direct reservation is granted while another one is pending. -/
def Undisturbed (r : ResultAuthorityRecordV2) : List RecordCallV2 → Prop
  | [] => True
  | call :: rest => call.disturbs r = false ∧ Undisturbed (call.run r).2 rest

/-- What a run from the record `r` must keep. -/
structure ReadsBack (r : ResultAuthorityRecordV2) (calls : List RecordCallV2) : Prop where
  /-- Every record on the way is read back from its bytes. -/
  decodes : ∀ before after, calls = before ++ after →
    decode (r.runCalls before).encode = .ok (r.runCalls before)
  /-- A call that fails changes nothing. -/
  failed : ∀ before call after, calls = before ++ call :: after →
    ∀ e, (call.run (r.runCalls before)).1 = .error e →
      r.runCalls (before ++ [call]) = r.runCalls before
  /-- The lifecycle goes forwards. -/
  forwards : ∀ before call after, calls = before ++ call :: after →
    (r.runCalls before).state.rank ≤ (r.runCalls (before ++ [call])).state.rank
  /-- The high-water mark goes up. -/
  upwards : ∀ before call after, calls = before ++ call :: after →
    (r.runCalls before).nonceHighWater ≤ (r.runCalls (before ++ [call])).nonceHighWater
  /-- Bytes that are read are the bytes of the record. -/
  exact : ∀ encoded r', decode encoded = .ok r' → r'.encode = encoded

variable {r : ResultAuthorityRecordV2}

theorem runCalls_concat (before : List RecordCallV2) (call : RecordCallV2) :
    r.runCalls (before ++ [call]) = (call.run (r.runCalls before)).2 := by
  rw [runCalls, List.foldl_append]
  rfl

theorem run_fits (call : RecordCallV2) (h : r.Fits) : (call.run r).2.Fits := by
  cases happly : call.apply r with
  | error e =>
      rw [RecordCallV2.run_error happly]
      exact h
  | ok r' =>
      rw [RecordCallV2.run_ok happly]
      exact (RecordCallV2.apply_grows happly).2.2 h

theorem run_canonical {call : RecordCallV2} (h : r.validateCanonical = .ok ())
    (hcall : call.disturbs r = false) : (call.run r).2.validateCanonical = .ok () := by
  cases happly : call.apply r with
  | error e =>
      rw [RecordCallV2.run_error happly]
      exact h
  | ok r' =>
      rw [RecordCallV2.run_ok happly]
      exact RecordCallV2.apply_canonical h hcall happly

theorem run_grows (call : RecordCallV2) :
    r.state.rank ≤ (call.run r).2.state.rank ∧
      r.nonceHighWater ≤ (call.run r).2.nonceHighWater := by
  cases happly : call.apply r with
  | error e =>
      rw [RecordCallV2.run_error happly]
      exact ⟨le_rfl, le_rfl⟩
  | ok r' =>
      rw [RecordCallV2.run_ok happly]
      obtain ⟨hstate, hhigh, _⟩ := RecordCallV2.apply_grows happly
      exact ⟨hstate, hhigh⟩

/-- The records of a run are canonical as long as nothing disturbs it. -/
theorem decodes_iff_undisturbed : ∀ (calls : List RecordCallV2) {r : ResultAuthorityRecordV2},
    r.Fits → r.validateCanonical = .ok () →
    ((∀ before after, calls = before ++ after →
      decode (r.runCalls before).encode = .ok (r.runCalls before)) ↔ r.Undisturbed calls)
  | [], r, hfits, hr => by
      refine ⟨fun _ => trivial, fun _ before after h => ?_⟩
      obtain ⟨rfl, _⟩ := List.append_eq_nil_iff.mp h.symm
      exact (decode_encode_iff hfits).mpr hr
  | call :: rest, r, hfits, hr => by
      have hfits' := run_fits call hfits
      constructor
      · intro h
        have hfirst := h [call] rest rfl
        have hcanonical : (call.run r).2.validateCanonical = .ok () :=
          (decode_encode_iff hfits').mp hfirst
        have hcall : call.disturbs r = false := by
          cases hdisturbs : call.disturbs r with
          | false => rfl
          | true => exact absurd hcanonical (RecordCallV2.not_canonical_of_disturbs hr hdisturbs)
        refine ⟨hcall, (decodes_iff_undisturbed rest hfits' hcanonical).mp
          fun before after hrest => ?_⟩
        exact h (call :: before) after (by rw [hrest]; rfl)
      · rintro ⟨hcall, hrest⟩ before after h
        cases before with
        | nil => exact (decode_encode_iff hfits).mpr hr
        | cons first before =>
            obtain ⟨rfl, hafter⟩ := List.cons.inj h
            exact (decodes_iff_undisturbed rest hfits' (run_canonical hr hcall)).mpr hrest
              before after hafter

/-- A record read back after every call is one whose pending range was never
passed over by a direct reservation. -/
theorem readsBack_iff_undisturbed {resultId : ResultId} {created expires : Int64}
    {nonceBase : ResultNoncePrefixV1} {operation : OperationIdV1} {digest : LifecycleDigestV1}
    (hopen : newOpen resultId created.toInt expires.toInt nonceBase operation digest = .ok r)
    (calls : List RecordCallV2) : r.ReadsBack calls ↔ r.Undisturbed calls := by
  obtain ⟨_, _, hcanonical⟩ := newOpen_ok hopen
  have hfits : r.Fits := newOpen_fits hopen
  rw [← decodes_iff_undisturbed calls hfits hcanonical]
  refine ⟨ReadsBack.decodes, fun hdecodes => ⟨hdecodes, ?_, ?_, ?_, ?_⟩⟩
  · intro before call after _ e hfailed
    rw [runCalls_concat]
    cases happly : call.apply (r.runCalls before) with
    | error e' => rw [RecordCallV2.run_error happly]
    | ok r' =>
        rw [RecordCallV2.run_ok happly] at hfailed
        cases hfailed
  · intro before call after _
    rw [runCalls_concat]
    exact (run_grows call).1
  · intro before call after _
    rw [runCalls_concat]
    exact (run_grows call).2
  · exact fun encoded r' h => encode_of_decode h

end Runs

/-- A reservation is pending, and a direct one is granted behind it: the
record that is stored then is refused. -/
theorem direct_reservation_unreadable :
    letI := fips180
    let calls := [.reservePendingNonceRange (.repeated 2) (.repeated 2) 1, .reserveNonceRange 1]
    ∃ r, newOpen (.repeated 9) (Int64.toInt 100) (Int64.toInt 200) (.repeated 7) (.repeated 1)
        (.repeated 10) = .ok r ∧
      decode (r.runCalls calls).encode = .error .noncanonicalState ∧ ¬r.ReadsBack calls := by
  let := fips180
  refine ⟨_, rfl, by decide +kernel, fun h => ?_⟩
  have hdecodes := h.decodes _ [] (List.append_nil _).symm
  exact absurd hdecodes (by decide +kernel)

/-- The calls of a whole life, with a direct reservation between two pending
ones. -/
theorem readsBack_whole_life :
    letI := fips180
    ∃ r, newOpen (.repeated 9) (Int64.toInt 100) (Int64.toInt 200) (.repeated 7) (.repeated 1)
        (.repeated 10) = .ok r ∧
      r.ReadsBack [.reservePendingNonceRange (.repeated 2) (.repeated 2) 3,
        .completePendingNonceRange (.repeated 2) (.repeated 2), .reserveNonceRange 2,
        .commitData (.repeated 3) (.repeated 11)
          ⟨.repeated 1, .repeated 2, .repeated 3, .repeated 4, .repeated 5⟩,
        .sealRecord (.repeated 4) ⟨.repeated 20, .repeated 21, .repeated 22, .repeated 23,
          .repeated 24⟩, .publish (.repeated 5) 1 (.repeated 30)] := by
  let := fips180
  refine ⟨_, rfl, ?_⟩
  refine (readsBack_iff_undisturbed (show newOpen (.repeated 9) (Int64.toInt 100)
    (Int64.toInt 200) (.repeated 7) (.repeated 1) (.repeated 10) = .ok _ from rfl) _).mpr ?_
  exact ⟨rfl, rfl, by decide, rfl, rfl, rfl, trivial⟩

end ResultAuthorityRecordV2

end Evidentrail
