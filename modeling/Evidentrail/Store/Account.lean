import Evidentrail.Store.Keychain
import Evidentrail.Store.Laws

/-!
# What an authority remembers of nonces

Seen from the writer of one result, an authority holds an account: the
record, the key, and the nonce ranges that a repeated reservation is given
again. The process authority remembers every operation, the keychain the
last one. Everything else that a nonce reservation can do is the same for
both, and is said here once.
-/

namespace Evidentrail

open Rust Std KeyAuthorityV2

/-! ## Accounts -/

structure AccountV2 where
  record : ResultAuthorityRecordV2
  resultDek : ResultDekV1
  /-- The digest, the count and the range an operation reserved, as long as
  the authority remembers them. -/
  recalled : OperationIdV1 → Option (LifecycleDigestV1 × Nat × NonceReservationV1)

namespace AccountV2

def withRecord (acc : AccountV2) (record : ResultAuthorityRecordV2) : AccountV2 :=
  { acc with record }

@[simp] theorem withRecord_record (acc : AccountV2) (record : ResultAuthorityRecordV2) :
    (acc.withRecord record).record = record := rfl

@[simp] theorem withRecord_recalled (acc : AccountV2) (record : ResultAuthorityRecordV2) :
    (acc.withRecord record).recalled = acc.recalled := rfl

/-- The pending reservation is remembered, and every remembered range is a
range that was reserved. -/
structure Regular (acc : AccountV2) : Prop where
  canonical : acc.record.validateCanonical = .ok ()
  pending : acc.record.hasPendingNonceReservation = true →
    acc.recalled acc.record.pendingNonceOperation =
      some (acc.record.pendingNonceDigest, acc.record.pendingNonceCount,
        ⟨acc.record.nonceBase, acc.record.pendingNonceFirst, acc.record.pendingNonceCount⟩)
  ranges : ∀ operation digest count reservation,
    acc.recalled operation = some (digest, count, reservation) →
      operation.isZero = false ∧ 0 < count ∧
        reservation.nonceBase = acc.record.nonceBase ∧ reservation.count = count ∧
        reservation.firstCounter + count ≤ acc.record.nonceHighWater ∧
        acc.record.nonceHighWater < u64Bound

/-- What a granted reservation does to the account. -/
inductive Reserves (acc : AccountV2) (operation : OperationIdV1) (digest : LifecycleDigestV1)
    (count : Nat) (reservation : NonceReservationV1) : AccountV2 → Prop
  | again (h : acc.recalled operation = some (digest, count, reservation)) :
      Reserves acc operation digest count reservation acc
  | fresh {record : ResultAuthorityRecordV2}
      {recalled : OperationIdV1 → Option (LifecycleDigestV1 × Nat × NonceReservationV1)}
      (hfree : acc.record.hasPendingNonceReservation = false)
      (hreserve : acc.record.reservePendingNonceRange operation digest count =
        .ok (record, reservation))
      (hrecalled : recalled operation = some (digest, count, reservation))
      (hothers : ∀ other, other ≠ operation →
        recalled other = acc.recalled other ∨ recalled other = none) :
      Reserves acc operation digest count reservation ⟨record, acc.resultDek, recalled⟩

/-- The account remembers a reservation of this operation with this digest. -/
def Recalls (acc : AccountV2) (operation : OperationIdV1) (digest : LifecycleDigestV1) : Prop :=
  ∃ count reservation, acc.recalled operation = some (digest, count, reservation)

/-- What a call of the authority can do to the account of its result. -/
inductive Step : Option AccountV2 → Option AccountV2 → Prop
  | same (x : Option AccountV2) : Step x x
  | opened {record : ResultAuthorityRecordV2} {resultDek : ResultDekV1}
      {r : ResultId} {created expires : Int} {nonceBase : ResultNoncePrefixV1}
      {operation : OperationIdV1} {digest : LifecycleDigestV1}
      (h : ResultAuthorityRecordV2.newOpen r created expires nonceBase operation digest =
        .ok record) : Step none (some ⟨record, resultDek, fun _ => none⟩)
  | reserve {acc acc' : AccountV2} {operation : OperationIdV1} {digest : LifecycleDigestV1}
      {count : Nat} {reservation : NonceReservationV1}
      (h : acc.Reserves operation digest count reservation acc') : Step (some acc) (some acc')
  | complete {acc : AccountV2} {operation : OperationIdV1} {digest : LifecycleDigestV1}
      {record : ResultAuthorityRecordV2} {transition : LifecycleTransitionV1}
      (h : acc.record.completePendingNonceRange operation digest = .ok (record, transition)) :
      Step (some acc) (some (acc.withRecord record))
  | commitData [Sha256] {acc : AccountV2} {operation : OperationIdV1}
      {digest : LifecycleDigestV1} {buildContext : BuildContextDigestsV1}
      {record : ResultAuthorityRecordV2} {transition : LifecycleTransitionV1}
      (h : acc.record.commitData operation digest buildContext = .ok (record, transition)) :
      Step (some acc) (some (acc.withRecord record))
  | sealResult {acc : AccountV2} {operation : OperationIdV1} {commitments : SealCommitmentsV1}
      {record : ResultAuthorityRecordV2} {transition : LifecycleTransitionV1}
      (h : acc.record.seal operation commitments = .ok (record, transition)) :
      Step (some acc) (some (acc.withRecord record))
  | publish {acc : AccountV2} {operation : OperationIdV1} {generation : Nat}
      {digest : LifecycleDigestV1} {record : ResultAuthorityRecordV2}
      {transition : LifecycleTransitionV1}
      (h : acc.record.publish operation generation digest = .ok (record, transition)) :
      Step (some acc) (some (acc.withRecord record))
  | gone (x : Option AccountV2) : Step x none

/-! ## Accounts stay regular -/

variable {acc acc' : AccountV2} {operation : OperationIdV1} {digest : LifecycleDigestV1}
  {count : Nat} {reservation : NonceReservationV1}

/-- A reservation that was not pending before is the range above all others. -/
theorem reserved_fresh {record record' : ResultAuthorityRecordV2}
    (hfree : record.hasPendingNonceReservation = false)
    (h : record.reservePendingNonceRange operation digest count = .ok (record', reservation)) :
    operation.isZero = false ∧ 0 < count ∧ record.nonceHighWater + count < u64Bound ∧
      reservation = ⟨record.nonceBase, record.nonceHighWater, count⟩ ∧
      record' = { record with
        nonceHighWater := record.nonceHighWater + count
        pendingNonceOperation := operation, pendingNonceDigest := digest
        pendingNonceFirst := record.nonceHighWater, pendingNonceCount := count } := by
  unfold ResultAuthorityRecordV2.reservePendingNonceRange at h
  split at h
  · cases h
  · rename_i hvalid
    push Not at hvalid
    rw [show (!record.pendingNonceOperation.isZero) = false from hfree,
      if_neg Bool.false_ne_true] at h
    obtain ⟨⟨record₁, value⟩, hreserve, h⟩ := except_bind_eq_ok.mp h
    cases h
    unfold ResultAuthorityRecordV2.reserveNonceRange at hreserve
    rw [if_neg hvalid.2] at hreserve
    obtain ⟨next, hnext, hreserve⟩ := except_bind_eq_ok.mp hreserve
    obtain ⟨range, hrange, hreserve⟩ := except_bind_eq_ok.mp hreserve
    cases hreserve
    unfold NonceReservationV1.new at hrange
    split at hrange
    · cases hrange
    · cases hrange
      obtain ⟨hlt, rfl⟩ := checkedAdd_eq_some.mp (okOr_eq_ok.mp hnext)
      exact ⟨by simpa using hvalid.1, Nat.pos_of_ne_zero hvalid.2, hlt, rfl, rfl⟩

/-- A record whose nonce bookkeeping did not change. -/
theorem Regular.of_record {record : ResultAuthorityRecordV2} (h : acc.Regular)
    (hcanonical : record.validateCanonical = .ok ())
    (hbase : record.nonceBase = acc.record.nonceBase)
    (hhigh : record.nonceHighWater = acc.record.nonceHighWater)
    (hpending : record.hasPendingNonceReservation = true →
      acc.record.hasPendingNonceReservation = true ∧
        record.pendingNonceOperation = acc.record.pendingNonceOperation ∧
        record.pendingNonceDigest = acc.record.pendingNonceDigest ∧
        record.pendingNonceFirst = acc.record.pendingNonceFirst ∧
        record.pendingNonceCount = acc.record.pendingNonceCount) :
    (acc.withRecord record).Regular := by
  refine ⟨hcanonical, ?_, ?_⟩
  · intro hp
    obtain ⟨hold, hoperation, hdigest, hfirst, hcount⟩ := hpending hp
    simp only [withRecord_record, withRecord_recalled, hoperation, hdigest, hfirst, hcount, hbase]
    exact h.pending hold
  · intro operation digest count reservation hrecalled
    simp only [withRecord_record, hbase, hhigh]
    exact h.ranges operation digest count reservation hrecalled

theorem Reserves.regular (h : acc.Reserves operation digest count reservation acc')
    (hacc : acc.Regular) : acc'.Regular := by
  cases h with
  | again _ => exact hacc
  | fresh hfree hreserve hrecalled hothers =>
      obtain ⟨hoperation, hcount, hfits, rfl, rfl⟩ := reserved_fresh hfree hreserve
      refine ⟨ResultAuthorityRecordV2.canonical_reserve hacc.canonical hreserve,
        fun _ => hrecalled, ?_⟩
      intro other digest' count' reservation' hother
      by_cases hsame : other = operation
      · subst hsame
        cases hrecalled.symm.trans hother
        exact ⟨hoperation, hcount, rfl, rfl, Nat.le_refl _, hfits⟩
      · rcases hothers other hsame with hkept | hnone
        · obtain ⟨hzero, hpos, hbase, hlen, hbelow, _⟩ :=
            hacc.ranges other digest' count' reservation' (hkept.symm.trans hother)
          exact ⟨hzero, hpos, hbase, hlen, Nat.le_trans hbelow (Nat.le_add_right _ _), hfits⟩
        · cases hnone.symm.trans hother

theorem regular_complete {record : ResultAuthorityRecordV2} {transition : LifecycleTransitionV1}
    (hacc : acc.Regular)
    (h : acc.record.completePendingNonceRange operation digest = .ok (record, transition)) :
    (acc.withRecord record).Regular := by
  have hcanonical := ResultAuthorityRecordV2.canonical_complete hacc.canonical h
  obtain ⟨hclear, hrecord⟩ := ResultAuthorityRecordV2.completePendingNonceRange_ok h
  rcases hrecord with rfl | rfl
  · exact hacc
  · exact hacc.of_record hcanonical rfl rfl fun hp => by rw [hclear] at hp; cases hp

theorem Step.regular {x y : Option AccountV2} (h : Step x y)
    (hx : ∀ acc, x = some acc → acc.Regular) : ∀ acc, y = some acc → acc.Regular := by
  intro acc' hacc'
  cases h with
  | same => exact hx acc' hacc'
  | gone => cases hacc'
  | opened hopen =>
      cases hacc'
      obtain ⟨_, _, hcanonical⟩ := ResultAuthorityRecordV2.newOpen_ok hopen
      refine ⟨hcanonical, fun hp => ?_, by simp⟩
      -- a new record has nothing pending
      unfold ResultAuthorityRecordV2.newOpen at hopen
      split at hopen
      · cases hopen
      · split at hopen
        · cases hopen
        · split at hopen
          · cases hopen
          · cases hopen
            simp [ResultAuthorityRecordV2.hasPendingNonceReservation, FixedBytes.isZero_zero] at hp
  | reserve h => cases hacc'; exact h.regular (hx _ rfl)
  | complete h => cases hacc'; exact regular_complete (hx _ rfl) h
  | @commitData _ acc _ _ _ _ _ h =>
      cases hacc'
      have hcanonical := ResultAuthorityRecordV2.canonical_commitData (hx _ rfl).canonical h
      obtain ⟨_, ⟨_, rfl⟩ | ⟨_, _, rfl⟩⟩ := ResultAuthorityRecordV2.commitData_ok h
      · exact hx _ rfl
      · exact (hx _ rfl).of_record hcanonical rfl rfl fun hp => ⟨hp, rfl, rfl, rfl, rfl⟩
  | sealResult h =>
      cases hacc'
      have hcanonical := ResultAuthorityRecordV2.canonical_seal (hx _ rfl).canonical h
      obtain ⟨_, ⟨_, rfl⟩ | ⟨_, rfl⟩⟩ := ResultAuthorityRecordV2.seal_ok h
      · exact hx _ rfl
      · exact (hx _ rfl).of_record hcanonical rfl rfl fun hp => ⟨hp, rfl, rfl, rfl, rfl⟩
  | publish h =>
      cases hacc'
      have hcanonical := ResultAuthorityRecordV2.canonical_publish (hx _ rfl).canonical h
      obtain ⟨_, ⟨_, rfl⟩ | ⟨_, _, _, rfl⟩⟩ := ResultAuthorityRecordV2.publish_ok h
      · exact hx _ rfl
      · exact (hx _ rfl).of_record hcanonical rfl rfl fun hp => ⟨hp, rfl, rfl, rfl, rfl⟩

end AccountV2

/-! ## Calls -/

/-- A call of the authority on the result `r` that succeeded and does not
destroy it. -/
inductive AuthorityOpV2 {A : Type} [KeyAuthorityV2 A] [Sha256] (r : ResultId) (a a' : A) : Prop
  | begin {entropy : EntropyV2} {created expires : Int} {operation : OperationIdV1}
      {digest : LifecycleDigestV1} {record : ResultAuthorityRecordV2}
      {transition : LifecycleTransitionV1}
      (h : KeyAuthorityV2.begin a entropy r created expires operation digest =
        .ok (a', record, transition))
  | reserveNonceRange {operation : OperationIdV1} {digest : LifecycleDigestV1} {count : Nat}
      {reservation : NonceReservationV1}
      (h : KeyAuthorityV2.reserveNonceRange a r operation digest count = .ok (a', reservation))
  | completeNonceReservation {operation : OperationIdV1} {digest : LifecycleDigestV1}
      {transition : LifecycleTransitionV1}
      (h : KeyAuthorityV2.completeNonceReservation a r operation digest = .ok (a', transition))
  | commitData {operation : OperationIdV1} {digest : LifecycleDigestV1}
      {buildContext : BuildContextDigestsV1} {transition : LifecycleTransitionV1}
      (h : KeyAuthorityV2.commitData a r operation digest buildContext = .ok (a', transition))
  | sealResult {operation : OperationIdV1} {commitments : SealCommitmentsV1}
      {transition : LifecycleTransitionV1}
      (h : KeyAuthorityV2.sealResult a r operation commitments = .ok (a', transition))
  | reserveGeneration {operation : OperationIdV1} {digest : LifecycleDigestV1} {generation : Nat}
      (h : KeyAuthorityV2.reservePublicationGeneration a r operation digest =
        .ok (a', generation))
  | publish {operation : OperationIdV1} {generation : Nat} {digest : LifecycleDigestV1}
      {transition : LifecycleTransitionV1}
      (h : KeyAuthorityV2.publish a r operation generation digest = .ok (a', transition))

/-- A call that changes one record as the record's own transition says. -/
def Mutates {A R : Type} (account : A → ResultId → Option AccountV2) (r : ResultId)
    (acc : AccountV2) (call : Except KeyAuthorityErrorV2 (A × R))
    (mutation : Except LifecycleRecordErrorV1 (ResultAuthorityRecordV2 × R)) : Prop :=
  match mutation with
  | .ok (record, output) =>
      ∃ a', call = .ok (a', output) ∧ account a' r = some (acc.withRecord record)
  | .error error => call = .error (.ofLifecycle error)

/-- What the writer of a result relies on, beyond the record and the key. -/
class AccountableV2 (A : Type) [KeyAuthorityV2 A] [Sha256] where
  account : A → ResultId → Option AccountV2
  snapshot_eq_ok {a : A} {r : ResultId} {record : ResultAuthorityRecordV2} :
    snapshot a r = .ok record ↔ ∃ acc, account a r = some acc ∧ acc.record = record
  resultKey_account {a : A} {r : ResultId} {acc : AccountV2} (h : account a r = some acc) :
    resultKey a r = .ok acc.resultDek
  step_other {a a' : A} {q r : ResultId} (h : AuthorityOpV2 r a a') (hq : q ≠ r) :
    account a' q = account a q
  step {a a' : A} {r : ResultId} (h : AuthorityOpV2 r a a')
    (hregular : ∀ acc, account a r = some acc → acc.Regular) :
    AccountV2.Step (account a r) (account a' r)
  destroy_account {a a' : A} {r : ResultId} {outcome : AuthorityDestroyOutcomeV2}
    (h : KeyAuthorityV2.destroy a r = .ok (a', outcome)) :
    account a' r = none ∧ ∀ q, q ≠ r → account a' q = account a q
  begin_ok {a a' : A} {entropy : EntropyV2} {r : ResultId} {created expires : Int}
    {operation : OperationIdV1} {digest : LifecycleDigestV1} {record : ResultAuthorityRecordV2}
    {transition : LifecycleTransitionV1}
    (h : KeyAuthorityV2.begin a entropy r created expires operation digest =
      .ok (a', record, transition)) :
    (∃ acc, account a r = some acc ∧ acc.record = record ∧ a' = a ∧
      transition = .alreadyApplied ∧
      record.matchesBegin created expires operation digest = true) ∨
    (account a r = none ∧ transition = .applied ∧ ∃ nonceBase resultDek,
      ResultAuthorityRecordV2.newOpen r created expires nonceBase operation digest = .ok record ∧
      account a' r = some ⟨record, resultDek, fun _ => none⟩)
  begin_again {a : A} {r : ResultId} {acc : AccountV2} (entropy : EntropyV2)
    {created expires : Int} {operation : OperationIdV1} {digest : LifecycleDigestV1}
    (h : account a r = some acc) (hregular : acc.Regular)
    (hmatches : acc.record.matchesBegin created expires operation digest = true) :
    KeyAuthorityV2.begin a entropy r created expires operation digest =
      .ok (a, acc.record, .alreadyApplied)
  reserve_ok {a a' : A} {r : ResultId} {acc : AccountV2} {operation : OperationIdV1}
    {digest : LifecycleDigestV1} {count : Nat} {reservation : NonceReservationV1}
    (h : account a r = some acc) (hregular : acc.Regular)
    (hcall : KeyAuthorityV2.reserveNonceRange a r operation digest count =
      .ok (a', reservation)) :
    ∃ acc', account a' r = some acc' ∧ acc.Reserves operation digest count reservation acc'
  reserve_recalled {a : A} {r : ResultId} {acc : AccountV2} {operation : OperationIdV1}
    {digest : LifecycleDigestV1} {count : Nat} {reservation : NonceReservationV1}
    (h : account a r = some acc) (hregular : acc.Regular)
    (hrecalled : acc.recalled operation = some (digest, count, reservation)) :
    KeyAuthorityV2.reserveNonceRange a r operation digest count = .ok (a, reservation)
  reserve_fresh {a : A} {r : ResultId} {acc : AccountV2} {operation : OperationIdV1}
    {digest : LifecycleDigestV1} {count : Nat} (h : account a r = some acc)
    (hrecalled : acc.recalled operation = none)
    (hfree : acc.record.hasPendingNonceReservation = false) :
    (KeyAuthorityV2.reserveNonceRange a r operation digest count).map Prod.snd =
      ((acc.record.reservePendingNonceRange operation digest count).mapError
        KeyAuthorityErrorV2.ofLifecycle).map Prod.snd
  complete_recalled {a : A} {r : ResultId} {acc : AccountV2} {operation : OperationIdV1}
    {digest : LifecycleDigestV1} (h : account a r = some acc)
    (hrecalled : acc.Recalls operation digest) :
    Mutates account r acc (KeyAuthorityV2.completeNonceReservation a r operation digest)
      (acc.record.completePendingNonceRange operation digest)
  complete_idle {a : A} {r : ResultId} {acc : AccountV2} {operation : OperationIdV1}
    {digest : LifecycleDigestV1} (h : account a r = some acc)
    (hrecalled : acc.Recalls operation digest)
    (hfree : acc.record.hasPendingNonceReservation = false) :
    KeyAuthorityV2.completeNonceReservation a r operation digest = .ok (a, .alreadyApplied)
  complete_unrecalled {a : A} {r : ResultId} {acc : AccountV2} {operation : OperationIdV1}
    {digest : LifecycleDigestV1} (h : account a r = some acc)
    (hoperation : operation.isZero = false) (hrecalled : ¬acc.Recalls operation digest) :
    KeyAuthorityV2.completeNonceReservation a r operation digest = .error .operationConflict
  commitData_account {a : A} {r : ResultId} {acc : AccountV2} (operation : OperationIdV1)
    (digest : LifecycleDigestV1) (buildContext : BuildContextDigestsV1)
    (h : account a r = some acc) :
    Mutates account r acc (KeyAuthorityV2.commitData a r operation digest buildContext)
      (acc.record.commitData operation digest buildContext)
  seal_account {a : A} {r : ResultId} {acc : AccountV2} (operation : OperationIdV1)
    (commitments : SealCommitmentsV1) (h : account a r = some acc) :
    Mutates account r acc (KeyAuthorityV2.sealResult a r operation commitments)
      (acc.record.seal operation commitments)

end Evidentrail
