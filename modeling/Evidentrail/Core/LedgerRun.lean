import Evidentrail.Core.Ledger

/-!
# Ingestion runs

What one `accept` can do is said once (`accept_cases`); everything about
runs follows by induction over the calls. The receipt map is the one
container that a failing call can change.
-/

namespace Evidentrail

open Rust Std

namespace LedgerBuilder

/-! ## One call -/

theorem nextSequences_eq_ok {b : LedgerBuilder} {e : RawEnvelopeV1} {n l : Nat}
    (h : b.nextSequences e = .ok (n, l)) :
    outOfOrder b.analysisProjectionV3 b.nextAcquisitionSequence
        e.ordering.acquisitionSequence.get = false ∧
      n = e.ordering.acquisitionSequence.get + 1 ∧
      outOfOrder b.analysisProjectionV3 (b.expectedLane e.ordering.lane)
        e.ordering.laneSequence.get = false ∧
      l = e.ordering.laneSequence.get + 1 := by
  unfold nextSequences at h
  simp only at h
  split at h
  · cases h
  rename_i hacq
  split at h
  · cases h
  rename_i nextAcquisition hnext
  split at h
  · cases h
  rename_i hlane
  split at h
  · cases h
  rename_i nextLane hnextLane
  simp only [Except.ok.injEq, Prod.mk.injEq] at h
  obtain ⟨rfl, rfl⟩ := h
  exact ⟨by simpa using hacq, (checkedAdd_eq_some.mp hnext).2, by simpa using hlane,
    (checkedAdd_eq_some.mp hnextLane).2⟩

theorem nextCounts_eq_ok {b : LedgerBuilder} {e : RawEnvelopeV1} {c : AcknowledgedCounts}
    (h : b.nextCounts e = .ok c) :
    c = ⟨b.acknowledgedRecords + 1, b.acknowledgedPayloadBytes + e.record.payloadLen,
      b.acknowledgedSourceBytes + e.record.sourceLen⟩ := by
  unfold nextCounts at h
  split at h
  · rename_i payloadBytes sourceBytes hpayload hsource
    split at h
    · cases h
    rename_i records hrecords
    split at h
    · rename_i payload source hp hs
      cases h
      rw [(checkedAdd_eq_some.mp hrecords).2, (checkedAdd_eq_some.mp hp).2,
        (checkedAdd_eq_some.mp hs).2, (u64TryFrom_eq_some.mp hpayload).2,
        (u64TryFrom_eq_some.mp hsource).2]
    · cases h
  · cases h

theorem insertReceipt_eq_self {b : LedgerBuilder} {receipt : TransformationReceiptV1}
    (h : b.insertReceipt receipt = b) :
    b.transformationReceipts[receipt.id]? = some receipt := by
  have hmap := congrArg LedgerBuilder.transformationReceipts h
  rw [← hmap]
  simp only [insertReceipt, getElem?_insert, if_true]

theorem insertReceipt_of_stored {b : LedgerBuilder} {receipt : TransformationReceiptV1}
    (h : b.transformationReceipts[receipt.id]? = some receipt) :
    b.insertReceipt receipt = b := by
  have hmap : b.transformationReceipts.insert receipt.id receipt =
      b.transformationReceipts := by
    apply ExtTreeMap.ext_getElem?
    intro k
    rw [getElem?_insert]
    split
    · rename_i hk
      rw [← hk, h]
    · rfl
  rw [insertReceipt, hmap]

section Runs

variable [Sha256]

theorem persistAuthorized_eq_ok {b : LedgerBuilder} {e : RawEnvelopeV1}
    {record : RecordBytes} {basis : ExactnessBasis}
    {p : AcquisitionOutcome × Nat × Event}
    (h : b.persistAuthorized e record basis = .ok p) :
    b.events.length < u64Bound ∧ b.authorizedEventId e record basis ∉ b.positions ∧
      p = (.persisted (b.authorizedEventId e record basis) basis,
        record.exactBytes.length, b.authorizedEvent e record basis b.events.length) := by
  unfold persistAuthorized at h
  split at h
  · cases h
  · cases h
  · rename_i ordinal count hordinal hcount
    simp only at h
    split at h
    · cases h
    rename_i hfresh
    cases h
    rw [(u64TryFrom_eq_some.mp hordinal).2, (u64TryFrom_eq_some.mp hcount).2]
    exact ⟨(u64TryFrom_eq_some.mp hordinal).1, hfresh, rfl⟩

/-- The record and basis a persisting answer stands for, with the receipt
to be bound. -/
def PersistsAs (b : LedgerBuilder) (e : RawEnvelopeV1) (record : RecordBytes)
    (basis : ExactnessBasis) (receipt : Option TransformationReceiptV1) : Prop :=
  (b.policy e = .sourceExact ∧ record = e.record ∧ basis = .sourceExact ∧ receipt = none)
    ∨ (∃ d r, b.policy e = .postPolicy record d r ∧ basis = .postPolicy d r ∧
        receipt = none)
    ∨ ∃ p, b.policy e = .postPolicyReceipt record p ∧
        basis = .postPolicy p.policyDigest p.id ∧
        receipt = some (p.bind (b.authorizedEventId e record basis))

theorem authorize_cases {b : LedgerBuilder} {e : RawEnvelopeV1} {a : Authorized}
    (h : b.authorize e = .ok a) :
    (∃ d, b.policy e = .omittedByPolicy d ∧ a = ⟨.omittedByPolicy d, 0, none, none⟩) ∨
      ∃ record basis receipt, b.PersistsAs e record basis receipt ∧
        b.events.length < u64Bound ∧
        b.authorizedEventId e record basis ∉ b.positions ∧
        a = ⟨.persisted (b.authorizedEventId e record basis) basis,
          record.exactBytes.length,
          some (b.authorizedEvent e record basis b.events.length), receipt⟩ := by
  unfold authorize at h
  cases hpolicy : b.policy e with
  | sourceExact =>
      rw [hpolicy] at h
      obtain ⟨p, hp, rfl⟩ := except_map_eq_ok.mp h
      obtain ⟨hlen, hfresh, rfl⟩ := persistAuthorized_eq_ok hp
      exact .inr ⟨_, _, none, .inl ⟨hpolicy, rfl, rfl, rfl⟩, hlen, hfresh, rfl⟩
  | postPolicy record d r =>
      rw [hpolicy] at h
      obtain ⟨p, hp, rfl⟩ := except_map_eq_ok.mp h
      obtain ⟨hlen, hfresh, rfl⟩ := persistAuthorized_eq_ok hp
      exact .inr ⟨_, _, none, .inr (.inl ⟨d, r, hpolicy, rfl, rfl⟩), hlen, hfresh, rfl⟩
  | postPolicyReceipt record receipt =>
      rw [hpolicy] at h
      obtain ⟨p, hp, rfl⟩ := except_map_eq_ok.mp h
      obtain ⟨hlen, hfresh, rfl⟩ := persistAuthorized_eq_ok hp
      exact .inr ⟨_, _, _, .inr (.inr ⟨receipt, hpolicy, rfl, rfl⟩), hlen, hfresh, rfl⟩
  | omittedByPolicy d =>
      rw [hpolicy] at h
      cases h
      exact .inl ⟨d, rfl, rfl⟩

/-- What a staged envelope has passed. -/
structure Admitted (b : LedgerBuilder) (e : RawEnvelopeV1) (s : Staged) : Prop where
  retrieval : e.identity.retrievalId = b.identity.retrievalId
  acquisition : outOfOrder b.analysisProjectionV3 b.nextAcquisitionSequence
    e.ordering.acquisitionSequence.get = false
  nextAcquisition : s.nextAcquisition = e.ordering.acquisitionSequence.get + 1
  lane : outOfOrder b.analysisProjectionV3 (b.expectedLane e.ordering.lane)
    e.ordering.laneSequence.get = false
  nextLane : s.nextLane = e.ordering.laneSequence.get + 1
  counts : s.counts = ⟨b.acknowledgedRecords + 1,
    b.acknowledgedPayloadBytes + e.record.payloadLen,
    b.acknowledgedSourceBytes + e.record.sourceLen⟩
  fresh : sourceRecordId e ∉ b.sourceRecordIds
  authorized : b.authorize e = .ok s.authorized

theorem stage_eq_ok {b : LedgerBuilder} {e : RawEnvelopeV1} {s : Staged}
    (h : b.stage e = .ok s) : b.Admitted e s := by
  unfold stage at h
  split at h
  · cases h
  rename_i hidentity
  split at h
  · cases h
  rename_i nextAcquisition nextLane hsequences
  split at h
  · cases h
  rename_i counts hcounts
  split at h
  · cases h
  rename_i hfresh
  split at h
  · cases h
  rename_i authorized hauthorized
  cases h
  obtain ⟨hacq, hnextAcq, hlane, hnextLane⟩ := nextSequences_eq_ok hsequences
  refine ⟨?_, hacq, hnextAcq, hlane, hnextLane, nextCounts_eq_ok hcounts, hfresh,
    hauthorized⟩
  by_contra hne
  simp only [validateIdentity, ne_eq, hne, not_false_eq_true, if_true, reduceCtorEq]
    at hidentity

/-- Everything a call can do: fail early and change nothing, fail on a
known receipt id after replacing the stored receipt, or succeed. -/
theorem accept_cases (b : LedgerBuilder) (e : RawEnvelopeV1) :
    (∃ error, b.stage e = .error error ∧ b.accept e = (.error error, b)) ∨
    (∃ s receipt, b.stage e = .ok s ∧
      s.authorized.transformationReceipt = some receipt ∧
      receipt.id ∈ b.transformationReceipts ∧
      b.accept e = (.error .transformationReceiptCollision, b.insertReceipt receipt)) ∨
    (∃ s receipt, b.stage e = .ok s ∧
      s.authorized.transformationReceipt = some receipt ∧
      receipt.id ∉ b.transformationReceipts ∧
      b.accept e = (.ok (b.ack e s), (b.insertReceipt receipt).record e s)) ∨
    (∃ s, b.stage e = .ok s ∧ s.authorized.transformationReceipt = none ∧
      b.accept e = (.ok (b.ack e s), b.record e s)) := by
  unfold accept
  cases hstage : b.stage e with
  | error error => exact .inl ⟨error, rfl, rfl⟩
  | ok s =>
      cases hreceipt : s.authorized.transformationReceipt with
      | none => exact .inr (.inr (.inr ⟨s, rfl, hreceipt, by simp only [hreceipt]⟩))
      | some receipt =>
          by_cases hmem : receipt.id ∈ b.transformationReceipts
          · exact .inr (.inl ⟨s, receipt, rfl, hreceipt, hmem, by
              simp only [hreceipt, if_pos hmem]⟩)
          · exact .inr (.inr (.inl ⟨s, receipt, rfl, hreceipt, hmem, by
              simp only [hreceipt, if_neg hmem]⟩))

/-! ## Runs -/

/-- The builder after a sequence of `accept` calls, whatever they return. -/
def runAll (b : LedgerBuilder) : List RawEnvelopeV1 → LedgerBuilder
  | [] => b
  | envelope :: rest => runAll (b.accept envelope).2 rest

/-- The accepted envelopes of a run with their acknowledgements. -/
def acceptedOf (b : LedgerBuilder) : List RawEnvelopeV1 → List (RawEnvelopeV1 × SinkAck)
  | [] => []
  | envelope :: rest =>
      match (b.accept envelope).1 with
      | .ok ack => (envelope, ack) :: acceptedOf (b.accept envelope).2 rest
      | .error _ => acceptedOf (b.accept envelope).2 rest

/-! ## What a failing call changes

The receipt id does not depend on the source record, so two records
transformed alike have one receipt id. The second one is refused, but
only after its receipt has replaced the first. -/

/-- Every check in front of the policy's answer and its persistence. -/
def Passes (b : LedgerBuilder) (e : RawEnvelopeV1) (record : RecordBytes)
    (basis : ExactnessBasis) : Prop :=
  b.validateIdentity e = .ok () ∧ (∃ n, b.nextSequences e = .ok n) ∧
    (∃ c, b.nextCounts e = .ok c) ∧ sourceRecordId e ∉ b.sourceRecordIds ∧
    ∃ p, b.persistAuthorized e record basis = .ok p

/-- The envelope passes every check with a receipt whose id is already
stored for something else. -/
def Rebinds (b : LedgerBuilder) (e : RawEnvelopeV1) : Prop :=
  ∃ record prepared stored, b.policy e = .postPolicyReceipt record prepared ∧
    b.Passes e record (.postPolicy prepared.policyDigest prepared.id) ∧
    b.transformationReceipts[prepared.id]? = some stored ∧
    stored ≠ prepared.bind
      (b.authorizedEventId e record (.postPolicy prepared.policyDigest prepared.id))

/-- No call of the run rebinds a receipt. -/
def NeverRebinds (b : LedgerBuilder) : List RawEnvelopeV1 → Prop
  | [] => True
  | e :: rest => ¬ b.Rebinds e ∧ NeverRebinds (b.accept e).2 rest

theorem stage_receipt {b : LedgerBuilder} {e : RawEnvelopeV1} {s : Staged}
    {receipt : TransformationReceiptV1} (h : b.stage e = .ok s)
    (hreceipt : s.authorized.transformationReceipt = some receipt) :
    ∃ record prepared, b.policy e = .postPolicyReceipt record prepared ∧
      b.Passes e record (.postPolicy prepared.policyDigest prepared.id) ∧
      s.authorized.outcome = .persisted
        (b.authorizedEventId e record (.postPolicy prepared.policyDigest prepared.id))
        (.postPolicy prepared.policyDigest prepared.id) ∧
      s.authorized.event = some (b.authorizedEvent e record
        (.postPolicy prepared.policyDigest prepared.id) b.events.length) ∧
      receipt = prepared.bind
        (b.authorizedEventId e record (.postPolicy prepared.policyDigest prepared.id)) := by
  have hadmitted := stage_eq_ok h
  unfold stage at h
  split at h
  · cases h
  rename_i hidentity
  split at h
  · cases h
  rename_i nextAcquisition nextLane hsequences
  split at h
  · cases h
  rename_i counts hcounts
  have hauthorized := hadmitted.authorized
  obtain ⟨d, -, ha⟩ | ⟨record, basis, r, hpersists, -, -, ha⟩ := authorize_cases hauthorized
  · rw [ha] at hreceipt
    cases hreceipt
  obtain rfl : r = some receipt := by simpa only [ha] using hreceipt
  obtain ⟨-, -, -, hnone⟩ | ⟨d, t, -, -, hnone⟩ | ⟨p, hpolicy, rfl, hr⟩ := hpersists
  · cases hnone
  · cases hnone
  · refine ⟨record, p, hpolicy, ⟨hidentity, ⟨_, hsequences⟩, ⟨_, hcounts⟩,
      hadmitted.fresh, ?_⟩, by rw [ha], by rw [ha], Option.some.inj hr⟩
    rw [authorize, hpolicy] at hauthorized
    obtain ⟨persisted, hpersisted, -⟩ := except_map_eq_ok.mp hauthorized
    exact ⟨persisted, hpersisted⟩

theorem stage_of_passes {b : LedgerBuilder} {e : RawEnvelopeV1} {record : RecordBytes}
    {prepared : PreparedTransformationReceiptV1}
    (hpolicy : b.policy e = .postPolicyReceipt record prepared)
    (h : b.Passes e record (.postPolicy prepared.policyDigest prepared.id)) :
    ∃ s, b.stage e = .ok s ∧ s.authorized.transformationReceipt = some (prepared.bind
      (b.authorizedEventId e record (.postPolicy prepared.policyDigest prepared.id))) := by
  obtain ⟨hidentity, ⟨⟨n, l⟩, hsequences⟩, ⟨counts, hcounts⟩, hfresh, p, hpersisted⟩ := h
  obtain ⟨-, -, rfl⟩ := persistAuthorized_eq_ok hpersisted
  have hauthorize : ∃ a, b.authorize e = .ok a ∧ a.transformationReceipt = some (prepared.bind
      (b.authorizedEventId e record (.postPolicy prepared.policyDigest prepared.id))) := by
    simp only [authorize, hpolicy, hpersisted, Except.map, Except.ok.injEq, exists_eq_left']
    rfl
  obtain ⟨a, ha, hreceipt⟩ := hauthorize
  refine ⟨⟨n, l, counts, a⟩, ?_, hreceipt⟩
  simp only [stage, hidentity, hsequences, hcounts, if_neg hfresh, ha]

/-- One call: a failing call leaves the builder alone exactly when it
does not rebind a receipt. -/
theorem accept_atomic_iff (b : LedgerBuilder) (e : RawEnvelopeV1) :
    ((∃ error, (b.accept e).1 = .error error) → (b.accept e).2 = b) ↔ ¬ b.Rebinds e := by
  have hreach : b.Rebinds e → ∃ s receipt stored, b.stage e = .ok s ∧
      s.authorized.transformationReceipt = some receipt ∧
      b.transformationReceipts[receipt.id]? = some stored ∧ stored ≠ receipt := by
    rintro ⟨record, prepared, stored, hpolicy, hpasses, hstored, hne⟩
    obtain ⟨s, hs, hr⟩ := stage_of_passes hpolicy hpasses
    exact ⟨s, _, stored, hs, hr, hstored, hne⟩
  obtain ⟨error, hs, hacc⟩ | ⟨s, receipt, hs, hr, hmem, hacc⟩ |
    ⟨s, receipt, hs, hr, hmem, hacc⟩ | ⟨s, hs, hr, hacc⟩ := b.accept_cases e
  · refine iff_of_true (fun _ => by rw [hacc]) (fun hre => ?_)
    obtain ⟨s, -, -, hs', -⟩ := hreach hre
    rw [hs] at hs'
    cases hs'
  · constructor
    · rintro hsame hre
      obtain ⟨s', receipt', stored, hs', hr', hstored, hne⟩ := hreach hre
      obtain rfl := Except.ok.inj (hs.symm.trans hs')
      obtain rfl := Option.some.inj (hr.symm.trans hr')
      have hself := insertReceipt_eq_self (by
        simpa only [hacc] using hsame ⟨_, by rw [hacc]⟩)
      exact hne (Option.some.inj (hstored.symm.trans hself))
    · intro hkeeps _
      obtain ⟨record, prepared, hpolicy, hpasses, -, -, rfl⟩ := stage_receipt hs hr
      obtain ⟨stored, hstored⟩ : ∃ stored,
          b.transformationReceipts[prepared.id]? = some stored :=
        Option.isSome_iff_exists.mp (ExtTreeMap.isSome_getElem?_iff_mem.mpr hmem)
      rw [hacc]
      apply insertReceipt_of_stored
      by_contra hne
      exact hkeeps ⟨record, prepared, stored, hpolicy, hpasses, hstored,
        fun heq => hne (hstored.trans (congrArg some heq))⟩
  · refine iff_of_true (fun h => by simp [hacc] at h) (fun hre => ?_)
    obtain ⟨s', receipt', stored, hs', hr', hstored, -⟩ := hreach hre
    obtain rfl := Except.ok.inj (hs.symm.trans hs')
    obtain rfl := Option.some.inj (hr.symm.trans hr')
    exact hmem (ExtTreeMap.isSome_getElem?_iff_mem.mp (by rw [hstored]; rfl))
  · refine iff_of_true (fun h => by simp [hacc] at h) (fun hre => ?_)
    obtain ⟨s', receipt', stored, hs', hr', -⟩ := hreach hre
    obtain rfl := Except.ok.inj (hs.symm.trans hs')
    rw [hr] at hr'
    cases hr'

theorem policy_accept (b : LedgerBuilder) (e : RawEnvelopeV1) :
    (b.accept e).2.policy = b.policy := by
  obtain ⟨_, -, hacc⟩ | ⟨s, receipt, -, -, -, hacc⟩ | ⟨s, receipt, -, -, -, hacc⟩ |
    ⟨s, -, -, hacc⟩ := b.accept_cases e <;> rw [hacc] <;> rfl

/-- A step that rebinds nothing keeps every stored receipt. -/
theorem receipt_kept {b : LedgerBuilder} {e : RawEnvelopeV1} {id : TransformationReceiptId}
    {receipt : TransformationReceiptV1} (hkeeps : ¬ b.Rebinds e)
    (h : b.transformationReceipts[id]? = some receipt) :
    (b.accept e).2.transformationReceipts[id]? = some receipt := by
  have hatomic := (b.accept_atomic_iff e).mpr hkeeps
  obtain ⟨error, -, hacc⟩ | ⟨s, r, -, -, -, hacc⟩ | ⟨s, r, -, -, hnew, hacc⟩ |
    ⟨s, -, -, hacc⟩ := b.accept_cases e
  · rw [hacc]
    exact h
  · rw [hatomic ⟨_, by rw [hacc]⟩]
    exact h
  · have hne : r.id ≠ id := fun heq =>
      hnew (heq ▸ ExtTreeMap.isSome_getElem?_iff_mem.mp (by rw [h]; rfl))
    rw [hacc]
    exact (getElem?_insert.trans (if_neg hne)).trans h
  · rw [hacc]
    exact h

/-- A successful call stores the receipt of its own event. -/
theorem accept_binds {b : LedgerBuilder} {e : RawEnvelopeV1} {ack : SinkAck}
    {record : RecordBytes} {prepared : PreparedTransformationReceiptV1}
    (hok : (b.accept e).1 = .ok ack)
    (hpolicy : b.policy e = .postPolicyReceipt record prepared) :
    ∃ id, ack.outcome = .persisted id (.postPolicy prepared.policyDigest prepared.id) ∧
      (b.accept e).2.transformationReceipts[prepared.id]? = some (prepared.bind id) := by
  obtain ⟨error, -, hacc⟩ | ⟨s, r, -, -, -, hacc⟩ | ⟨s, r, hs, hr, -, hacc⟩ |
    ⟨s, hs, hr, hacc⟩ := b.accept_cases e
  · simp only [hacc, reduceCtorEq] at hok
  · simp only [hacc, reduceCtorEq] at hok
  · obtain ⟨record', prepared', hpolicy', -, houtcome, -, rfl⟩ := stage_receipt hs hr
    rw [hpolicy] at hpolicy'
    cases hpolicy'
    obtain rfl : b.ack e s = ack := by simpa only [hacc, Except.ok.injEq] using hok
    rw [hacc]
    exact ⟨_, houtcome, getElem?_insert.trans (if_pos rfl)⟩
  · obtain ⟨d, hpolicy', -⟩ | ⟨record', basis, r, hpersists, -, -, ha⟩ :=
      authorize_cases (stage_eq_ok hs).authorized
    · rw [hpolicy] at hpolicy'
      cases hpolicy'
    · rw [ha] at hr
      subst hr
      obtain ⟨hp, -⟩ | ⟨d, t, hp, -⟩ | ⟨p, -, -, hr⟩ := hpersists
      · rw [hpolicy] at hp
        cases hp
      · rw [hpolicy] at hp
        cases hp
      · cases hr

/-- Every acknowledged post-policy event still has its own receipt. -/
def KeepsReceipts (b : LedgerBuilder) (accepted : List (RawEnvelopeV1 × SinkAck)) : Prop :=
  ∀ x ∈ accepted, ∀ record prepared,
    b.policy x.1 = .postPolicyReceipt record prepared →
      ∃ id, x.2.outcome = .persisted id (.postPolicy prepared.policyDigest prepared.id) ∧
        b.transformationReceipts[prepared.id]? = some (prepared.bind id)

theorem receipt_kept_run {es : List RawEnvelopeV1} : ∀ {b : LedgerBuilder}
    {id : TransformationReceiptId} {receipt : TransformationReceiptV1},
    b.NeverRebinds es → b.transformationReceipts[id]? = some receipt →
      (b.runAll es).transformationReceipts[id]? = some receipt := by
  induction es with
  | nil => exact fun _ h => h
  | cons e es ih => exact fun hkeeps h => ih hkeeps.2 (receipt_kept hkeeps.1 h)

theorem policy_runAll (es : List RawEnvelopeV1) (b : LedgerBuilder) :
    (b.runAll es).policy = b.policy := by
  induction es generalizing b with
  | nil => rfl
  | cons e es ih => exact (ih _).trans (b.policy_accept e)

theorem keepsReceipts_run (es : List RawEnvelopeV1) : ∀ {b : LedgerBuilder},
    b.NeverRebinds es → (b.runAll es).KeepsReceipts (b.acceptedOf es) := by
  induction es with
  | nil => exact fun _ x hx => absurd hx (List.not_mem_nil)
  | cons e es ih =>
      intro b hkeeps x hx record prepared hpolicy
      have htail := ih hkeeps.2
      unfold acceptedOf at hx
      split at hx
      · rename_i ack hok
        rcases List.mem_cons.mp hx with rfl | hx
        · rw [policy_runAll] at hpolicy
          obtain ⟨id, houtcome, hstored⟩ := accept_binds hok hpolicy
          have hlater := receipt_kept_run hkeeps.2 hstored
          exact ⟨id, houtcome, hlater⟩
        · exact htail x hx record prepared hpolicy
      · exact htail x hx record prepared hpolicy

/-- A builder before its first call, in either mode. -/
def opened (identity : FetchIdentity) (sourceIdentityDigest : SourceIdentityDigest)
    (policy : DeterministicPolicy) (projection : Bool) : LedgerBuilder :=
  if projection then newAnalysisProjectionV3 identity sourceIdentityDigest policy
  else new identity sourceIdentityDigest policy

/-- In every state a run reaches, a failing call changes nothing exactly
when it rebinds no receipt; and over a run that never rebinds one, every
event accepted so far is bound to its own receipt. -/
theorem accept_error_atomic_iff (identity : FetchIdentity)
    (sourceIdentityDigest : SourceIdentityDigest) (policy : DeterministicPolicy)
    (projection : Bool) (es : List RawEnvelopeV1) :
    let start := opened identity sourceIdentityDigest policy projection
    (∀ e, ((∃ error, ((start.runAll es).accept e).1 = .error error) →
        ((start.runAll es).accept e).2 = start.runAll es) ↔ ¬ (start.runAll es).Rebinds e) ∧
      (start.NeverRebinds es → (start.runAll es).KeepsReceipts (start.acceptedOf es)) :=
  ⟨fun e => accept_atomic_iff _ e, fun hkeeps => keepsReceipts_run es hkeeps⟩

/-- Every call of the run is accepted. -/
def acceptsAll (b : LedgerBuilder) : List RawEnvelopeV1 → Bool
  | [] => true
  | e :: rest => (b.accept e).1.isOk && acceptsAll (b.accept e).2 rest

/-- Only a failing call can rebind a receipt. -/
theorem neverRebinds_of_acceptsAll {es : List RawEnvelopeV1} {b : LedgerBuilder}
    (h : b.acceptsAll es = true) : b.NeverRebinds es := by
  induction es generalizing b with
  | nil => trivial
  | cons e es ih =>
      rw [acceptsAll, Bool.and_eq_true] at h
      refine ⟨(b.accept_atomic_iff e).mp fun hfails => ?_, ih h.2⟩
      obtain ⟨error, herror⟩ := hfails
      rw [herror] at h
      cases h.1

/-- Neither does a call that is out of sequence. -/
theorem not_rebinds_of_sequences {b : LedgerBuilder} {e : RawEnvelopeV1}
    (h : (b.nextSequences e).isOk = false) : ¬ b.Rebinds e := by
  rintro ⟨_, _, _, _, ⟨_, ⟨sequences, hsequences⟩, _⟩, _⟩
  rw [hsequences] at h
  cases h

end Runs

/-- Replaces a one-byte record by `*`. -/
def redacting [Sha256] : DeterministicPolicy := fun e =>
  let output : RecordBytes := .whole ⟨[42], by decide⟩
  match PreparedTransformationReceiptV1.new (.repeated 5) e.record output
      [⟨0, 1, ⟨[42], by decide⟩⟩] with
  | .ok receipt => .postPolicyReceipt output receipt
  | .error _ => .omittedByPolicy (.repeated 5)

/-- Answers with the record itself under a receipt of no replacement. -/
def certifying [Sha256] : DeterministicPolicy := fun e =>
  match PreparedTransformationReceiptV1.new (.repeated 5) e.record e.record [] with
  | .ok receipt => .postPolicyReceipt e.record receipt
  | .error _ => .omittedByPolicy (.repeated 5)

/-- Redacts the first record. -/
def redactingFirst [Sha256] : DeterministicPolicy := fun e =>
  if e.ordering.acquisitionSequence.get = 0 then redacting e else certifying e

/-- Two events are bound each to its own receipt. The second record comes once more, out
of sequence, and is refused without a trace. -/
theorem accept_error_atomic_iff_two_receipts :
    letI := fips180
    let start := opened replayIdentity (.repeated 4) redactingFirst false
    let es := [replayEnvelope 0 (.whole (.singleton 120)) .complete,
      replayEnvelope 1 (.whole (.singleton 121)) .complete]
    let again := replayEnvelope 1 (.whole (.singleton 121)) .complete
    (start.acceptedOf es).length = 2 ∧
      (start.runAll es).KeepsReceipts (start.acceptedOf es) ∧
      (∃ error, ((start.runAll es).accept again).1 = .error error) ∧
      ((start.runAll es).accept again).2 = start.runAll es := by
  rw [fips180_eq]
  let := fips180Evaluated
  intro start es again
  have hrun : start.acceptsAll es = true ∧ (start.acceptedOf es).length = 2 ∧
      ((start.runAll es).nextSequences again).isOk = false ∧
      ((start.runAll es).accept again).1.isOk = false := by
    decide +kernel
  obtain ⟨hall, hcount, hsequences, hrefused⟩ := hrun
  obtain ⟨hatomic, hkeeps⟩ :=
    accept_error_atomic_iff replayIdentity (.repeated 4) redactingFirst false es
  have hfails : ∃ error, ((start.runAll es).accept again).1 = .error error := by
    cases haccept : ((start.runAll es).accept again).1 with
    | error error => exact ⟨error, rfl⟩
    | ok ack =>
        rw [haccept] at hrefused
        cases hrefused
  exact ⟨hcount, hkeeps (neverRebinds_of_acceptsAll hall), hfails,
    (hatomic again).mpr (not_rebinds_of_sequences hsequences) hfails⟩

/-- Two equal records, redacted alike: the second call fails and the
receipt of the first event is gone. -/
theorem second_redaction_rebinds :
    letI := fips180
    let record : RecordBytes := .whole ⟨[120], by decide⟩
    let b := (opened replayIdentity (.repeated 4) redacting false).runAll
      [replayEnvelope 0 record .complete]
    let e := replayEnvelope 1 record .complete
    (b.accept e).1 = .error .transformationReceiptCollision ∧ (b.accept e).2 ≠ b := by
  rw [fips180_eq]
  let := fips180Evaluated
  intro record b e
  have hrun : (b.accept e).1 = .error .transformationReceiptCollision ∧
      (b.accept e).2.transformationReceipts.toList.map (·.2.resultingEventId) ≠
        b.transformationReceipts.toList.map (·.2.resultingEventId) := by
    decide +kernel
  exact ⟨hrun.1, fun h => hrun.2 (by rw [h])⟩

end LedgerBuilder

end Evidentrail
