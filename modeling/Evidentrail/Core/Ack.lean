import Evidentrail.Core.LedgerRun

/-!
# Acknowledgement verification

An adapter captures what an acknowledgement must bind before the envelope
moves into the sink, and checks the acknowledgement afterwards. Sink and
verifier agree on everything but the size of a post-policy record: the
receipt bounds its payload, the verifier payload and terminator together.
-/

namespace Evidentrail

open Rust Std

/-- Payload-free facts prepared before an envelope moves into a sink. -/
structure PreparedSinkAckExpectation where
  retrievalId : RetrievalId
  acquisitionSequence : AcquisitionSequence
  sourceRecordId : SourceRecordId
  sourceByteCount : Nat

inductive SinkAckVerificationError where
  | retrievalMismatch
  | acquisitionSequenceMismatch
  | sourceRecordIdMismatch
  | authorizedByteCountMismatch
deriving DecidableEq

namespace PreparedSinkAckExpectation

def fromEnvelope [Sha256] (envelope : RawEnvelopeV1) : PreparedSinkAckExpectation where
  retrievalId := envelope.identity.retrievalId
  acquisitionSequence := envelope.ordering.acquisitionSequence
  sourceRecordId := Evidentrail.sourceRecordId envelope
  sourceByteCount := envelope.record.sourceLen

/-- The authorized byte count as far as the outcome determines it. -/
def authorizedByteCountIsValid (expectation : PreparedSinkAckExpectation)
    (acknowledgement : SinkAck) : Bool :=
  match acknowledgement.outcome with
  | .persisted _ .sourceExact =>
      acknowledgement.authorizedByteCount = expectation.sourceByteCount
  | .persisted _ (.postPolicy _ _) =>
      acknowledgement.authorizedByteCount ≤ maxAuthorizedRecordBytes
  | .omittedByPolicy _ => acknowledgement.authorizedByteCount = 0

def verify (expectation : PreparedSinkAckExpectation) (acknowledgement : SinkAck) :
    Except SinkAckVerificationError Unit :=
  if acknowledgement.retrievalId ≠ expectation.retrievalId then
    .error .retrievalMismatch
  else if acknowledgement.acquisitionSequence ≠ expectation.acquisitionSequence then
    .error .acquisitionSequenceMismatch
  else if acknowledgement.sourceRecordId ≠ expectation.sourceRecordId then
    .error .sourceRecordIdMismatch
  else if !expectation.authorizedByteCountIsValid acknowledgement then
    .error .authorizedByteCountMismatch
  else .ok ()

end PreparedSinkAckExpectation

/-- A post-policy answer whose record fits the limit, terminator included. -/
def PolicyAuthorization.fitsAuthorizedLimit : PolicyAuthorization → Bool
  | .postPolicy record _ _ | .postPolicyReceipt record _ =>
      record.exactBytes.length ≤ maxAuthorizedRecordBytes
  | .sourceExact | .omittedByPolicy _ => true

namespace LedgerBuilder

section Verification

variable [Sha256]

theorem accept_stage {b : LedgerBuilder} {e : RawEnvelopeV1} {ack : SinkAck}
    (h : (b.accept e).1 = .ok ack) : ∃ s, b.stage e = .ok s ∧ ack = b.ack e s := by
  obtain ⟨error, -, hacc⟩ | ⟨s, r, -, -, -, hacc⟩ | ⟨s, r, hs, -, -, hacc⟩ |
    ⟨s, hs, -, hacc⟩ := b.accept_cases e
  · simp only [hacc, reduceCtorEq] at h
  · simp only [hacc, reduceCtorEq] at h
  · exact ⟨s, hs, by simpa only [hacc, Except.ok.injEq, eq_comm] using h⟩
  · exact ⟨s, hs, by simpa only [hacc, Except.ok.injEq, eq_comm] using h⟩

/-- The byte count of a staged answer is valid exactly when the answer
fits the limit. -/
theorem authorizedByteCountIsValid_ack {b : LedgerBuilder} {e : RawEnvelopeV1}
    {s : Staged} (hs : b.stage e = .ok s) :
    (PreparedSinkAckExpectation.fromEnvelope e).authorizedByteCountIsValid (b.ack e s) =
      (b.policy e).fitsAuthorizedLimit := by
  have hsource : e.record.exactBytes.length = e.record.sourceLen := by
    rw [RecordBytes.sourceLen_eq]
  obtain ⟨d, hpolicy, ha⟩ | ⟨record, basis, r, hpersists, -, -, ha⟩ :=
    authorize_cases (stage_eq_ok hs).authorized
  · simp [PreparedSinkAckExpectation.authorizedByteCountIsValid, ack, ha, hpolicy,
      PolicyAuthorization.fitsAuthorizedLimit]
  · obtain ⟨hpolicy, rfl, rfl, -⟩ | ⟨d, t, hpolicy, rfl, -⟩ | ⟨p, hpolicy, rfl, -⟩ :=
      hpersists
    · simp [PreparedSinkAckExpectation.authorizedByteCountIsValid, ack, ha, hpolicy,
        PolicyAuthorization.fitsAuthorizedLimit, PreparedSinkAckExpectation.fromEnvelope,
        hsource]
    · simp [PreparedSinkAckExpectation.authorizedByteCountIsValid, ack, ha, hpolicy,
        PolicyAuthorization.fitsAuthorizedLimit]
    · simp [PreparedSinkAckExpectation.authorizedByteCountIsValid, ack, ha, hpolicy,
        PolicyAuthorization.fitsAuthorizedLimit]

/-- Sink and verifier on one accepted call. -/
theorem verify_accept {b : LedgerBuilder} {e : RawEnvelopeV1} {ack : SinkAck}
    (h : (b.accept e).1 = .ok ack) :
    (PreparedSinkAckExpectation.fromEnvelope e).verify ack =
      if (b.policy e).fitsAuthorizedLimit then .ok ()
      else .error .authorizedByteCountMismatch := by
  obtain ⟨s, hs, rfl⟩ := accept_stage h
  have hretrieval := (stage_eq_ok hs).retrieval
  have hvalid := authorizedByteCountIsValid_ack hs
  rw [PreparedSinkAckExpectation.verify, hvalid]
  simp only [ack, PreparedSinkAckExpectation.fromEnvelope, hretrieval, ne_eq,
    not_true_eq_false, if_false, Bool.not_eq_eq_eq_not, Bool.not_true]
  cases (b.policy e).fitsAuthorizedLimit <;> rfl

/-- In every state a run reaches, the verifier accepts the sink's
acknowledgement exactly when the policy's answer fits the limit. -/
theorem ack_verifies_iff (identity : FetchIdentity) (digest : SourceIdentityDigest)
    (policy : DeterministicPolicy) (projection : Bool) (es : List RawEnvelopeV1)
    (e : RawEnvelopeV1) (ack : SinkAck)
    (hok : (((opened identity digest policy projection).runAll es).accept e).1 = .ok ack) :
    (PreparedSinkAckExpectation.fromEnvelope e).verify ack = .ok () ↔
      (policy e).fitsAuthorizedLimit = true := by
  have hpolicy : ((opened identity digest policy projection).runAll es).policy = policy := by
    rw [policy_runAll]
    cases projection <;> rfl
  rw [verify_accept hok, hpolicy]
  cases (policy e).fitsAuthorizedLimit <;> simp

end Verification

theorem ack_verifies_iff_replay :
    letI := fips180
    let e := replayEnvelope 0 (.whole ⟨[120], by decide⟩) .complete
    ∃ ack, (((opened replayIdentity (.repeated 4) redacting false).runAll []).accept e).1 =
        .ok ack ∧
      (PreparedSinkAckExpectation.fromEnvelope e).verify ack = .ok () := by
  rw [fips180_eq]
  let := fips180Evaluated
  intro e
  have hok : (((opened replayIdentity (.repeated 4) redacting false).runAll []).accept
      e).1.isOk = true := by
    decide +kernel
  cases hack : (((opened replayIdentity (.repeated 4) redacting false).runAll []).accept
      e).1 with
  | ok ack =>
      exact ⟨ack, rfl, (ack_verifies_iff _ _ _ false [] e ack hack).mpr (by decide +kernel)⟩
  | error error =>
      rw [hack] at hok
      exact absurd hok (by simp [Except.isOk, Except.toBool])

/-! ## The boundary -/

theorem new_unchanged [Sha256] (d : PolicyDigest) {record : RecordBytes}
    (hpayload : record.payloadLen ≤ maxAuthorizedRecordBytes)
    (hterminator : record.terminatorLen.getD 0 ≤ maxRecordTerminatorBytes) :
    ∃ receipt, PreparedTransformationReceiptV1.new d record record [] = .ok receipt := by
  have hlength : u64TryFrom record.exactBytes.length = some record.exactBytes.length :=
    u64TryFrom_eq_some.mpr ⟨record.length_exactBytes_lt, rfl⟩
  have hsize : ¬ (record.payloadLen > maxAuthorizedRecordBytes ∨
      record.terminatorLen.getD 0 > maxRecordTerminatorBytes) := by
    rintro (hlarge | hlarge)
    · exact absurd hpayload (Nat.not_le_of_lt hlarge)
    · exact absurd hterminator (Nat.not_le_of_lt hlarge)
  simp only [PreparedTransformationReceiptV1.new, List.length_nil, Nat.not_lt_zero, gt_iff_lt,
    if_false, if_neg hsize, PreparedTransformationReceiptV1.rebuild, List.drop_zero, ne_eq,
    not_true_eq_false, hlength, Except.ok.injEq, exists_eq']

/-- A fresh builder accepts the first record of the replay lane. -/
theorem passes_first [Sha256] (policy : DeterministicPolicy) (record authorized : RecordBytes)
    (basis : ExactnessBasis) :
    (opened replayIdentity (.repeated 4) policy false).Passes
      (replayEnvelope 0 record .complete) authorized basis := by
  have hpayload : record.payloadLen < u64Bound :=
    Nat.lt_trans record.payloadLen_lt (by decide)
  have hsource : record.sourceLen < u64Bound := by
    rw [RecordBytes.sourceLen_eq]
    exact record.length_exactBytes_lt
  refine ⟨rfl, ⟨(1, 1), rfl⟩, ⟨⟨1, record.payloadLen, record.sourceLen⟩, ?_⟩,
    ExtTreeSet.not_mem_empty, ?_⟩
  · simp [nextCounts, opened, new, replayEnvelope, RawEnvelopeV1.new, u64TryFrom, checkedAdd,
      hpayload, hsource]
  · simp [persistAuthorized, opened, new, u64TryFrom, authorized.length_exactBytes_lt]

/-- A record of the largest payload with a terminator of one byte. -/
def boundaryRecord : RecordBytes :=
  .framed ⟨List.replicate (8 * 2 ^ 20) 120, by rw [List.length_replicate]; decide⟩
    ⟨[10], by decide⟩

/-- Its payload passes the receipt's limit, payload and terminator together
exceed the verifier's. -/
theorem boundary_record_refused :
    letI := fips180
    let e := replayEnvelope 0 boundaryRecord .complete
    (∃ receipt, certifying e = .postPolicyReceipt boundaryRecord receipt ∧
      PreparedTransformationReceiptV1.new (.repeated 5) e.record boundaryRecord [] =
        .ok receipt) ∧
    ∃ ack, ((opened replayIdentity (.repeated 4) certifying false).accept e).1 = .ok ack ∧
      (PreparedSinkAckExpectation.fromEnvelope e).verify ack =
        .error .authorizedByteCountMismatch := by
  rw [fips180_eq]
  let := fips180Evaluated
  intro e
  have hpayload : boundaryRecord.payloadLen = maxAuthorizedRecordBytes :=
    List.length_replicate ..
  have hterminator : boundaryRecord.terminatorLen.getD 0 = 1 := rfl
  obtain ⟨receipt, hnew⟩ := new_unchanged (.repeated 5) (Nat.le_of_eq hpayload)
    (hterminator ▸ by decide)
  have hanswer : certifying e = .postPolicyReceipt boundaryRecord receipt := by
    have hrecord : e.record = boundaryRecord := rfl
    rw [certifying, hrecord, hnew]
  refine ⟨⟨receipt, hanswer, hnew⟩, ?_⟩
  have hpolicy : (opened replayIdentity (.repeated 4) certifying false).policy = certifying :=
    rfl
  obtain ⟨s, hs, hr⟩ := stage_of_passes ((congrFun hpolicy e).trans hanswer)
    (passes_first certifying boundaryRecord boundaryRecord _)
  obtain ⟨ack, hack⟩ : ∃ ack,
      ((opened replayIdentity (.repeated 4) certifying false).accept e).1 = .ok ack := by
    rw [accept, hs]
    simp only [hr, opened, new, Bool.false_eq_true, if_false, ExtTreeMap.not_mem_empty]
    exact ⟨_, rfl⟩
  refine ⟨ack, hack, ?_⟩
  rw [verify_accept hack, if_neg]
  have hlength : boundaryRecord.exactBytes.length = maxAuthorizedRecordBytes + 1 := by
    rw [RecordBytes.length_exactBytes, hpayload, hterminator]
  rw [hpolicy, hanswer, PolicyAuthorization.fitsAuthorizedLimit, hlength]
  simp

end LedgerBuilder

end Evidentrail
