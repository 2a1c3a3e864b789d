import Evidentrail.Ingest.Batch

/-!
# An execution session

What the adapters share: the batch sink they drive and the session that
counts what the sink acknowledged. A sink that stops answers with the
acknowledgements of a leading part of the batch, and the session counts
that part; nothing is offered to a sink after it stopped.
-/

namespace Evidentrail

open Rust

inductive IngestError where
  | invalidLimit
  | invalidFetchCompletion
  | invalidReplayFixture
  | adapterIdentityMismatch
  | invalidBatch
  | providerInvariantViolation
deriving DecidableEq

/-! ## The sink -/

structure EnvelopeBatchAcknowledgementsV1 where
  acknowledgements : List SinkAck

inductive BatchSinkErrorCodeV1 where
  | sinkStopped
  | invalidAcknowledgement
  | operationConflict
deriving DecidableEq

structure BatchSinkErrorV1 where
  code : BatchSinkErrorCodeV1
  acknowledgedPrefix : List SinkAck

/-- A durable sink. A run offers it every batch once, under an ordinal of
its own, so what it answers in a run is a function of the batch. -/
structure EnvelopeBatchSinkV1 where
  commitBatch : EnvelopeBatchV1 → Except BatchSinkErrorV1 EnvelopeBatchAcknowledgementsV1

/-- How many leading envelopes the answer acknowledges, and whether that is
the whole batch. An answer with a count that cannot be right
acknowledges nothing. -/
def EnvelopeBatchSinkV1.answer (sink : EnvelopeBatchSinkV1) (batch : EnvelopeBatchV1) :
    Nat × Bool :=
  match sink.commitBatch batch with
  | .ok answer =>
      if answer.acknowledgements.length = batch.envelopes.length then
        (batch.envelopes.length, true)
      else (0, false)
  | .error error =>
      if error.acknowledgedPrefix.length ≤ batch.envelopes.length then
        (error.acknowledgedPrefix.length, false)
      else (0, false)

/-! ## The session -/

inductive AcceptStatus where
  | acknowledged
  | sinkStopped
  | adapterStopped
deriving DecidableEq

structure ExecutionSession where
  acknowledgedRecords : Nat := 0
  acknowledgedPayloadBytes : Nat := 0
  acknowledgedSourceBytes : Nat := 0
  firstCursor : Option SourceCursor := none
  finalCursor : Option SourceCursor := none

namespace ExecutionSession

/-- One pass of the loop in `observe_acknowledged_prefix`. -/
def observe (s : ExecutionSession) (envelope : RawEnvelopeV1) : Option ExecutionSession := do
  let payloadBytes ← u64TryFrom envelope.record.payloadLen
  let sourceBytes ← u64TryFrom envelope.record.sourceLen
  let records ← checkedAdd s.acknowledgedRecords 1
  let payload ← checkedAdd s.acknowledgedPayloadBytes payloadBytes
  let source ← checkedAdd s.acknowledgedSourceBytes sourceBytes
  some {
    acknowledgedRecords := records
    acknowledgedPayloadBytes := payload
    acknowledgedSourceBytes := source
    firstCursor := s.firstCursor.or envelope.cursor
    finalCursor := envelope.cursor }

/-- What was counted before an overflow stays counted. -/
def observeAll (s : ExecutionSession) : List RawEnvelopeV1 → ExecutionSession × Bool
  | [] => (s, true)
  | envelope :: rest =>
      match s.observe envelope with
      | none => (s, false)
      | some next => next.observeAll rest

def observeAcknowledgedPrefix (s : ExecutionSession) (batch : EnvelopeBatchV1)
    (acknowledgedCount : Nat) : ExecutionSession × Bool :=
  if acknowledgedCount ≤ batch.envelopes.length then
    s.observeAll (batch.envelopes.toList.take acknowledgedCount)
  else (s, false)

def acceptBatch (s : ExecutionSession) (sink : EnvelopeBatchSinkV1) (batch : EnvelopeBatchV1) :
    ExecutionSession × AcceptStatus :=
  match sink.commitBatch batch with
  | .error error =>
      let (s, observed) := s.observeAcknowledgedPrefix batch error.acknowledgedPrefix.length
      (s, if observed then .sinkStopped else .adapterStopped)
  | .ok answer =>
      if answer.acknowledgements.length ≠ batch.envelopes.length then (s, .adapterStopped)
      else
        let (s, observed) := s.observeAcknowledgedPrefix batch answer.acknowledgements.length
        (s, if observed then .acknowledged else .adapterStopped)

def acknowledged (s : ExecutionSession) : AcknowledgedCounts :=
  ⟨s.acknowledgedRecords, s.acknowledgedPayloadBytes, s.acknowledgedSourceBytes⟩

end ExecutionSession

/-! ## What a session counts -/

/-- The source bytes of a list of envelopes. -/
def envelopeBytes (envelopes : List RawEnvelopeV1) : Nat :=
  (envelopes.map fun e => e.record.sourceLen).sum

namespace ExecutionSession

/-- Room for the envelopes in every counter. -/
def HasRoom (s : ExecutionSession) (envelopes : List RawEnvelopeV1) : Prop :=
  s.acknowledgedRecords + envelopes.length < u64Bound ∧
    s.acknowledgedPayloadBytes + envelopeBytes envelopes < u64Bound ∧
    s.acknowledgedSourceBytes + envelopeBytes envelopes < u64Bound

theorem payloadLen_le_sourceLen (record : RecordBytes) : record.payloadLen ≤ record.sourceLen := by
  rw [RecordBytes.sourceLen_eq, RecordBytes.length_exactBytes]
  exact Nat.le_add_right ..

theorem observe_of_hasRoom {s : ExecutionSession} {e : RawEnvelopeV1} {rest : List RawEnvelopeV1}
    (h : s.HasRoom (e :: rest)) :
    ∃ next, s.observe e = some next ∧ next.HasRoom rest ∧
      next.acknowledgedRecords = s.acknowledgedRecords + 1 := by
  obtain ⟨hrecords, hpayload, hsource⟩ := h
  have hle := payloadLen_le_sourceLen e.record
  simp only [envelopeBytes, List.map_cons, List.sum_cons, List.length_cons] at *
  have hp : u64TryFrom e.record.payloadLen = some e.record.payloadLen :=
    u64TryFrom_eq_some.mpr ⟨by omega, rfl⟩
  have hs : u64TryFrom e.record.sourceLen = some e.record.sourceLen :=
    u64TryFrom_eq_some.mpr ⟨by omega, rfl⟩
  have hcount := checkedAdd_of_lt (a := s.acknowledgedRecords) (b := 1) (by omega)
  have hpay := checkedAdd_of_lt (a := s.acknowledgedPayloadBytes) (b := e.record.payloadLen)
    (by omega)
  have hsrc := checkedAdd_of_lt (a := s.acknowledgedSourceBytes) (b := e.record.sourceLen)
    (by omega)
  have hobserve : s.observe e = some {
      acknowledgedRecords := s.acknowledgedRecords + 1
      acknowledgedPayloadBytes := s.acknowledgedPayloadBytes + e.record.payloadLen
      acknowledgedSourceBytes := s.acknowledgedSourceBytes + e.record.sourceLen
      firstCursor := s.firstCursor.or e.cursor
      finalCursor := e.cursor } := by
    simp only [observe, hp, hs, hcount, hpay, hsrc, Option.bind_eq_bind, Option.bind_some]
  refine ⟨_, hobserve, ?_, rfl⟩
  exact ⟨by simp only; omega, by simp only [envelopeBytes]; omega,
    by simp only [envelopeBytes]; omega⟩

theorem observeAll_of_hasRoom : ∀ {es rest : List RawEnvelopeV1} {s : ExecutionSession},
    s.HasRoom (es ++ rest) → ∃ next, s.observeAll es = (next, true) ∧ next.HasRoom rest ∧
      next.acknowledgedRecords = s.acknowledgedRecords + es.length
  | [], _, s, h => ⟨s, rfl, h, rfl⟩
  | e :: es, rest, s, h => by
      obtain ⟨mid, hmid, hroom, hcount⟩ := observe_of_hasRoom h
      obtain ⟨next, hnext, hrest, htotal⟩ := observeAll_of_hasRoom hroom
      refine ⟨next, by simp only [observeAll, hmid, hnext], hrest, ?_⟩
      rw [htotal, hcount, List.length_cons]
      omega

/-- A batch for which there is room counts as the sink answers. -/
theorem acceptBatch_eq {session : ExecutionSession} {sink : EnvelopeBatchSinkV1}
    {batch : EnvelopeBatchV1} {rest : List RawEnvelopeV1}
    (hroom : session.HasRoom (batch.envelopes.toList ++ rest)) :
    ∃ next status, session.acceptBatch sink batch = (next, status) ∧
      next.acknowledgedRecords = session.acknowledgedRecords + (sink.answer batch).1 ∧
      (status = .acknowledged ↔ (sink.answer batch).2 = true) ∧
      ((sink.answer batch).2 = true → next.HasRoom rest) := by
  have hpart : ∀ n ≤ batch.envelopes.length, ∃ next,
      session.observeAcknowledgedPrefix batch n = (next, true) ∧
        next.acknowledgedRecords = session.acknowledgedRecords + n ∧
        (n = batch.envelopes.length → next.HasRoom rest) := by
    intro n hn
    have hsplit : batch.envelopes.toList ++ rest =
        batch.envelopes.toList.take n ++ (batch.envelopes.toList.drop n ++ rest) := by
      rw [← List.append_assoc, List.take_append_drop]
    obtain ⟨next, hnext, hrest, hcount⟩ := observeAll_of_hasRoom (hsplit ▸ hroom)
    refine ⟨next, by rw [observeAcknowledgedPrefix, if_pos hn, hnext], ?_, ?_⟩
    · rw [hcount, List.length_take]
      exact congrArg _ (Nat.min_eq_left hn)
    · rintro rfl
      rwa [Vec.length, List.drop_length, List.nil_append] at hrest
  unfold acceptBatch EnvelopeBatchSinkV1.answer
  cases hcommit : sink.commitBatch batch with
  | error error =>
      simp only
      by_cases hlen : error.acknowledgedPrefix.length ≤ batch.envelopes.length
      · obtain ⟨next, hnext, hcount, -⟩ := hpart _ hlen
        exact ⟨next, .sinkStopped, by simp [hnext], by simp [hlen, hcount], by simp [hlen],
          by simp [hlen]⟩
      · exact ⟨session, .adapterStopped, by simp [observeAcknowledgedPrefix, hlen],
          by simp [hlen], by simp [hlen], by simp [hlen]⟩
  | ok answer =>
      simp only
      by_cases hlen : answer.acknowledgements.length = batch.envelopes.length
      · obtain ⟨next, hnext, hcount, hfull⟩ := hpart _ (Nat.le_refl _)
        exact ⟨next, .acknowledged, by simp [hlen, hnext], by simp [hlen, hcount],
          by simp [hlen], fun _ => hfull rfl⟩
      · exact ⟨session, .adapterStopped, by simp [hlen], by simp [hlen], by simp [hlen],
          by simp [hlen]⟩

end ExecutionSession

end Evidentrail
