import Evidentrail.LocalFile.Stream

/-!
# The stream is an exact prefix of the file

Between two passes of the loop the acknowledged records and the buffer make up
the bytes that were read (`Ready`). Every stop leaves a buffer that may still be
offered (`Buffered`), and an offer moves the buffer behind the acknowledged
records or shuts the sink (`emitRecord_cases`). The rest is the same argument
for each way a pass can end.
-/

namespace Evidentrail

open Rust

/-! ## What the records are -/

def ExecutionAccountingV1.bytes (a : ExecutionAccountingV1) : List UInt8 :=
  a.envelopes.flatMap fun e => e.record.exactBytes

/-- Records one behind the other from `start` on. A record is complete if it
ends in a line feed or where the file does. -/
def Tiled (facts : LocalFileExecutionFactsV1) : Nat → List RawEnvelopeV1 → Prop
  | _, [] => True
  | start, e :: rest =>
      let stop := start + e.record.exactBytes.length
      e.cursor = rangeCursor start stop ∧
      (e.state = .complete ↔
        e.record.exactBytes.getLast? = some lineFeed ∨ stop = facts.highWaterExclusive) ∧
      Tiled facts stop rest

/-- The acknowledged records, and how they are counted. -/
structure Acknowledged (facts : LocalFileExecutionFactsV1) (a : ExecutionAccountingV1) :
    Prop where
  tiled : Tiled facts 0 a.envelopes
  oneLine : ∀ e ∈ a.envelopes, lineFeed ∉ e.record.exactBytes.dropLast
  length_le : ∀ e ∈ a.envelopes, e.record.exactBytes.length ≤ facts.caps.perRecordBytes
  number_le : a.envelopes.length ≤ facts.caps.records
  records : a.acknowledgedRecords = a.envelopes.length
  sourceBytes : a.acknowledgedSourceBytes = a.bytes.length
  payload_le : a.acknowledgedPayloadBytes ≤ a.acknowledgedSourceBytes

theorem acknowledged_empty (facts : LocalFileExecutionFactsV1) : Acknowledged facts {} where
  tiled := trivial
  oneLine e he := by cases he
  length_le e he := by cases he
  number_le := Nat.zero_le _
  records := rfl
  sourceBytes := rfl
  payload_le := le_rfl

theorem tiled_append {facts : LocalFileExecutionFactsV1} {es : List RawEnvelopeV1}
    {e : RawEnvelopeV1} {start stop : Nat} (h : Tiled facts start es)
    (hstop : start + (es.flatMap fun e => e.record.exactBytes).length = stop)
    (hcursor : e.cursor = rangeCursor stop (stop + e.record.exactBytes.length))
    (hstate : e.state = .complete ↔ e.record.exactBytes.getLast? = some lineFeed ∨
      stop + e.record.exactBytes.length = facts.highWaterExclusive) :
    Tiled facts start (es ++ [e]) := by
  induction es generalizing start with
  | nil =>
      obtain rfl : start = stop := by simpa using hstop
      exact ⟨hcursor, hstate, trivial⟩
  | cons first rest ih =>
      obtain ⟨hfirst, hcomplete, hrest⟩ := h
      refine ⟨hfirst, hcomplete, ih hrest ?_⟩
      rw [← hstop, List.flatMap_cons, List.length_append, Nat.add_assoc]

theorem exactBytes_frame (record : Vec UInt8) : (frame record).exactBytes = record.toList :=
  List.take_append_drop _ _

theorem payloadLen_le_sourceLen (record : RecordBytes) : record.payloadLen ≤ record.sourceLen := by
  rw [RecordBytes.sourceLen_eq, RecordBytes.length_exactBytes]
  exact Nat.le_add_right _ _

theorem bytes_append {a : ExecutionAccountingV1} {es : List RawEnvelopeV1} {e : RawEnvelopeV1}
    (h : a.envelopes = es ++ [e]) :
    a.bytes = (es.flatMap fun e => e.record.exactBytes) ++ e.record.exactBytes := by
  rw [ExecutionAccountingV1.bytes, h, List.flatMap_append, List.flatMap_singleton]

/-! ## Flags -/

namespace StreamOutcomeV1

/-- The same reads, with the same ends. -/
structure Agrees (o o' : StreamOutcomeV1) : Prop where
  bytesRead : o'.bytesRead = o.bytesRead
  sourceByteCap : o'.sourceByteCap = o.sourceByteCap
  perRecordByteCap : o'.perRecordByteCap = o.perRecordByteCap
  readError : o'.readError = o.readError
  unexpectedEof : o'.unexpectedEof = o.unexpectedEof
  sawFragment : o'.sawFragment = o.sawFragment

theorem Agrees.trans {o o' o'' : StreamOutcomeV1} (h : o.Agrees o') (h' : o'.Agrees o'') :
    o.Agrees o'' where
  bytesRead := h'.bytesRead.trans h.bytesRead
  sourceByteCap := h'.sourceByteCap.trans h.sourceByteCap
  perRecordByteCap := h'.perRecordByteCap.trans h.perRecordByteCap
  readError := h'.readError.trans h.readError
  unexpectedEof := h'.unexpectedEof.trans h.unexpectedEof
  sawFragment := h'.sawFragment.trans h.sawFragment

/-- A checkpoint only stops. -/
theorem agrees_observe (o : StreamOutcomeV1) (checkpoint : CheckpointV1) :
    o.Agrees (o.observeCheckpoint checkpoint) ∧
      (o.observeCheckpoint checkpoint).sinkUnavailable = o.sinkUnavailable ∧
      (o.observeCheckpoint checkpoint).sinkStopped = o.sinkStopped ∧
      (o.observeCheckpoint checkpoint).adapterStopped = o.adapterStopped := by
  unfold observeCheckpoint
  dsimp only
  split <;> exact ⟨⟨rfl, rfl, rfl, rfl, rfl, rfl⟩, rfl, rfl, rfl⟩

/-- What the checks behind the stream leave as it was. -/
theorem agrees_final (o : StreamOutcomeV1) (verified : Bool) (checkpoint : CheckpointV1) :
    ({ o with postSnapshotVerified := verified }.observeCheckpoint checkpoint).sawFragment =
        o.sawFragment ∧
      ({ o with postSnapshotVerified := verified }.observeCheckpoint
        checkpoint).postSnapshotVerified = verified := by
  unfold observeCheckpoint
  dsimp only
  split <;> exact ⟨rfl, rfl⟩

/-- No checkpoint takes a stop back. -/
theorem stop_observe {o : StreamOutcomeV1} (h : o.stopContentReads = true)
    (checkpoint : CheckpointV1) : (o.observeCheckpoint checkpoint).stopContentReads = true := by
  simp only [stopContentReads, Bool.or_eq_true] at h ⊢
  unfold observeCheckpoint
  dsimp only
  split
  · exact h
  · simp only [true_or]
  · simp only [true_or, or_true]

end StreamOutcomeV1

/-! ## The buffer -/

section Buffer

variable {facts : LocalFileExecutionFactsV1} {s : Session}

/-- The acknowledged records and the buffer are the bytes that were read. -/
structure Buffered (facts : LocalFileExecutionFactsV1) (s : Session) : Prop where
  acknowledged : Acknowledged facts s.accounting
  lines : ∀ e ∈ s.accounting.envelopes, e.record.exactBytes.getLast? = some lineFeed
  split : s.accounting.bytes ++ s.record.toList = s.content
  start : s.record.toList ≠ [] → s.recordStart = s.accounting.bytes.length
  read : s.outcome.bytesRead = s.content.length
  bound : s.content.length ≤ facts.highWaterExclusive
  oneLine : lineFeed ∉ s.record.toList.dropLast
  length_le : s.record.toList.length ≤ facts.caps.perRecordBytes
  room : s.record.toList ≠ [] → s.accounting.envelopes.length < facts.caps.records
  whole : s.outcome.sawFragment = false
  atEnd : s.outcome.bytesRead = facts.highWaterExclusive →
    s.outcome.sourceByteCap = false ∧ s.outcome.perRecordByteCap = false ∧
      s.outcome.readError = false ∧ s.outcome.unexpectedEof = false

/-- Flags that say nothing of the end of the file. -/
theorem Buffered.marked (h : Buffered facts s) {change : StreamOutcomeV1 → StreamOutcomeV1}
    (hread : (change s.outcome).bytesRead = s.outcome.bytesRead)
    (hwhole : (change s.outcome).sawFragment = s.outcome.sawFragment)
    (hend : s.outcome.bytesRead = facts.highWaterExclusive →
      (change s.outcome).sourceByteCap = false ∧ (change s.outcome).perRecordByteCap = false ∧
        (change s.outcome).readError = false ∧ (change s.outcome).unexpectedEof = false) :
    Buffered facts (s.mark change) where
  acknowledged := h.acknowledged
  lines := h.lines
  split := h.split
  start := h.start
  read := hread.trans h.read
  bound := h.bound
  oneLine := h.oneLine
  length_le := h.length_le
  room := h.room
  whole := hwhole.trans h.whole
  atEnd hsame := hend (hread.symm.trans hsame)

theorem Buffered.agrees (h : Buffered facts s) {change : StreamOutcomeV1 → StreamOutcomeV1}
    (hsame : s.outcome.Agrees (change s.outcome)) : Buffered facts (s.mark change) := by
  refine h.marked hsame.bytesRead hsame.sawFragment fun hread => ?_
  obtain ⟨hsource, hrecord, herror, heof⟩ := h.atEnd hread
  exact ⟨hsame.sourceByteCap.trans hsource, hsame.perRecordByteCap.trans hrecord,
    hsame.readError.trans herror, hsame.unexpectedEof.trans heof⟩

theorem Buffered.observe (h : Buffered facts s)
    (checkpoint : CheckpointV1) : Buffered facts (s.observe checkpoint) :=
  h.agrees (s.outcome.agrees_observe checkpoint).1

theorem rangeCursor_isSome (start stop : Nat) : ∃ cursor, rangeCursor start stop = some cursor := by
  unfold rangeCursor OpaqueBytes.new
  rw [dif_pos (by simp)]
  exact ⟨_, rfl⟩

/-- The records with the buffer behind them. -/
theorem Buffered.acknowledge (h : Buffered facts s) {e : RawEnvelopeV1}
    (hrecord : s.record.toList ≠ []) {a : ExecutionAccountingV1}
    (hbytes : e.record.exactBytes = s.record.toList)
    (hcursor : e.cursor = rangeCursor s.recordStart s.outcome.bytesRead)
    (hstate : e.state = .complete ↔ s.record.toList.getLast? = some lineFeed ∨
      s.outcome.bytesRead = facts.highWaterExclusive)
    (henvelopes : a.envelopes = s.accounting.envelopes ++ [e])
    (hrecords : a.acknowledgedRecords = s.accounting.acknowledgedRecords + 1)
    (hsource : a.acknowledgedSourceBytes =
      s.accounting.acknowledgedSourceBytes + e.record.exactBytes.length)
    (hpayload : a.acknowledgedPayloadBytes ≤ a.acknowledgedSourceBytes) :
    Acknowledged facts a ∧ a.bytes = s.content := by
  have hread : s.outcome.bytesRead = s.accounting.bytes.length + s.record.toList.length := by
    rw [h.read, ← h.split, List.length_append]
  have hall : a.bytes = s.content := by
    rw [bytes_append henvelopes, hbytes]
    exact h.split
  refine ⟨⟨?_, ?_, ?_, ?_, ?_, ?_, hpayload⟩, hall⟩
  · rw [henvelopes]
    refine tiled_append h.acknowledged.tiled (Nat.zero_add _) ?_ ?_
    · rw [hcursor, h.start hrecord, hread, hbytes]
      rfl
    · rw [hstate, hread, hbytes]
      rfl
  · intro other hother
    rw [henvelopes] at hother
    rcases List.mem_append.mp hother with hold | hnew
    · exact h.acknowledged.oneLine other hold
    · rw [List.mem_singleton.mp hnew, hbytes]
      exact h.oneLine
  · intro other hother
    rw [henvelopes] at hother
    rcases List.mem_append.mp hother with hold | hnew
    · exact h.acknowledged.length_le other hold
    · rw [List.mem_singleton.mp hnew, hbytes]
      exact h.length_le
  · rw [henvelopes, List.length_append, List.length_singleton]
    exact h.room hrecord
  · rw [hrecords, h.acknowledged.records, henvelopes, List.length_append, List.length_singleton]
  · rw [hsource, h.acknowledged.sourceBytes, bytes_append henvelopes, List.length_append]
    rfl

end Buffer

/-! ## Offering the buffer -/

/-- What an offer of the buffer leaves. -/
inductive Emission (s : Session) (e : RawEnvelopeV1) : Session → Prop
  /-- The sink or the adapter stopped. -/
  | shut {o : StreamOutcomeV1} : s.outcome.Agrees o → o.sinkUnavailable = true →
      Emission s e { s with record := .empty, outcome := o }
  /-- The record was acknowledged. -/
  | moved {o : StreamOutcomeV1} {a : ExecutionAccountingV1} : s.outcome.Agrees o →
      o.sinkUnavailable = false → a.envelopes = s.accounting.envelopes ++ [e] →
      a.acknowledgedRecords = s.accounting.acknowledgedRecords + 1 →
      a.acknowledgedSourceBytes =
        s.accounting.acknowledgedSourceBytes + e.record.exactBytes.length →
      (s.accounting.acknowledgedPayloadBytes ≤ s.accounting.acknowledgedSourceBytes →
        a.acknowledgedPayloadBytes ≤ a.acknowledgedSourceBytes) →
      Emission s e { s with record := .empty, outcome := o, accounting := a }

section Offering

variable [Sha256] {I : Type} [LinearOrder I] {x : ExecutionV1 I} {s s' : Session}
  {e : RawEnvelopeV1}

theorem sinkStep_accepted {a a' : ExecutionAccountingV1} {cursor : SourceCursor}
    {answer : Option SinkAck} (h : sinkStep a cursor e answer = .accepted a') :
    a'.envelopes = a.envelopes ++ [e] ∧ a'.acknowledgedRecords = a.acknowledgedRecords + 1 ∧
    a'.acknowledgedSourceBytes = a.acknowledgedSourceBytes + e.record.exactBytes.length ∧
    a'.acknowledgedPayloadBytes = a.acknowledgedPayloadBytes + e.record.payloadLen := by
  unfold sinkStep at h
  split at h
  · cases h
  split at h
  · cases h
  split at h
  · rename_i records payload source hrecords hpayload hsource
    cases h
    rw [← RecordBytes.sourceLen_eq]
    exact ⟨rfl, (checkedAdd_eq_some.mp hrecords).2, (checkedAdd_eq_some.mp hsource).2,
      (checkedAdd_eq_some.mp hpayload).2⟩
  · cases h

theorem emission (turn : SinkTurn I) (state : RecordState)
    (havailable : s.outcome.sinkUnavailable = false) :
    ∃ cursor, rangeCursor s.recordStart s.outcome.bytesRead = some cursor ∧
      Emission s (x.facts.envelope s.accounting.acknowledgedRecords s.record state cursor)
        (emitRecord x turn state s) := by
  obtain ⟨hbefore, hsink, hstopped, hadapter⟩ :=
    s.outcome.agrees_observe (x.checkpoint turn.before)
  obtain ⟨cursor, hcursor⟩ := rangeCursor_isSome s.recordStart s.outcome.bytesRead
  refine ⟨cursor, hcursor, ?_⟩
  simp only [StreamOutcomeV1.sinkUnavailable, Bool.or_eq_false_iff] at havailable
  generalize he : x.facts.envelope s.accounting.acknowledgedRecords s.record state cursor = e
  have hemit : emitRecord x turn state s =
      ({ s.observe (x.checkpoint turn.before) with record := .empty }.afterSink
        (sinkStep s.accounting cursor e (turn.accept e))).observe (x.checkpoint turn.after) := by
    unfold emitRecord
    have hsink' : (s.observe (x.checkpoint turn.before)).outcome.sinkUnavailable = false := by
      rw [Session.observe, Session.mark, hsink, StreamOutcomeV1.sinkUnavailable, havailable.1,
        havailable.2]
      rfl
    have hread : (s.observe (x.checkpoint turn.before)).outcome.bytesRead =
        s.outcome.bytesRead := hbefore.bytesRead
    simp only [hsink', hread, Bool.false_eq_true, if_false]
    rw [show (s.observe (x.checkpoint turn.before)).recordStart = s.recordStart from rfl, hcursor]
    simp only [← he]
    rfl
  rw [hemit]
  cases hstep : sinkStep s.accounting cursor e (turn.accept e) with
  | accepted a =>
      obtain ⟨henvelopes, hrecords, hsource, hpayload⟩ := sinkStep_accepted hstep
      obtain ⟨hafter, hsink', _⟩ := (s.outcome.observeCheckpoint
        (x.checkpoint turn.before)).agrees_observe (x.checkpoint turn.after)
      refine .moved (hbefore.trans hafter) ?_ henvelopes hrecords hsource fun hle => ?_
      · refine hsink'.trans (hsink.trans ?_)
        rw [StreamOutcomeV1.sinkUnavailable, havailable.1, havailable.2]
        rfl
      · have hframe := payloadLen_le_sourceLen e.record
        rw [RecordBytes.sourceLen_eq] at hframe
        show a.acknowledgedPayloadBytes ≤ a.acknowledgedSourceBytes
        omega
  | sinkStopped =>
      obtain ⟨hafter, hsink', _⟩ := StreamOutcomeV1.agrees_observe
        { s.outcome.observeCheckpoint (x.checkpoint turn.before) with sinkStopped := true }
        (x.checkpoint turn.after)
      have hstop : (s.outcome.observeCheckpoint (x.checkpoint turn.before)).Agrees
          { s.outcome.observeCheckpoint (x.checkpoint turn.before) with sinkStopped := true } :=
        ⟨rfl, rfl, rfl, rfl, rfl, rfl⟩
      exact .shut (hbefore.trans (hstop.trans hafter)) hsink'
  | adapterStopped =>
      obtain ⟨hafter, hsink', _⟩ := StreamOutcomeV1.agrees_observe
        { s.outcome.observeCheckpoint (x.checkpoint turn.before) with adapterStopped := true }
        (x.checkpoint turn.after)
      have hstop : (s.outcome.observeCheckpoint (x.checkpoint turn.before)).Agrees
          { s.outcome.observeCheckpoint (x.checkpoint turn.before) with adapterStopped := true } :=
        ⟨rfl, rfl, rfl, rfl, rfl, rfl⟩
      exact .shut (hbefore.trans (hstop.trans hafter)) (hsink'.trans (Bool.or_true _))

end Offering

/-! ## The whole stream -/

/-- What the stream leaves, whatever happened. -/
structure ExactStream (facts : LocalFileExecutionFactsV1) (s : Session) : Prop where
  acknowledged : Acknowledged facts s.accounting
  lines : ∀ e ∈ s.accounting.envelopes.dropLast,
    e.record.exactBytes.getLast? = some lineFeed
  leads : s.accounting.bytes <+: s.content
  all : s.outcome.sinkUnavailable = false → s.accounting.bytes = s.content
  read : s.outcome.bytesRead = s.content.length
  bound : s.content.length ≤ facts.highWaterExclusive
  fragments : s.outcome.sawFragment = false →
    ∀ e ∈ s.accounting.envelopes, e.state = .complete

theorem tiled_complete {facts : LocalFileExecutionFactsV1} {es : List RawEnvelopeV1} {start : Nat}
    (h : Tiled facts start es) :
    ∀ e ∈ es, e.record.exactBytes.getLast? = some lineFeed → e.state = .complete := by
  induction es generalizing start with
  | nil =>
      intro e he
      cases he
  | cons first rest ih =>
      obtain ⟨_, hcomplete, hrest⟩ := h
      intro e he hline
      rcases List.mem_cons.mp he with rfl | he
      · exact hcomplete.mpr (.inl hline)
      · exact ih hrest e he hline

section Loop

variable {facts : LocalFileExecutionFactsV1} {s s' : Session}

theorem Buffered.exact_of_empty (h : Buffered facts s) (hrecord : s.record.toList = []) :
    ExactStream facts s where
  acknowledged := h.acknowledged
  lines e he := h.lines e (List.dropLast_subset _ he)
  leads := ⟨_, h.split⟩
  all _ := by rw [← h.split, hrecord, List.append_nil]
  read := h.read
  bound := h.bound
  fragments _ e he := tiled_complete h.acknowledged.tiled e he (h.lines e he)

theorem Buffered.exact_of_shut (h : Buffered facts s) {o : StreamOutcomeV1} {record : Vec UInt8}
    (hread : o.bytesRead = s.outcome.bytesRead) (hshut : o.sinkUnavailable = true) :
    ExactStream facts { s with record, outcome := o } where
  acknowledged := h.acknowledged
  lines e he := h.lines e (List.dropLast_subset _ he)
  leads := ⟨_, h.split⟩
  all hopen := by
    rw [show o.sinkUnavailable = false from hopen] at hshut
    cases hshut
  read := hread.trans h.read
  bound := h.bound
  fragments _ e he := tiled_complete h.acknowledged.tiled e he (h.lines e he)

/-- The last record is offered. -/
theorem Buffered.exact_of_emission (h : Buffered facts s) (hrecord : s.record.toList ≠ [])
    (change : StreamOutcomeV1 → StreamOutcomeV1) {e : RawEnvelopeV1}
    (hread : (change s.outcome).bytesRead = s.outcome.bytesRead)
    (hemission : Emission (s.mark change) e s') (hbytes : e.record.exactBytes = s.record.toList)
    (hcursor : e.cursor = rangeCursor s.recordStart s.outcome.bytesRead)
    (hstate : e.state = .complete ↔ s.record.toList.getLast? = some lineFeed ∨
      s.outcome.bytesRead = facts.highWaterExclusive)
    (hfragment : (change s.outcome).sawFragment = false → e.state = .complete) :
    ExactStream facts s' := by
  cases hemission with
  | @shut o hsame hshut => exact h.exact_of_shut (hsame.bytesRead.trans hread) hshut
  | @moved o a hsame hopen henvelopes hrecords hsource hpayload =>
      obtain ⟨hacknowledged, hall⟩ := h.acknowledge hrecord hbytes hcursor hstate henvelopes
        hrecords hsource (hpayload h.acknowledged.payload_le)
      refine ⟨hacknowledged, ?_, ?_, fun _ => hall, ?_, h.bound, ?_⟩
      · intro other hother
        rw [henvelopes, List.dropLast_concat] at hother
        exact h.lines other hother
      · show a.bytes <+: s.content
        rewrite [hall]
        exact List.prefix_rfl
      · exact (hsame.bytesRead.trans hread).trans h.read
      · intro hwhole other hother
        rw [henvelopes] at hother
        rcases List.mem_append.mp hother with hold | hnew
        · exact tiled_complete h.acknowledged.tiled other hold (h.lines other hold)
        · rw [List.mem_singleton.mp hnew]
          exact hfragment (hsame.sawFragment.symm.trans hwhole)

theorem suffix_iff_getLast {record : List UInt8} :
    [lineFeed] <:+ record ↔ record.getLast? = some lineFeed := by
  rw [List.getLast?_eq_some_iff]
  exact ⟨fun ⟨before, h⟩ => ⟨before, h.symm⟩, fun ⟨before, h⟩ => ⟨before, h.symm⟩⟩

/-- A stop leaves a buffer, or no sink to offer it to. -/
def Paused (facts : LocalFileExecutionFactsV1) (s : Session) : Prop :=
  Buffered facts s ∨ (ExactStream facts s ∧ s.outcome.sinkUnavailable = true)

/-- Between two passes. -/
structure Ready (facts : LocalFileExecutionFactsV1) (s : Session) : Prop where
  buffered : Buffered facts s
  going : s.outcome.stopContentReads = false
  noLine : lineFeed ∉ s.record.toList
  short : s.outcome.bytesRead < facts.highWaterExclusive →
    s.record.toList.length < facts.caps.perRecordBytes

theorem StreamOutcomeV1.going {o : StreamOutcomeV1} (h : o.stopContentReads = false) :
    o.readError = false ∧ o.unexpectedEof = false ∧ o.sinkUnavailable = false ∧
      o.sourceByteCap = false ∧ o.perRecordByteCap = false := by
  simp only [stopContentReads, Bool.or_eq_false_iff] at h
  obtain ⟨⟨⟨⟨⟨⟨⟨⟨_, _⟩, hread⟩, heof⟩, hsink⟩, hadapter⟩, hsource⟩, hrecord⟩, _⟩ := h
  refine ⟨hread, heof, ?_, hsource, hrecord⟩
  rw [sinkUnavailable, hsink, hadapter]
  rfl

theorem Ready.observe (h : Ready facts s) {checkpoint : CheckpointV1}
    (hgoing : (s.observe checkpoint).outcome.stopContentReads = false) :
    Ready facts (s.observe checkpoint) where
  buffered := h.buffered.observe checkpoint
  going := hgoing
  noLine := h.noLine
  short hlt := h.short ((s.outcome.agrees_observe checkpoint).1.bytesRead ▸ hlt)

theorem facts_lt_u64 (facts : LocalFileExecutionFactsV1) :
    facts.highWaterExclusive < u64Bound ∧ facts.caps.perRecordBytes < 2 ^ 63 := by
  have hhigh := facts.highWater_le
  have hsource := facts.caps.sourceBytes_le
  have hrecord := facts.caps.perRecordBytes_le_sourceBytes
  unfold jsonSafeIntegerMax at hsource
  unfold u64Bound
  omega

/-- One more byte in the buffer. -/
theorem Ready.push (h : Ready facts s) (hlt : s.outcome.bytesRead < facts.highWaterExclusive)
    (hroom : s.accounting.acknowledgedRecords < facts.caps.records) (value : UInt8) :
    Buffered facts (s.applyRead facts (.byte value)) ∧
    (s.applyRead facts (.byte value)).record.toList = s.record.toList ++ [value] ∧
    (s.applyRead facts (.byte value)).outcome.bytesRead = s.outcome.bytesRead + 1 := by
  obtain ⟨hhigh, hcap⟩ := facts_lt_u64 facts
  have hshort := h.short hlt
  have hpush : (s.record.push value).toList = s.record.toList ++ [value] :=
    Vec.toList_push (by omega)
  have hcount : saturatingAdd s.outcome.bytesRead 1 = s.outcome.bytesRead + 1 :=
    saturatingAdd_of_lt (by omega)
  have hread := h.buffered.read
  refine ⟨⟨h.buffered.acknowledged, h.buffered.lines, ?_, ?_, ?_, ?_, ?_, ?_, ?_, ?_, ?_⟩, hpush,
    hcount⟩
  · show s.accounting.bytes ++ (s.record.push value).toList = s.content ++ [value]
    rw [hpush, ← List.append_assoc, h.buffered.split]
  · intro _
    show (if s.record.toList.isEmpty then s.outcome.bytesRead else s.recordStart) = _
    split
    · rename_i hempty
      rw [hread, ← h.buffered.split, List.isEmpty_iff.mp hempty, List.append_nil]
      rfl
    · rename_i hempty
      exact h.buffered.start fun hnil => hempty (List.isEmpty_iff.mpr hnil)
  · show saturatingAdd s.outcome.bytesRead 1 = (s.content ++ [value]).length
    rw [hcount, hread, List.length_append, List.length_singleton]
  · show (s.content ++ [value]).length ≤ _
    rw [List.length_append, List.length_singleton]
    omega
  · show lineFeed ∉ (s.record.push value).toList.dropLast
    rw [hpush, List.dropLast_concat]
    exact h.noLine
  · show (s.record.push value).toList.length ≤ _
    rw [hpush, List.length_append, List.length_singleton]
    omega
  · intro _
    exact h.buffered.acknowledged.records ▸ hroom
  · exact h.buffered.whole
  · intro _
    obtain ⟨herror, heof, _, hsource, hrecord⟩ := StreamOutcomeV1.going h.going
    exact ⟨hsource, hrecord, herror, heof⟩

/-- A flag that stops the loop before the end of the file. -/
theorem Ready.stopped (h : Ready facts s)
    (hlt : s.outcome.bytesRead < facts.highWaterExclusive)
    (change : StreamOutcomeV1 → StreamOutcomeV1)
    (hread : (change s.outcome).bytesRead = s.outcome.bytesRead)
    (hwhole : (change s.outcome).sawFragment = s.outcome.sawFragment)
    (hstop : (change s.outcome).stopContentReads = true) (checkpoint : CheckpointV1) :
    Buffered facts ((s.mark change).observe checkpoint) ∧
      ((s.mark change).observe checkpoint).outcome.stopContentReads = true :=
  ⟨(h.buffered.marked hread hwhole fun hend => absurd hend hlt.ne).observe checkpoint,
    StreamOutcomeV1.stop_observe hstop checkpoint⟩

end Loop

section Passes

variable [Sha256] {I : Type} [LinearOrder I] {x : ExecutionV1 I} {s s' : Session}

/-- A record that ends in a line feed, offered while there is a sink. -/
theorem Buffered.emitLine (h : Buffered x.facts s) (turn : SinkTurn I)
    (havailable : s.outcome.sinkUnavailable = false)
    (hline : s.record.toList.getLast? = some lineFeed) :
    (emitRecord x turn .complete s).content = s.content ∧
    ((emitRecord x turn .complete s).outcome.bytesRead = s.outcome.bytesRead) ∧
    ((ExactStream x.facts (emitRecord x turn .complete s) ∧
        (emitRecord x turn .complete s).outcome.sinkUnavailable = true) ∨
      (Buffered x.facts (emitRecord x turn .complete s) ∧
        (emitRecord x turn .complete s).record.toList = [])) := by
  have hrecord : s.record.toList ≠ [] := by
    intro hnil
    rw [hnil] at hline
    cases hline
  obtain ⟨cursor, hcursor, hemission⟩ := emission (x := x) turn .complete havailable
  generalize emitRecord x turn .complete s = s' at hemission ⊢
  cases hemission with
  | @shut o hsame hshut =>
      exact ⟨rfl, hsame.bytesRead, .inl ⟨h.exact_of_shut hsame.bytesRead hshut, hshut⟩⟩
  | @moved o a hsame hopen henvelopes hrecords hsource hpayload =>
      obtain ⟨hacknowledged, hall⟩ := h.acknowledge hrecord (exactBytes_frame s.record)
        hcursor.symm (iff_of_true rfl (.inl hline)) henvelopes hrecords hsource
        (hpayload h.acknowledged.payload_le)
      refine ⟨rfl, hsame.bytesRead, .inr ⟨⟨hacknowledged, ?_, ?_, nofun, ?_, h.bound, ?_, ?_, nofun,
        ?_, ?_⟩, rfl⟩⟩
      · intro e he
        rw [henvelopes] at he
        rcases List.mem_append.mp he with hold | hnew
        · exact h.lines e hold
        · rw [List.mem_singleton.mp hnew]
          exact (congrArg List.getLast? (exactBytes_frame s.record)).trans hline
      · exact (List.append_nil _).trans hall
      · exact hsame.bytesRead.trans h.read
      · exact List.not_mem_nil
      · exact Nat.zero_le _
      · exact hsame.sawFragment.trans h.whole
      · intro hend
        obtain ⟨hsource, hrecord, herror, heof⟩ := h.atEnd (hsame.bytesRead.symm.trans hend)
        exact ⟨hsame.sourceByteCap.trans hsource, hsame.perRecordByteCap.trans hrecord,
          hsame.readError.trans herror, hsame.unexpectedEof.trans heof⟩

/-- How far a pass gets. -/
def Flow.Sound (facts : LocalFileExecutionFactsV1) (read : ReadResult) (count : Nat) :
    Flow → Prop
  | .done s => Paused facts s
  | .next s => Ready facts s ∧
      (read = .interrupted ∧ s.content.length = count ∨ s.content.length = count + 1)

/-- What is done with a byte that does not end the stream by itself. -/
theorem Buffered.step (h : Buffered x.facts s) (hgoing : s.outcome.stopContentReads = false)
    {record : List UInt8} {value : UInt8} (hrecord : s.record.toList = record ++ [value])
    (hnoLine : lineFeed ∉ record) (turn : SinkTurn I) :
    (value = lineFeed → Paused x.facts (emitRecord x turn .complete s) ∧
      ((emitRecord x turn .complete s).outcome.stopContentReads = false →
        Ready x.facts (emitRecord x turn .complete s)) ∧
      (emitRecord x turn .complete s).content = s.content) ∧
    (value ≠ lineFeed → ¬(s.record.length ≥ x.facts.caps.perRecordBytes ∧
      s.outcome.bytesRead < x.facts.highWaterExclusive) → Ready x.facts s) := by
  refine ⟨fun hvalue => ?_, fun hvalue hshort => ?_⟩
  · have havailable := (StreamOutcomeV1.going hgoing).2.2.1
    have hline : s.record.toList.getLast? = some lineFeed := by
      rw [hrecord, hvalue, List.getLast?_concat]
    obtain ⟨hcontent, _, hshut | ⟨hbuffered, hempty⟩⟩ := h.emitLine turn havailable hline
    · refine ⟨.inr hshut, fun hstop => ?_, hcontent⟩
      have hopen := (StreamOutcomeV1.going hstop).2.2.1
      rw [hshut.2] at hopen
      cases hopen
    · refine ⟨.inl hbuffered, fun hstop => ⟨hbuffered, hstop, ?_, fun _ => ?_⟩, hcontent⟩
      · rw [hempty]
        exact List.not_mem_nil
      · rw [hempty]
        exact x.facts.caps.perRecordBytes_pos
  · refine ⟨h, hgoing, ?_, fun hlt => ?_⟩
    · rw [hrecord, List.mem_append, List.mem_singleton]
      rintro (hold | hnew)
      · exact hnoLine hold
      · exact hvalue hnew.symm
    · by_contra hlong
      exact hshort ⟨Nat.not_lt.mp hlong, hlt⟩

theorem Ready.readOnce (h : Ready x.facts s)
    (hlt : s.outcome.bytesRead < x.facts.highWaterExclusive)
    (hroom : s.accounting.acknowledgedRecords < x.facts.caps.records) (turn : Turn I) :
    (Evidentrail.readOnce x turn s).Sound x.facts turn.read s.content.length := by
  unfold Evidentrail.readOnce
  dsimp only
  cases hresult : turn.read with
  | endOfFile =>
      obtain ⟨hbuffered, hstop⟩ := h.stopped hlt (fun o => { o with
        unexpectedEof := o.bytesRead < x.facts.highWaterExclusive }) rfl rfl
        (by simp [StreamOutcomeV1.stopContentReads, hlt]) (x.checkpoint turn.afterRead)
      rw [if_pos (by exact hstop)]
      exact .inl hbuffered
  | byte value =>
      obtain ⟨hbuffered, hrecord, hcount⟩ := h.push hlt hroom value
      have hcontent : ((s.applyRead x.facts (.byte value)).observe
          (x.checkpoint turn.afterRead)).content.length = s.content.length + 1 := by
        show (s.content ++ [value]).length = _
        rw [List.length_append, List.length_singleton]
      replace hbuffered := hbuffered.observe (x.checkpoint turn.afterRead)
      split
      · exact .inl hbuffered
      rename_i hgoing
      rw [if_neg (by exact ReadResult.noConfusion)]
      obtain ⟨hline, hother⟩ := hbuffered.step (Bool.not_eq_true _ ▸ hgoing) hrecord h.noLine
        turn.sink
      split
      · rename_i hvalue
        obtain ⟨hpaused, hready, hsame⟩ := hline hvalue
        split
        · exact hpaused
        · rename_i hstop
          refine ⟨hready (Bool.not_eq_true _ ▸ hstop), .inr ?_⟩
          rw [hsame]
          exact hcontent
      · rename_i hvalue
        split
        · rename_i hlong
          exact .inl (hbuffered.marked rfl rfl fun hend => absurd hend hlong.2.ne)
        · rename_i hshort
          exact ⟨hother hvalue hshort, .inr hcontent⟩
  | excess =>
      obtain ⟨hbuffered, hstop⟩ := h.stopped hlt
        (fun o => { o with adapterStopped := true }) rfl rfl
        (by simp [StreamOutcomeV1.stopContentReads]) (x.checkpoint turn.afterRead)
      rw [if_pos (by exact hstop)]
      exact .inl hbuffered
  | interrupted =>
      split
      · exact .inl (h.buffered.observe _)
      · rename_i hgoing
        rw [if_pos rfl]
        exact ⟨h.observe (Bool.not_eq_true _ ▸ hgoing), .inl ⟨rfl, rfl⟩⟩
  | failed =>
      obtain ⟨hbuffered, hstop⟩ := h.stopped hlt
        (fun o => { o with readError := true }) rfl rfl
        (by simp [StreamOutcomeV1.stopContentReads]) (x.checkpoint turn.afterRead)
      rw [if_pos (by exact hstop)]
      exact .inl hbuffered

theorem Ready.pass (h : Ready x.facts s) (turn : Turn I) :
    (Evidentrail.pass x turn s).Sound x.facts turn.read s.content.length := by
  unfold Evidentrail.pass
  dsimp only
  split
  · exact .inl h.buffered
  rename_i hne
  split
  · exact .inl (h.buffered.agrees ⟨rfl, rfl, rfl, rfl, rfl, rfl⟩)
  rename_i hroom
  have hlt : s.outcome.bytesRead < x.facts.highWaterExclusive := by
    have hread := h.buffered.read
    have hbound := h.buffered.bound
    omega
  split
  · -- the plan admits the whole file
    rename_i hlimit
    have hadmitted := x.facts.highWater_le
    omega
  split
  · exact .inl (h.buffered.observe _)
  rename_i hgoing
  have hread := (s.outcome.agrees_observe (x.checkpoint turn.beforeRead)).1.bytesRead
  exact (h.observe (Bool.not_eq_true _ ▸ hgoing)).readOnce (hread.trans_lt hlt)
    (Nat.not_le.mp hroom) turn

theorem Ready.passes {turns : Nat → Turn I} {fuel n : Nat} (h : Ready x.facts s)
    (hpasses : Evidentrail.passes x turns fuel n s = some s') : Paused x.facts s' := by
  induction fuel generalizing n s with
  | zero => cases hpasses
  | succ fuel ih =>
      have hpass := h.pass (turns n)
      rw [Evidentrail.passes] at hpasses
      cases hflow : Evidentrail.pass x (turns n) s with
      | done last =>
          rw [hflow] at hpass hpasses
          cases hpasses
          exact hpass
      | next next =>
          rw [hflow] at hpass hpasses
          exact ih hpass.1 hpasses

/-- Reads that are not interrupted for ever bring the loop to an end. -/
theorem Ready.ends {turns : Nat → Turn I}
    (hreads : ∀ n, ∃ m, n ≤ m ∧ (turns m).read ≠ .interrupted) (n : Nat) (h : Ready x.facts s) :
    ∃ fuel, (Evidentrail.passes x turns fuel n s).isSome := by
  -- by the bytes that are left, and then by the interruptions before the next read
  induction hleft : x.facts.highWaterExclusive - s.content.length using Nat.strong_induction_on
    generalizing n s with
  | _ left ih =>
      obtain ⟨m, hm, hread⟩ := hreads n
      induction hwait : m - n generalizing n s with
      | zero =>
          have hpass := h.pass (turns n)
          cases hflow : Evidentrail.pass x (turns n) s with
          | done last => exact ⟨1, by rw [Evidentrail.passes, hflow]; rfl⟩
          | next next =>
              rw [hflow] at hpass
              obtain ⟨hready, ⟨hinterrupted, _⟩ | hcontent⟩ := hpass
              · obtain rfl : m = n := by omega
                exact absurd hinterrupted hread
              · have hbound := hready.buffered.bound
                obtain ⟨fuel, hfuel⟩ := ih _ (by omega) (n + 1) hready rfl
                exact ⟨fuel + 1, by rw [Evidentrail.passes, hflow]; exact hfuel⟩
      | succ wait ihwait =>
          have hpass := h.pass (turns n)
          cases hflow : Evidentrail.pass x (turns n) s with
          | done last => exact ⟨1, by rw [Evidentrail.passes, hflow]; rfl⟩
          | next next =>
              rw [hflow] at hpass
              obtain ⟨hready, ⟨_, hcontent⟩ | hcontent⟩ := hpass
              · obtain ⟨fuel, hfuel⟩ := ihwait (n + 1) hready (by rw [hcontent]; exact hleft)
                  (by omega) (by omega)
                exact ⟨fuel + 1, by rw [Evidentrail.passes, hflow]; exact hfuel⟩
              · have hbound := hready.buffered.bound
                obtain ⟨fuel, hfuel⟩ := ih _ (by omega) (n + 1) hready rfl
                exact ⟨fuel + 1, by rw [Evidentrail.passes, hflow]; exact hfuel⟩

/-- The buffer is offered whatever stopped the loop, and marked for what it is. -/
theorem Paused.emitRest (h : Paused x.facts s) (turn : SinkTurn I) :
    ExactStream x.facts (Evidentrail.emitRest x turn s) := by
  unfold Evidentrail.emitRest
  rcases h with h | ⟨hexact, hshut⟩
  · split
    · rename_i hnone
      rcases Bool.or_eq_true_iff.mp hnone with hempty | hshut
      · exact h.exact_of_empty (List.isEmpty_iff.mp hempty)
      · exact h.exact_of_shut rfl hshut
    · rename_i hsome
      rw [Bool.or_eq_true, not_or, Bool.not_eq_true, Bool.not_eq_true] at hsome
      have hrecord : s.record.toList ≠ [] := by
        intro hnil
        rw [hnil] at hsome
        cases hsome.1
      split
      · rename_i hcomplete
        obtain ⟨cursor, hcursor, hemission⟩ := emission (x := x) turn .complete hsome.2
        refine h.exact_of_emission hrecord id rfl hemission (exactBytes_frame _)
          hcursor.symm (iff_of_true rfl ?_) fun _ => rfl
        exact hcomplete.imp suffix_iff_getLast.mp And.left
      · rename_i hfragment
        obtain ⟨cursor, hcursor, hemission⟩ := emission (x := x)
          (s := s.mark fun o => { o with sawFragment := true }) turn
          (.adapterFragment s.outcome.fragmentReason) hsome.2
        refine h.exact_of_emission hrecord _ rfl hemission (exactBytes_frame _) hcursor.symm
          (iff_of_false RecordState.noConfusion fun hcomplete => hfragment ?_) nofun
        -- at the end of the file no read failed and no cap was met
        refine hcomplete.imp suffix_iff_getLast.mpr fun hend => ?_
        obtain ⟨hsource, hcap, herror, heof⟩ := h.atEnd hend
        simp [hend, hsource, hcap, herror, heof]
  · rw [if_pos (by rw [hshut, Bool.or_true])]
    exact hexact

end Passes

/-! ## Finishing -/

theorem StreamOutcomeV1.fullyAcquired_flags {facts : LocalFileExecutionFactsV1}
    {a : ExecutionAccountingV1} {o : StreamOutcomeV1} (h : o.fullyAcquired facts a = true) :
    a.acknowledgedSourceBytes = facts.highWaterExclusive ∧ o.sawFragment = false ∧
      o.postSnapshotVerified = true ∧ ∀ usage ∈ o.capUsage facts a, usage.reached = false := by
  simp only [fullyAcquired, Bool.and_eq_true, decide_eq_true_eq, Bool.not_eq_true'] at h
  obtain ⟨⟨⟨⟨⟨⟨⟨⟨⟨⟨⟨⟨⟨_, hbytes⟩, hsource⟩, hrecord⟩, hcount⟩, _⟩, hwall⟩, _⟩, _⟩, hfragment⟩, _⟩,
    _⟩, hverified⟩, _⟩ := h
  refine ⟨hbytes, hfragment, hverified, ?_⟩
  simp [capUsage, hsource, hrecord, hcount, hwall]

theorem endTiming_le (startedAt : UnixTimestampNanos) (observed : Option UnixTimestampNanos) :
    startedAt.get ≤ (endTiming startedAt observed).1.get := by
  unfold endTiming
  split
  · split
    · assumption
    · exact le_rfl
  · exact le_rfl

theorem completion_ok (facts : LocalFileExecutionFactsV1) {a : ExecutionAccountingV1}
    (o : StreamOutcomeV1) (timing : FetchTiming)
    (htiming : timing.startedAt.get ≤ timing.endedAt.get)
    (hpayload : a.acknowledgedPayloadBytes ≤ a.acknowledgedSourceBytes)
    (marks : List HighWaterMark) :
    ∃ completion, o.completion facts a timing marks = .ok completion ∧
      (completion.completeness.isComplete = true → o.fullyAcquired facts a = true) := by
  unfold StreamOutcomeV1.completion
  dsimp only
  split
  · rename_i hfull
    have hcaps := (StreamOutcomeV1.fullyAcquired_flags hfull).2.2.2
    obtain ⟨completion, hnew, _⟩ : ∃ completion, FetchCompletion.new facts.fetchIdentity timing
        a.acknowledged ⟨1, 1⟩ ⟨0, 0⟩ ⟨a.firstCursor, a.finalCursor, marks⟩ (o.capUsage facts a)
        .finished [] (.complete .plannedUnixFileSnapshotVerifiedV1) = .ok completion ∧ _ :=
      FetchCompletion.exists_new htiming le_rfl le_rfl hpayload
        fun _ => ⟨rfl, rfl, hcaps, rfl, rfl⟩
    exact ⟨completion, hnew, fun _ => hfull⟩
  · obtain ⟨completion, hnew, hunfinished⟩ : ∃ completion, FetchCompletion.new facts.fetchIdentity
        timing a.acknowledged ⟨1, 0⟩ ⟨0, 0⟩ ⟨a.firstCursor, a.finalCursor, marks⟩
        (o.capUsage facts a) o.adapterOutcome o.errorCodes (.partialFetch o.reasons none) =
          .ok completion ∧ _ :=
      FetchCompletion.exists_new htiming (Nat.zero_le _) le_rfl hpayload nofun
    refine ⟨completion, hnew, fun hcomplete => ?_⟩
    rw [hunfinished] at hcomplete
    cases hcomplete

theorem finishExecution_ok (facts : LocalFileExecutionFactsV1) {a : ExecutionAccountingV1}
    (o : StreamOutcomeV1) (timing : FetchTiming)
    (htiming : timing.startedAt.get ≤ timing.endedAt.get)
    (hpayload : a.acknowledgedPayloadBytes ≤ a.acknowledgedSourceBytes) :
    ∃ completion, finishExecution facts a o timing = some (.ok completion) ∧
      (completion.completeness.isComplete = true → o.fullyAcquired facts a = true) := by
  unfold finishExecution
  split
  · obtain ⟨cursor, hcursor⟩ : ∃ cursor, positionCursor facts.highWaterExclusive = some cursor := by
      unfold positionCursor OpaqueBytes.new
      rw [dif_pos (by simp)]
      exact ⟨_, rfl⟩
    obtain ⟨completion, hok, hfull⟩ :=
      completion_ok facts o timing htiming hpayload [⟨facts.sourceMember, cursor⟩]
    refine ⟨completion, ?_, hfull⟩
    rw [hcursor, Option.map_some, hok]
  · obtain ⟨completion, hok, hfull⟩ := completion_ok facts o timing htiming hpayload []
    exact ⟨completion, congrArg some hok, hfull⟩

section Streams

theorem ready_start {facts : LocalFileExecutionFactsV1} {checkpoint : CheckpointV1}
    (hgoing : (({} : Session).observe checkpoint).outcome.stopContentReads = false) :
    Ready facts (({} : Session).observe checkpoint) := by
  have hbuffered : Buffered facts {} := by
    refine ⟨acknowledged_empty _, ?_, rfl, ?_, rfl, Nat.zero_le _, List.not_mem_nil, Nat.zero_le _,
      ?_, rfl, fun _ => ⟨rfl, rfl, rfl, rfl⟩⟩
    · intro e he
      cases he
    · exact fun hne => absurd rfl hne
    · exact fun hne => absurd rfl hne
  have hready : Ready facts {} :=
    ⟨hbuffered, rfl, List.not_mem_nil, fun _ => facts.caps.perRecordBytes_pos⟩
  exact hready.observe hgoing

/-- The comparison behind the stream finds nothing. -/
theorem ExactStream.not_lostBytes {facts : LocalFileExecutionFactsV1} {s : Session}
    (h : ExactStream facts s) :
    s.outcome.lostBytes s.accounting = false := by
  unfold StreamOutcomeV1.lostBytes
  cases hsink : s.outcome.sinkStopped with
  | true => rfl
  | false =>
      cases hadapter : s.outcome.adapterStopped with
      | true => rfl
      | false =>
          have hall := h.all (by rw [StreamOutcomeV1.sinkUnavailable, hsink, hadapter]; rfl)
          rw [h.read, h.acknowledged.sourceBytes, hall]
          simp

theorem ExactStream.finish {I : Type} [LinearOrder I] {x : ExecutionV1 I} {s : Session}
    (h : ExactStream x.facts s) (startedAt : UnixTimestampNanos) (inputs : FinalInputs I) :
    ∃ completion, finishStream x startedAt inputs s = some (.ok completion) ∧
      (completion.completeness.isComplete = true →
        s.accounting.bytes.length = x.facts.highWaterExclusive ∧
        (∀ e ∈ s.accounting.envelopes, e.state = .complete) ∧
        inputs.descriptorsValid s.outcome.bytesRead = true) := by
  unfold finishStream
  dsimp only
  rw [if_neg (by rw [h.not_lostBytes]; exact Bool.false_ne_true)]
  obtain ⟨completion, hok, hfull⟩ := finishExecution_ok x.facts (a := s.accounting) _
    ⟨startedAt, (endTiming startedAt inputs.wallClock).1⟩
    (endTiming_le startedAt inputs.wallClock) h.acknowledged.payload_le
  refine ⟨completion, hok, fun hcomplete => ?_⟩
  obtain ⟨hbytes, hfragment, hverified, _⟩ := StreamOutcomeV1.fullyAcquired_flags (hfull hcomplete)
  obtain ⟨hagrees, hsame⟩ := StreamOutcomeV1.agrees_final s.outcome
    (inputs.descriptorsValid s.outcome.bytesRead) (x.checkpoint inputs.final)
  refine ⟨?_, h.fragments (hagrees.symm.trans hfragment), hsame.symm.trans hverified⟩
  rw [← h.acknowledged.sourceBytes]
  exact hbytes

variable [Sha256] {I : Type} [LinearOrder I] {x : ExecutionV1 I} {s : Session}

theorem stream_exactStream {inputs : StreamInputs I} {fuel : Nat}
    (h : streamExactSnapshot x inputs fuel = some s) : ExactStream x.facts s := by
  unfold streamExactSnapshot at h
  dsimp only at h
  split at h
  · cases h
    refine ⟨acknowledged_empty _, ?_, List.prefix_rfl, fun _ => rfl, ?_, Nat.zero_le _, ?_⟩
    · intro e he
      cases he
    · exact (StreamOutcomeV1.agrees_observe {} _).1.bytesRead
    · intro _ e he
      cases he
  · rename_i hgoing
    obtain ⟨paused, hpasses, rfl⟩ := Option.map_eq_some_iff.mp h
    exact ((ready_start (Bool.not_eq_true _ ▸ hgoing)).passes hpasses).emitRest _

theorem stream_ends {inputs : StreamInputs I}
    (hreads : ∀ n, ∃ m, n ≤ m ∧ (inputs.turns m).read ≠ .interrupted) :
    ∃ fuel, (streamExactSnapshot x inputs fuel).isSome := by
  unfold streamExactSnapshot
  dsimp only
  split
  · exact ⟨0, rfl⟩
  · rename_i hgoing
    obtain ⟨fuel, hfuel⟩ :=
      (ready_start (Bool.not_eq_true _ ▸ hgoing)).ends hreads 0
    exact ⟨fuel, by rw [Option.isSome_map]; exact hfuel⟩

/-- For every course of reads, checkpoints and answers of the sink: what the
stream leaves is an exact prefix of the bytes that were read, the comparison
behind it finds nothing, and a completion is built, which is complete only if
the whole file was acknowledged without a fragment and the descriptors were
found unchanged. The stream ends unless reads are interrupted for ever. -/
theorem local_file_exact (x : ExecutionV1 I) (inputs : StreamInputs I) :
    (∀ fuel s, streamExactSnapshot x inputs fuel = some s →
      ExactStream x.facts s ∧ s.outcome.lostBytes s.accounting = false ∧
      ∀ startedAt final, ∃ completion, finishStream x startedAt final s = some (.ok completion) ∧
        (completion.completeness.isComplete = true →
          s.accounting.bytes.length = x.facts.highWaterExclusive ∧
          (∀ e ∈ s.accounting.envelopes, e.state = .complete) ∧
          final.descriptorsValid s.outcome.bytesRead = true)) ∧
    ((∀ n, ∃ m, n ≤ m ∧ (inputs.turns m).read ≠ .interrupted) →
      ∃ fuel, (streamExactSnapshot x inputs fuel).isSome) := by
  refine ⟨fun fuel s h => ?_, stream_ends⟩
  have hexact := stream_exactStream h
  exact ⟨hexact, hexact.not_lostBytes, fun startedAt final => hexact.finish startedAt final⟩

end Streams

/-! ## A file of two lines -/

def twoLines : ExecutionV1 Nat where
  facts := {
    fetchIdentity := replayIdentity
    sourceIdentityDigest := .repeated 4
    sourceMember := ⟨⟨[102], by decide⟩, by decide⟩
    highWaterExclusive := 3
    caps := ⟨8, 4, 2, 100, by decide, by decide, by decide, by decide, by decide, by decide,
      by decide, by decide, by decide⟩
    highWater_le := by decide }
  elapsedMillis start now := some (now - start)
  deadline := ⟨0, 100, 100⟩

/-- A sink that persists what it is given. -/
def persisting [Sha256] : SinkTurn Nat where
  before := ⟨false, 1⟩
  accept e := some ⟨e.identity.retrievalId, sourceRecordId e, e.ordering.acquisitionSequence,
    e.record.sourceLen, .persisted (.repeated 6) .sourceExact⟩
  after := ⟨false, 1⟩

/-- The second read is interrupted. -/
def twoLinesRead [Sha256] : StreamInputs Nat where
  initial := ⟨false, 0⟩
  turns n := ⟨⟨false, 1⟩, match n with
    | 0 => .byte 97
    | 1 => .interrupted
    | 2 => .byte 10
    | _ => .byte 98, ⟨false, 1⟩, persisting⟩
  last := persisting

theorem local_file_exact_two_lines :
    letI := fips180
    ∃ s, streamExactSnapshot twoLines twoLinesRead 6 = some s ∧ ExactStream twoLines.facts s ∧
      s.accounting.envelopes.map (fun e => (e.record.exactBytes, e.state)) =
        [([97, 10], .complete), ([98], .complete)] ∧
      (∃ fuel, (streamExactSnapshot twoLines twoLinesRead fuel).isSome) := by
  rw [fips180_eq]
  let := fips180Evaluated
  have hrun : (streamExactSnapshot twoLines twoLinesRead 6).any (fun s =>
      s.accounting.envelopes.map (fun e => (e.record.exactBytes, e.state)) =
        [([97, 10], .complete), ([98], .complete)]) = true := by decide +kernel
  obtain ⟨s, hs, hrecords⟩ := (Option.any_eq_true _ _).mp hrun
  refine ⟨s, hs, ((local_file_exact twoLines twoLinesRead).1 6 s hs).1, of_decide_eq_true hrecords,
    (local_file_exact twoLines twoLinesRead).2 fun n => ⟨n + 2, Nat.le_add_right _ _, ?_⟩⟩
  rcases n with _ | n <;> exact ReadResult.noConfusion

end Evidentrail
