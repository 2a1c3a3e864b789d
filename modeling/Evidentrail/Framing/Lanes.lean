import Evidentrail.Framing.Framer

/-!
# Lanes do not see each other

What the framer makes of a lane depends on the records of the lane alone: their
payloads, terminators and states, their lane sequences and the adapter's
monotonic clock. The other lanes decide where a record stands in the ledger, and
reconciliation sorts by that, but it keeps the order inside a lane
(`frame_lane_independent`).

The proof relates two lists of events record by record (`Event.Alike`), shows
that every decision of the framer is the same on both, and follows the blocks of
one lane through reconciliation.
-/

namespace Evidentrail

open Rust Std

/-! ## Records of a lane -/

/-- What the framer may look at in an event. -/
structure LaneRecord where
  payload : List UInt8
  terminator : Option (List UInt8)
  recordState : RecordState
  laneSequence : LaneSequence
  adapterMonotonicTime : Option MonotonicTimestampNanos
deriving DecidableEq

namespace Event

def laneRecord (event : Event) : LaneRecord :=
  ⟨event.payload, event.terminator, event.recordState, event.laneSequence,
    event.timestamps.adapterMonotonicTime⟩

/-- The bytes of an event are its payload and its terminator. -/
def IsExact (event : Event) : Prop :=
  event.raw = event.payload ++ event.terminator.getD []

/-- Events with one record. -/
structure Alike (a b : Event) : Prop where
  record : a.laneRecord = b.laneRecord
  length : a.raw.length = b.raw.length

namespace Alike

variable {a b : Event}

theorem of_record (ha : a.IsExact) (hb : b.IsExact) (h : a.laneRecord = b.laneRecord) :
    a.Alike b := by
  refine ⟨h, ?_⟩
  have hpayload : a.payload = b.payload := congrArg LaneRecord.payload h
  have hterminator : a.terminator = b.terminator := congrArg LaneRecord.terminator h
  rw [ha, hb, hpayload, hterminator]

theorem payload (h : a.Alike b) : a.payload = b.payload :=
  congrArg LaneRecord.payload h.record

theorem terminator (h : a.Alike b) : a.terminator = b.terminator :=
  congrArg LaneRecord.terminator h.record

theorem recordState (h : a.Alike b) : a.recordState = b.recordState :=
  congrArg LaneRecord.recordState h.record

theorem laneSequence (h : a.Alike b) : a.laneSequence = b.laneSequence :=
  congrArg LaneRecord.laneSequence h.record

theorem adapterMonotonicTime (h : a.Alike b) :
    a.timestamps.adapterMonotonicTime = b.timestamps.adapterMonotonicTime :=
  congrArg LaneRecord.adapterMonotonicTime h.record

end Alike

end Event

/-! ## Events of a ledger -/

section Exact

variable [Sha256]

theorem LedgerBuilder.isExact_authorizedEvent (b : LedgerBuilder) (envelope : RawEnvelopeV1)
    (record : RecordBytes) (basis : ExactnessBasis) (ordinal : Nat) :
    (b.authorizedEvent envelope record basis ordinal).IsExact := by
  have hpayload : record.exactBytes.take record.payloadLen = record.payload :=
    List.take_left
  have hrest : record.exactBytes.drop record.payloadLen = record.terminator.getD [] :=
    List.drop_left
  rw [Event.IsExact, Event.payload, Event.terminator]
  simp only [authorizedEvent, hpayload, hrest]
  rw [RecordBytes.exactBytes, RecordBytes.terminatorLen]
  cases record.terminator with
  | none => rfl
  | some terminator =>
      rw [Option.map_some, Option.map_some, Option.getD_some, Option.getD_some, List.take_length]

/-- A call adds no event or one that was authorized. -/
theorem LedgerBuilder.forall_accept {motive : Event → Prop}
    (hauthorized : ∀ (b : LedgerBuilder) envelope record basis ordinal,
      motive (b.authorizedEvent envelope record basis ordinal))
    {b : LedgerBuilder} {envelope : RawEnvelopeV1} (h : ∀ event ∈ b.events, motive event) :
    ∀ event ∈ (b.accept envelope).2.events, motive event := by
  have hrecord : ∀ {s : Staged}, b.stage envelope = .ok s →
      ∀ event ∈ b.events ++ s.authorized.event.toList, motive event := by
    intro s hstage event hevent
    rcases List.mem_append.mp hevent with hold | hnew
    · exact h event hold
    · obtain ⟨_, _, hnone⟩ | ⟨record, basis, receipt, _, _, _, hsome⟩ :=
        authorize_cases (stage_eq_ok hstage).authorized
      · rw [hnone] at hnew
        cases hnew
      · rw [hsome, Option.toList_some, List.mem_singleton] at hnew
        rw [hnew]
        exact hauthorized b envelope record basis _
  obtain ⟨error, _, heq⟩ | ⟨s, receipt, _, _, _, heq⟩ | ⟨s, receipt, hstage, _, _, heq⟩ |
    ⟨s, hstage, _, heq⟩ := b.accept_cases envelope
  · rw [heq]
    exact h
  · rw [heq]
    exact h
  · rw [heq]
    exact hrecord hstage
  · rw [heq]
    exact hrecord hstage

theorem LedgerBuilder.forall_runAll {motive : Event → Prop}
    (hauthorized : ∀ (b : LedgerBuilder) envelope record basis ordinal,
      motive (b.authorizedEvent envelope record basis ordinal))
    (es : List RawEnvelopeV1) {b : LedgerBuilder} (h : ∀ event ∈ b.events, motive event) :
    ∀ event ∈ (b.runAll es).events, motive event := by
  induction es generalizing b with
  | nil => exact h
  | cons envelope rest ih => exact ih (forall_accept hauthorized h)

/-- What holds of every authorized event at every ordinal holds of the events of
a ledger. -/
theorem EventLedger.Obtained.forall_events {ledger : EventLedger} (h : ledger.Obtained)
    {motive : Event → Prop}
    (hauthorized : ∀ (b : LedgerBuilder) envelope record basis ordinal,
      motive (b.authorizedEvent envelope record basis ordinal))
    (hordinal : ∀ event ordinal, motive event → motive { event with ordinal := ordinal }) :
    ∀ event ∈ ledger.events, motive event := by
  induction h with
  | ofSeal identity digest policy projection es completion ledger hseal =>
      have hinv := LedgerBuilder.inv_runAll identity digest policy projection es
      rw [(hinv.sealed hseal).events]
      refine LedgerBuilder.forall_runAll hauthorized es ?_
      cases projection <;> exact fun event hevent => absurd hevent List.not_mem_nil
  | ofProjection ledger projected positions hok _ ih =>
      unfold EventLedger.analysisProjectionV3 at hok
      split at hok
      · cases hok
      rename_i events hevents
      split at hok
      · cases hok
      cases hok
      intro event hevent
      obtain ⟨⟨sources, hsub, hrenumbered⟩, _⟩ := EventLedger.projectEvents_eq_ok hevents
      obtain ⟨source, hsource, ordinal, rfl⟩ := EventLedger.exists_source hrenumbered event hevent
      exact hordinal source ordinal (ih source (hsub.subset hsource))

theorem EventLedger.Obtained.isExact {ledger : EventLedger} (h : ledger.Obtained) :
    ∀ event ∈ ledger.events, event.IsExact :=
  h.forall_events LedgerBuilder.isExact_authorizedEvent fun _ _ hexact => hexact

/-- A payload is no longer than a vector can be. -/
theorem EventLedger.Obtained.payload_lt {ledger : EventLedger} (h : ledger.Obtained) :
    ∀ event ∈ ledger.events, event.payload.length < 2 ^ 63 :=
  h.forall_events
    (fun _ _ record _ _ => Nat.lt_of_le_of_lt (List.length_take_le ..) record.payloadLen_lt)
    fun _ _ hlt => hlt

end Exact

/-! ## Decisions on alike events -/

section Decisions

open Event

variable {event event' previous previous' : Event} {next next' : Option Event}

theorem isJoinableLine_alike (h : event.Alike event') :
    isJoinableLine event = isJoinableLine event' := by
  simp only [isJoinableLine, h.payload, h.terminator, h.recordState]

theorem joinablePayload_alike (h : Option.Rel Alike next next') :
    joinablePayload next = joinablePayload next' := by
  cases h with
  | none => rfl
  | some h =>
      simp only [joinablePayload, Option.filter_some, isJoinableLine_alike h]
      split
      · simp only [Option.map_some, h.payload]
      · rfl

theorem recognizedStart_alike (h : event.Alike event') (hnext : Option.Rel Alike next next') :
    recognizedStart event next = recognizedStart event' next' := by
  simp only [recognizedStart, isJoinableLine_alike h, h.payload, joinablePayload_alike hnext]

theorem recognizedContinuation_alike (state : RecognitionState) (h : event.Alike event')
    (hnext : Option.Rel Alike next next') :
    recognizedContinuation state event next = recognizedContinuation state event' next' := by
  simp only [recognizedContinuation, isJoinableLine_alike h, h.payload,
    joinablePayload_alike hnext]

theorem monotonicRelation_alike (hprevious : previous.Alike previous') (h : event.Alike event') :
    monotonicRelation previous event = monotonicRelation previous' event' := by
  simp only [monotonicRelation, hprevious.laneSequence, h.laneSequence,
    hprevious.adapterMonotonicTime, h.adapterMonotonicTime]

/-- The lookahead is eligible in both runs or in none. -/
theorem eligibleLookahead_alike (recognition : RecognitionState) (bytes length : Nat)
    (h : event.Alike event') (hnext : Option.Rel Alike next next') :
    Option.Rel Alike (eligibleLookahead recognition bytes length event next)
      (eligibleLookahead recognition bytes length event' next') := by
  cases hnext with
  | none => exact .none
  | some hnext =>
      simp only [eligibleLookahead, monotonicRelation_alike h hnext, h.length, hnext.length,
        recognizedContinuation_alike recognition hnext .none]
      split
      · exact .none
      · split
        · exact .none
        · split
          · exact .none
          · split
            · exact .none
            · split
              · exact .none
              · split
                · exact .some hnext
                · exact .none

theorem head?_alike {events events' : List Event} (h : List.Forall₂ Alike events events') :
    Option.Rel Alike events.head? events'.head? := by
  cases h with
  | nil => exact .none
  | cons h _ => exact .some h

/-- A block grows alike, whatever it is called and wherever it stands. -/
theorem growBlock_alike {rest rest' : List Event} (h : List.Forall₂ Alike rest rest') :
    ∀ {recognition : RecognitionState} {bytes length : Nat} {timing : Bool}
      {previous previous' : Event}, previous.Alike previous' →
      growBlock recognition bytes length timing previous rest =
        growBlock recognition bytes length timing previous' rest' := by
  induction h with
  | nil => exact fun _ => rfl
  | cons hcandidate hrest ih =>
      intro recognition bytes length timing previous previous' hprevious
      have hlookahead := recognizedContinuation_alike recognition hcandidate
        (eligibleLookahead_alike recognition bytes length hcandidate (head?_alike hrest))
      simp only [growBlock, monotonicRelation_alike hprevious hcandidate, hlookahead,
        hcandidate.length, ih hcandidate]

theorem growFrom_alike {rest rest' : List Event} (h : event.Alike event')
    (hrest : List.Forall₂ Alike rest rest') : growFrom event rest = growFrom event' rest' := by
  simp only [growFrom, recognizedStart_alike h (head?_alike hrest), h.length,
    growBlock_alike hrest h]

theorem isProviderAtomic_alike (h : event.Alike event') :
    isProviderAtomic event = isProviderAtomic event' := by
  rw [isProviderAtomic, h.recordState, h.terminator, h.payload]
  rfl

theorem isOpaqueLine_alike (h : event.Alike event') : isOpaqueLine event = isOpaqueLine event' := by
  rw [isOpaqueLine, h.payload]
  rfl

theorem looksLikeOrphanContinuation_alike (h : event.Alike event') :
    looksLikeOrphanContinuation event = looksLikeOrphanContinuation event' := by
  rw [looksLikeOrphanContinuation, isJoinableLine_alike h, h.payload]
  rfl

theorem blockClassification_alike {grown : Grown} (h : event.Alike event')
    (hnext : Option.Rel Alike next next') :
    blockClassification grown event next = blockClassification grown event' next' := by
  rw [blockClassification, singletonClassification, h.recordState, isProviderAtomic_alike h,
    recognizedStart_alike h hnext, looksLikeOrphanContinuation_alike h, isOpaqueLine_alike h,
    isJoinableLine_alike h]
  rfl

end Decisions

/-! ## The blocks of a lane -/

/-- The loop of `frameLane`, with the events of a block beside its assignment. -/
def laneBlocks (lane : LaneKey) (policy : FramingPolicy) (skip : Nat) :
    List Event → Except SourceLaneFramingError (List (BlockAssignment × List Event))
  | [] => .ok []
  | event :: rest =>
      match skip with
      | skip + 1 => laneBlocks lane policy skip rest
      | 0 =>
          match growFrom event rest with
          | .error error => .error error
          | .ok grown =>
              match laneBlocks lane policy (grown.length - 1) rest with
              | .error error => .error error
              | .ok blocks =>
                  .ok ((assignment lane ((event :: rest).take grown.length) policy
                    (blockClassification grown event rest.head?),
                      (event :: rest).take grown.length) :: blocks)

/-- A block as its lane sees it. -/
def observedBlock (block : BlockAssignment × List Event) :
    Option (List LaneRecord) × BlockState × BlockConfidence :=
  (some (block.2.map Event.laneRecord), block.1.state, block.1.confidence)

theorem frameLane_eq_laneBlocks (lane : LaneKey) (policy : FramingPolicy) (events : List Event) :
    ∀ (skip : Nat) {assignments : List BlockAssignment},
      frameLane lane policy skip events = .ok assignments →
        ∃ blocks, laneBlocks lane policy skip events = .ok blocks ∧
          assignments = blocks.map (·.1) := by
  induction events with
  | nil =>
      intro skip assignments h
      cases h
      exact ⟨[], rfl, rfl⟩
  | cons event rest ih =>
      intro skip assignments h
      cases skip with
      | succ skip => exact ih skip h
      | zero =>
          simp only [frameLane] at h
          split at h
          · cases h
          rename_i grown hgrown
          split at h
          · cases h
          rename_i later hlater
          cases h
          obtain ⟨blocks, hblocks, rfl⟩ := ih _ hlater
          refine ⟨(_, (event :: rest).take grown.length) :: blocks, ?_, rfl⟩
          simp only [laneBlocks, hgrown, hblocks]
          rfl

/-- A block that grows does not shrink. -/
theorem le_length_of_growBlock {rest : List Event} : ∀ {recognition : RecognitionState}
    {bytes length : Nat} {timing : Bool} {previous : Event} {grown : Grown},
    growBlock recognition bytes length timing previous rest = .ok grown →
      length ≤ grown.length := by
  induction rest with
  | nil =>
      intro recognition bytes length timing previous grown h
      cases h
      exact Nat.le_refl _
  | cons candidate rest ih =>
      intro recognition bytes length timing previous grown h
      simp only [growBlock] at h
      split at h
      · cases h
        exact Nat.le_refl _
      split at h
      · cases h
        exact Nat.le_refl _
      split at h
      · cases h
        exact Nat.le_refl _
      split at h
      · cases h
      split at h
      · cases h
        exact Nat.le_refl _
      · exact Nat.le_of_succ_le (ih h)

theorem length_pos_of_growFrom {event : Event} {rest : List Event} {grown : Grown}
    (h : growFrom event rest = .ok grown) : 0 < grown.length := by
  unfold growFrom at h
  split at h
  · cases h
    exact Nat.one_pos
  · split at h
    · cases h
      exact Nat.one_pos
    · exact le_length_of_growBlock h

/-- A block of these events of its lane. -/
structure Holds (lane : LaneKey) (block : BlockAssignment × List Event) : Prop where
  lane : block.1.lane = lane
  members : block.1.members = block.2.map fun event => (event.id, event.laneSequence)
  nonempty : block.2 ≠ []

theorem laneBlocks_eq_ok {lane : LaneKey} {policy : FramingPolicy} {events : List Event} :
    ∀ {skip : Nat} {blocks : List (BlockAssignment × List Event)},
      laneBlocks lane policy skip events = .ok blocks →
        (∀ block ∈ blocks, Holds lane block) ∧ blocks.flatMap (·.2) = events.drop skip := by
  induction events with
  | nil =>
      intro skip blocks h
      cases h
      simp
  | cons event rest ih =>
      intro skip blocks h
      cases skip with
      | succ skip => exact ih h
      | zero =>
          simp only [laneBlocks] at h
          split at h
          · cases h
          rename_i grown hgrown
          split at h
          · cases h
          rename_i later hlater
          cases h
          obtain ⟨hholds, hflat⟩ := ih hlater
          obtain ⟨n, hn⟩ := Nat.exists_eq_succ_of_ne_zero (length_pos_of_growFrom hgrown).ne'
          refine ⟨List.forall_mem_cons.mpr ⟨⟨rfl, rfl, ?_⟩, hholds⟩, ?_⟩
          · rw [hn, List.take_succ_cons]
            exact List.cons_ne_nil _ _
          · rw [List.flatMap_cons, hflat, hn]
            exact List.take_append_drop (n + 1) (event :: rest)

theorem map_laneRecord_alike {events events' : List Event}
    (h : List.Forall₂ Event.Alike events events') :
    events.map Event.laneRecord = events'.map Event.laneRecord := by
  induction h with
  | nil => rfl
  | cons h _ ih => rw [List.map_cons, List.map_cons, h.record, ih]

/-- Two runs over alike events observe the same blocks. -/
theorem laneBlocks_alike {lane : LaneKey} {policy : FramingPolicy} {events events' : List Event}
    (h : List.Forall₂ Event.Alike events events') :
    ∀ {skip : Nat} {blocks blocks' : List (BlockAssignment × List Event)},
      laneBlocks lane policy skip events = .ok blocks →
      laneBlocks lane policy skip events' = .ok blocks' →
        blocks.map observedBlock = blocks'.map observedBlock := by
  induction h with
  | nil =>
      intro skip blocks blocks' hblocks hblocks'
      cases hblocks
      cases hblocks'
      rfl
  | cons hevent hrest ih =>
      intro skip blocks blocks' hblocks hblocks'
      cases skip with
      | succ skip => exact ih hblocks hblocks'
      | zero =>
          simp only [laneBlocks, growFrom_alike hevent hrest] at hblocks hblocks'
          split at hblocks
          · cases hblocks
          rename_i grown hgrown
          simp only [hgrown] at hblocks'
          split at hblocks
          · cases hblocks
          rename_i later hlater
          split at hblocks'
          · cases hblocks'
          rename_i later' hlater'
          cases hblocks
          cases hblocks'
          have hhead := map_laneRecord_alike
            (List.forall₂_take grown.length (List.Forall₂.cons hevent hrest))
          simp only [List.map_cons, observedBlock, ih hlater hlater', assignment,
            BlockAssignment.newSameLaneV1, hhead,
            blockClassification_alike hevent (head?_alike hrest)]

/-! ## The lanes of a ledger -/

/-- Every lane is framed by itself, and lanes with no events have no blocks. -/
theorem frameLanes_eq_laneBlocks {policy : FramingPolicy} :
    ∀ {lanes : List (LaneKey × List Event)} {assignments : List BlockAssignment},
      lanes.Pairwise (fun a b => a.1 ≠ b.1) → frameLanes policy lanes = .ok assignments →
        ∃ blocks : List (BlockAssignment × List Event), assignments = blocks.map (·.1) ∧
          ∀ lane, laneBlocks lane policy 0 ((lanes.filter (·.1 = lane)).flatMap (·.2)) =
            .ok (blocks.filter (·.1.lane = lane))
  | [], assignments, _, h => by
      cases h
      exact ⟨[], rfl, fun lane => rfl⟩
  | (key, events) :: rest, assignments, hdistinct, h => by
      obtain ⟨hkey, hrest⟩ := List.pairwise_cons.mp hdistinct
      simp only [frameLanes] at h
      split at h
      · cases h
      rename_i first hfirst
      split at h
      · cases h
      rename_i later hlater
      cases h
      obtain ⟨blocks, hblocks, rfl⟩ := frameLane_eq_laneBlocks key policy events 0 hfirst
      obtain ⟨others, rfl, hothers⟩ := frameLanes_eq_laneBlocks hrest hlater
      refine ⟨blocks ++ others, by rw [List.map_append], fun lane => ?_⟩
      have hholds := (laneBlocks_eq_ok hblocks).1
      rw [List.filter_append]
      by_cases hlane : key = lane
      · have hall : blocks.filter (·.1.lane = lane) = blocks := by
          rw [List.filter_eq_self]
          intro block hblock
          simpa [(hholds block hblock).lane] using hlane
        have hnone : rest.filter (·.1 = lane) = [] := by
          rw [List.filter_eq_nil_iff]
          intro entry hentry
          simpa using fun heq => hkey entry hentry (hlane.trans heq.symm)
        have hlast := hothers lane
        rw [hnone, List.flatMap_nil] at hlast
        rw [hall, List.filter_cons_of_pos (by simpa using hlane), hnone, List.flatMap_cons,
          List.flatMap_nil, List.append_nil, ← Except.ok.inj hlast, List.append_nil, ← hlane]
        exact hblocks
      · have hnone : blocks.filter (·.1.lane = lane) = [] := by
          rw [List.filter_eq_nil_iff]
          intro block hblock
          simpa [(hholds block hblock).lane] using hlane
        rw [hnone, List.nil_append, List.filter_cons_of_neg (by simpa using hlane)]
        exact hothers lane

/-! ## Two ledgers -/

/-- The blocks of a lane, in order: their records, states and confidences. -/
def BlockIndex.laneGroups (index : BlockIndex) (lane : LaneKey) :
    List (Option (List LaneRecord) × BlockState × BlockConfidence) :=
  (index.blocks.filter (·.lane = lane)).map fun block =>
    ((index.expansion block).map (·.map Event.laneRecord), block.state, block.confidence)

theorem alike_of_laneRecords {events events' : List Event} (h : ∀ event ∈ events, event.IsExact)
    (h' : ∀ event ∈ events', event.IsExact)
    (hrecords : events.map Event.laneRecord = events'.map Event.laneRecord) :
    List.Forall₂ Event.Alike events events' := by
  induction events generalizing events' with
  | nil =>
      rw [List.map_nil, eq_comm, List.map_eq_nil_iff] at hrecords
      rw [hrecords]
      exact .nil
  | cons event rest ih =>
      cases events' with
      | nil => cases hrecords
      | cons event' rest' =>
          rw [List.map_cons, List.map_cons, List.cons.injEq] at hrecords
          obtain ⟨hevent, hrest⟩ := List.forall_mem_cons.mp h
          obtain ⟨hevent', hrest'⟩ := List.forall_mem_cons.mp h'
          exact .cons (.of_record hevent hevent' hrecords.1) (ih hrest hrest' hrecords.2)

section Independence

variable [Sha256]

/-- A lane's blocks are what the loop over the lane makes of its events. -/
theorem expansions_eq_laneBlocks {ledger : EventLedger} (h : ledger.Indexed) {index : BlockIndex}
    (hok : frameSourceLanesV1 ledger = .ok index) (lane : LaneKey) :
    ∃ blocks, laneBlocks lane sourceLaneFramingPolicyV1 0 (ledger.laneEvents lane) = .ok blocks ∧
      (index.blocks.filter (·.lane = lane)).map (fun block =>
          (index.expansion block, block.state, block.confidence)) =
        blocks.map fun block => (some block.2, block.1.state, block.1.confidence) := by
  unfold frameSourceLanesV1 at hok
  split at hok
  · cases hok
  rename_i assignments hassignments
  split at hok
  · cases hok
  rename_i accepted hreconcile
  cases hok
  obtain ⟨blocks, rfl, hlanes⟩ :=
    frameLanes_eq_laneBlocks (nodup_keys_groupLanes ledger) hassignments
  simp only [flatMap_filter_groupLanes] at hlanes
  obtain ⟨hledger, hcandidates⟩ := BlockIndex.reconcile_candidates h hreconcile
  have hown : ∀ block ∈ blocks, Holds block.1.lane block := fun block hblock =>
    (laneBlocks_eq_ok (hlanes block.1.lane)).1 block
      (List.mem_filter.mpr ⟨hblock, decide_eq_true rfl⟩)
  have hflat : ∀ key, (blocks.filter (·.1.lane = key)).flatMap (·.2) = ledger.laneEvents key :=
    fun key => (laneBlocks_eq_ok (hlanes key)).2
  have hplaced : ∀ block ∈ blocks, BlockIndex.placed ledger block.1 = block.2.map ledger.pos := by
    intro block hblock
    rw [BlockIndex.placed, (hown block hblock).members, List.map_map]
    rfl
  have hproposals : ((blocks.map (·.1)).map fun a =>
      BlockIndex.candidate ledger a (BlockIndex.placed ledger a)) =
        blocks.map fun p => BlockIndex.candidate ledger p.1 (p.2.map ledger.pos) := by
    rw [List.map_map]
    refine List.map_congr_left fun block hblock => ?_
    rw [Function.comp_apply, hplaced block hblock]
  rw [BlockIndex.candidates, hproposals] at hcandidates
  have hsorted := sortCandidates_filter_lane h (fun block hblock => (hown block hblock).nonempty)
    hflat lane
  refine ⟨_, hlanes lane, ?_⟩
  -- the expansions depend on the candidates, and those of a lane keep their order
  have hexpansions : (index.blocks.filter (·.lane = lane)).map (fun block =>
        (index.expansion block, block.state, block.confidence)) =
      ((index.blocks.map BlockIndex.toCandidate).filter (·.lane = lane)).map fun c =>
        (c.memberPositions.mapM (index.ledger.events[·]?), c.state, c.confidence) := by
    rw [List.filter_map, List.map_map]
    rfl
  rw [hexpansions, hcandidates, hsorted, List.map_map, hledger]
  refine List.map_congr_left fun block hblock => ?_
  have hmem : ∀ event ∈ block.2, event ∈ ledger.events := by
    intro event hevent
    have hin : event ∈ ledger.laneEvents lane := by
      rw [← hflat lane]
      exact List.mem_flatMap.mpr ⟨block, hblock, hevent⟩
    exact (List.mem_filter.mp hin).1
  simp only [Function.comp_apply, BlockIndex.candidate, mapM_lookup h hmem]

/-- Its groups are what can be seen of them. -/
theorem laneGroups_eq_laneBlocks {ledger : EventLedger} (h : ledger.Indexed) {index : BlockIndex}
    (hok : frameSourceLanesV1 ledger = .ok index) (lane : LaneKey) :
    ∃ blocks, laneBlocks lane sourceLaneFramingPolicyV1 0 (ledger.laneEvents lane) = .ok blocks ∧
      index.laneGroups lane = blocks.map observedBlock := by
  obtain ⟨blocks, hblocks, hexpansions⟩ := expansions_eq_laneBlocks h hok lane
  refine ⟨blocks, hblocks, ?_⟩
  have hseen := congrArg (List.map fun seen : Option (List Event) × BlockState × BlockConfidence =>
    (seen.1.map (·.map Event.laneRecord), seen.2.1, seen.2.2)) hexpansions
  rw [List.map_map, List.map_map] at hseen
  exact hseen

/-- Two sealed ledgers with the same records on a lane: wherever the records of
other lanes stand, both framings group the lane alike. They do return, unless the
bytes of a ledger overflow or block ids collide. -/
theorem frame_lane_independent (ledger ledger' : EventLedger) (h : ledger.Obtained)
    (h' : ledger'.Obtained) (lane : LaneKey)
    (hrecords : (ledger.laneEvents lane).map Event.laneRecord =
      (ledger'.laneEvents lane).map Event.laneRecord) :
    (∀ index index', frameSourceLanesV1 ledger = .ok index →
      frameSourceLanesV1 ledger' = .ok index' →
        index.laneGroups lane = index'.laneGroups lane) ∧
    ∀ framed ∈ [ledger, ledger'], (framed.events.map (·.raw.length)).sum < 2 ^ 64 →
      NoBlockIdCollision framed → ∃ index, frameSourceLanesV1 framed = .ok index := by
  constructor
  · intro index index' hok hok'
    obtain ⟨blocks, hblocks, hgroups⟩ := laneGroups_eq_laneBlocks h.indexed hok lane
    obtain ⟨blocks', hblocks', hgroups'⟩ := laneGroups_eq_laneBlocks h'.indexed hok' lane
    have halike := alike_of_laneRecords
      (fun event hevent => h.isExact event (List.mem_filter.mp hevent).1)
      (fun event hevent => h'.isExact event (List.mem_filter.mp hevent).1) hrecords
    rw [hgroups, hgroups']
    exact laneBlocks_alike halike hblocks hblocks'
  · intro framed hframed hbytes hcollision
    have hindexed : framed.Indexed := by
      rcases List.mem_pair.mp hframed with rfl | rfl
      · exact h.indexed
      · exact h'.indexed
    obtain ⟨index, hok, _⟩ := frameSourceLanesV1_partitions hindexed hbytes hcollision
    exact ⟨index, hok⟩

end Independence

/-! ## A traceback among other lines -/

def framedRun [Sha256] (es : List RawEnvelopeV1) (bytes : Nat) :
    Option (EventLedger × BlockIndex) := do
  let ledger ← replayLedger es bytes
  let index ← (frameSourceLanesV1 ledger).toOption
  some (ledger, index)

theorem framedRun_eq_some [Sha256] {es : List RawEnvelopeV1} {bytes : Nat} {ledger : EventLedger}
    {index : BlockIndex} (h : framedRun es bytes = some (ledger, index)) :
    ledger.Obtained ∧ frameSourceLanesV1 ledger = .ok index := by
  unfold framedRun at h
  obtain ⟨found, hledger, h⟩ := Option.bind_eq_some_iff.mp h
  obtain ⟨framed, hframe, h⟩ := Option.bind_eq_some_iff.mp h
  cases h
  exact ⟨obtained_of_replayLedger hledger, toOption_eq_some.mp hframe⟩

theorem frame_lane_independent_interleaved :
    letI := fips180
    ∃ ledger ledger' index index', frameSourceLanesV1 ledger = .ok index ∧
      frameSourceLanesV1 ledger' = .ok index' ∧
      (index.laneGroups ⟨replayLane.member, .stderr⟩).length = 1 ∧
      index.laneGroups ⟨replayLane.member, .stderr⟩ =
        index'.laneGroups ⟨replayLane.member, .stderr⟩ := by
  rw [fips180_eq]
  let := fips180Evaluated
  let split := [streamLine 0 .stderr 0 tracebackLine, streamLine 1 .stdout 0 terminalLine,
    streamLine 2 .stderr 1 terminalLine]
  let joined := [streamLine 0 .stderr 0 tracebackLine, streamLine 1 .stderr 1 terminalLine]
  let lane : LaneKey := ⟨replayLane.member, .stderr⟩
  let records (p : EventLedger × BlockIndex) := (p.1.laneEvents lane).map Event.laneRecord
  have hrun : (framedRun split 60).map (fun p => (records p, (p.2.laneGroups lane).length)) =
      some ([⟨tracebackLine.toList, some [], .complete, ⟨0⟩, none⟩,
        ⟨terminalLine.toList, some [], .complete, ⟨1⟩, none⟩], 1) ∧
      (framedRun joined 47).map records =
        some [⟨tracebackLine.toList, some [], .complete, ⟨0⟩, none⟩,
          ⟨terminalLine.toList, some [], .complete, ⟨1⟩, none⟩] := by
    decide +kernel
  obtain ⟨hsplit, hjoined⟩ := hrun
  obtain ⟨⟨ledger, index⟩, hfirst, hrecords⟩ := Option.map_eq_some_iff.mp hsplit
  obtain ⟨⟨ledger', index'⟩, hsecond, hrecords'⟩ := Option.map_eq_some_iff.mp hjoined
  obtain ⟨hobtained, hok⟩ := framedRun_eq_some hfirst
  obtain ⟨hobtained', hok'⟩ := framedRun_eq_some hsecond
  obtain ⟨hrecords, hlength⟩ := Prod.mk.inj hrecords
  exact ⟨ledger, ledger', index, index', hok, hok', hlength,
    (frame_lane_independent ledger ledger' hobtained hobtained' lane
      (hrecords.trans hrecords'.symm)).1 index index' hok hok'⟩

end Evidentrail
