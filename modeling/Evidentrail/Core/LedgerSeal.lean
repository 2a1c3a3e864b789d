import Evidentrail.Core.LedgerRun
import Mathlib.Data.List.Nodup
import Mathlib.Tactic.SplitIfs

/-!
# Sealed runs

`Inv` is the joint invariant of the builder's containers against the list
of accepted envelopes. It does not mention the receipt map, which a
failing call can change; `Receipts` is the invariant of that map, for
runs without failing calls. From the two follow exact accounting of the
sealed ledger and that the sealed ledger passes its own validation.
-/

namespace Evidentrail

open Rust Std

/-! ## The joint invariant -/

/-- What an event says of itself in the acquisition receipt. -/
def Event.entry (event : Event) : AcquisitionReceiptEntry :=
  ⟨event.sourceRecordId, .persisted event.id event.exactnessBasis⟩

def AcquisitionReceiptEntry.isPersisted (entry : AcquisitionReceiptEntry) : Bool :=
  entry.outcome.persistedEventId.isSome

/-- The receipt entry of an accepted envelope. -/
def acceptedEntry [Sha256] (x : RawEnvelopeV1 × SinkAck) : AcquisitionReceiptEntry :=
  ⟨sourceRecordId x.1, x.2.outcome⟩

namespace LedgerBuilder

/-- The accepted envelopes of one lane carry these sequences. -/
def laneSequencesOf (lane : LaneKey) (accepted : List (RawEnvelopeV1 × SinkAck)) :
    List Nat :=
  (accepted.filter (·.1.ordering.lane = lane)).map (·.1.ordering.laneSequence.get)

theorem laneSequencesOf_concat (lane : LaneKey)
    (accepted : List (RawEnvelopeV1 × SinkAck)) (e : RawEnvelopeV1) (ack : SinkAck) :
    laneSequencesOf lane (accepted ++ [(e, ack)]) =
      laneSequencesOf lane accepted ++
        if e.ordering.lane = lane then [e.ordering.laneSequence.get] else [] := by
  simp only [laneSequencesOf, List.filter_append, List.map_append]
  by_cases hlane : e.ordering.lane = lane <;> simp [hlane]

/-- The admitted acquisition sequence is not behind the builder's. -/
theorem not_outOfOrder_le {projection : Bool} {expected actual : Nat}
    (h : outOfOrder projection expected actual = false) : expected ≤ actual := by
  cases projection <;> simp [outOfOrder] at h <;> omega

/-- The position index after pushing an event with a fresh id. -/
theorem positions_concat {positions : ExtTreeMap EventId Nat} {ids : List EventId}
    {new : EventId}
    (h : ∀ (id : EventId) (position : Nat),
      positions[id]? = some position ↔ ids[position]? = some id)
    (hnew : new ∉ positions) (id : EventId) (position : Nat) :
    (positions.insert new ids.length)[id]? = some position ↔
      (ids ++ [new])[position]? = some id := by
  have hfresh : ∀ i : Nat, ids[i]? ≠ some new := fun i hi =>
    hnew (ExtTreeMap.isSome_getElem?_iff_mem.mp (by rw [(h new i).mpr hi]; rfl))
  rw [getElem?_insert]
  rcases Nat.lt_trichotomy position ids.length with hlt | rfl | hgt
  · rw [List.getElem?_append_left hlt, ← h]
    split
    · rename_i heq
      subst heq
      have hne : ids.length ≠ position := by omega
      simp only [Option.some.injEq, hne, h, hfresh]
    · rfl
  · rw [List.getElem?_concat_length, Option.some.injEq]
    split
    · rename_i heq
      simp only [heq]
    · rename_i hne
      have hend : ids[ids.length]? = none := List.getElem?_eq_none (Nat.le_refl _)
      simp only [h, hend, hne, reduceCtorEq]
  · have hend : (ids ++ [new])[position]? = none :=
      List.getElem?_eq_none (by rw [List.length_append]; exact hgt)
    have hend' : ids[position]? = none := List.getElem?_eq_none (by omega)
    have hne : ids.length ≠ position := by omega
    rw [hend]
    split
    · simp only [Option.some.injEq, hne, reduceCtorEq]
    · rw [h, hend']

/-- The event ids a list of entries persists. -/
theorem filterMap_persistedEventId (entries : List AcquisitionReceiptEntry)
    (events : List Event) (h : events.map Event.entry = entries.filter (·.isPersisted)) :
    entries.filterMap (·.outcome.persistedEventId) = events.map (·.id) := by
  have hfilter : entries.filterMap (·.outcome.persistedEventId) =
      (entries.filter (·.isPersisted)).filterMap (·.outcome.persistedEventId) := by
    rw [List.filterMap_filter]
    congr 1
    funext entry
    cases hid : entry.outcome.persistedEventId <;>
      simp [AcquisitionReceiptEntry.isPersisted, hid]
  rw [hfilter, ← h, List.filterMap_map]
  exact congrFun List.filterMap_eq_map events

/-- An index that inverts positions makes the ids distinct. -/
theorem ids_nodup {positions : ExtTreeMap EventId Nat} {ids : List EventId}
    (h : ∀ (id : EventId) (position : Nat),
      positions[id]? = some position ↔ ids[position]? = some id) : ids.Nodup := by
  rw [List.nodup_iff_getElem?_ne_getElem?]
  intro i j hij hj heq
  obtain ⟨id, hid⟩ : ∃ id, ids[j]? = some id := ⟨_, List.getElem?_eq_getElem hj⟩
  have hi := (h id i).mpr (heq.trans hid)
  have hj := (h id j).mpr hid
  rw [hi] at hj
  exact absurd (Option.some.inj hj) (by omega)

/-- The checks that join a post-policy event to its receipt. -/
structure Joined (receipts : ExtTreeMap TransformationReceiptId TransformationReceiptV1)
    (event : Event) (policyDigest : PolicyDigest) (id : TransformationReceiptId) : Prop where
  stored : ∃ receipt, receipts[id]? = some receipt ∧
    receipt.resultingEventId = event.id ∧
    receipt.prepared.policyDigest = policyDigest ∧
    receipt.prepared.outputContentHash = event.contentHash ∧
    receipt.prepared.outputLength = event.raw.length ∧
    receipt.prepared.outputPayloadLength = event.payloadLen ∧
    receipt.prepared.outputTerminatorLength = event.terminatorLen

def isPostPolicy (event : Event) : Bool :=
  match event.exactnessBasis with
  | .sourceExact => false
  | .postPolicy _ _ => true

theorem Joined.insert {receipts : ExtTreeMap TransformationReceiptId TransformationReceiptV1}
    {event : Event} {d : PolicyDigest} {id : TransformationReceiptId}
    {receipt : TransformationReceiptV1} (h : Joined receipts event d id)
    (hnew : receipt.id ∉ receipts) : Joined (receipts.insert receipt.id receipt) event d id := by
  obtain ⟨stored, hstored, hrest⟩ := h.stored
  refine ⟨stored, ?_, hrest⟩
  have hne : receipt.id ≠ id := fun heq =>
    hnew (heq ▸ ExtTreeMap.isSome_getElem?_iff_mem.mp (by rw [hstored]; rfl))
  rw [getElem?_insert, if_neg hne, hstored]

theorem validateTransformation_eq_ok {ledger : EventLedger} {event : Event}
    {d : PolicyDigest} {id : TransformationReceiptId} {receiptEvents : ExtTreeSet EventId}
    (h : Joined ledger.transformationReceipts event d id)
    (hfresh : event.id ∉ receiptEvents) :
    ledger.validateTransformation event.id event d id receiptEvents =
      .ok (receiptEvents.insert event.id) := by
  obtain ⟨receipt, hstored, hevent, hdigest, hhash, hlength, hpayload, hterm⟩ := h.stored
  rw [EventLedger.validateTransformation, hstored]
  simp only [hevent, if_neg hfresh, hdigest, hhash, hlength, hpayload, hterm, ne_eq,
    not_true_eq_false, or_self, if_false]

/-- The events in receipt order, each with what the second loop checks. -/
theorem validateEntries_eq_ok (ledger : EventLedger) :
    ∀ (entries : List AcquisitionReceiptEntry) (events : List Event)
      (seen receiptEvents : ExtTreeSet EventId),
    events.map Event.entry = entries.filter (·.isPersisted) →
    (∀ event ∈ events, ledger.event event.id = .ok (some event)) →
    (∀ event ∈ events, ∀ d id, event.exactnessBasis = .postPolicy d id →
      Joined ledger.transformationReceipts event d id) →
    (events.map (·.id)).Nodup →
    (∀ event ∈ events, event.id ∉ receiptEvents) →
    ∃ unseen receiptEvents', ledger.validateEntries seen receiptEvents entries =
        .ok (unseen, receiptEvents') ∧
      (∀ id, id ∈ unseen ↔ id ∈ seen ∧ id ∉ events.map (·.id)) ∧
      receiptEvents'.size = receiptEvents.size + events.countP isPostPolicy := by
  intro entries
  induction entries with
  | nil =>
      intro events seen receiptEvents hentries _ _ _ _
      obtain rfl := List.map_eq_nil_iff.mp hentries
      exact ⟨seen, receiptEvents, rfl, by simp, rfl⟩
  | cons entry entries ih =>
      intro events seen receiptEvents hentries hlookup hjoined hnodup hfresh
      cases houtcome : entry.outcome with
      | omittedByPolicy d =>
          have hskip : (entry :: entries).filter (·.isPersisted) =
              entries.filter (·.isPersisted) := by
            simp [AcquisitionReceiptEntry.isPersisted, houtcome,
              AcquisitionOutcome.persistedEventId]
          rw [EventLedger.validateEntries, houtcome]
          exact ih events seen receiptEvents (hskip ▸ hentries) hlookup hjoined hnodup hfresh
      | persisted eventId basis =>
          have htake : (entry :: entries).filter (·.isPersisted) =
              entry :: entries.filter (·.isPersisted) := by
            simp [AcquisitionReceiptEntry.isPersisted, houtcome,
              AcquisitionOutcome.persistedEventId]
          obtain ⟨event, rest, rfl, hentry, hrest⟩ :=
            List.map_eq_cons_iff.mp (htake ▸ hentries)
          obtain ⟨hsource, rfl, rfl⟩ : event.sourceRecordId = entry.sourceRecordId ∧
              event.id = eventId ∧ event.exactnessBasis = basis := by
            subst hentry
            simpa [Event.entry] using houtcome
          obtain ⟨hnew, hnodup'⟩ := List.nodup_cons.mp hnodup
          have hlater : ∀ later ∈ rest, event.id ≠ later.id :=
            fun later hmem heq => hnew (List.mem_map.mpr ⟨later, hmem, heq.symm⟩)
          have hunseen : ∀ {unseen : ExtTreeSet EventId},
              (∀ id, id ∈ unseen ↔ id ∈ seen.erase event.id ∧ id ∉ rest.map (·.id)) →
              ∀ id, id ∈ unseen ↔ id ∈ seen ∧ id ∉ (event :: rest).map (·.id) := by
            intro unseen hmem id
            rw [hmem, mem_erase_set, List.map_cons, List.mem_cons, not_or, ne_comm]
            tauto
          rw [EventLedger.validateEntries, houtcome]
          simp only [hlookup event (List.mem_cons_self ..), hsource, ne_eq,
            not_true_eq_false, or_self, if_false]
          cases hbasis : event.exactnessBasis with
          | sourceExact =>
              obtain ⟨unseen, receiptEvents', hok, hmem, hsize⟩ :=
                ih rest (seen.erase event.id) receiptEvents hrest
                  (fun later h => hlookup later (List.mem_cons_of_mem _ h))
                  (fun later h => hjoined later (List.mem_cons_of_mem _ h)) hnodup'
                  (fun later h => hfresh later (List.mem_cons_of_mem _ h))
              refine ⟨unseen, receiptEvents', hok, hunseen hmem, ?_⟩
              rw [hsize, List.countP_cons_of_neg (by simp [isPostPolicy, hbasis])]
          | postPolicy d id =>
              have hhere := hfresh event (List.mem_cons_self ..)
              have hstep := validateTransformation_eq_ok
                (hjoined event (List.mem_cons_self ..) d id hbasis) hhere
              obtain ⟨unseen, receiptEvents', hok, hmem, hsize⟩ :=
                ih rest (seen.erase event.id) (receiptEvents.insert event.id) hrest
                  (fun later h => hlookup later (List.mem_cons_of_mem _ h))
                  (fun later h => hjoined later (List.mem_cons_of_mem _ h)) hnodup'
                  (fun later h hin => by
                    rcases mem_insert_set.mp hin with heq | hin
                    · exact hlater later h heq
                    · exact hfresh later (List.mem_cons_of_mem _ h) hin)
              refine ⟨unseen, receiptEvents', by simp only [hstep, hok], hunseen hmem, ?_⟩
              rw [hsize, size_insert_set hhere,
                List.countP_cons_of_pos (by simp [isPostPolicy, hbasis])]
              omega

section Accounting

variable [Sha256]

structure Inv (b : LedgerBuilder) (accepted : List (RawEnvelopeV1 × SinkAck)) :
    Prop where
  assignments : b.acquisitionAssignments =
    accepted.map fun x => ⟨sourceRecordId x.1, x.2.outcome⟩
  expected : b.expectedSourceRecords = accepted.map (sourceRecordId ·.1)
  sources : ∀ id, id ∈ b.sourceRecordIds ↔ id ∈ b.expectedSourceRecords
  sources_nodup : b.expectedSourceRecords.Nodup
  events : b.events.map Event.entry =
    (accepted.map acceptedEntry).filter (·.isPersisted)
  positions : ∀ (id : EventId) (position : Nat),
    b.positions[id]? = some position ↔ (b.events.map (·.id))[position]? = some id
  ordinals : b.events.map (·.ordinal) = List.range b.events.length
  length_le : b.events.length ≤ u64Bound
  ordered : (b.events.map (·.acquisitionSequence.get)).Pairwise (· < ·)
  before : ∀ event ∈ b.events,
    event.acquisitionSequence.get < b.nextAcquisitionSequence
  derived : ∀ event ∈ b.events,
    event.contentHash = authorizedContentHash event.raw ∧
      event.id = eventId b.identity.retrievalId event.sourceRecordId event.contentHash
        event.exactnessBasis event.providerAttestations
  records : b.acknowledgedRecords = accepted.length
  payloadBytes : b.acknowledgedPayloadBytes = (accepted.map (·.1.record.payloadLen)).sum
  sourceBytes : b.acknowledgedSourceBytes = (accepted.map (·.1.record.sourceLen)).sum
  lanes : b.analysisProjectionV3 = false →
    ∀ lane, laneSequencesOf lane accepted = List.range (b.expectedLane lane)

theorem inv_opened (identity : FetchIdentity) (digest : SourceIdentityDigest)
    (policy : DeterministicPolicy) (projection : Bool) :
    (opened identity digest policy projection).Inv [] := by
  cases projection <;>
    exact ⟨rfl, rfl, by simp [opened, new, newAnalysisProjectionV3], List.nodup_nil, rfl,
      by simp [opened, new, newAnalysisProjectionV3], rfl, Nat.zero_le _, List.Pairwise.nil,
      by simp [opened, new, newAnalysisProjectionV3],
      by simp [opened, new, newAnalysisProjectionV3], rfl, rfl, rfl,
      by simp [opened, new, newAnalysisProjectionV3, expectedLane, laneSequencesOf]⟩

/-- The receipt map is not part of the invariant. -/
theorem Inv.insertReceipt {b : LedgerBuilder} {accepted : List (RawEnvelopeV1 × SinkAck)}
    (h : b.Inv accepted) (receipt : TransformationReceiptV1) :
    (b.insertReceipt receipt).Inv accepted :=
  { h with }

theorem Admitted.insertReceipt {b : LedgerBuilder} {e : RawEnvelopeV1} {s : Staged}
    (h : b.Admitted e s) (receipt : TransformationReceiptV1) :
    (b.insertReceipt receipt).Admitted e s :=
  { h with }

theorem expectedLane_record (b : LedgerBuilder) (e : RawEnvelopeV1) (s : Staged)
    (lane : LaneKey) :
    (b.record e s).expectedLane lane =
      if e.ordering.lane = lane then s.nextLane else b.expectedLane lane := by
  simp only [expectedLane, record, getElem?_insert]
  split <;> rfl

/-- In ordinary mode the lane sequences stay gapless. -/
theorem Inv.lanes_record {b : LedgerBuilder} {accepted : List (RawEnvelopeV1 × SinkAck)}
    {e : RawEnvelopeV1} {s : Staged} (h : b.Inv accepted) (ha : b.Admitted e s)
    (hmode : b.analysisProjectionV3 = false) (lane : LaneKey) :
    laneSequencesOf lane (accepted ++ [(e, b.ack e s)]) =
      List.range ((b.record e s).expectedLane lane) := by
  rw [laneSequencesOf_concat, expectedLane_record, h.lanes hmode]
  split
  · rename_i hlane
    have hnext := ha.lane
    simp only [hmode, outOfOrder, Bool.false_eq_true, if_false, decide_eq_false_iff_not,
      not_not] at hnext
    rw [ha.nextLane, hnext, hlane, List.range_succ]
  · rw [List.append_nil]

/-- One admitted envelope keeps the invariant. -/
theorem Inv.record {b : LedgerBuilder} {accepted : List (RawEnvelopeV1 × SinkAck)}
    {e : RawEnvelopeV1} {s : Staged} (h : b.Inv accepted) (ha : b.Admitted e s) :
    (b.record e s).Inv (accepted ++ [(e, b.ack e s)]) := by
  have hsources : ∀ id, id ∈ (b.record e s).sourceRecordIds ↔
      id ∈ (b.record e s).expectedSourceRecords := by
    intro id
    simp only [LedgerBuilder.record, mem_insert_set, h.sources, List.mem_append,
      List.mem_singleton]
    tauto
  have hnodup : (b.record e s).expectedSourceRecords.Nodup :=
    List.Nodup.append h.sources_nodup (List.nodup_singleton _)
      (List.disjoint_singleton.mpr fun hmem => ha.fresh ((h.sources _).mpr hmem))
  have hbehind : b.nextAcquisitionSequence ≤ e.ordering.acquisitionSequence.get :=
    not_outOfOrder_le ha.acquisition
  have hbefore : ∀ event ∈ b.events,
      event.acquisitionSequence.get < e.ordering.acquisitionSequence.get :=
    fun event hmem => Nat.lt_of_lt_of_le (h.before event hmem) hbehind
  have hassignments : (b.record e s).acquisitionAssignments =
      (accepted ++ [(e, b.ack e s)]).map fun x => ⟨sourceRecordId x.1, x.2.outcome⟩ := by
    simp only [LedgerBuilder.record, h.assignments, List.map_append, List.map_singleton]
    rfl
  have hexpected : (b.record e s).expectedSourceRecords =
      (accepted ++ [(e, b.ack e s)]).map (sourceRecordId ·.1) := by
    simp only [LedgerBuilder.record, h.expected, List.map_append, List.map_singleton]
  have hrecords : (b.record e s).acknowledgedRecords =
      (accepted ++ [(e, b.ack e s)]).length := by
    simp only [LedgerBuilder.record, ha.counts, h.records, List.length_append,
      List.length_singleton]
  have hpayload : (b.record e s).acknowledgedPayloadBytes =
      ((accepted ++ [(e, b.ack e s)]).map (·.1.record.payloadLen)).sum := by
    simp only [LedgerBuilder.record, ha.counts, h.payloadBytes, List.map_append,
      List.map_singleton, List.sum_append, List.sum_singleton]
  have hsource : (b.record e s).acknowledgedSourceBytes =
      ((accepted ++ [(e, b.ack e s)]).map (·.1.record.sourceLen)).sum := by
    simp only [LedgerBuilder.record, ha.counts, h.sourceBytes, List.map_append,
      List.map_singleton, List.sum_append, List.sum_singleton]
  have hnext : (b.record e s).nextAcquisitionSequence =
      e.ordering.acquisitionSequence.get + 1 := ha.nextAcquisition
  obtain ⟨d, -, hauth⟩ | ⟨record, basis, r, -, hlen, hfresh, hauth⟩ :=
    authorize_cases ha.authorized
  · -- omitted: no event, the entry is not a persisted one
    have hevents : (b.record e s).events = b.events := by
      simp only [LedgerBuilder.record, hauth, Option.toList_none, List.append_nil]
    have hpositions : (b.record e s).positions = b.positions := by
      simp only [LedgerBuilder.record, hauth]
    refine ⟨hassignments, hexpected, hsources, hnodup, ?_, ?_, ?_, ?_, ?_, ?_, ?_, hrecords,
      hpayload, hsource, fun hmode => h.lanes_record ha hmode⟩
    · rw [hevents, h.events, List.map_append, List.filter_append, List.map_singleton]
      simp [acceptedEntry, AcquisitionReceiptEntry.isPersisted, ack, hauth,
        AcquisitionOutcome.persistedEventId]
    · rw [hevents, hpositions]
      exact h.positions
    · rw [hevents]
      exact h.ordinals
    · rw [hevents]
      exact h.length_le
    · rw [hevents]
      exact h.ordered
    · intro event hmem
      rw [hevents] at hmem
      rw [hnext]
      exact Nat.lt_succ_of_lt (hbefore event hmem)
    · rw [hevents]
      exact h.derived
  · -- persisted: one event more, at the end
    have hevents : (b.record e s).events =
        b.events ++ [b.authorizedEvent e record basis b.events.length] := by
      simp only [LedgerBuilder.record, hauth, Option.toList_some]
    have hpositions : (b.record e s).positions =
        b.positions.insert (b.authorizedEventId e record basis)
          (b.events.map (·.id)).length := by
      simp only [LedgerBuilder.record, hauth, List.length_map]
      rfl
    refine ⟨hassignments, hexpected, hsources, hnodup, ?_, ?_, ?_, ?_, ?_, ?_, ?_, hrecords,
      hpayload, hsource, fun hmode => h.lanes_record ha hmode⟩
    · rw [hevents, List.map_append, h.events, List.map_append, List.filter_append,
        List.map_singleton, List.map_singleton]
      simp [acceptedEntry, AcquisitionReceiptEntry.isPersisted, ack, hauth,
        AcquisitionOutcome.persistedEventId, Event.entry, authorizedEvent]
    · rw [hevents, hpositions, List.map_append]
      exact positions_concat h.positions hfresh
    · rw [hevents, List.map_append, h.ordinals, List.length_append, List.length_singleton,
        List.range_succ]
      rfl
    · rw [hevents, List.length_append]
      exact hlen
    · rw [hevents, List.map_append, List.pairwise_append]
      refine ⟨h.ordered, List.pairwise_singleton .., ?_⟩
      intro n hn m hm
      obtain ⟨event, hmem, rfl⟩ := List.mem_map.mp hn
      obtain rfl := List.mem_singleton.mp hm
      exact hbefore event hmem
    · intro event hmem
      rw [hnext]
      rcases List.mem_append.mp (hevents ▸ hmem) with hmem | hmem
      · exact Nat.lt_succ_of_lt (hbefore event hmem)
      · rw [List.mem_singleton.mp hmem]
        exact Nat.lt_succ_self _
    · intro event hmem
      rcases List.mem_append.mp (hevents ▸ hmem) with hmem | hmem
      · exact h.derived event hmem
      · rw [List.mem_singleton.mp hmem]
        exact ⟨rfl, rfl⟩

/-- A call that is accepted extends the list, one that is refused leaves
the invariant as it was. -/
theorem Inv.accept {b : LedgerBuilder} {accepted : List (RawEnvelopeV1 × SinkAck)}
    (h : b.Inv accepted) (e : RawEnvelopeV1) :
    (b.accept e).2.Inv (accepted ++ match (b.accept e).1 with
      | .ok ack => [(e, ack)]
      | .error _ => []) := by
  obtain ⟨error, -, hacc⟩ | ⟨s, r, -, -, -, hacc⟩ | ⟨s, r, hs, -, -, hacc⟩ |
    ⟨s, hs, -, hacc⟩ := b.accept_cases e
  · rw [hacc, List.append_nil]
    exact h
  · rw [hacc, List.append_nil]
    exact h.insertReceipt r
  · rw [hacc]
    exact (h.insertReceipt r).record ((stage_eq_ok hs).insertReceipt r)
  · rw [hacc]
    exact h.record (stage_eq_ok hs)

theorem acceptedOf_cons (b : LedgerBuilder) (e : RawEnvelopeV1)
    (es : List RawEnvelopeV1) :
    b.acceptedOf (e :: es) = (match (b.accept e).1 with
      | .ok ack => [(e, ack)]
      | .error _ => []) ++ (b.accept e).2.acceptedOf es := by
  rw [acceptedOf]
  cases (b.accept e).1 <;> rfl

theorem Inv.runAll {b : LedgerBuilder} {accepted : List (RawEnvelopeV1 × SinkAck)}
    (es : List RawEnvelopeV1) (h : b.Inv accepted) :
    (b.runAll es).Inv (accepted ++ b.acceptedOf es) := by
  induction es generalizing b accepted with
  | nil => simpa only [LedgerBuilder.runAll, acceptedOf, List.append_nil] using h
  | cons e es ih =>
      rw [acceptedOf_cons, ← List.append_assoc]
      exact ih (h.accept e)

theorem mode_runAll (es : List RawEnvelopeV1) (b : LedgerBuilder) :
    (b.runAll es).analysisProjectionV3 = b.analysisProjectionV3 := by
  induction es generalizing b with
  | nil => rfl
  | cons e es ih =>
      refine (ih _).trans ?_
      obtain ⟨_, -, hacc⟩ | ⟨s, receipt, -, -, -, hacc⟩ | ⟨s, receipt, -, -, -, hacc⟩ |
        ⟨s, -, -, hacc⟩ := b.accept_cases e <;> rw [hacc] <;> rfl

/-- The invariant holds after any run, in either mode. -/
theorem inv_runAll (identity : FetchIdentity) (digest : SourceIdentityDigest)
    (policy : DeterministicPolicy) (projection : Bool) (es : List RawEnvelopeV1) :
    ((opened identity digest policy projection).runAll es).Inv
      ((opened identity digest policy projection).acceptedOf es) :=
  (inv_opened identity digest policy projection).runAll es

/-! ## Sealing -/

theorem Inv.reconcile {b : LedgerBuilder} {accepted : List (RawEnvelopeV1 × SinkAck)}
    (h : b.Inv accepted) :
    AcquisitionReceipt.reconcile b.identity.retrievalId b.expectedSourceRecords
        b.acquisitionAssignments =
      .ok (.ofEntries b.identity.retrievalId (accepted.map acceptedEntry)) := by
  have hexpected : b.expectedSourceRecords =
      b.acquisitionAssignments.map (·.sourceRecordId) := by
    rw [h.expected, h.assignments, List.map_map]
    rfl
  have hpersisted : b.acquisitionAssignments.filterMap (·.outcome.persistedEventId) =
      b.events.map (·.id) := by
    rw [← filterMap_persistedEventId _ _ h.events, h.assignments, List.filterMap_map,
      List.filterMap_map]
    rfl
  rw [hexpected, AcquisitionReceipt.reconcile_eq_ok (hexpected ▸ h.sources_nodup)
    (hpersisted ▸ ids_nodup h.positions), h.assignments, List.map_map]
  rfl

/-- What a sealed ledger is made of. -/
structure Sealed (b : LedgerBuilder) (accepted : List (RawEnvelopeV1 × SinkAck))
    (completion : FetchCompletion) (ledger : EventLedger) : Prop where
  counts : completion.acknowledged = ⟨b.acknowledgedRecords, b.acknowledgedPayloadBytes,
    b.acknowledgedSourceBytes⟩
  retrievalId : ledger.retrievalId = b.identity.retrievalId
  entries : ledger.acquisitionReceipt.entries = accepted.map acceptedEntry
  receiptId : ledger.acquisitionReceiptId =
    acquisitionReceiptId ledger.acquisitionReceipt
  receipts : ledger.transformationReceipts = b.transformationReceipts
  events : ledger.events = b.events
  positions : ledger.positions = b.positions
  lanePositions : ledger.lanePositions = lanePositionsFrom ∅ 0 b.events

/-- Sealing reconciles always: it fails on the completion or not at all. -/
theorem Inv.seal_cases {b : LedgerBuilder} {accepted : List (RawEnvelopeV1 × SinkAck)}
    (h : b.Inv accepted) (completion : FetchCompletion) :
    (∃ error, b.seal completion = .error (.err error) ∧
        ∀ invalid, error ≠ .acquisitionReceiptInvalid invalid) ∨
      ∃ ledger, b.seal completion = .ok ledger ∧ b.Sealed accepted completion ledger := by
  unfold LedgerBuilder.seal
  split_ifs with hidentity hrecords hpayload hsource hfragment
  · exact .inl ⟨_, rfl, by simp⟩
  · exact .inl ⟨_, rfl, by simp⟩
  · exact .inl ⟨_, rfl, by simp⟩
  · exact .inl ⟨_, rfl, by simp⟩
  · exact .inl ⟨_, rfl, by simp⟩
  · rw [h.reconcile]
    refine .inr ⟨_, rfl, ?_, rfl, rfl, rfl, rfl, rfl, rfl, rfl⟩
    rw [not_ne_iff] at hrecords hpayload hsource
    rw [← hrecords, ← hpayload, ← hsource]

theorem Inv.sealed {b : LedgerBuilder} {accepted : List (RawEnvelopeV1 × SinkAck)}
    {completion : FetchCompletion} {ledger : EventLedger} (h : b.Inv accepted)
    (hseal : b.seal completion = .ok ledger) : b.Sealed accepted completion ledger := by
  obtain ⟨error, herror, -⟩ | ⟨ledger', hok, hsealed⟩ := h.seal_cases completion
  · rw [hseal] at herror
    cases herror
  · rw [hseal] at hok
    cases hok
    exact hsealed

/-- Exact accounting: the ledger of a run lists its accepted envelopes,
one entry each, and its events are the persisted ones, all in order; the
completion's counts are the totals over the accepted envelopes. -/
theorem seal_accounts (identity : FetchIdentity) (digest : SourceIdentityDigest)
    (policy : DeterministicPolicy) (es : List RawEnvelopeV1)
    (completion : FetchCompletion) :
    let start := new identity digest policy
    let accepted := start.acceptedOf es
    (∀ error, (start.runAll es).seal completion ≠
        .error (.err (.acquisitionReceiptInvalid error))) ∧
      (start.runAll es).seal completion ≠ .error .panicked ∧
      ∀ ledger, (start.runAll es).seal completion = .ok ledger →
        ledger.acquisitionReceipt.entries =
          accepted.map (fun x => ⟨sourceRecordId x.1, x.2.outcome⟩) ∧
        ledger.events.map (fun event =>
            ⟨event.sourceRecordId, .persisted event.id event.exactnessBasis⟩) =
          ledger.acquisitionReceipt.entries.filter
            (·.outcome.persistedEventId.isSome) ∧
        ledger.events.map (·.ordinal) = List.range ledger.events.length ∧
        (ledger.events.map (·.acquisitionSequence.get)).Pairwise (· < ·) ∧
        (∀ lane, ∃ n, (accepted.filter (·.1.ordering.lane = lane)).map
            (·.1.ordering.laneSequence.get) = List.range n) ∧
        completion.acknowledged.records = accepted.length ∧
        completion.acknowledged.payloadBytes =
          (accepted.map (·.1.record.payloadLen)).sum ∧
        completion.acknowledged.sourceBytes =
          (accepted.map (·.1.record.sourceLen)).sum := by
  intro start accepted
  have hinv : (start.runAll es).Inv accepted := inv_runAll identity digest policy false es
  have hmode : (start.runAll es).analysisProjectionV3 = false := mode_runAll es start
  refine ⟨fun error => ?_, ?_, fun ledger hseal => ?_⟩
  · obtain ⟨other, hother, hne⟩ | ⟨ledger, hok, -⟩ := hinv.seal_cases completion
    · rw [hother]
      exact fun heq => hne error (by simpa using heq)
    · rw [hok]
      exact fun heq => nomatch heq
  · obtain ⟨other, hother, -⟩ | ⟨ledger, hok, -⟩ := hinv.seal_cases completion
    · rw [hother]
      exact fun heq => nomatch heq
    · rw [hok]
      exact fun heq => nomatch heq
  · have hsealed := hinv.sealed hseal
    rw [hsealed.events, hsealed.entries, hsealed.counts]
    exact ⟨rfl, hinv.events, hinv.ordinals, hinv.ordered,
      fun lane => ⟨_, hinv.lanes hmode lane⟩, hinv.records, hinv.payloadBytes,
      hinv.sourceBytes⟩

end Accounting

/-- Keeps the first record, redacts the second, omits the rest. -/
def mixed [Sha256] : DeterministicPolicy := fun e =>
  if e.ordering.acquisitionSequence.get = 0 then .sourceExact
  else if e.ordering.acquisitionSequence.get = 1 then redacting e
  else .omittedByPolicy (.repeated 5)

/-- Three equal records of the replay lane. -/
def replayRun : List RawEnvelopeV1 :=
  let record : RecordBytes := .whole ⟨[120], by decide⟩
  [replayEnvelope 0 record .complete, replayEnvelope 1 record .complete,
    replayEnvelope 2 record .complete]

theorem replayRun_seals :
    letI := fips180
    (new replayIdentity (.repeated 4) mixed).acceptsAll replayRun = true ∧
      ∃ ledger, ((new replayIdentity (.repeated 4) mixed).runAll replayRun).seal
        (replayCompletion 3 3) = .ok ledger := by
  rw [fips180_eq]
  let := fips180Evaluated
  have hrun : (new replayIdentity (.repeated 4) mixed).acceptsAll replayRun = true ∧
      (((new replayIdentity (.repeated 4) mixed).runAll replayRun).seal
        (replayCompletion 3 3)).isOk = true := by
    decide +kernel
  refine ⟨hrun.1, ?_⟩
  cases hseal : ((new replayIdentity (.repeated 4) mixed).runAll replayRun).seal
      (replayCompletion 3 3) with
  | ok ledger => exact ⟨ledger, rfl⟩
  | error fault =>
      rw [hseal] at hrun
      exact absurd hrun.2 (by simp [Except.isOk, Except.toBool])

theorem seal_accounts_replay :
    letI := fips180
    ∃ ledger, ((new replayIdentity (.repeated 4) mixed).runAll replayRun).seal
        (replayCompletion 3 3) = .ok ledger ∧
      ledger.events.map (·.ordinal) = List.range ledger.events.length := by
  let := fips180
  obtain ⟨-, ledger, hseal⟩ := replayRun_seals
  exact ⟨ledger, hseal, ((seal_accounts _ _ _ replayRun _).2.2 ledger hseal).2.2.1⟩

/-! ## The receipt map -/

section Export

variable [Sha256]

/-- Receipts and post-policy events are in bijection. -/
structure Receipts (b : LedgerBuilder) : Prop where
  joined : ∀ event ∈ b.events, ∀ d id, event.exactnessBasis = .postPolicy d id →
    Joined b.transformationReceipts event d id
  size : b.transformationReceipts.size = b.events.countP isPostPolicy

/-- The policy answers with its source, an omission, or a receipt built
from the record it was asked about. -/
def Receipted (policy : DeterministicPolicy) (e : RawEnvelopeV1) : Prop :=
  policy e = .sourceExact ∨ (∃ d, policy e = .omittedByPolicy d) ∨
    ∃ record prepared d operations, policy e = .postPolicyReceipt record prepared ∧
      PreparedTransformationReceiptV1.new d e.record record operations = .ok prepared

theorem receipted_redacting (e : RawEnvelopeV1) : Receipted redacting e := by
  unfold Receipted redacting
  simp only
  split
  · rename_i receipt h
    exact .inr (.inr ⟨_, receipt, _, _, rfl, h⟩)
  · exact .inr (.inl ⟨_, rfl⟩)

theorem receipted_mixed (e : RawEnvelopeV1) : Receipted mixed e := by
  by_cases hfirst : e.ordering.acquisitionSequence.get = 0
  · exact .inl (if_pos hfirst)
  by_cases hsecond : e.ordering.acquisitionSequence.get = 1
  · have hanswer : mixed e = redacting e := (if_neg hfirst).trans (if_pos hsecond)
    rw [Receipted, hanswer]
    exact receipted_redacting e
  · exact .inr (.inl ⟨_, (if_neg hfirst).trans (if_neg hsecond)⟩)

theorem Receipted.prepared {policy : DeterministicPolicy} {e : RawEnvelopeV1}
    {record : RecordBytes} {prepared : PreparedTransformationReceiptV1}
    (h : Receipted policy e) (hanswer : policy e = .postPolicyReceipt record prepared) :
    ∃ d operations,
      PreparedTransformationReceiptV1.new d e.record record operations = .ok prepared := by
  rw [Receipted, hanswer] at h
  obtain hsource | ⟨_, homitted⟩ | ⟨record', prepared', d, operations, hsame, hnew⟩ := h
  · cases hsource
  · cases homitted
  · cases hsame
    exact ⟨d, operations, hnew⟩

/-- Without a receipt, a receipted answer is the source or an omission. -/
theorem Receipted.staged_sourceExact {b : LedgerBuilder} {e : RawEnvelopeV1} {s : Staged}
    (h : Receipted b.policy e) (hs : b.stage e = .ok s)
    (hr : s.authorized.transformationReceipt = none) :
    ∀ event ∈ s.authorized.event.toList, event.exactnessBasis = .sourceExact := by
  intro event hmem
  obtain ⟨d, -, ha⟩ | ⟨record, basis, r', hpersists, -, -, ha⟩ :=
    authorize_cases (stage_eq_ok hs).authorized
  · rw [ha] at hmem
    cases hmem
  · rw [ha] at hr hmem
    subst hr
    obtain ⟨-, -, rfl, -⟩ | ⟨d, t, hanswer, -⟩ | ⟨_, -, -, hr⟩ := hpersists
    · rw [List.mem_singleton.mp hmem]
      rfl
    · rw [Receipted, hanswer] at h
      obtain hsource | ⟨_, homitted⟩ | ⟨_, _, _, _, hsame, -⟩ := h
      · cases hsource
      · cases homitted
      · cases hsame
    · cases hr

/-- An accepted call with a receipted answer keeps the bijection. -/
theorem Receipts.accept {b : LedgerBuilder} {e : RawEnvelopeV1} {ack : SinkAck}
    (h : b.Receipts) (hpolicy : Receipted b.policy e) (hok : (b.accept e).1 = .ok ack) :
    (b.accept e).2.Receipts := by
  obtain ⟨error, -, hacc⟩ | ⟨s, r, -, -, -, hacc⟩ | ⟨s, r, hs, hr, hnew, hacc⟩ |
    ⟨s, hs, hr, hacc⟩ := b.accept_cases e
  · simp only [hacc, reduceCtorEq] at hok
  · simp only [hacc, reduceCtorEq] at hok
  · -- a new receipt comes with exactly one post-policy event
    obtain ⟨record, prepared, hanswer, -, -, hevent, rfl⟩ := stage_receipt hs hr
    obtain ⟨d, operations, hprepared⟩ := hpolicy.prepared hanswer
    obtain ⟨-, -, hhash, hlength, hpayload, hterminator⟩ :=
      PreparedTransformationReceiptV1.new_eq_ok hprepared
    rw [hacc]
    constructor
    · intro event hmem d' id hbasis
      simp only [LedgerBuilder.record, hevent, Option.toList_some] at hmem
      rcases List.mem_append.mp hmem with hmem | hmem
      · exact (h.joined event hmem d' id hbasis).insert hnew
      · rw [List.mem_singleton.mp hmem] at hbasis ⊢
        cases hbasis
        exact ⟨_, getElem?_insert.trans (if_pos rfl), rfl, rfl, hhash, hlength, hpayload,
          hterminator⟩
    · simp only [LedgerBuilder.record, hevent, Option.toList_some, insertReceipt,
        size_insert hnew, h.size, List.countP_append]
      rfl
  · rw [hacc]
    have hexact := hpolicy.staged_sourceExact hs hr
    constructor
    · intro event hmem d id hbasis
      rcases List.mem_append.mp hmem with hmem | hmem
      · exact h.joined event hmem d id hbasis
      · rw [hexact event hmem] at hbasis
        cases hbasis
    · have hnone : s.authorized.event.toList.countP isPostPolicy = 0 := by
        rw [List.countP_eq_zero]
        intro event hmem
        simp only [isPostPolicy, hexact event hmem, Bool.false_eq_true, not_false_eq_true]
      simp only [LedgerBuilder.record, List.countP_append, hnone, h.size, Nat.add_zero]

theorem Receipts.runAll {es : List RawEnvelopeV1} : ∀ {b : LedgerBuilder}, b.Receipts →
    (∀ e ∈ es, Receipted b.policy e) → b.acceptsAll es = true → (b.runAll es).Receipts := by
  induction es with
  | nil => exact fun h _ _ => h
  | cons e es ih =>
      intro b h hpolicy hall
      rw [acceptsAll, Bool.and_eq_true] at hall
      obtain ⟨ack, hok⟩ : ∃ ack, (b.accept e).1 = .ok ack := by
        cases hresult : (b.accept e).1 with
        | ok ack => exact ⟨ack, rfl⟩
        | error error =>
            rw [hresult] at hall
            exact absurd hall.1 (by simp [Except.isOk, Except.toBool])
      refine ih (h.accept (hpolicy e (List.mem_cons_self ..)) hok) ?_ hall.2
      intro e' he'
      rw [policy_accept]
      exact hpolicy e' (List.mem_cons_of_mem _ he')

/-! ## The validator accepts

Each loop of `validate_sealed_ledger` runs over its list with what it has
seen so far; the lemmas carry the rest of the list. -/

theorem validateEvents_eq_ok (ledger : EventLedger) : ∀ (events : List Event)
    {position : Nat} (prior : Option Nat) (seen : ExtTreeSet EventId),
    events.map (·.ordinal) = List.range' position events.length →
    (∀ i id, (events.map (·.id))[i]? = some id →
      ledger.positions[id]? = some (position + i)) →
    (events.map (·.acquisitionSequence.get)).Pairwise (· < ·) →
    (∀ p ∈ prior, ∀ event ∈ events, p < event.acquisitionSequence.get) →
    (∀ event ∈ events, event.contentHash = authorizedContentHash event.raw ∧
      event.id = eventId ledger.retrievalId event.sourceRecordId event.contentHash
        event.exactnessBasis event.providerAttestations) →
    ∃ seen', ledger.validateEvents position prior seen events = .ok seen' ∧
      ∀ id, id ∈ seen' ↔ id ∈ seen ∨ id ∈ events.map (·.id)
  | [], _, _, seen, _, _, _, _, _ => ⟨seen, rfl, by simp⟩
  | event :: rest, position, prior, seen, hord, hpos, hseq, hprior, hder => by
      obtain ⟨hordinal, hord'⟩ : event.ordinal = position ∧
          rest.map (·.ordinal) = List.range' (position + 1) rest.length := by
        simpa [List.range'_succ] using hord
      obtain ⟨hlt, hseq'⟩ := List.pairwise_cons.mp hseq
      obtain ⟨hhash, hid⟩ := hder event (List.mem_cons_self ..)
      have hindex : ledger.positions[event.id]? = some position := hpos 0 event.id rfl
      have hnot : prior.any (event.acquisitionSequence.get ≤ ·) = false := by
        cases prior with
        | none => rfl
        | some p =>
            have hp := hprior p rfl event (List.mem_cons_self ..)
            simpa using hp
      obtain ⟨seen', hok, hmem⟩ := validateEvents_eq_ok ledger rest
        (some event.acquisitionSequence.get) (seen.insert event.id) hord'
        (fun i id hi => by rw [hpos (i + 1) id hi]; congr 1; omega) hseq'
        (fun p hp e he => by
          cases hp
          exact hlt _ (List.mem_map.mpr ⟨e, he, rfl⟩))
        (fun e he => hder e (List.mem_cons_of_mem _ he))
      refine ⟨seen', ?_, fun id => ?_⟩
      · rw [EventLedger.validateEvents, if_neg (by simp [hordinal, hindex, hnot]),
          if_neg (not_not.mpr hhash.symm), if_neg (not_not.mpr hid.symm), hok]
      · rw [hmem, mem_insert_set, List.map_cons, List.mem_cons]
        tauto

theorem Inv.event_lookup {b : LedgerBuilder} {accepted : List (RawEnvelopeV1 × SinkAck)}
    {ledger : EventLedger} (h : b.Inv accepted) (hevents : ledger.events = b.events)
    (hpositions : ledger.positions = b.positions) {event : Event}
    (hmem : event ∈ b.events) : ledger.event event.id = .ok (some event) := by
  obtain ⟨position, hposition⟩ := List.mem_iff_getElem?.mp hmem
  have hindex : b.positions[event.id]? = some position := by
    rw [h.positions, List.getElem?_map, hposition]
    rfl
  simp only [EventLedger.event, hpositions, hindex, hevents, hposition]

/-- A ledger sealed from a builder that meets both invariants passes its
own validation. -/
theorem Inv.validateSealedLedger {b : LedgerBuilder}
    {accepted : List (RawEnvelopeV1 × SinkAck)} {completion : FetchCompletion}
    {ledger : EventLedger} (h : b.Inv accepted) (hreceipts : b.Receipts)
    (hs : b.Sealed accepted completion ledger) : ledger.validateSealedLedger = .ok () := by
  have hnodup : (b.events.map (·.id)).Nodup := ids_nodup h.positions
  obtain ⟨seen, hseen, hseen_mem⟩ := validateEvents_eq_ok ledger b.events none ∅
    (h.ordinals.trans List.range_eq_range')
    (fun i id hi => by rw [hs.positions, (h.positions id i).mpr hi, Nat.zero_add])
    h.ordered (fun p hp => by cases hp) (by rw [hs.retrievalId]; exact h.derived)
  obtain ⟨unseen, receiptEvents, hentries, hunseen, hsize⟩ :=
    validateEntries_eq_ok ledger (accepted.map acceptedEntry) b.events seen ∅ h.events
      (fun event hmem => h.event_lookup hs.events hs.positions hmem)
      (by rw [hs.receipts]; exact hreceipts.joined) hnodup (by simp)
  have hempty : unseen = ∅ := by
    apply ExtTreeSet.ext_mem
    intro id
    simp only [hunseen, hseen_mem, ExtTreeSet.not_mem_empty, false_or, and_not_self]
  have hcount : receiptEvents.size = ledger.transformationReceipts.size := by
    rw [hsize, hs.receipts, hreceipts.size, ExtTreeSet.size_empty, Nat.zero_add]
  rw [EventLedger.validateSealedLedger, hs.events, hseen]
  simp only [← hs.receiptId, ne_eq, not_true_eq_false, if_false, hs.entries, hentries,
    hempty, ExtTreeSet.isEmpty_empty, hcount, Bool.true_eq_false, or_self]

/-- A run in which every call is accepted, under a policy whose receipts
are built from the records it was asked about, seals to a ledger that
exports and imports. -/
theorem sealed_exportable (identity : FetchIdentity) (digest : SourceIdentityDigest)
    (policy : DeterministicPolicy) (es : List RawEnvelopeV1)
    (completion : FetchCompletion) (ledger : EventLedger)
    (hpolicy : ∀ e ∈ es, Receipted policy e)
    (hall : (new identity digest policy).acceptsAll es = true)
    (hseal : ((new identity digest policy).runAll es).seal completion = .ok ledger) :
    ledger.checkedExportV1 = .ok ledger ∧ checkedSealedLedgerImportV1 ledger = .ok ledger := by
  have hinv := inv_runAll identity digest policy false es
  have hstart : (new identity digest policy).Receipts :=
    ⟨fun event hmem => (List.not_mem_nil hmem).elim, ExtTreeMap.size_empty⟩
  have hreceipts := hstart.runAll hpolicy hall
  have hvalid := hinv.validateSealedLedger hreceipts (hinv.sealed hseal)
  simp only [EventLedger.checkedExportV1, checkedSealedLedgerImportV1, hvalid, Except.map,
    and_self]

end Export

theorem sealed_exportable_replay :
    letI := fips180
    ∃ ledger, ((new replayIdentity (.repeated 4) mixed).runAll replayRun).seal
        (replayCompletion 3 3) = .ok ledger ∧
      ledger.checkedExportV1 = .ok ledger ∧
      checkedSealedLedgerImportV1 ledger = .ok ledger := by
  let := fips180
  obtain ⟨hall, ledger, hseal⟩ := replayRun_seals
  exact ⟨ledger, hseal, sealed_exportable _ _ _ replayRun _ ledger
    (fun e _ => receipted_mixed e) hall hseal⟩

end LedgerBuilder

end Evidentrail
