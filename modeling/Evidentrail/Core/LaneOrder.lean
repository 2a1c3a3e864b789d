import Evidentrail.Core.LedgerIndex

/-!
# The lanes of a ledger

In every ledger there is, whether it was sealed or projected, the events of a
lane stand in the order of their lane sequences, and the lane index lists the
positions of all of them (`Laned`). Ingestion keeps the first as it goes; the
second is built at the end, in either constructor by the same loop.
-/

namespace Evidentrail

open Rust Std

/-- Lane sequences grow inside a lane. -/
def SequencedInLane (a b : Event) : Prop :=
  a.lane = b.lane → a.laneSequence.get < b.laneSequence.get

/-! ## Ingestion -/

namespace LedgerBuilder

/-- What the checks of sequences and counts leave of the events. -/
structure Sequenced (b : LedgerBuilder) : Prop where
  ordered : b.events.Pairwise SequencedInLane
  before : ∀ event ∈ b.events, event.laneSequence.get < b.expectedLane event.lane
  counted : b.events.length ≤ b.acknowledgedRecords
  bounded : b.acknowledgedRecords < u64Bound

variable [Sha256] {b : LedgerBuilder} {envelope : RawEnvelopeV1} {s : Staged}

/-- The sequence of an envelope is not before the one expected, in either mode. -/
theorem Admitted.expectedLane_le (h : b.Admitted envelope s) :
    b.expectedLane envelope.ordering.lane ≤ envelope.ordering.laneSequence.get := by
  have hlane := h.lane
  unfold outOfOrder at hlane
  split at hlane
  · simpa using hlane
  · simp only [decide_eq_false_iff_not, not_not] at hlane
    omega

/-- The event of an envelope stands where the envelope did. -/
theorem Admitted.event_cases (h : b.Admitted envelope s) :
    s.authorized.event = none ∨ ∃ event, s.authorized.event = some event ∧
      event.lane = envelope.ordering.lane ∧
      event.laneSequence = envelope.ordering.laneSequence := by
  obtain ⟨_, _, hauthorized⟩ | ⟨record, basis, receipt, _, _, _, hauthorized⟩ :=
    authorize_cases h.authorized
  · exact .inl (by rw [hauthorized])
  · exact .inr ⟨_, by rw [hauthorized], rfl, rfl⟩

/-- The number of records is checked in `u64`. -/
theorem stage_counts_lt (h : b.stage envelope = .ok s) : s.counts.records < u64Bound := by
  unfold stage at h
  split at h
  · cases h
  split at h
  · cases h
  split at h
  · cases h
  rename_i counts hcounts
  split at h
  · cases h
  split at h
  · cases h
  cases h
  unfold nextCounts at hcounts
  split at hcounts
  · split at hcounts
    · cases hcounts
    rename_i records hrecords
    split at hcounts
    · cases hcounts
      obtain ⟨hlt, rfl⟩ := checkedAdd_eq_some.mp hrecords
      exact hlt
    · cases hcounts
  · cases hcounts

theorem Sequenced.record (h : b.Sequenced) (hstage : b.stage envelope = .ok s) :
    (b.record envelope s).Sequenced := by
  have ha := stage_eq_ok hstage
  have hexpected := ha.expectedLane_le
  have hbounded : (b.record envelope s).acknowledgedRecords < u64Bound := stage_counts_lt hstage
  have hrecords : (b.record envelope s).acknowledgedRecords = b.acknowledgedRecords + 1 :=
    congrArg AcknowledgedCounts.records ha.counts
  have hcounted := h.counted
  have hbefore : ∀ event ∈ b.events,
      event.laneSequence.get < (b.record envelope s).expectedLane event.lane := by
    intro event hevent
    have hold := h.before event hevent
    rw [expectedLane_record]
    split
    · rename_i hlane
      rw [ha.nextLane]
      rw [← hlane] at hold
      omega
    · exact hold
  have hevents : (b.record envelope s).events = b.events ++ s.authorized.event.toList := rfl
  obtain hnone | ⟨event, hsome, hlane, hsequence⟩ := ha.event_cases
  · constructor
    · rw [hevents, hnone, Option.toList_none, List.append_nil]
      exact h.ordered
    · rw [hevents, hnone, Option.toList_none, List.append_nil]
      exact hbefore
    · rw [hevents, hnone, hrecords, Option.toList_none, List.append_nil]
      omega
    · exact hbounded
  · constructor
    · rw [hevents, hsome, Option.toList_some, List.pairwise_append]
      refine ⟨h.ordered, List.pairwise_singleton _ _, fun earlier hearlier new hnew hsame => ?_⟩
      rw [List.mem_singleton.mp hnew] at hsame ⊢
      have hold := h.before earlier hearlier
      rw [hsame, hlane] at hold
      rw [hsequence]
      omega
    · rw [hevents, hsome, Option.toList_some]
      intro later hlater
      obtain hold | hnew := List.mem_append.mp hlater
      · exact hbefore later hold
      · rw [List.mem_singleton.mp hnew, expectedLane_record, hlane, if_pos rfl, ha.nextLane,
          hsequence]
        exact Nat.lt_succ_self _
    · rw [hevents, hsome, hrecords, Option.toList_some, List.length_append, List.length_singleton]
      omega
    · exact hbounded

theorem Sequenced.accept (h : b.Sequenced) : (b.accept envelope).2.Sequenced := by
  obtain ⟨error, _, heq⟩ | ⟨s, receipt, _, _, _, heq⟩ | ⟨s, receipt, hstage, _, _, heq⟩ |
    ⟨s, hstage, _, heq⟩ := b.accept_cases envelope
  · rw [heq]
    exact h
  · rw [heq]
    exact ⟨h.ordered, h.before, h.counted, h.bounded⟩
  · have hrecord := h.record hstage
    rw [heq]
    exact ⟨hrecord.ordered, hrecord.before, hrecord.counted, hrecord.bounded⟩
  · rw [heq]
    exact h.record hstage

theorem Sequenced.runAll (es : List RawEnvelopeV1) (h : b.Sequenced) :
    (b.runAll es).Sequenced := by
  induction es generalizing b with
  | nil => exact h
  | cons envelope rest ih => exact ih h.accept

end LedgerBuilder

/-! ## The index of the lanes -/

/-- Members are looked up where they were placed. -/
theorem mapM_lookup {ledger : EventLedger} (h : ledger.Indexed) :
    ∀ {events : List Event}, (∀ event ∈ events, event ∈ ledger.events) →
      (events.map ledger.pos).mapM (ledger.events[·]?) = some events
  | [], _ => rfl
  | event :: rest, hmem => by
      have hhere := (h.lookup (hmem event (List.mem_cons_self ..))).2
      have hrest := mapM_lookup h fun later hlater => hmem later (List.mem_cons_of_mem _ hlater)
      simp only [List.map_cons, List.mapM_cons, hhere, hrest, Option.pure_def,
        Option.bind_eq_bind, Option.bind_some]

def EventLedger.laneEvents (ledger : EventLedger) (lane : LaneKey) : List Event :=
  ledger.events.filter (·.lane = lane)

/-- The lane index adds the positions of a lane's events. -/
theorem getElem?_lanePositionsFrom {position : Event → Nat} {lane : LaneKey} {events : List Event} :
    ∀ {index : ExtTreeMap LaneKey (List Nat)} {start : Nat},
      (∀ (i : Nat) (event : Event), events[i]? = some event → position event = start + i) →
      (lanePositionsFrom index start events)[lane]?.getD [] =
        index[lane]?.getD [] ++ (events.filter (·.lane = lane)).map position := by
  induction events with
  | nil =>
      intro index start _
      rw [lanePositionsFrom, List.filter_nil, List.map_nil, List.append_nil]
  | cons event rest ih =>
      intro index start h
      have hhead : position event = start := h 0 event rfl
      have hrest : ∀ (i : Nat) (event : Event), rest[i]? = some event →
          position event = start + 1 + i := by
        intro i later hlater
        rw [h (i + 1) later hlater]
        omega
      rw [lanePositionsFrom, ih hrest, getElem?_insert]
      by_cases hlane : event.lane = lane
      · rw [if_pos (by simpa using hlane), Option.getD_some,
          List.filter_cons_of_pos (by simpa using hlane), List.map_cons, hhead, hlane,
          List.append_assoc, List.singleton_append]
      · rw [if_neg (by simpa using hlane), List.filter_cons_of_neg (by simpa using hlane)]

namespace EventLedger

/-- Lanes in order, an index of them that is complete, and positions that fit. -/
structure Laned (ledger : EventLedger) : Prop where
  ordered : ledger.events.Pairwise SequencedInLane
  length_lt : ledger.events.length < u64Bound
  lanePositions : ∀ event ∈ ledger.events, ledger.lanePositions[event.lane]? =
    some ((ledger.laneEvents event.lane).map ledger.pos)

variable {ledger : EventLedger}

/-- Both constructors build the lane index by one loop. -/
theorem Indexed.laned (h : ledger.Indexed) (hordered : ledger.events.Pairwise SequencedInLane)
    (hlength : ledger.events.length < u64Bound)
    (hlanes : ledger.lanePositions = lanePositionsFrom ∅ 0 ledger.events) : ledger.Laned := by
  refine ⟨hordered, hlength, fun event hevent => ?_⟩
  have hindex := @getElem?_lanePositionsFrom ledger.pos event.lane ledger.events ∅ 0
    fun i later hlater => by
      rw [Nat.zero_add]
      exact (h.position_of_getElem? hlater).2
  rw [← hlanes, ExtTreeMap.getElem?_empty, Option.getD_none, List.nil_append] at hindex
  cases hfound : ledger.lanePositions[event.lane]? with
  | some positions =>
      rw [hfound, Option.getD_some] at hindex
      rw [hindex]
      rfl
  | none =>
      rw [hfound, Option.getD_none] at hindex
      have hempty := List.map_eq_nil_iff.mp hindex.symm
      exact absurd (decide_eq_true rfl) (List.filter_eq_nil_iff.mp hempty event hevent)

theorem Obtained.laned [Sha256] (h : ledger.Obtained) : ledger.Laned := by
  have hindexed := h.indexed
  induction h with
  | ofSeal identity digest policy projection es completion ledger hseal =>
      have hsealed := (LedgerBuilder.inv_runAll identity digest policy projection es).sealed hseal
      have hopened : (LedgerBuilder.opened identity digest policy projection).Sequenced := by
        cases projection <;>
          exact ⟨.nil, fun event hevent => absurd hevent List.not_mem_nil, Nat.le_refl _,
            Nat.two_pow_pos 64⟩
      have hrun := hopened.runAll es
      refine hindexed.laned ?_ ?_ (by rw [hsealed.lanePositions, hsealed.events])
      · rw [hsealed.events]
        exact hrun.ordered
      · rw [hsealed.events]
        exact Nat.lt_of_le_of_lt hrun.counted hrun.bounded
  | ofProjection ledger projected positions hok hsource ih =>
      have hlaned := ih hsource.indexed
      unfold analysisProjectionV3 at hok
      split at hok
      · cases hok
      rename_i events hevents
      split at hok
      · cases hok
      cases hok
      obtain ⟨⟨sources, hsub, hrenumbered⟩, _⟩ := projectEvents_eq_ok hevents
      have hlength : events.length < u64Bound := by
        rw [← hrenumbered.length_eq]
        exact Nat.lt_of_le_of_lt hsub.length_le hlaned.length_lt
      refine hindexed.laned ?_ hlength rfl
      have hkeys := map_renumbered (f := fun event => (event.lane, event.laneSequence))
        (fun _ _ => rfl) hrenumbered
      have hpairs : (events.map fun event => (event.lane, event.laneSequence)).Pairwise
          fun a b => a.1 = b.1 → a.2.get < b.2.get := by
        rw [hkeys, List.pairwise_map]
        exact hlaned.ordered.sublist hsub
      rwa [List.pairwise_map] at hpairs

variable (h : ledger.Laned)

include h in
/-- Of two events of a lane the one with the lower sequence stands first. -/
theorem Laned.pos_lt (hindexed : ledger.Indexed) {a b : Event} (ha : a ∈ ledger.events)
    (hb : b ∈ ledger.events) (hlane : a.lane = b.lane)
    (hsequence : a.laneSequence.get < b.laneSequence.get) : ledger.pos a < ledger.pos b := by
  obtain ⟨_, hpositionA⟩ := hindexed.lookup ha
  obtain ⟨_, hpositionB⟩ := hindexed.lookup hb
  by_contra hnot
  rcases Nat.lt_or_eq_of_le (Nat.not_lt.mp hnot) with hlt | heq
  · obtain ⟨hlow, hgetB⟩ := List.getElem?_eq_some_iff.mp hpositionB
    obtain ⟨hhigh, hgetA⟩ := List.getElem?_eq_some_iff.mp hpositionA
    have hbefore := List.pairwise_iff_getElem.mp h.ordered _ _ hlow hhigh hlt
    rw [hgetA, hgetB] at hbefore
    have := hbefore hlane.symm
    omega
  · rw [heq, hpositionA, Option.some.injEq] at hpositionB
    rw [hpositionB] at hsequence
    omega

end EventLedger

end Evidentrail
