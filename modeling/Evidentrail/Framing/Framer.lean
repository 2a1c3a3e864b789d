import Mathlib.Data.List.Infix
import Evidentrail.Core.Reconciled
import Evidentrail.Framing.Classify

/-!
# The source-lane framer

Every lane is framed on its own: a recognized start opens a block that
grows while the next record follows in sequence, is a continuation and
fits the caps; everything else becomes a singleton. The proposals then go
through reconciliation, and `frame_partitions` says that they pass.
-/

namespace Evidentrail

open Rust Std

def framingPolicyNameV1 : String := "evidentrail/source-lane-atomic-framer"

def framingPolicyVersionV1 : String := "1"

def maxReconstructedBlockLinesV1 : Nat := 256

def maxReconstructedBlockBytesV1 : Nat := 1024 * 1024

def maxReconstructedStateDepthV1 : Nat := 32

def maxContinuationGapNanosV1 : Nat := 30000000000

def sourceLaneFramingPolicyV1 : FramingPolicy :=
  ⟨⟨asciiBytes framingPolicyNameV1, by decide⟩, ⟨asciiBytes framingPolicyVersionV1, by decide⟩⟩

inductive SourceLaneFramingError where
  | blockByteCountOverflow
  | reconciliation (error : BlockReconciliationError)
deriving DecidableEq

inductive MonotonicRelation where
  | withinBound
  | unavailable
  | boundary
deriving DecidableEq

/-- Only the adapter's monotonic clock is trusted; a gap in the lane
sequence is a boundary whatever the clock says. -/
def monotonicRelation (previous next : Event) : MonotonicRelation :=
  if checkedAdd previous.laneSequence.get 1 ≠ some next.laneSequence.get then .boundary
  else
    match previous.timestamps.adapterMonotonicTime, next.timestamps.adapterMonotonicTime with
    | some previousTime, some nextTime =>
        if previousTime.get.toNat ≤ nextTime.get.toNat ∧
            nextTime.get.toNat - previousTime.get.toNat ≤ maxContinuationGapNanosV1 then
          .withinBound
        else .boundary
    | _, _ => .unavailable

/-- The record behind the candidate, when it could itself be consumed. -/
def eligibleLookahead (recognition : RecognitionState) (currentBytes length : Nat)
    (candidate : Event) (behind : Option Event) : Option Event :=
  match behind with
  | none => none
  | some lookahead =>
      if length + 2 > maxReconstructedBlockLinesV1 ∨
          monotonicRelation candidate lookahead = .boundary then none
      else
        match checkedAdd currentBytes candidate.raw.length with
        | none => none
        | some bytesWithCandidate =>
            match checkedAdd bytesWithCandidate lookahead.raw.length with
            | none => none
            | some bytesWithLookahead =>
                if bytesWithLookahead > maxReconstructedBlockBytesV1 then none
                else
                  match recognizedContinuation recognition lookahead none with
                  | none => none
                  | some state =>
                      if state.depth ≤ maxReconstructedStateDepthV1 then some lookahead
                      else none

/-- Where the growth of a block stopped. -/
structure Grown where
  length : Nat
  terminatedByCap : Bool
  timingUncertain : Bool

/-- The inner loop: `length` records are in the block, `previous` is the
last of them. -/
def growBlock (recognition : RecognitionState) (bytes length : Nat)
    (timingUncertain : Bool) (previous : Event) :
    List Event → Except SourceLaneFramingError Grown
  | [] => .ok ⟨length, false, timingUncertain⟩
  | candidate :: rest =>
      if monotonicRelation previous candidate = .boundary then
        .ok ⟨length, false, timingUncertain⟩
      else
        let timingUncertain :=
          timingUncertain || monotonicRelation previous candidate = .unavailable
        match recognizedContinuation recognition candidate
            (eligibleLookahead recognition bytes length candidate rest.head?) with
        | none => .ok ⟨length, false, timingUncertain⟩
        | some state =>
            if state.depth > maxReconstructedStateDepthV1 ∨
                length ≥ maxReconstructedBlockLinesV1 then
              .ok ⟨length, true, timingUncertain⟩
            else
              match checkedAdd bytes candidate.raw.length with
              | none => .error .blockByteCountOverflow
              | some nextBytes =>
                  if nextBytes > maxReconstructedBlockBytesV1 then
                    .ok ⟨length, true, timingUncertain⟩
                  else
                    growBlock state nextBytes (length + 1) timingUncertain candidate rest

def singletonClassification (event : Event) (next : Option Event) :
    BlockState × BlockConfidence :=
  if !event.recordState.isComplete then (.ambiguous, .unknown)
  else if isProviderAtomic event then (.providerAtomic, .certain)
  else if (recognizedStart event next).isSome || looksLikeOrphanContinuation event then
    (.ambiguous, .low)
  else if isOpaqueLine event || !isJoinableLine event then (.fallbackSingleton, .unknown)
  else (.fallbackSingleton, .certain)

/-- How far the block that starts at `event` reaches. -/
def growFrom (event : Event) (rest : List Event) : Except SourceLaneFramingError Grown :=
  match recognizedStart event rest.head? with
  | none => .ok ⟨1, false, false⟩
  | some recognition =>
      if event.raw.length > maxReconstructedBlockBytesV1 then .ok ⟨1, true, false⟩
      else growBlock recognition event.raw.length 1 false event rest

/-- A block of several records is reconstructed, with less confidence
after a cap or without a clock. -/
def blockClassification (grown : Grown) (event : Event) (next : Option Event) :
    BlockState × BlockConfidence :=
  if grown.length > 1 then
    (.reconstructed,
      if grown.terminatedByCap || grown.timingUncertain then .medium else .high)
  else singletonClassification event next

def assignment (lane : LaneKey) (events : List Event) (policy : FramingPolicy)
    (classification : BlockState × BlockConfidence) : BlockAssignment :=
  .newSameLaneV1 lane (events.map fun event => (event.id, event.laneSequence)) policy
    classification.1 classification.2

/-- The outer loop over the lane. `skip` counts the records that the last
block already holds: the source moves its index behind them. -/
def frameLane (lane : LaneKey) (policy : FramingPolicy) (skip : Nat) :
    List Event → Except SourceLaneFramingError (List BlockAssignment)
  | [] => .ok []
  | event :: rest =>
      match skip with
      | skip + 1 => frameLane lane policy skip rest
      | 0 =>
          match growFrom event rest with
          | .error error => .error error
          | .ok grown =>
              match frameLane lane policy (grown.length - 1) rest with
              | .error error => .error error
              | .ok assignments =>
                  .ok (assignment lane ((event :: rest).take grown.length) policy
                    (blockClassification grown event rest.head?) :: assignments)

/-- Events by lane, in ledger order. -/
def groupLanes (lanes : ExtTreeMap LaneKey (List Event)) :
    List Event → ExtTreeMap LaneKey (List Event)
  | [] => lanes
  | event :: rest =>
      groupLanes (lanes.insert event.lane (lanes[event.lane]?.getD [] ++ [event])) rest

/-- The lanes in key order, one after the other. -/
def frameLanes (policy : FramingPolicy) :
    List (LaneKey × List Event) → Except SourceLaneFramingError (List BlockAssignment)
  | [] => .ok []
  | (lane, events) :: rest =>
      match frameLane lane policy 0 events with
      | .error error => .error error
      | .ok assignments =>
          match frameLanes policy rest with
          | .error error => .error error
          | .ok later => .ok (assignments ++ later)

def frameSourceLanesV1 [Sha256] (ledger : EventLedger) :
    Except (Fault SourceLaneFramingError) BlockIndex :=
  match frameLanes sourceLaneFramingPolicyV1 (groupLanes ∅ ledger.events).toList with
  | .error error => .error (.err error)
  | .ok assignments =>
      match BlockIndex.reconcile ledger assignments with
      | .error fault => .error (fault.mapErr .reconciliation)
      | .ok index => .ok index

/-! ## Blocks of one lane -/

/-- The exact bytes of a list of events. -/
def rawBytes (events : List Event) : Nat :=
  (events.map (·.raw.length)).sum

theorem rawBytes_le_of_sublist {events later : List Event} (h : events.Sublist later) :
    rawBytes events ≤ rawBytes later := by
  induction h with
  | slnil => exact Nat.le_refl _
  | cons event _ ih => exact Nat.le_trans ih (Nat.le_add_left _ _)
  | cons_cons event _ ih => exact Nat.add_le_add_left ih _

theorem follows_of_monotonicRelation {previous next : Event}
    (h : monotonicRelation previous next ≠ .boundary) :
    BlockIndex.Follows previous next := by
  unfold monotonicRelation at h
  split at h
  · exact absurd rfl h
  · rename_i hnext
    rw [not_not] at hnext
    exact (checkedAdd_eq_some.mp hnext).2.symm

/-- What the inner loop adds to a block: records in sequence, within the
caps. It cannot overflow when the lane's bytes fit. -/
theorem growBlock_eq_ok : ∀ (rest : List Event) (recognition : RecognitionState)
    (bytes length : Nat) (timing : Bool) (previous : Event),
    bytes + rawBytes rest < u64Bound →
    ∃ grown, growBlock recognition bytes length timing previous rest = .ok grown ∧
      ∃ more, grown.length = length + more ∧ more ≤ rest.length ∧
        (previous :: rest.take more).IsChain BlockIndex.Follows ∧
        (0 < more → grown.length ≤ maxReconstructedBlockLinesV1 ∧
          bytes + rawBytes (rest.take more) ≤ maxReconstructedBlockBytesV1) := by
  intro rest
  induction rest with
  | nil =>
      intro recognition bytes length timing previous _
      exact ⟨_, rfl, 0, rfl, Nat.le_refl _, List.isChain_singleton _,
        fun h => absurd h (Nat.lt_irrefl 0)⟩
  | cons candidate rest ih =>
      intro recognition bytes length timing previous hbytes
      have hstop : ∀ cap uncertain, ∃ grown : Grown,
          (⟨length, cap, uncertain⟩ : Grown) = grown ∧
          ∃ more, grown.length = length + more ∧ more ≤ (candidate :: rest).length ∧
            (previous :: (candidate :: rest).take more).IsChain BlockIndex.Follows ∧
            (0 < more → grown.length ≤ maxReconstructedBlockLinesV1 ∧
              bytes + rawBytes ((candidate :: rest).take more) ≤
                maxReconstructedBlockBytesV1) := fun cap uncertain =>
        ⟨_, rfl, 0, rfl, Nat.zero_le _, List.isChain_singleton _,
          fun h => absurd h (Nat.lt_irrefl 0)⟩
      have hsplit : rawBytes (candidate :: rest) = candidate.raw.length + rawBytes rest := by
        simp [rawBytes]
      unfold growBlock
      by_cases hboundary : monotonicRelation previous candidate = .boundary
      · simpa only [if_pos hboundary, Except.ok.injEq] using hstop _ _
      rw [if_neg hboundary]
      simp only
      cases hcontinues : recognizedContinuation recognition candidate
          (eligibleLookahead recognition bytes length candidate rest.head?) with
      | none => simpa only [Except.ok.injEq] using hstop _ _
      | some state =>
          simp only
          by_cases hcap : state.depth > maxReconstructedStateDepthV1 ∨
              length ≥ maxReconstructedBlockLinesV1
          · simpa only [if_pos hcap, Except.ok.injEq] using hstop _ _
          rw [if_neg hcap]
          have hadd : checkedAdd bytes candidate.raw.length =
              some (bytes + candidate.raw.length) :=
            checkedAdd_eq_some.mpr ⟨by omega, rfl⟩
          simp only [hadd]
          by_cases hlarge : bytes + candidate.raw.length > maxReconstructedBlockBytesV1
          · simpa only [if_pos hlarge, Except.ok.injEq] using hstop _ _
          rw [if_neg hlarge]
          rw [not_or] at hcap
          obtain ⟨grown, hok, more, hlength, hmore, hchain, hcaps⟩ := ih state
            (bytes + candidate.raw.length) (length + 1)
            (timing || decide (monotonicRelation previous candidate = .unavailable)) candidate
            (by omega)
          refine ⟨grown, hok, more + 1, by omega, Nat.succ_le_succ hmore, ?_, fun _ => ?_⟩
          · rw [List.take_succ_cons, List.isChain_cons_cons]
            exact ⟨follows_of_monotonicRelation hboundary, hchain⟩
          · rw [List.take_succ_cons]
            have hsum : rawBytes (candidate :: rest.take more) =
                candidate.raw.length + rawBytes (rest.take more) := by
              simp [rawBytes]
            rcases Nat.eq_zero_or_pos more with rfl | hpos
            · simp only [List.take_zero] at hsum ⊢
              have hnil : rawBytes [] = 0 := rfl
              omega
            · have hboth := hcaps hpos
              omega

/-- The caps on a block of several records. -/
def WithinCaps (events : List Event) : Prop :=
  1 < events.length → events.length ≤ maxReconstructedBlockLinesV1 ∧
    rawBytes events ≤ maxReconstructedBlockBytesV1

theorem growFrom_eq_ok (event : Event) (rest : List Event)
    (hbytes : rawBytes (event :: rest) < u64Bound) :
    ∃ grown, growFrom event rest = .ok grown ∧ 0 < grown.length ∧
      grown.length ≤ (event :: rest).length ∧
      ((event :: rest).take grown.length).IsChain BlockIndex.Follows ∧
      WithinCaps ((event :: rest).take grown.length) := by
  have hone : ∀ cap, ∃ grown : Grown, (⟨1, cap, false⟩ : Grown) = grown ∧
      0 < grown.length ∧ grown.length ≤ (event :: rest).length ∧
      ((event :: rest).take grown.length).IsChain BlockIndex.Follows ∧
      WithinCaps ((event :: rest).take grown.length) := fun cap =>
    ⟨_, rfl, Nat.one_pos, Nat.succ_le_succ (Nat.zero_le _), List.isChain_singleton _,
      fun h => absurd h (by simp)⟩
  unfold growFrom
  cases recognizedStart event rest.head? with
  | none => simpa only [Except.ok.injEq] using hone _
  | some recognition =>
      simp only
      by_cases hlarge : event.raw.length > maxReconstructedBlockBytesV1
      · simpa only [if_pos hlarge, Except.ok.injEq] using hone _
      rw [if_neg hlarge]
      have hsum : ∀ later : List Event,
          rawBytes (event :: later) = event.raw.length + rawBytes later := by
        intro later
        simp [rawBytes]
      obtain ⟨grown, hok, more, hlength, hmore, hchain, hcaps⟩ := growBlock_eq_ok rest
        recognition event.raw.length 1 false event (by rw [← hsum]; exact hbytes)
      have htake : (event :: rest).take grown.length = event :: rest.take more := by
        rw [hlength, Nat.add_comm, List.take_succ_cons]
      refine ⟨grown, hok, by omega, by rw [List.length_cons]; omega, htake ▸ hchain, ?_⟩
      intro hmany
      rw [htake, List.length_cons, List.length_take] at hmany ⊢
      have hboth := hcaps (by omega)
      rw [hsum]
      omega

/-- A framed block of a lane with its events. -/
structure Frames (lane : LaneKey) (policy : FramingPolicy) (a : BlockAssignment)
    (events : List Event) : Prop where
  lane : a.lane = lane
  members : a.members = events.map fun event => (event.id, event.laneSequence)
  framingPolicy : a.framingPolicy = policy
  nonempty : events ≠ []
  chained : events.IsChain BlockIndex.Follows
  caps : WithinCaps events

/-- The outer loop cuts the rest of the lane into blocks. -/
theorem frameLane_eq_ok (lane : LaneKey) (policy : FramingPolicy) (events : List Event) :
    ∀ (skip : Nat), rawBytes events < u64Bound →
    ∃ blocks : List (BlockAssignment × List Event),
      frameLane lane policy skip events = .ok (blocks.map (·.1)) ∧
      (∀ block ∈ blocks, Frames lane policy block.1 block.2) ∧
      blocks.flatMap (·.2) = events.drop skip := by
  induction events with
  | nil => exact fun skip _ => ⟨[], rfl, by simp, by simp⟩
  | cons event rest ih =>
      intro skip hbytes
      have hrest : rawBytes rest < u64Bound :=
        Nat.lt_of_le_of_lt (Nat.le_add_left _ _) hbytes
      cases skip with
      | succ skip => exact ih skip hrest
      | zero =>
          obtain ⟨grown, hgrown, hpos, hle, hchain, hcaps⟩ := growFrom_eq_ok event rest hbytes
          obtain ⟨blocks, hok, hframes, hflat⟩ := ih (grown.length - 1) hrest
          have hne : (event :: rest).take grown.length ≠ [] := by
            rw [← List.length_pos_iff, List.length_take]
            omega
          refine ⟨(assignment lane ((event :: rest).take grown.length) policy
            (blockClassification grown event rest.head?),
              (event :: rest).take grown.length) :: blocks, ?_, ?_, ?_⟩
          · simp only [frameLane, hgrown, hok, List.map_cons]
          · rintro block (_ | ⟨_, hblock⟩)
            · exact ⟨rfl, rfl, rfl, hne, hchain, hcaps⟩
            · exact hframes block hblock
          · have hdrop : rest.drop (grown.length - 1) = (event :: rest).drop grown.length := by
              obtain ⟨n, hn⟩ := Nat.exists_eq_succ_of_ne_zero (Nat.ne_of_gt hpos)
              rw [hn]
              rfl
            rw [List.flatMap_cons, hflat, hdrop, List.take_append_drop, List.drop_zero]

/-! ## The lanes of a ledger -/

theorem getElem?_groupLanes (lane : LaneKey) : ∀ (events : List Event)
    (lanes : ExtTreeMap LaneKey (List Event)),
    (groupLanes lanes events)[lane]?.getD [] =
      lanes[lane]?.getD [] ++ events.filter (·.lane = lane)
  | [], lanes => by simp [groupLanes]
  | event :: rest, lanes => by
      rw [groupLanes, getElem?_groupLanes lane rest, getElem?_insert]
      by_cases hlane : event.lane = lane <;> simp [hlane]

theorem frameLanes_eq_ok (policy : FramingPolicy) : ∀ (lanes : List (LaneKey × List Event)),
    (∀ entry ∈ lanes, rawBytes entry.2 < u64Bound) →
    ∃ blocks : List (BlockAssignment × List Event),
      frameLanes policy lanes = .ok (blocks.map (·.1)) ∧
      (∀ block ∈ blocks, Frames block.1.lane policy block.1 block.2 ∧
        ∃ entry ∈ lanes, entry.1 = block.1.lane ∧ block.2 <:+: entry.2) ∧
      blocks.flatMap (·.2) = lanes.flatMap (·.2) ∧
      ∀ lane, (blocks.filter (·.1.lane = lane)).flatMap (·.2) =
        (lanes.filter (·.1 = lane)).flatMap (·.2)
  | [], _ => ⟨[], rfl, by simp, rfl, by simp⟩
  | (lane, events) :: rest, hbytes => by
      obtain ⟨blocks, hok, hframes, hflat⟩ := frameLane_eq_ok lane policy events 0
        (hbytes _ (List.mem_cons_self ..))
      obtain ⟨later, hok', hframes', hall', hflat'⟩ := frameLanes_eq_ok policy rest
        fun entry hentry => hbytes entry (List.mem_cons_of_mem _ hentry)
      refine ⟨blocks ++ later, ?_, ?_, ?_, ?_⟩
      · simp only [frameLanes, hok, hok', List.map_append]
      · intro block hblock
        rcases List.mem_append.mp hblock with hblock | hblock
        · have hframe := hframes block hblock
          refine ⟨hframe.lane ▸ hframe, (lane, events), List.mem_cons_self ..,
            hframe.lane.symm, ?_⟩
          rw [List.drop_zero] at hflat
          rw [← hflat]
          exact List.infix_of_mem_flatten (List.mem_map_of_mem hblock)
        · obtain ⟨hframe, entry, hentry, hlane, hpart⟩ := hframes' block hblock
          exact ⟨hframe, entry, List.mem_cons_of_mem _ hentry, hlane, hpart⟩
      · rw [List.flatMap_append, hflat, hall', List.drop_zero, List.flatMap_cons]
      · intro key
        rw [List.filter_append, List.flatMap_append, hflat']
        by_cases hlane : lane = key
        · have hall : blocks.filter (·.1.lane = key) = blocks := by
            rw [List.filter_eq_self]
            intro block hblock
            rw [(hframes block hblock).lane]
            simpa using hlane
          rw [hall, hflat, List.drop_zero, List.filter_cons_of_pos (by simpa using hlane),
            List.flatMap_cons]
        · have hnone : blocks.filter (·.1.lane = key) = [] := by
            rw [List.filter_eq_nil_iff]
            intro block hblock
            rw [(hframes block hblock).lane]
            simpa using hlane
          rw [hnone, List.filter_cons_of_neg (by simpa using hlane)]
          rfl

theorem mem_toList_groupLanes {ledger : EventLedger} {entry : LaneKey × List Event}
    (h : entry ∈ (groupLanes ∅ ledger.events).toList) :
    entry.2 = ledger.laneEvents entry.1 := by
  have hlookup := ExtTreeMap.mem_toList_iff_getElem?_eq_some.mp h
  have hget := getElem?_groupLanes entry.1 ledger.events ∅
  rw [hlookup] at hget
  simpa [EventLedger.laneEvents] using hget

theorem nodup_keys_groupLanes (ledger : EventLedger) :
    ((groupLanes ∅ ledger.events).toList).Pairwise fun a b => a.1 ≠ b.1 := by
  refine ExtTreeMap.distinct_keys_toList.imp fun hab heq => hab ?_
  rw [heq]
  exact Std.compare_self

/-- Filtering the grouped lanes by a key gives that lane's events. -/
theorem flatMap_filter_groupLanes (ledger : EventLedger) (lane : LaneKey) :
    ((groupLanes ∅ ledger.events).toList.filter (·.1 = lane)).flatMap (·.2) =
      ledger.laneEvents lane := by
  have hget := getElem?_groupLanes lane ledger.events ∅
  rw [ExtTreeMap.getElem?_empty, Option.getD_none, List.nil_append] at hget
  have hdistinct := (nodup_keys_groupLanes ledger).filter (·.1 = lane)
  cases hfilter : (groupLanes ∅ ledger.events).toList.filter (·.1 = lane) with
  | nil =>
      cases hlookup : (groupLanes ∅ ledger.events)[lane]? with
      | none =>
          rw [hlookup] at hget
          exact hget
      | some events =>
          have hmem := ExtTreeMap.mem_toList_iff_getElem?_eq_some.mpr hlookup
          exact absurd (decide_eq_true rfl) (List.filter_eq_nil_iff.mp hfilter _ hmem)
  | cons entry rest =>
      have hentry := List.mem_filter.mp (hfilter ▸ List.mem_cons_self (a := entry) (l := rest))
      have hkey : entry.1 = lane := by simpa using hentry.2
      cases rest with
      | nil => simpa [hkey] using mem_toList_groupLanes hentry.1
      | cons other rest =>
          have hother := List.mem_filter.mp
            (hfilter ▸ List.mem_cons_of_mem entry (List.mem_cons_self (a := other) (l := rest)))
          have hkey' : other.1 = lane := by simpa using hother.2
          rw [hfilter] at hdistinct
          exact absurd (hkey.trans hkey'.symm)
            (List.rel_of_pairwise_cons hdistinct (List.mem_cons_self ..))

/-! ## The partition -/

/-- The framer's proposals partition the ledger. -/
theorem frameLanes_partitions {ledger : EventLedger} (h : ledger.Indexed)
    (hbytes : rawBytes ledger.events < u64Bound) :
    ∃ blocks : List (BlockAssignment × List Event),
      frameLanes sourceLaneFramingPolicyV1 (groupLanes ∅ ledger.events).toList =
        .ok (blocks.map (·.1)) ∧
      (∀ block ∈ blocks, Frames block.1.lane sourceLaneFramingPolicyV1 block.1 block.2 ∧
        block.2 <:+: ledger.laneEvents block.1.lane) ∧
      ((blocks.flatMap (·.2)).map ledger.pos).Nodup ∧
      ∀ lane, (blocks.filter (·.1.lane = lane)).flatMap (·.2) = ledger.laneEvents lane := by
  obtain ⟨blocks, hok, hframes, hall, hflat⟩ := frameLanes_eq_ok sourceLaneFramingPolicyV1
    (groupLanes ∅ ledger.events).toList (fun entry hentry => by
      rw [mem_toList_groupLanes hentry]
      exact Nat.lt_of_le_of_lt (rawBytes_le_of_sublist List.filter_sublist) hbytes)
  refine ⟨blocks, hok, fun block hblock => ?_, ?_, fun lane => ?_⟩
  · obtain ⟨hframe, entry, hentry, hlane, hpart⟩ := hframes block hblock
    rw [mem_toList_groupLanes hentry, hlane] at hpart
    exact ⟨hframe, hpart⟩
  · rw [hall, List.map_flatMap, List.nodup_flatMap]
    constructor
    · intro entry hentry
      rw [mem_toList_groupLanes hentry, List.Nodup, List.pairwise_map]
      exact (h.pairwise_pos List.filter_sublist).imp Nat.ne_of_lt
    · refine (nodup_keys_groupLanes ledger).imp_of_mem fun {a b} ha hb hne => ?_
      intro position hin hin'
      obtain ⟨event, hevent, rfl⟩ := List.mem_map.mp hin
      obtain ⟨event', hevent', hpos⟩ := List.mem_map.mp hin'
      rw [mem_toList_groupLanes ha, EventLedger.laneEvents, List.mem_filter] at hevent
      rw [mem_toList_groupLanes hb, EventLedger.laneEvents, List.mem_filter] at hevent'
      have hsame : event' = event := by
        have hlookup := (h.lookup hevent.1).2
        rw [← hpos, (h.lookup hevent'.1).2] at hlookup
        exact Option.some.inj hlookup
      rw [hsame] at hevent'
      exact hne ((of_decide_eq_true hevent.2).symm.trans (of_decide_eq_true hevent'.2))
  · rw [hflat, flatMap_filter_groupLanes]

/-- What it means that blocks partition a ledger. The ids of the members of
all blocks are, up to order, the ids of the events. -/
structure BlockIndex.Partitions (index : BlockIndex) (ledger : EventLedger) : Prop where
  ledger_eq : index.ledger = ledger
  covers : (index.blocks.flatMap (·.memberIds)).Perm (ledger.events.map (·.id))
  blocks : ∀ block ∈ index.blocks, ∃ events, index.expansion block = some events ∧
    block.memberIds = events.map (·.id) ∧ events ≠ [] ∧
    events <:+: ledger.laneEvents block.lane ∧
    events.IsChain (fun a b => a.laneSequence.get + 1 = b.laneSequence.get) ∧
    (1 < events.length → events.length ≤ 256 ∧
      (events.map (·.raw.length)).sum ≤ 1024 * 1024)
  lanes : ∀ lane, (index.blocks.filter (·.lane = lane)).flatMap (·.memberIds) =
    (ledger.laneEvents lane).map (·.id)

section Partition

variable [Sha256]

/-- The id the framer's policy gives to these events of a lane. -/
def framedBlockId (ledger : EventLedger) (lane : LaneKey) (events : List Event) : BlockId :=
  sameLaneBlockIdV1 ledger.retrievalId lane (events.map (·.id))
    (events.map (·.laneSequence)) sourceLaneFramingPolicyV1

/-- Runs of consecutive lane events with one block id are the same run. -/
def NoBlockIdCollision (ledger : EventLedger) : Prop :=
  ∀ (lane lane' : LaneKey) (events events' : List Event),
    events <:+: ledger.laneEvents lane → events' <:+: ledger.laneEvents lane' →
    events ≠ [] → events' ≠ [] →
    framedBlockId ledger lane events = framedBlockId ledger lane' events' →
    events.map (·.id) = events'.map (·.id)

/-- Blocks with distinct members have distinct ids. -/
theorem assignmentIds_nodup {ledger : EventLedger}
    {blocks : List (BlockAssignment × List Event)} (hcollision : NoBlockIdCollision ledger)
    (hframes : ∀ block ∈ blocks,
      Frames block.1.lane sourceLaneFramingPolicyV1 block.1 block.2 ∧
        block.2 <:+: ledger.laneEvents block.1.lane)
    (hnodup : ((blocks.flatMap (·.2)).map ledger.pos).Nodup) :
    (blocks.map (BlockIndex.assignmentId ledger ·.1)).Nodup := by
  rw [List.map_flatMap, List.nodup_flatMap] at hnodup
  rw [List.Nodup, List.pairwise_map]
  refine hnodup.2.imp_of_mem fun {a b} ha hb hdisjoint hid => ?_
  obtain ⟨hframe, hpart⟩ := hframes a ha
  obtain ⟨hframe', hpart'⟩ := hframes b hb
  have hframed : ∀ block : BlockAssignment × List Event,
      Frames block.1.lane sourceLaneFramingPolicyV1 block.1 block.2 →
      BlockIndex.assignmentId ledger block.1 =
        framedBlockId ledger block.1.lane block.2 := by
    intro block hblock
    simp only [BlockIndex.assignmentId, framedBlockId, BlockAssignment.memberIds,
      BlockAssignment.memberLaneSequences, hblock.members, hblock.framingPolicy, List.map_map]
    rfl
  rw [hframed a hframe, hframed b hframe'] at hid
  have hids := hcollision _ _ _ _ hpart hpart' hframe.nonempty hframe'.nonempty hid
  -- the position of an event is a function of its id
  have hpos : ∀ events : List Event, events.map ledger.pos =
      (events.map (·.id)).map fun id => ledger.positions[id]?.getD 0 := by
    intro events
    rw [List.map_map]
    rfl
  obtain ⟨event, hevent⟩ := List.exists_mem_of_ne_nil _ hframe.nonempty
  have hin : ledger.pos event ∈ a.2.map ledger.pos := List.mem_map_of_mem hevent
  have hin' : ledger.pos event ∈ b.2.map ledger.pos := by
    rw [hpos, ← hids, ← hpos]
    exact hin
  exact hdisjoint hin hin'

/-- Blocks sorted by first position keep the order of each lane. -/
theorem sortCandidates_filter_lane {ledger : EventLedger} (h : ledger.Indexed)
    {blocks : List (BlockAssignment × List Event)}
    (hframes : ∀ block ∈ blocks, block.2 ≠ [])
    (hlanes : ∀ lane, (blocks.filter (·.1.lane = lane)).flatMap (·.2) =
      ledger.laneEvents lane) (lane : LaneKey) :
    (BlockIndex.sortCandidates (blocks.map fun p =>
        BlockIndex.candidate ledger p.1 (p.2.map ledger.pos))).filter (·.lane = lane) =
      (blocks.filter (·.1.lane = lane)).map fun p =>
        BlockIndex.candidate ledger p.1 (p.2.map ledger.pos) := by
  have hfilter : (blocks.map fun p => BlockIndex.candidate ledger p.1
        (p.2.map ledger.pos)).filter (·.lane = lane) =
      (blocks.filter (·.1.lane = lane)).map fun p =>
        BlockIndex.candidate ledger p.1 (p.2.map ledger.pos) := List.filter_map ..
  rw [← hfilter]
  refine Sorting.filter_insertionSort (fun c : CandidateBlock =>
    c.memberPositions.headD 0) ?_
  rw [hfilter, List.pairwise_map]
  have hordered : (ledger.laneEvents lane).Pairwise fun a b =>
      ledger.pos a < ledger.pos b := h.pairwise_pos List.filter_sublist
  rw [← hlanes lane, List.pairwise_flatMap] at hordered
  refine hordered.2.imp_of_mem fun {a b} ha hb hbefore => ?_
  obtain ⟨x, xs, hx⟩ := List.exists_cons_of_ne_nil (hframes a (List.mem_filter.mp ha).1)
  obtain ⟨y, ys, hy⟩ := List.exists_cons_of_ne_nil (hframes b (List.mem_filter.mp hb).1)
  simp only [BlockIndex.candidate, hx, hy, List.map_cons, List.headD_cons]
  exact hbefore x (hx ▸ List.mem_cons_self ..) y (hy ▸ List.mem_cons_self ..)

theorem frameSourceLanesV1_partitions {ledger : EventLedger} (h : ledger.Indexed)
    (hbytes : rawBytes ledger.events < u64Bound) (hcollision : NoBlockIdCollision ledger) :
    ∃ index, frameSourceLanesV1 ledger = .ok index ∧ index.Partitions ledger := by
  obtain ⟨blocks, hok, hframes, hnodup, hlanes⟩ := frameLanes_partitions h hbytes
  have hsub : ∀ block ∈ blocks, ∀ event ∈ block.2,
      event ∈ ledger.events ∧ event.lane = block.1.lane := by
    intro block hblock event hevent
    have hin := (hframes block hblock).2.subset hevent
    rw [EventLedger.laneEvents, List.mem_filter] at hin
    exact ⟨hin.1, of_decide_eq_true hin.2⟩
  have hmem : ∀ event, event ∈ blocks.flatMap (·.2) ↔ event ∈ ledger.events := by
    intro event
    constructor
    · intro hin
      obtain ⟨block, hblock, hevent⟩ := List.mem_flatMap.mp hin
      exact (hsub block hblock event hevent).1
    · intro hin
      have hlane : event ∈ ledger.laneEvents event.lane :=
        List.mem_filter.mpr ⟨hin, decide_eq_true rfl⟩
      rw [← hlanes] at hlane
      obtain ⟨block, hblock, hevent⟩ := List.mem_flatMap.mp hlane
      exact List.mem_flatMap.mpr ⟨block, (List.mem_filter.mp hblock).1, hevent⟩
  have hproposes : ∀ block ∈ blocks, BlockIndex.Proposes ledger block.1 block.2 := by
    intro block hblock
    obtain ⟨hframe, hpart⟩ := hframes block hblock
    exact ⟨hframe.members, hframe.nonempty, fun event hevent => (hsub block hblock event hevent).1,
      fun event hevent => (hsub block hblock event hevent).2,
      h.pairwise_pos (hpart.sublist.trans List.filter_sublist), hframe.chained⟩
  obtain ⟨index, hreconcile, hledger, hblocks⟩ := BlockIndex.reconcile_eq_ok h hproposes hnodup
    hmem (assignmentIds_nodup hcollision hframes hnodup)
  have hcandidate : ∀ block ∈ index.blocks, ∃ p ∈ blocks,
      BlockIndex.candidate ledger p.1 (p.2.map ledger.pos) = BlockIndex.toCandidate block := by
    intro block hblock
    have hin : BlockIndex.toCandidate block ∈ index.blocks.map BlockIndex.toCandidate :=
      List.mem_map_of_mem hblock
    rw [hblocks, BlockIndex.sortCandidates, List.mem_insertionSort] at hin
    exact List.mem_map.mp hin
  have hids : ∀ p ∈ blocks, p.1.memberIds = p.2.map (·.id) := by
    intro p hp
    rw [BlockAssignment.memberIds, (hframes p hp).1.members, List.map_map]
    rfl
  refine ⟨index, ?_, hledger, ?_, ?_, ?_⟩
  · simp only [frameSourceLanesV1, hok, hreconcile]
  · have hperm : (blocks.flatMap (·.2)).Perm ledger.events :=
      (List.perm_ext_iff_of_nodup (List.Nodup.of_map _ hnodup)
        (List.Nodup.of_map _ h.ids_nodup)).mpr hmem
    calc index.blocks.flatMap (·.memberIds)
        = (index.blocks.map BlockIndex.toCandidate).flatMap (·.memberIds) :=
          (List.flatMap_map BlockIndex.toCandidate (·.memberIds) index.blocks).symm
      _ = (BlockIndex.sortCandidates _).flatMap (·.memberIds) := by rw [hblocks]
      _ |>.Perm ((blocks.map fun p =>
            BlockIndex.candidate ledger p.1 (p.2.map ledger.pos)).flatMap (·.memberIds)) :=
          (List.perm_insertionSort _ _).flatMap_right _
      _ = (blocks.flatMap (·.2)).map (·.id) := by
          rw [List.flatMap_map, List.map_flatMap]
          exact List.flatMap_congr hids
      _ |>.Perm (ledger.events.map (·.id)) := hperm.map _
  · intro block hblock
    obtain ⟨p, hp, heq⟩ := hcandidate block hblock
    obtain ⟨hframe, hpart⟩ := hframes p hp
    have hlane : p.1.lane = block.lane := congrArg CandidateBlock.lane heq
    have hpositions : p.2.map ledger.pos = block.memberPositions :=
      congrArg CandidateBlock.memberPositions heq
    have hmembers : p.1.memberIds = block.memberIds := congrArg CandidateBlock.memberIds heq
    refine ⟨p.2, ?_, hmembers.symm.trans (hids p hp), hframe.nonempty, hlane ▸ hpart,
      hframe.chained, hframe.caps⟩
    rw [BlockIndex.expansion, ← hpositions, hledger]
    exact mapM_lookup h fun event hevent => (hsub p hp event hevent).1
  · intro lane
    have hfilter := sortCandidates_filter_lane h (fun p hp => (hframes p hp).1.nonempty) hlanes
      lane
    calc (index.blocks.filter (·.lane = lane)).flatMap (·.memberIds)
        = ((index.blocks.map BlockIndex.toCandidate).filter (·.lane = lane)).flatMap
            (·.memberIds) := by
          rw [List.filter_map, List.flatMap_map]
          rfl
      _ = ((blocks.filter (·.1.lane = lane)).map fun p =>
            BlockIndex.candidate ledger p.1 (p.2.map ledger.pos)).flatMap (·.memberIds) := by
          rw [hblocks, hfilter]
      _ = ((blocks.filter (·.1.lane = lane)).flatMap (·.2)).map (·.id) := by
          rw [List.flatMap_map, List.map_flatMap]
          exact List.flatMap_congr fun p hp => hids p (List.mem_filter.mp hp).1
      _ = (ledger.laneEvents lane).map (·.id) := by rw [hlanes]

/-- Framing is a total exact partition of every ledger there is: distinct
events, each in one block; blocks are runs of their lane within the caps
and make the lane up in order. -/
theorem frame_partitions (ledger : EventLedger) (h : ledger.Obtained)
    (hbytes : (ledger.events.map (·.raw.length)).sum < 2 ^ 64)
    (hcollision : NoBlockIdCollision ledger) :
    (ledger.events.map (·.id)).Nodup ∧
      ∃ index, frameSourceLanesV1 ledger = .ok index ∧ index.Partitions ledger :=
  ⟨h.indexed.ids_nodup, frameSourceLanesV1_partitions h.indexed hbytes hcollision⟩

end Partition

/-! ## Two lanes with a traceback -/

/-- The runs of consecutive events of these lanes. -/
def laneRuns (ledger : EventLedger) (lanes : List LaneKey) : List (LaneKey × List Event) :=
  lanes.flatMap fun lane =>
    (((ledger.laneEvents lane).tails.flatMap List.inits).filter (!·.isEmpty)).map (lane, ·)

/-- Only finitely many block ids have to be distinct. -/
theorem noBlockIdCollision_of_nodup [Sha256] {ledger : EventLedger} {lanes : List LaneKey}
    (hlanes : ∀ event ∈ ledger.events, event.lane ∈ lanes)
    (h : ((laneRuns ledger lanes).map fun run => framedBlockId ledger run.1 run.2).Nodup) :
    NoBlockIdCollision ledger := by
  have hlisted : ∀ {lane : LaneKey} {events : List Event}, events <:+: ledger.laneEvents lane →
      events ≠ [] → (lane, events) ∈ laneRuns ledger lanes := by
    intro lane events hpart hne
    obtain ⟨event, hevent⟩ := List.exists_mem_of_ne_nil _ hne
    obtain ⟨hmem, hlane⟩ := List.mem_filter.mp (hpart.subset hevent)
    obtain ⟨tail, hinit, htail⟩ := List.infix_iff_prefix_suffix.mp hpart
    refine List.mem_flatMap.mpr ⟨lane, of_decide_eq_true hlane ▸ hlanes event hmem,
      List.mem_map_of_mem (List.mem_filter.mpr ⟨List.mem_flatMap.mpr
        ⟨tail, (List.mem_tails _ _).mpr htail, (List.mem_inits _ _).mpr hinit⟩, ?_⟩)⟩
    simpa using hne
  intro lane lane' events events' hpart hpart' hne hne' hid
  obtain ⟨_, rfl⟩ := Prod.mk.inj
    (List.inj_on_of_nodup_map h (hlisted hpart hne) (hlisted hpart' hne') hid)
  rfl

def tracebackLine : Vec UInt8 := ⟨asciiBytes "Traceback (most recent call last):", by decide⟩

def terminalLine : Vec UInt8 := ⟨asciiBytes "ValueError: x", by decide⟩

/-- A traceback around a line of the other stream, and a line behind it. -/
def interruptedTraceback : List RawEnvelopeV1 :=
  [streamLine 0 .stderr 0 tracebackLine, streamLine 1 .stdout 0 terminalLine,
    streamLine 2 .stderr 1 terminalLine, streamLine 3 .stderr 2 (.singleton 120)]

/-- The traceback is one block; the lines beside and behind it stand alone. -/
theorem frame_partitions_two_lanes :
    letI := fips180
    ∃ ledger index, ledger.Obtained ∧ frameSourceLanesV1 ledger = .ok index ∧
      index.blocks.map (·.memberPositions) = [[0, 2], [1], [3]] ∧ index.Partitions ledger := by
  rw [fips180_eq]
  let := fips180Evaluated
  let lanes : List LaneKey := [⟨replayLane.member, .stderr⟩, ⟨replayLane.member, .stdout⟩]
  have hrun : (replayLedger interruptedTraceback 61).map (fun ledger => decide (
      (∀ event ∈ ledger.events, event.lane ∈ lanes) ∧
      ((laneRuns ledger lanes).map fun run => framedBlockId ledger run.1 run.2).Nodup ∧
      (ledger.events.map (·.raw.length)).sum < 2 ^ 64 ∧
      (frameSourceLanesV1 ledger).toOption.map (·.blocks.map (·.memberPositions)) =
        some [[0, 2], [1], [3]])) = some true := by
    decide +kernel
  obtain ⟨ledger, hledger, hdecided⟩ := Option.map_eq_some_iff.mp hrun
  obtain ⟨hlanes, hdistinct, hbytes, hshape⟩ := of_decide_eq_true hdecided
  have hobtained := obtained_of_replayLedger hledger
  obtain ⟨_, index, hok, hpartitions⟩ := frame_partitions ledger hobtained hbytes
    (noBlockIdCollision_of_nodup hlanes hdistinct)
  rw [hok] at hshape
  exact ⟨ledger, index, hobtained, hok, Option.some.inj hshape, hpartitions⟩

end Evidentrail
