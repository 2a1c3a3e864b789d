import Evidentrail.Framing.Ends

/-!
# What the confidence of a block depends on

The inner loop fixes the confidence of a block too early: it reads the clock of
the record behind the block before it is known whether that record continues it.
So a record that is not joined lowers the confidence by having no time, and one
that a cap keeps out lowers it by being within the time bound. The confidence
depends on the block alone exactly when it is settled anyway: when a record of
the block has no time, when nothing stands directly behind it, or when the
record there would be joined if it had no time (`confidence_reflects_block_iff`).
-/

namespace Evidentrail

open Rust Std

/-! ## Other times behind the block -/

/-- The event with other times. -/
def Event.stamped (event : Event) (timestamps : EnvelopeTimestamps) : Event :=
  { event with timestamps }

/-- The same event, up to its times. -/
def Event.Restamped (event later : Event) : Prop :=
  ∃ timestamps, later = event.stamped timestamps

section Stamped

variable {state : RecognitionState} {previous event : Event} {timestamps : EnvelopeTimestamps}

@[simp] theorem Event.stamped_raw : (event.stamped timestamps).raw = event.raw := rfl

@[simp] theorem Event.stamped_adapterMonotonicTime :
    (event.stamped timestamps).timestamps.adapterMonotonicTime =
      timestamps.adapterMonotonicTime := rfl

@[simp] theorem follows_stamped :
    BlockIndex.Follows previous (event.stamped timestamps) ↔ BlockIndex.Follows previous event :=
  Iff.rfl

/-- A continuation is not asked for its time. -/
@[simp] theorem recognizedContinuation_stamped (behind : Option Event) :
    recognizedContinuation state (event.stamped timestamps) behind =
      recognizedContinuation state event behind := rfl

@[simp] theorem recognizedContinuation_some_stamped :
    recognizedContinuation state previous (some (event.stamped timestamps)) =
      recognizedContinuation state previous (some event) := by
  have hline : isJoinableLine (event.stamped timestamps) = isJoinableLine event := rfl
  have hpayload : joinablePayload (some (event.stamped timestamps)) =
      joinablePayload (some event) := by
    simp only [joinablePayload, Option.filter_some, hline]
    split <;> rfl
  rw [recognizedContinuation, recognizedContinuation, hpayload]

theorem Event.Held.stamped (h : event.Held) : (event.stamped timestamps).Held :=
  ⟨h.exact, h.payload_lt⟩

/-- Without a time on one side only the lane sequence can be a boundary. -/
theorem monotonicRelation_ne_boundary_iff
    (h : previous.timestamps.adapterMonotonicTime = none ∨
      event.timestamps.adapterMonotonicTime = none) :
    monotonicRelation previous event ≠ .boundary ↔ BlockIndex.Follows previous event := by
  refine ⟨follows_of_monotonicRelation, fun hfollows => ?_⟩
  have hnext : checkedAdd previous.laneSequence.get 1 = some event.laneSequence.get :=
    checkedAdd_eq_some.mpr ⟨hfollows ▸ event.laneSequence.get_lt, hfollows.symm⟩
  rw [monotonicRelation, if_neg (not_not.mpr hnext)]
  obtain hnone | hnone := h
  · simp [hnone]
  · cases htime : previous.timestamps.adapterMonotonicTime <;> simp [hnone]

/-- With some time a record is out of reach of the one before it. -/
theorem exists_boundary (hpreviousTime : previous.timestamps.adapterMonotonicTime.isSome)
    (event : Event) :
    ∃ timestamps, monotonicRelation previous (event.stamped timestamps) = .boundary := by
  obtain ⟨time, htime⟩ := Option.isSome_iff_exists.mp hpreviousTime
  have hunless : ∀ next : MonotonicTimestampNanos, ¬(time.get.toNat ≤ next.get.toNat ∧
      next.get.toNat - time.get.toNat ≤ maxContinuationGapNanosV1) →
        monotonicRelation previous (event.stamped { adapterMonotonicTime := some next }) =
          .boundary := by
    intro next hfar
    rw [monotonicRelation]
    split
    · rfl
    · simp only [htime, Event.stamped_adapterMonotonicTime, if_neg hfar]
  -- an earlier time, or none is earlier and one behind the gap will do
  by_cases hzero : time.get.toNat = 0
  · exact ⟨_, hunless ⟨30000000001⟩ (by rw [hzero]; decide)⟩
  · exact ⟨_, hunless ⟨0⟩ fun hboth => hzero (Nat.le_zero.mp hboth.1)⟩

/-- With other times a record continues the block as it does without any, or as
it does alone; without a time it has no choice. -/
theorem recognizedContinuation_restamped {bytes length : Nat} {rest later : List Event}
    (h : List.Forall₂ Event.Restamped rest later) :
    let found := recognizedContinuation state event
      (eligibleLookahead state bytes length (event.stamped {}) rest.head?)
    let found' := recognizedContinuation state event
      (eligibleLookahead state bytes length (event.stamped timestamps) later.head?)
    (found' = found ∨ found' = recognizedContinuation state event none) ∧
      (timestamps.adapterMonotonicTime = none → found' = found) := by
  cases h with
  | nil => exact ⟨.inl rfl, fun _ => rfl⟩
  | @cons lookahead _ rest later hlookahead _ =>
      obtain ⟨times, rfl⟩ := hlookahead
      have hboth : monotonicRelation (event.stamped {}) lookahead ≠ .boundary →
          monotonicRelation (event.stamped timestamps) (lookahead.stamped times) ≠ .boundary →
          recognizedContinuation state event (eligibleLookahead state bytes length
              (event.stamped timestamps) (some (lookahead.stamped times))) =
            recognizedContinuation state event (eligibleLookahead state bytes length
              (event.stamped {}) (some lookahead)) := by
        intro hrelation hrelation'
        simp only [eligibleLookahead, hrelation, hrelation', or_false, Event.stamped_raw,
          recognizedContinuation_stamped]
        repeat' split
        all_goals first | rfl | exact recognizedContinuation_some_stamped
      have hnone : ∀ {candidate behind : Event}, monotonicRelation candidate behind = .boundary →
          eligibleLookahead state bytes length candidate (some behind) = none := by
        intro candidate behind hboundary
        simp only [eligibleLookahead, hboundary, or_true, if_true]
      have huntimed : monotonicRelation (event.stamped {}) lookahead ≠ .boundary ↔
          BlockIndex.Follows event lookahead := monotonicRelation_ne_boundary_iff (.inl rfl)
      by_cases hrelation' : monotonicRelation (event.stamped timestamps) (lookahead.stamped times) =
          .boundary
      · refine ⟨.inr (by rw [List.head?_cons, hnone hrelation']), fun htime => ?_⟩
        have hgap : ¬BlockIndex.Follows event lookahead := fun hfollows => by
          have hfollows' : BlockIndex.Follows (event.stamped timestamps)
              (lookahead.stamped times) := hfollows
          exact (monotonicRelation_ne_boundary_iff (.inl htime)).mpr hfollows' hrelation'
        rw [← huntimed, not_not] at hgap
        rw [List.head?_cons, List.head?_cons, hnone hrelation', hnone hgap]
      · have hfollows' := follows_of_monotonicRelation hrelation'
        have hsame := hboth (huntimed.mpr hfollows') hrelation'
        exact ⟨.inl hsame, fun _ => hsame⟩

end Stamped

/-! ## Blocks that can be judged by themselves -/

/-- The record behind the block would be joined to it. -/
def JoinedBehind (block behind : List Event) : Prop :=
  ∃ candidate ∈ behind.head?, ∃ state ∈ blockState (block ++ behind) block.length,
    ∃ next ∈ recognizedContinuation state candidate
      (eligibleLookahead state (rawBytes block) block.length candidate behind.tail.head?),
      ¬OverCaps next block.length (rawBytes block + candidate.raw.length)

/-- All records of the block have a time, and directly behind it stands a record
that would not be joined if it had none: it does not continue the block, or a
cap keeps it out. -/
def Exposed (block behind : List Event) : Prop :=
  block.IsChain BothTimed ∧
    (∃ last ∈ block.getLast?, ∃ candidate ∈ behind.head?, BlockIndex.Follows last candidate) ∧
    ¬JoinedBehind block (behind.modifyHead (·.stamped {}))

instance (block behind : List Event) : Decidable (Exposed block behind) := by
  unfold Exposed JoinedBehind BlockIndex.Follows
  infer_instance

section Judged

variable {event : Event} {joined behind later : List Event} {grown grown' : Grown}

theorem isSome_last_of_isChain (hjoined : joined ≠ []) (h : (event :: joined).IsChain BothTimed) :
    (joined.getLast?.getD event).timestamps.adapterMonotonicTime.isSome := by
  induction joined generalizing event with
  | nil => exact absurd rfl hjoined
  | cons next joined ih =>
      obtain ⟨htimed, hrest⟩ := List.isChain_cons_cons.mp h
      rw [List.getLast?_cons, Option.getD_some]
      cases joined with
      | nil => exact htimed.2
      | cons _ _ => exact ih (List.cons_ne_nil _ _) hrest

theorem blockState_eq_of_growFrom (h : growFrom event (joined ++ behind) = .ok grown)
    (hlength : grown.length = joined.length + 1) (hjoined : joined ≠ []) (later : List Event) :
    blockState (event :: joined ++ later) (joined.length + 1) =
      blockState (event :: joined ++ behind) (joined.length + 1) := by
  obtain ⟨next, joined, rfl⟩ := List.exists_cons_of_ne_nil hjoined
  obtain hone | ⟨recognition, hstart, hgrow⟩ := growFrom_eq_ok_cases h
  · rw [List.length_cons] at hlength
    omega
  have hstate : ∀ tail : List Event, blockState (event :: (next :: joined) ++ tail)
      ((next :: joined).length + 1) =
        stateAt recognition event.raw.length 1 (next :: joined ++ tail)
          (next :: joined).length := by
    intro tail
    have hhead : recognizedStart event (next :: joined ++ tail).head? = some recognition := hstart
    rw [List.cons_append, blockState, hhead]
    rfl
  rw [hstate, hstate]
  exact stateAt_eq_of_growBlock hgrow (by omega) later

/-- Unless the block is exposed, whatever stands in its way does not lower its
confidence. -/
theorem settled_of_not_exposed (hgrown : growFrom event (joined ++ behind) = .ok grown)
    (hlength : grown.length = joined.length + 1) (hjoined : joined ≠ [])
    (hgrown' : growFrom event (joined ++ later) = .ok grown')
    (hlength' : grown'.length = joined.length + 1)
    (hlater : List.Forall₂ Event.Restamped behind later)
    (hchain : (event :: joined).IsChain BothTimed) (hexposed : ¬Exposed (event :: joined) behind) :
    ¬StoppedByCap (event :: joined) later ∧ ¬UntimedBehind (event :: joined) later := by
  cases hlater with
  | nil => simp [StoppedByCap, UntimedBehind]
  | @cons candidate _ rest laterRest hcandidate hrest =>
      obtain ⟨timestamps, rfl⟩ := hcandidate
      simp only [StoppedByCap, UntimedBehind, List.getLast?_cons, List.head?_cons, List.tail_cons,
        Option.mem_def, Option.some.injEq, exists_eq_left']
      by_cases hboundary : monotonicRelation (joined.getLast?.getD event)
          (candidate.stamped timestamps) = .boundary
      · simp [hboundary]
      have hfollows : BlockIndex.Follows (joined.getLast?.getD event) candidate :=
        follows_stamped.mp (follows_of_monotonicRelation hboundary)
      have hjoins : JoinedBehind (event :: joined) (candidate.stamped {} :: rest) := by
        by_contra hnot
        exact hexposed ⟨hchain, ⟨_, List.getLast?_cons, candidate, rfl, hfollows⟩, hnot⟩
      simp only [JoinedBehind, List.head?_cons, List.tail_cons, Option.mem_def, Option.some.injEq,
        exists_eq_left', List.length_cons, recognizedContinuation_stamped,
        Event.stamped_raw] at hjoins
      obtain ⟨state, hstate, next, hnext, hfits⟩ := hjoins
      rw [blockState_eq_of_growFrom hgrown hlength hjoined] at hstate
      -- the record behind is not joined, so with its own times it is no continuation
      have hends := (length_growFrom_iff hgrown hlength hjoined hgrown').mp hlength' _ rfl hboundary
        state hstate
      obtain ⟨hfound, huntimed⟩ := @recognizedContinuation_restamped state candidate timestamps
        (rawBytes (event :: joined)) (joined.length + 1) _ _ hrest
      have hmissing : recognizedContinuation state candidate
          (eligibleLookahead state (rawBytes (event :: joined)) (joined.length + 1)
            (candidate.stamped timestamps) laterRest.head?) = none := by
        rw [Option.eq_none_iff_forall_ne_some]
        intro next' hnext'
        have hsame : some next = some next' := by
          rw [← hnext, ← hnext']
          obtain hsame | halone := hfound
          · exact hsame.symm
          · rw [halone] at hnext'
            rw [halone, hnext', recognizedContinuation_of_none hnext']
        obtain rfl := Option.some.inj hsame
        exact hfits (hends next hnext')
      constructor
      · rintro ⟨_, state', hstate', next', hnext', _⟩
        rw [List.length_cons, blockState_eq_of_growFrom hgrown hlength hjoined, hstate,
          Option.some.injEq] at hstate'
        subst hstate'
        rw [List.length_cons, recognizedContinuation_stamped, hmissing] at hnext'
        cases hnext'
      · intro hunavailable
        have htimes := (monotonicRelation_eq_unavailable_iff hboundary).mp hunavailable
        have huntimedCandidate : timestamps.adapterMonotonicTime = none := by
          by_contra hsome
          exact htimes ⟨isSome_last_of_isChain hjoined hchain, Option.isSome_iff_ne_none.mpr hsome⟩
        rw [← huntimed huntimedCandidate, hmissing] at hnext
        cases hnext

end Judged

/-! ## A block in its lane -/

/-- Where a stretch of a list without repetitions stands. -/
theorem split_eq_of_nodup {α β : Type} {f : α → β} {before block behind before' block' behind' :
    List α} (hsplit : before ++ block ++ behind = before' ++ block' ++ behind')
    (hnodup : ((before ++ block ++ behind).map f).Nodup) (hmap : block.map f = block'.map f)
    (hblock : block ≠ []) : before = before' ∧ block = block' ∧ behind = behind' := by
  obtain ⟨first, tail, rfl⟩ := List.exists_cons_of_ne_nil hblock
  obtain ⟨first', tail', rfl⟩ : ∃ first' tail', block' = first' :: tail' :=
    List.exists_cons_of_ne_nil fun hnil => by rw [hnil] at hmap; cases hmap
  have hfirst : f first = f first' := (List.cons.inj hmap).1
  have hlengths := congrArg List.length hmap
  rw [List.length_map, List.length_map] at hlengths
  have hget : ((before ++ (first :: tail) ++ behind).map f)[before.length]? = some (f first) := by
    simp
  have hget' : ((before ++ (first :: tail) ++ behind).map f)[before'.length]? = some (f first) := by
    rw [hsplit, hfirst]
    simp
  have hposition : before.length = before'.length :=
    (List.getElem?_inj (List.getElem?_eq_some_iff.mp hget).1 hnodup).mp (hget.trans hget'.symm)
  rw [List.append_assoc, List.append_assoc] at hsplit
  obtain ⟨hbefore, hrest⟩ := List.append_inj hsplit hposition
  obtain ⟨hsame, hbehind⟩ := List.append_inj hrest hlengths
  exact ⟨hbefore, hsame, hbehind⟩

theorem ids_restamped {behind later : List Event}
    (h : List.Forall₂ Event.Restamped behind later) : later.map (·.id) = behind.map (·.id) := by
  induction h with
  | nil => rfl
  | cons hevent _ ih =>
      obtain ⟨timestamps, rfl⟩ := hevent
      rw [List.map_cons, List.map_cons, ih]
      rfl

theorem held_restamped {behind later : List Event} (h : List.Forall₂ Event.Restamped behind later)
    (hheld : ∀ event ∈ behind, event.Held) : ∀ event ∈ later, event.Held := by
  induction h with
  | nil => exact hheld
  | cons hevent _ ih =>
      obtain ⟨timestamps, rfl⟩ := hevent
      obtain ⟨hfirst, hrest⟩ := List.forall_mem_cons.mp hheld
      exact List.forall_mem_cons.mpr ⟨hfirst.stamped, ih hrest⟩

theorem restamped_refl (events : List Event) : List.Forall₂ Event.Restamped events events :=
  List.forall₂_same.mpr fun event _ => ⟨event.timestamps, rfl⟩

section Blocks

variable {lane : LaneKey} {policy : FramingPolicy} {event : Event}
  {before joined behind later : List Event} {grown : Grown} {assignments : List BlockAssignment}
  {a : BlockAssignment}

/-- A block of these records in a lane is the one that grows from the first of
them. -/
theorem grown_of_frameLane
    (h : frameLane lane policy 0 (before ++ (event :: joined) ++ behind) = .ok assignments)
    (hnodup : ((before ++ (event :: joined) ++ behind).map (·.id)).Nodup) (ha : a ∈ assignments)
    (hmembers : a.members = (event :: joined).map fun event => (event.id, event.laneSequence)) :
    ∃ grown, growFrom event (joined ++ behind) = .ok grown ∧ grown.length = joined.length + 1 ∧
      a.confidence = (blockClassification grown event (joined ++ behind).head?).2 := by
  obtain ⟨blocks, hblocks, rfl⟩ := frameLane_eq_laneBlocks lane policy _ 0 h
  obtain ⟨block, hblock, rfl⟩ := List.mem_map.mp ha
  obtain ⟨first, after, rfl⟩ := List.append_of_mem hblock
  obtain ⟨head, rest, grown, hgrown, htake, hsplit, hassignment⟩ := laneBlocks_split hblocks rfl
  obtain ⟨hholds, hflat⟩ := laneBlocks_eq_ok hblocks
  rw [List.flatMap_append, List.flatMap_cons, List.drop_zero, ← List.append_assoc] at hflat
  have hids : (event :: joined).map (·.id) = block.2.map (·.id) := by
    have hboth := (hholds block hblock).members.symm.trans hmembers
    have hfirsts := congrArg (List.map Prod.fst) hboth
    rw [List.map_map, List.map_map] at hfirsts
    exact hfirsts.symm
  obtain ⟨_, hsame, hbehind⟩ := split_eq_of_nodup hflat.symm hnodup hids (List.cons_ne_nil _ _)
  rw [← hsame, ← hbehind, List.cons_append] at hsplit
  obtain ⟨rfl, rfl⟩ := List.cons.inj hsplit
  have hlength := length_take_grown hgrown
  rw [← htake, ← hsame, List.length_cons] at hlength
  exact ⟨grown, hgrown, hlength.symm, congrArg BlockAssignment.confidence hassignment⟩

/-- What the flags make of a block of several records. -/
theorem confidence_of_growFrom (hgrown : growFrom event (joined ++ behind) = .ok grown)
    (hlength : grown.length = joined.length + 1) (hjoined : joined ≠ []) (next : Option Event) :
    ((blockClassification grown event next).2 = .high ↔ ¬StoppedByCap (event :: joined) behind ∧
      (event :: joined).IsChain BothTimed ∧ ¬UntimedBehind (event :: joined) behind) ∧
    ((blockClassification grown event next).2 ≠ .high →
      (blockClassification grown event next).2 = .medium) := by
  have hpos := List.length_pos_iff.mpr hjoined
  have hmany : 1 < grown.length := by omega
  have htake : event :: joined = (event :: (joined ++ behind)).take grown.length := by
    rw [hlength, List.take_succ_cons, List.take_left]
  obtain ⟨htiming, hcap⟩ := flags_of_growFrom hgrown htake rfl hmany
  have hcertain : ¬grown.timingUncertain = true ↔ (event :: joined).IsChain BothTimed ∧
      ¬UntimedBehind (event :: joined) behind := by
    rw [htiming, not_or, not_not]
  rw [← hcertain, ← hcap]
  simp only [blockClassification, if_pos hmany]
  cases grown.terminatedByCap <;> cases grown.timingUncertain <;> simp

/-- A confidence that says of a block only what it should: that no cap has
stopped it and that its records have times. With other times on the records
behind it, the framer gives these records the same confidence whenever it makes
them a block. -/
structure ReflectsBlock (lane : LaneKey) (before members behind : List Event)
    (confidence : BlockConfidence) : Prop where
  high_iff : confidence = .high ↔ ¬StoppedByCap members behind ∧ members.IsChain BothTimed
  independent : ∀ later, List.Forall₂ Event.Restamped behind later → ∃ assignments,
    frameLane lane sourceLaneFramingPolicyV1 0 (before ++ members ++ later) = .ok assignments ∧
      ∀ a ∈ assignments, a.members = members.map (fun event => (event.id, event.laneSequence)) →
        a.confidence = confidence

/-- A block in its lane, with the records on both sides of it. -/
structure Stands (lane : LaneKey) (before : List Event) (event : Event)
    (joined behind : List Event) (grown : Grown) : Prop where
  held : ∀ held ∈ before ++ (event :: joined) ++ behind, held.Held
  nodup : ((before ++ (event :: joined) ++ behind).map (·.id)).Nodup
  framed : ∃ first after : List (BlockAssignment × List Event), first.flatMap (·.2) = before ∧
    laneBlocks lane sourceLaneFramingPolicyV1 0 (before ++ (event :: joined) ++ behind) =
      .ok (first ++ after)
  grows : growFrom event (joined ++ behind) = .ok grown
  length : grown.length = joined.length + 1
  joined : joined ≠ []

/-- The block with other records behind it. -/
theorem Stands.frame_later (h : Stands lane before event joined behind grown)
    (hlater : List.Forall₂ Event.Restamped behind later) :
    ∃ assignments, frameLane lane sourceLaneFramingPolicyV1 0
        (before ++ (event :: joined) ++ later) = .ok assignments ∧
      (∀ a ∈ assignments,
        a.members = (event :: joined).map (fun event => (event.id, event.laneSequence)) →
          ∃ grown', growFrom event (joined ++ later) = .ok grown' ∧
            grown'.length = joined.length + 1 ∧
            a.confidence = (blockClassification grown' event (joined ++ later).head?).2) ∧
      ∀ grown', growFrom event (joined ++ later) = .ok grown' →
        grown'.length = joined.length + 1 → ∃ a ∈ assignments,
          a.members = (event :: joined).map (fun event => (event.id, event.laneSequence)) ∧
            a.confidence = (blockClassification grown' event (joined ++ later).head?).2 := by
  have hheld : ∀ held ∈ before ++ (event :: joined) ++ later, held.Held := by
    rw [List.forall_mem_append]
    obtain ⟨hfront, hbehind⟩ := List.forall_mem_append.mp h.held
    exact ⟨hfront, held_restamped hlater hbehind⟩
  have hnodup : ((before ++ (event :: joined) ++ later).map (·.id)).Nodup := by
    rw [List.map_append, ids_restamped hlater, ← List.map_append]
    exact h.nodup
  obtain ⟨assignments, hassignments⟩ := frameLane_returns lane sourceLaneFramingPolicyV1 0 hheld
  refine ⟨assignments, hassignments,
    fun a ha hmembers => grown_of_frameLane hassignments hnodup ha hmembers,
    fun grown' hgrown' hlength' => ?_⟩
  obtain ⟨blocks, hblocks, rfl⟩ := frameLane_eq_laneBlocks lane _ _ 0 hassignments
  obtain ⟨first, after, hfirst, hframed⟩ := h.framed
  rw [List.append_assoc] at hframed hblocks
  have hmem := exists_laneBlock h.joined hgrown' hlength' (Nat.zero_le _) hfirst hframed hblocks
  exact ⟨_, List.mem_map_of_mem hmem, rfl, rfl⟩

/-- A block that is not exposed is judged by itself. -/
theorem Stands.reflectsBlock (h : Stands lane before event joined behind grown)
    (hexposed : ¬Exposed (event :: joined) behind) (next : Option Event) :
    ReflectsBlock lane before (event :: joined) behind
      (blockClassification grown event next).2 := by
  have hsettled : ∀ {later grown'} next', List.Forall₂ Event.Restamped behind later →
      growFrom event (joined ++ later) = .ok grown' → grown'.length = joined.length + 1 →
        ((event :: joined).IsChain BothTimed → ¬StoppedByCap (event :: joined) later) ∧
        ((blockClassification grown' event next').2 = .high ↔
          (event :: joined).IsChain BothTimed) := by
    intro later grown' next' hlater hgrown' hlength'
    have hboth := fun hchain => settled_of_not_exposed h.grows h.length h.joined hgrown' hlength'
      hlater hchain hexposed
    rw [(confidence_of_growFrom hgrown' hlength' h.joined next').1]
    exact ⟨fun hchain => (hboth hchain).1, fun hall => hall.2.1,
      fun hchain => ⟨(hboth hchain).1, hchain, (hboth hchain).2⟩⟩
  obtain ⟨hstopped, hhigh⟩ := hsettled next (restamped_refl behind) h.grows h.length
  refine ⟨hhigh.trans ⟨fun hchain => ⟨hstopped hchain, hchain⟩, fun hall => hall.2⟩,
    fun later hlater => ?_⟩
  obtain ⟨assignments, hassignments, hfound, _⟩ := h.frame_later hlater
  refine ⟨assignments, hassignments, fun a ha hmembers => ?_⟩
  obtain ⟨grown', hgrown', hlength', hconfidence⟩ := hfound a ha hmembers
  obtain ⟨_, hhigh'⟩ := hsettled (joined ++ later).head? hlater hgrown' hlength'
  rw [hconfidence]
  by_cases hchain : (event :: joined).IsChain BothTimed
  · rw [hhigh.mpr hchain, hhigh'.mpr hchain]
  · rw [(confidence_of_growFrom h.grows h.length h.joined next).2 (hchain ∘ hhigh.mp),
      (confidence_of_growFrom hgrown' hlength' h.joined _).2 (hchain ∘ hhigh'.mp)]

/-- An exposed block is judged by the clock behind it: without a time there its
confidence is medium, and with a time out of reach it is high. -/
theorem Stands.not_reflectsBlock (h : Stands lane before event joined behind grown)
    (hexposed : Exposed (event :: joined) behind) (confidence : BlockConfidence) :
    ¬ReflectsBlock lane before (event :: joined) behind confidence := by
  intro hreflects
  obtain ⟨hchain, ⟨last, hlast, candidate, hcandidate, hfollows⟩, hnot⟩ := hexposed
  rw [List.getLast?_cons, Option.mem_def, Option.some.injEq] at hlast
  obtain ⟨rest, rfl⟩ : ∃ rest, behind = candidate :: rest := List.head?_eq_some_iff.mp hcandidate
  have htimed := isSome_last_of_isChain h.joined hchain
  rw [hlast] at htimed
  have hgiven : ∀ timestamps : EnvelopeTimestamps,
      (monotonicRelation last (candidate.stamped timestamps) ≠ .boundary → timestamps = {}) →
        (confidence = .high ↔
          monotonicRelation last (candidate.stamped timestamps) = .boundary) := by
    intro timestamps huntimed
    have hlater : List.Forall₂ Event.Restamped (candidate :: rest)
        (candidate.stamped timestamps :: rest) := .cons ⟨timestamps, rfl⟩ (restamped_refl rest)
    have hheld := held_restamped hlater (List.forall_mem_append.mp h.held).2
    have hmembersHeld := (List.forall_mem_append.mp (List.forall_mem_append.mp h.held).1).2
    obtain ⟨grown', hgrown'⟩ := growFrom_returns event
      (List.forall_mem_append.mpr ⟨(List.forall_mem_cons.mp hmembersHeld).2, hheld⟩)
    have hlength' : grown'.length = joined.length + 1 := by
      rw [length_growFrom_iff h.grows h.length h.joined hgrown']
      rintro _ ⟨⟩ hrelation state hstate next hnext
      rw [hlast] at hrelation
      obtain rfl := huntimed hrelation
      by_contra hfits
      rw [← blockState_eq_of_growFrom h.grows h.length h.joined
        (candidate.stamped {} :: rest)] at hstate
      exact hnot ⟨_, rfl, state, hstate, next, hnext, hfits⟩
    obtain ⟨assignments, hassignments, hindependent⟩ := hreflects.independent _ hlater
    obtain ⟨assignments', hassignments', _, hfound⟩ := h.frame_later hlater
    rw [hassignments, Except.ok.injEq] at hassignments'
    subst hassignments'
    obtain ⟨a, ha, hmembers, hconfidence⟩ := hfound grown' hgrown' hlength'
    rw [← hindependent a ha hmembers, hconfidence,
      (confidence_of_growFrom hgrown' hlength' h.joined _).1]
    simp only [StoppedByCap, UntimedBehind, List.getLast?_cons, hlast, List.head?_cons,
      Option.mem_def, Option.some.injEq, exists_eq_left', hchain, true_and]
    by_cases hboundary : monotonicRelation last (candidate.stamped timestamps) = .boundary
    · simp [hboundary]
    · obtain rfl := huntimed hboundary
      have hunavailable := (monotonicRelation_eq_unavailable_iff hboundary).mpr
        fun hboth => Bool.false_ne_true hboth.2
      simp [hunavailable]
  have hlow := hgiven {} fun _ => rfl
  obtain ⟨far, hfar⟩ := exists_boundary htimed candidate
  have hhigh := hgiven far fun hnear => absurd hfar hnear
  have hnear : monotonicRelation last (candidate.stamped {}) ≠ .boundary :=
    (monotonicRelation_ne_boundary_iff (.inr rfl)).mpr hfollows
  exact hnear (hlow.mp (hhigh.mpr hfar))

end Blocks

/-! ## Confidence -/

section Confidence

variable [Sha256]

theorem ledger_of_frameSourceLanesV1 {ledger : EventLedger} (h : ledger.Indexed)
    {index : BlockIndex} (hok : frameSourceLanesV1 ledger = .ok index) : index.ledger = ledger := by
  unfold frameSourceLanesV1 at hok
  split at hok
  · cases hok
  split at hok
  · cases hok
  rename_i hreconcile
  cases hok
  exact (BlockIndex.reconcile_candidates h hreconcile).1

/-- A framed block of several records stands in its lane. -/
theorem exists_stands {ledger : EventLedger} (h : ledger.Obtained) {index : BlockIndex}
    (hok : frameSourceLanesV1 ledger = .ok index) {block : EventBlock}
    (hblock : block ∈ index.blocks) (hstate : block.state = .reconstructed) :
    ∃ before event joined behind grown, index.expansion block = some (event :: joined) ∧
      ledger.laneEvents block.lane = before ++ (event :: joined) ++ behind ∧
      Stands block.lane before event joined behind grown ∧
      block.confidence = (blockClassification grown event (joined ++ behind).head?).2 := by
  obtain ⟨blocks, hblocks, hexpansions⟩ := expansions_eq_laneBlocks h.indexed hok block.lane
  have hseen : (index.expansion block, block.state, block.confidence) ∈
      blocks.map fun block => (some block.2, block.1.state, block.1.confidence) := by
    rw [← hexpansions]
    exact List.mem_map.mpr ⟨block, List.mem_filter.mpr ⟨hblock, decide_eq_true rfl⟩, rfl⟩
  obtain ⟨framed, hframed, hsame⟩ := List.mem_map.mp hseen
  obtain ⟨hexpansion, hsame⟩ := Prod.mk.inj hsame
  obtain ⟨hframedState, hconfidence⟩ := Prod.mk.inj hsame
  obtain ⟨first, after, rfl⟩ := List.append_of_mem hframed
  obtain ⟨event, rest, grown, hgrown, hmembers, hsplit, hassignment⟩ := laneBlocks_split hblocks rfl
  have hflat := (laneBlocks_eq_ok hblocks).2
  rw [List.flatMap_append, List.flatMap_cons, List.drop_zero, ← List.append_assoc] at hflat
  rw [hassignment, assignment, BlockAssignment.newSameLaneV1] at hframedState hconfidence
  rw [hstate] at hframedState
  have hmany : 1 < grown.length := by
    by_contra hsingle
    simp only [blockClassification, if_neg hsingle, singletonClassification] at hframedState
    repeat' split at hframedState
    all_goals cases hframedState
  have hlength : framed.2.length = grown.length := hmembers ▸ length_take_grown hgrown
  obtain ⟨joined, hfirst⟩ : ∃ joined, framed.2 = event :: joined := by
    rw [hmembers]
    exact ⟨_, List.take_cons (Nat.zero_lt_of_lt hmany)⟩
  rw [hfirst] at hlength hsplit hflat hexpansion
  obtain rfl := (List.cons.inj hsplit).2
  rw [List.length_cons] at hlength
  refine ⟨_, event, joined, _, grown, hexpansion.symm, hflat.symm,
    ⟨?_, ?_, ⟨first, framed :: after, rfl, ?_⟩, hgrown, hlength.symm, ?_⟩, hconfidence.symm⟩
  · rw [hflat]
    intro held hheld
    have hmem := (List.mem_filter.mp hheld).1
    exact ⟨h.isExact held hmem, h.payload_lt held hmem⟩
  · rw [hflat]
    exact h.indexed.ids_nodup.sublist (List.filter_sublist.map _)
  · rw [hflat]
    exact hblocks
  · rintro rfl
    simp only [List.length_nil] at hlength
    omega

/-- Every reconstructed block of a framing is a run of its lane, and its
confidence reflects the block alone exactly when the block is not exposed to the
clock of the record behind it. -/
theorem confidence_reflects_block_iff (ledger : EventLedger) (h : ledger.Obtained)
    (index : BlockIndex) (hok : frameSourceLanesV1 ledger = .ok index) :
    ∀ block ∈ index.blocks, block.state = .reconstructed →
      ∃ members before behind, index.expansion block = some members ∧ 1 < members.length ∧
        ledger.laneEvents block.lane = before ++ members ++ behind ∧
        (ReflectsBlock block.lane before members behind block.confidence ↔
          ¬Exposed members behind) := by
  intro block hblock hstate
  obtain ⟨before, event, joined, behind, grown, hexpansion, hlane, hstands, hconfidence⟩ :=
    exists_stands h hok hblock hstate
  refine ⟨event :: joined, before, behind, hexpansion,
    Nat.succ_lt_succ (List.length_pos_iff.mpr hstands.joined), hlane, ?_⟩
  rw [hconfidence]
  exact ⟨fun hreflects hexposed => hstands.not_reflectsBlock hexposed _ hreflects,
    fun hexposed => hstands.reflectsBlock hexposed _⟩

end Confidence

/-- A traceback that ends before a line without a time. -/
def misjudgedRecords : List RawEnvelopeV1 :=
  [timedLine 0 ⟨asciiBytes "TypeError: bad", by decide⟩ (some 10),
    timedLine 1 ⟨asciiBytes "    at one (/a.js:1:1)", by decide⟩ (some 20),
    timedLine 2 ⟨asciiBytes "unrelated", by decide⟩ none]

theorem confidence_lowered_from_behind :
    letI := fips180
    ∃ ledger index, ledger.Obtained ∧ frameSourceLanesV1 ledger = .ok index ∧
      ∃ block ∈ index.blocks, block.state = .reconstructed ∧ block.confidence = .medium ∧
        ∃ members behind, index.expansion block = some members ∧
          ledger.laneEvents block.lane = members ++ behind ∧ ¬StoppedByCap members behind ∧
          members.IsChain BothTimed := by
  rw [fips180_eq]
  let := fips180Evaluated
  have hrun : (framedRun misjudgedRecords 45).map (fun p => decide (p.1.events.length = 3 ∧
      ∃ block ∈ p.2.blocks, block.state = .reconstructed ∧ block.confidence = .medium ∧
        block.memberPositions = [0, 1] ∧ (∀ event ∈ p.1.events, event.lane = block.lane) ∧
        ¬StoppedByCap (p.1.events.take 2) (p.1.events.drop 2) ∧
        (p.1.events.take 2).IsChain BothTimed)) = some true := by
    decide +kernel
  obtain ⟨⟨ledger, index⟩, hframed, hdecided⟩ := Option.map_eq_some_iff.mp hrun
  obtain ⟨hobtained, hok⟩ := framedRun_eq_some hframed
  obtain ⟨hthree, block, hblock, hstate, hconfidence, hpositions, hlane, hcap, htimed⟩ :=
    of_decide_eq_true hdecided
  obtain ⟨first, second, third, hevents⟩ := List.length_eq_three.mp hthree
  refine ⟨ledger, index, hobtained, hok, block, hblock, hstate, hconfidence, _, _, ?_, ?_, hcap,
    htimed⟩
  · rw [BlockIndex.expansion, hpositions, ledger_of_frameSourceLanesV1 hobtained.indexed hok,
      hevents]
    rfl
  · rw [EventLedger.laneEvents, List.filter_eq_self.mpr, List.take_append_drop]
    exact fun event hevent => decide_eq_true (hlane event hevent)

/-- The same traceback on the other stream, where nothing has a time. -/
def judgedRecords : List RawEnvelopeV1 :=
  misjudgedRecords ++ [streamLine 3 .stdout 0 ⟨asciiBytes "TypeError: bad", by decide⟩,
    streamLine 4 .stdout 1 ⟨asciiBytes "    at one (/a.js:1:1)", by decide⟩]

/-- The first block of the error stream is judged by the line behind it, the one
of the other stream by its own records. -/
theorem confidence_reflects_block_iff_two_lanes :
    letI := fips180
    ∃ (ledger : EventLedger) (index : BlockIndex), frameSourceLanesV1 ledger = .ok index ∧
      (∃ block ∈ index.blocks, ∃ members behind, index.expansion block = some members ∧
        ledger.laneEvents block.lane = members ++ behind ∧
        ¬ReflectsBlock block.lane [] members behind block.confidence) ∧
      ∃ block ∈ index.blocks, ∃ members behind, index.expansion block = some members ∧
        ledger.laneEvents block.lane = members ++ behind ∧
        ReflectsBlock block.lane [] members behind block.confidence := by
  rw [fips180_eq]
  let := fips180Evaluated
  let ids (events : List Event) := events.map (·.id)
  let front (p : EventLedger × BlockIndex) (block : EventBlock) :=
    block.state = .reconstructed ∧ (p.2.expansion block).map ids =
      some (ids ((p.1.laneEvents block.lane).take 2))
  let exposed (p : EventLedger × BlockIndex) (block : EventBlock) :=
    Exposed ((p.1.laneEvents block.lane).take 2) ((p.1.laneEvents block.lane).drop 2)
  have hrun : (framedRun judgedRecords 81).map (fun p => decide (
      (∃ block ∈ p.2.blocks, front p block ∧ exposed p block) ∧
        ∃ block ∈ p.2.blocks, front p block ∧ ¬exposed p block)) = some true := by
    decide +kernel
  obtain ⟨⟨ledger, index⟩, hframed, hdecided⟩ := Option.map_eq_some_iff.mp hrun
  obtain ⟨hobtained, hok⟩ := framedRun_eq_some hframed
  have hfront : ∀ block ∈ index.blocks, front (ledger, index) block → ∃ members behind,
      index.expansion block = some members ∧ ledger.laneEvents block.lane = members ++ behind ∧
      (ReflectsBlock block.lane [] members behind block.confidence ↔
        ¬exposed (ledger, index) block) := by
    rintro block hblock ⟨hstate, hids⟩
    obtain ⟨members, before, behind, hexpansion, hmany, hlane, hiff⟩ :=
      confidence_reflects_block_iff ledger hobtained index hok block hblock hstate
    have hnodup : ((ledger.laneEvents block.lane).map (·.id)).Nodup :=
      hobtained.indexed.ids_nodup.sublist (List.filter_sublist.map _)
    rw [hexpansion, Option.map_some, Option.some.injEq] at hids
    have hsplit : before ++ members ++ behind = [] ++ (ledger.laneEvents block.lane).take 2 ++
        (ledger.laneEvents block.lane).drop 2 := by
      rw [← hlane, List.nil_append, List.take_append_drop]
    obtain ⟨rfl, hmembers, hbehind⟩ := split_eq_of_nodup hsplit (hlane ▸ hnodup) hids
      (List.ne_nil_of_length_pos (Nat.zero_lt_of_lt hmany))
    refine ⟨members, behind, hexpansion, hlane, ?_⟩
    rw [hiff, hmembers, hbehind]
  obtain ⟨⟨block, hblock, hplace, hexposed⟩, block', hblock', hplace', hhidden⟩ :=
    of_decide_eq_true hdecided
  obtain ⟨members, behind, hexpansion, hlane, hiff⟩ := hfront block hblock hplace
  obtain ⟨members', behind', hexpansion', hlane', hiff'⟩ := hfront block' hblock' hplace'
  exact ⟨ledger, index, hok, ⟨block, hblock, members, behind, hexpansion, hlane,
      fun hreflects => hiff.mp hreflects hexposed⟩,
    block', hblock', members', behind', hexpansion', hlane', hiff'.mpr hhidden⟩

end Evidentrail
