import Evidentrail.Framing.Lanes

/-!
# How a block grows

The inner loop inspects the record behind the block in the state that the
records of the block have left. A blank line is joined on the strength of the
record behind it, and that record is then joined too: the lookahead is held to
the caps that it will meet one step later (`lookahead_sound`).
-/

namespace Evidentrail

open Rust Std

/-! ## The state of the recognizer -/

/-- The state in which the inner loop inspects the record at `index` of the
records behind the block, if it joins those before. -/
def stateAt (recognition : RecognitionState) (bytes length : Nat) :
    List Event → Nat → Option RecognitionState
  | _, 0 => some recognition
  | [], _ + 1 => none
  | candidate :: rest, index + 1 => do
      let state ← recognizedContinuation recognition candidate
        (eligibleLookahead recognition bytes length candidate rest.head?)
      stateAt state (bytes + candidate.raw.length) (length + 1) rest index

/-- The state behind `count` records of a block, which begins with the first of
these events. -/
def blockState : List Event → Nat → Option RecognitionState
  | [], _ => none
  | event :: rest, count => do
      let recognition ← recognizedStart event rest.head?
      stateAt recognition event.raw.length 1 rest (count - 1)

/-! ## Blank lines -/

section Continuation

variable {state next : RecognitionState} {line : List UInt8} {event lookahead : Event}
  {behind : Option Event}

/-- Either the line continues whatever is behind it, or it is blank and leaves
the state as it is. -/
def Absorbs (line : List UInt8) (state : RecognitionState)
    (alone found : Option RecognitionState) : Prop :=
  found = alone ∨ alone = none ∧ found = some state ∧ isBlank line = true

theorem absorbs_blank (behind : Option (List UInt8)) (accepts : List UInt8 → Bool) :
    Absorbs line state none (if blankBefore line behind accepts then some state else none) := by
  split
  · rename_i h
    rw [blankBefore, Bool.and_eq_true] at h
    exact .inr ⟨rfl, rfl, h.1⟩
  · exact .inl rfl

@[simp] theorem blankBefore_none (accepts : List UInt8 → Bool) :
    blankBefore line none accepts = false := by
  rw [blankBefore, Option.any_none, Bool.and_false]

/-- A recognizer that only asks the blank line for what is behind it. -/
theorem absorbs_or (found : Bool) (behind : Option (List UInt8)) (accepts : List UInt8 → Bool) :
    Absorbs line state (if found || blankBefore line none accepts then some state else none)
      (if found || blankBefore line behind accepts then some state else none) := by
  cases found with
  | true => exact .inl rfl
  | false =>
      simp only [Bool.false_or, blankBefore_none, Bool.false_eq_true, if_false]
      exact absorbs_blank behind accepts

theorem absorbs_pythonContinuation (state : RecognitionState) (line : List UInt8)
    (behind : Option (List UInt8)) : Absorbs line state (pythonContinuation state line none)
      (pythonContinuation state line behind) := by
  simp only [pythonContinuation, blankBefore_none, Bool.false_eq_true, if_false]
  split
  · split
    · exact .inl rfl
    split
    · exact .inl rfl
    split
    · exact .inl rfl
    exact absorbs_blank behind _
  · split
    · exact .inl rfl
    exact absorbs_blank behind _
  · split
    · exact .inl rfl
    exact absorbs_blank behind _

theorem absorbs_jvmDotnetContinuation (state : RecognitionState) (line : List UInt8)
    (behind : Option (List UInt8)) : Absorbs line state (jvmDotnetContinuation state line none)
      (jvmDotnetContinuation state line behind) := by
  simp only [jvmDotnetContinuation, blankBefore_none, Bool.false_eq_true, if_false]
  split
  · exact .inl rfl
  split
  · exact .inl rfl
  exact absorbs_blank behind _

theorem absorbs_javascriptContinuation (state : RecognitionState) (line : List UInt8)
    (behind : Option (List UInt8)) : Absorbs line state (javascriptContinuation state line none)
      (javascriptContinuation state line behind) := by
  simp only [javascriptContinuation, blankBefore_none, Bool.false_eq_true, if_false]
  split
  · exact .inl rfl
  split
  · exact .inl rfl
  exact absorbs_blank behind _

theorem absorbs_goContinuation (state : RecognitionState) (line : List UInt8)
    (behind : Option (List UInt8)) : Absorbs line state (goContinuation state line none)
      (goContinuation state line behind) := by
  simp only [goContinuation, blankBefore_none, Bool.false_eq_true, if_false]
  split
  · exact .inl rfl
  split
  · exact .inl rfl
  exact absorbs_blank behind _

theorem absorbs_recognizedContinuation (state : RecognitionState) (event : Event)
    (behind : Option Event) : Absorbs event.payload state
      (recognizedContinuation state event none) (recognizedContinuation state event behind) := by
  have hnone : joinablePayload none = none := rfl
  simp only [recognizedContinuation, hnone]
  split
  · exact .inl rfl
  cases state.family with
  | python => exact absorbs_pythonContinuation state _ _
  | jvmDotNet => exact absorbs_jvmDotnetContinuation state _ _
  | javaScript => exact absorbs_javascriptContinuation state _ _
  | rust => exact absorbs_or _ _ _
  | go => exact absorbs_goContinuation state _ _
  | compiler => exact absorbs_or _ _ _
  | assertion => exact absorbs_or _ _ _

/-- What continues without a lookahead continues with any. -/
theorem recognizedContinuation_of_none (h : recognizedContinuation state event none = some next) :
    recognizedContinuation state event behind = some next := by
  obtain hsame | ⟨halone, _⟩ := absorbs_recognizedContinuation state event behind
  · rw [hsame, h]
  · rw [h] at halone
    cases halone

/-- An empty line continues nothing by itself. -/
theorem recognizedContinuation_empty (hempty : event.payload = []) :
    recognizedContinuation state event none = none := by
  obtain ⟨family, depth, pythonPhase, goPhase⟩ := state
  rw [recognizedContinuation, hempty]
  split
  · rfl
  · cases family <;> cases pythonPhase <;> cases goPhase <;> rfl

/-- What an eligible lookahead was held to. -/
theorem eligibleLookahead_eq_some {bytes length : Nat}
    (h : eligibleLookahead state bytes length event behind = some lookahead) :
    behind = some lookahead ∧ length + 1 < maxReconstructedBlockLinesV1 ∧
      monotonicRelation event lookahead ≠ .boundary ∧
      bytes + event.raw.length + lookahead.raw.length < u64Bound ∧
      bytes + event.raw.length + lookahead.raw.length ≤ maxReconstructedBlockBytesV1 ∧
      ∃ next, recognizedContinuation state lookahead none = some next ∧
        next.depth ≤ maxReconstructedStateDepthV1 := by
  unfold eligibleLookahead at h
  split at h
  · cases h
  split at h
  · cases h
  rename_i hlines
  rw [not_or, Nat.not_lt] at hlines
  split at h
  · cases h
  rename_i hfirst
  split at h
  · cases h
  rename_i hboth
  split at h
  · cases h
  rename_i hbytes
  split at h
  · cases h
  rename_i next hnext
  split at h
  · rename_i hdepth
    cases h
    obtain ⟨_, rfl⟩ := checkedAdd_eq_some.mp hfirst
    obtain ⟨hfits, rfl⟩ := checkedAdd_eq_some.mp hboth
    exact ⟨rfl, hlines.1, hlines.2, hfits, Nat.not_lt.mp hbytes, next, hnext, hdepth⟩
  · cases h

end Continuation

/-! ## The inner loop -/

section Growth

variable {recognition : RecognitionState} {bytes length : Nat} {timing : Bool}
  {previous candidate : Event} {rest : List Event} {grown : Grown}

/-- What a step of the inner loop does: it stops before the candidate, at a
boundary, at a record that does not continue or at a cap, or it joins it. -/
theorem growBlock_cons_eq_ok
    (h : growBlock recognition bytes length timing previous (candidate :: rest) = .ok grown) :
    monotonicRelation previous candidate = .boundary ∧ grown = ⟨length, false, timing⟩ ∨
    monotonicRelation previous candidate ≠ .boundary ∧
      (let found := recognizedContinuation recognition candidate
        (eligibleLookahead recognition bytes length candidate rest.head?)
      let uncertain := timing || decide (monotonicRelation previous candidate = .unavailable)
      found = none ∧ grown = ⟨length, false, uncertain⟩ ∨
      ∃ state, found = some state ∧
        ((maxReconstructedStateDepthV1 < state.depth ∨ maxReconstructedBlockLinesV1 ≤ length ∨
            maxReconstructedBlockBytesV1 < bytes + candidate.raw.length) ∧
            grown = ⟨length, true, uncertain⟩ ∨
          ¬(maxReconstructedStateDepthV1 < state.depth ∨ maxReconstructedBlockLinesV1 ≤ length ∨
            maxReconstructedBlockBytesV1 < bytes + candidate.raw.length) ∧
            growBlock state (bytes + candidate.raw.length) (length + 1) uncertain candidate rest =
              .ok grown)) := by
  rw [growBlock] at h
  split at h
  · rename_i hboundary
    cases h
    exact .inl ⟨hboundary, rfl⟩
  rename_i hrelation
  refine .inr ⟨hrelation, ?_⟩
  simp only at h ⊢
  split at h
  · rename_i hnone
    cases h
    exact .inl ⟨hnone, rfl⟩
  rename_i state hstate
  refine .inr ⟨state, hstate, ?_⟩
  split at h
  · rename_i hcap
    cases h
    exact .inl ⟨hcap.imp_right .inl, rfl⟩
  rename_i hcap
  rw [not_or] at hcap
  split at h
  · cases h
  rename_i nextBytes hsum
  obtain ⟨_, rfl⟩ := checkedAdd_eq_some.mp hsum
  split at h
  · rename_i hlarge
    cases h
    exact .inl ⟨.inr (.inr hlarge), rfl⟩
  · rename_i hsmall
    exact .inr ⟨by rw [not_or, not_or]; exact ⟨hcap.1, hcap.2, hsmall⟩, h⟩

/-- An eligible lookahead is joined in the next step. -/
theorem growBlock_joins_lookahead {state : RecognitionState}
    (hlines : length < maxReconstructedBlockLinesV1)
    (hrelation : monotonicRelation previous candidate ≠ .boundary)
    (hbytes : bytes + candidate.raw.length ≤ maxReconstructedBlockBytesV1)
    (halone : recognizedContinuation recognition candidate none = some state)
    (hdepth : state.depth ≤ maxReconstructedStateDepthV1)
    (h : growBlock recognition bytes length timing previous (candidate :: rest) = .ok grown) :
    length < grown.length := by
  obtain ⟨hboundary, _⟩ | ⟨_, ⟨hnone, _⟩ | ⟨found, hfound, ⟨hcap, _⟩ | ⟨_, hrest⟩⟩⟩ :=
    growBlock_cons_eq_ok h
  · exact absurd hboundary hrelation
  · rw [recognizedContinuation_of_none halone] at hnone
    cases hnone
  · rw [recognizedContinuation_of_none halone] at hfound
    cases hfound
    omega
  · exact le_length_of_growBlock hrest

/-- A record that was joined for the sake of the one behind it is not the last. -/
theorem growBlock_lookahead_sound {rest : List Event} : ∀ {recognition : RecognitionState}
    {bytes length : Nat} {timing : Bool} {previous : Event} {grown : Grown},
    growBlock recognition bytes length timing previous rest = .ok grown →
    ∀ {index : Nat} {state : RecognitionState} {member : Event}, length + index < grown.length →
      stateAt recognition bytes length rest index = some state → rest[index]? = some member →
      recognizedContinuation state member none = none → length + index + 1 < grown.length := by
  induction rest with
  | nil =>
      intro recognition bytes length timing previous grown h index state member hindex _ hmember
      cases hmember
  | cons candidate rest ih =>
      intro recognition bytes length timing previous grown h index state member hindex hstate
        hmember hmissing
      obtain ⟨_, rfl⟩ | ⟨_, ⟨_, rfl⟩ | ⟨found, hfound, ⟨_, rfl⟩ | ⟨_, hrest⟩⟩⟩ :=
        growBlock_cons_eq_ok h
      · exact absurd hindex (by simp)
      · exact absurd hindex (by simp)
      · exact absurd hindex (by simp)
      cases index with
      | succ index =>
          rw [stateAt, Option.bind_eq_bind, Option.bind_eq_some_iff] at hstate
          obtain ⟨_, hsame, hstate⟩ := hstate
          rw [hfound, Option.some.injEq] at hsame
          subst hsame
          rw [List.getElem?_cons_succ] at hmember
          have hlater := ih hrest (by omega) hstate hmember hmissing
          omega
      | zero =>
          -- the blank branch: the state stays and the lookahead was eligible in it
          cases hstate
          cases hmember
          obtain hsame | ⟨_, hsame, _⟩ := absorbs_recognizedContinuation recognition candidate
            (eligibleLookahead recognition bytes length candidate rest.head?)
          · rw [hfound, hmissing] at hsame
            cases hsame
          rw [hfound, Option.some.injEq] at hsame
          subst hsame
          cases hlookahead : eligibleLookahead found bytes length candidate rest.head? with
          | none =>
              rw [hlookahead, hmissing] at hfound
              cases hfound
          | some lookahead =>
              obtain ⟨hhead, hlines, hrelation, _, hbytes, next, hnext, hdepth⟩ :=
                eligibleLookahead_eq_some hlookahead
              obtain ⟨later, rfl⟩ : ∃ later, rest = lookahead :: later := by
                cases rest with
                | nil => cases hhead
                | cons event later =>
                    cases hhead
                    exact ⟨later, rfl⟩
              exact growBlock_joins_lookahead hlines hrelation hbytes hnext hdepth hrest

/-- A block holds no more than there is. -/
theorem length_le_of_growBlock {rest : List Event} : ∀ {recognition : RecognitionState}
    {bytes length : Nat} {timing : Bool} {previous : Event} {grown : Grown},
    growBlock recognition bytes length timing previous rest = .ok grown →
      grown.length ≤ length + rest.length := by
  induction rest with
  | nil =>
      intro recognition bytes length timing previous grown h
      cases h
      exact Nat.le_refl _
  | cons candidate rest ih =>
      intro recognition bytes length timing previous grown h
      rw [List.length_cons]
      obtain ⟨_, rfl⟩ | ⟨_, ⟨_, rfl⟩ | ⟨_, _, ⟨_, rfl⟩ | ⟨_, hrest⟩⟩⟩ := growBlock_cons_eq_ok h
      · exact Nat.le_add_right _ _
      · exact Nat.le_add_right _ _
      · exact Nat.le_add_right _ _
      · have hlater := ih hrest
        omega

/-- Every joined record was inspected in some state. -/
theorem exists_stateAt {rest : List Event} : ∀ {recognition : RecognitionState}
    {bytes length : Nat} {timing : Bool} {previous : Event} {grown : Grown},
    growBlock recognition bytes length timing previous rest = .ok grown →
    ∀ (index : Nat), length + index ≤ grown.length →
      ∃ state, stateAt recognition bytes length rest index = some state ∧
        ∀ member ∈ rest[index]?, length + index < grown.length →
          recognizedContinuation state member none = none → isBlank member.payload = true := by
  induction rest with
  | nil =>
      intro recognition bytes length timing previous grown h index hindex
      cases h
      cases index with
      | zero => exact ⟨recognition, rfl, fun _ hmember => absurd hmember (by simp)⟩
      | succ index => exact absurd hindex (by simp)
  | cons candidate rest ih =>
      intro recognition bytes length timing previous grown h index hindex
      cases index with
      | zero =>
          refine ⟨recognition, rfl, fun member hmember hlength hmissing => ?_⟩
          cases hmember
          obtain ⟨_, rfl⟩ | ⟨_, ⟨_, rfl⟩ | ⟨state, hstate, _⟩⟩ := growBlock_cons_eq_ok h
          · exact absurd hlength (Nat.lt_irrefl _)
          · exact absurd hlength (Nat.lt_irrefl _)
          · obtain hsame | ⟨_, _, hblank⟩ := absorbs_recognizedContinuation recognition candidate
              (eligibleLookahead recognition bytes length candidate rest.head?)
            · rw [hstate, hmissing] at hsame
              cases hsame
            · exact hblank
      | succ index =>
          obtain ⟨_, rfl⟩ | ⟨_, ⟨_, rfl⟩ | ⟨state, hstate, ⟨_, rfl⟩ | ⟨_, hrest⟩⟩⟩ :=
            growBlock_cons_eq_ok h
          · exact absurd hindex (by simp)
          · exact absurd hindex (by simp)
          · exact absurd hindex (by simp)
          rw [stateAt, hstate, Option.bind_eq_bind, Option.bind_some]
          obtain ⟨found, hfound, hblank⟩ := ih hrest index (by omega)
          exact ⟨found, hfound, fun member hmember hlength => hblank member hmember (by omega)⟩

end Growth

/-! ## Blocks and what is behind them -/

/-- A block of a run of the outer loop, with the records behind it in its lane. -/
theorem laneBlocks_split {lane : LaneKey} {policy : FramingPolicy} {events : List Event} :
    ∀ {skip : Nat} {blocks before after : List (BlockAssignment × List Event)}
      {block : BlockAssignment × List Event},
      laneBlocks lane policy skip events = .ok blocks → blocks = before ++ block :: after →
        ∃ event rest grown, growFrom event rest = .ok grown ∧
          block.2 = (event :: rest).take grown.length ∧
          event :: rest = block.2 ++ after.flatMap (·.2) ∧
          block.1 = assignment lane block.2 policy
            (blockClassification grown event rest.head?) := by
  induction events with
  | nil =>
      intro skip blocks before after block h hsplit
      cases h
      exact absurd hsplit (by simp)
  | cons event rest ih =>
      intro skip blocks before after block h hsplit
      cases skip with
      | succ skip => exact ih h hsplit
      | zero =>
          have hflat := (laneBlocks_eq_ok h).2
          simp only [laneBlocks] at h
          split at h
          · cases h
          rename_i grown hgrown
          split at h
          · cases h
          rename_i later hlater
          cases h
          cases before with
          | cons first before => exact ih hlater (List.cons.inj hsplit).2
          | nil =>
              obtain ⟨rfl, rfl⟩ := List.cons.inj hsplit
              rw [List.flatMap_cons, List.drop_zero] at hflat
              exact ⟨event, rest, grown, hgrown, rfl, hflat.symm, rfl⟩

/-- Who joins for the sake of the record behind it is followed by that record. -/
structure LookaheadSound (block behind : List Event) : Prop where
  inspected : ∀ count member, 0 < count → block[count]? = some member →
    ∃ state, blockState (block ++ behind) count = some state ∧
      (recognizedContinuation state member none = none →
        isBlank member.payload = true ∧ count + 1 < block.length)
  last : 1 < block.length → ∀ member ∈ block.getLast?, member.payload ≠ []

/-- What the outer loop takes from its inner loop. -/
theorem growFrom_eq_ok_cases {event : Event} {rest : List Event} {grown : Grown}
    (h : growFrom event rest = .ok grown) :
    grown.length = 1 ∨ ∃ recognition, recognizedStart event rest.head? = some recognition ∧
      growBlock recognition event.raw.length 1 false event rest = .ok grown := by
  unfold growFrom at h
  split at h
  · cases h
    exact .inl rfl
  · rename_i recognition hstart
    split at h
    · cases h
      exact .inl rfl
    · exact .inr ⟨recognition, hstart, h⟩

theorem length_take_grown {event : Event} {rest : List Event} {grown : Grown}
    (h : growFrom event rest = .ok grown) :
    ((event :: rest).take grown.length).length = grown.length := by
  refine List.length_take_of_le ?_
  rw [List.length_cons]
  obtain hone | ⟨_, _, hgrow⟩ := growFrom_eq_ok_cases h
  · omega
  · have := length_le_of_growBlock hgrow
    omega

theorem lookaheadSound_of_growFrom {event : Event} {rest block behind : List Event}
    {grown : Grown} (hgrown : growFrom event rest = .ok grown)
    (hblock : block = (event :: rest).take grown.length)
    (hsplit : event :: rest = block ++ behind) : LookaheadSound block behind := by
  have hlength : block.length = grown.length := hblock ▸ length_take_grown hgrown
  have hinspected : ∀ count member, 0 < count → block[count]? = some member →
      ∃ state, blockState (block ++ behind) count = some state ∧
        (recognizedContinuation state member none = none →
          isBlank member.payload = true ∧ count + 1 < block.length) := by
    intro count member hpositive hmember
    have hcount : count < grown.length := by
      rw [← hlength]
      exact (List.getElem?_eq_some_iff.mp hmember).1
    obtain ⟨index, rfl⟩ : ∃ index, count = index + 1 := ⟨count - 1, by omega⟩
    have hrest : rest[index]? = some member := by
      rw [hblock, List.getElem?_take_of_lt hcount, List.getElem?_cons_succ] at hmember
      exact hmember
    obtain hone | ⟨recognition, hstart, hgrow⟩ := growFrom_eq_ok_cases hgrown
    · omega
    obtain ⟨state, hstate, hblank⟩ := exists_stateAt hgrow index (by omega)
    refine ⟨state, ?_, fun hmissing => ⟨hblank member hrest (by omega) hmissing, ?_⟩⟩
    · rw [← hsplit, blockState, hstart]
      exact hstate
    · have hnext := growBlock_lookahead_sound hgrow (by omega) hstate hrest hmissing
      omega
  refine ⟨hinspected, fun hmany member hlast hempty => ?_⟩
  rw [List.getLast?_eq_getElem?] at hlast
  obtain ⟨state, _, hnext⟩ := hinspected _ member (by omega) hlast
  have hbehind := (hnext (recognizedContinuation_empty hempty)).2
  omega

/-- A record that is joined only on the strength of the record behind it is a
blank line, and that record is joined as well. So no reconstructed block ends in
an empty line. -/
theorem lookahead_sound (lane : LaneKey) (policy : FramingPolicy) (events : List Event)
    (assignments : List BlockAssignment) (h : frameLane lane policy 0 events = .ok assignments) :
    ∃ blocks : List (List Event),
      assignments.map (·.members) = blocks.map (·.map fun event => (event.id, event.laneSequence)) ∧
      blocks.flatten = events ∧
      ∀ before block after, blocks = before ++ block :: after →
        LookaheadSound block after.flatten := by
  obtain ⟨blocks, hblocks, rfl⟩ := frameLane_eq_laneBlocks lane policy events 0 h
  obtain ⟨hholds, hflat⟩ := laneBlocks_eq_ok hblocks
  refine ⟨blocks.map (·.2), ?_, ?_, fun before block after hsplit => ?_⟩
  · rw [List.map_map, List.map_map]
    exact List.map_congr_left fun block hblock => (hholds block hblock).members
  · rw [← List.flatMap_def, hflat, List.drop_zero]
  · obtain ⟨first, tail, rfl, rfl, htail⟩ := List.map_eq_append_iff.mp hsplit
    obtain ⟨held, later, rfl, rfl, rfl⟩ := List.map_eq_cons_iff.mp htail
    obtain ⟨event, rest, grown, hgrown, hblock, hevents, _⟩ := laneBlocks_split hblocks rfl
    rw [← List.flatMap_def]
    exact lookaheadSound_of_growFrom hgrown hblock hevents

/-- A line of the error stream, with the clock of the adapter. -/
def timedLine (sequence : UInt64) (line : Vec UInt8) (time : Option UInt64) : RawEnvelopeV1 :=
  { streamLine sequence .stderr sequence line with
    timestamps := { adapterMonotonicTime := time.map (⟨·⟩) } }

/-- A blank line in front of the line that it depends on. -/
def blankRecords : List RawEnvelopeV1 :=
  [timedLine 0 ⟨asciiBytes "panic: bounded", by decide⟩ (some 0),
    timedLine 1 .empty (some 1),
    timedLine 2 ⟨asciiBytes "goroutine 1 [running]:", by decide⟩ (some 2)]

theorem lookahead_sound_blank :
    ∃ events assignments,
      frameLane ⟨replayLane.member, .stderr⟩ sourceLaneFramingPolicyV1 0 events =
        .ok assignments ∧ assignments.map (·.members.length) = [3] ∧
      ∃ blocks : List (List Event), blocks.flatten = events ∧
        ∀ before block after, blocks = before ++ block :: after →
          LookaheadSound block after.flatten := by
  let := fips180Evaluated
  let frame (p : EventLedger × BlockIndex) :=
    frameLane ⟨replayLane.member, .stderr⟩ sourceLaneFramingPolicyV1 0 p.1.events
  have hrun : ((framedRun blankRecords 36).bind fun p =>
      (frame p).toOption.map (·.map (·.members.length))) = some [3] := by
    decide +kernel
  obtain ⟨p, _, hframed⟩ := Option.bind_eq_some_iff.mp hrun
  obtain ⟨assignments, hassignments, hlengths⟩ := Option.map_eq_some_iff.mp hframed
  obtain ⟨blocks, _, hsound⟩ := lookahead_sound _ _ _ _ (toOption_eq_some.mp hassignments)
  exact ⟨_, assignments, toOption_eq_some.mp hassignments, hlengths, blocks, hsound⟩

end Evidentrail
