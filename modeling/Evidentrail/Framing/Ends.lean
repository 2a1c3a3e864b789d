import Evidentrail.Framing.Growth

/-!
# Where a block ends

The inner loop stops in front of a record that it has inspected, and what it has
noted by then are two flags: a record without a time, and a cap. Where it stops
depends on little: the loop looks no further than two records behind the block,
so a block is found again in front of other records as long as the first of them
does not continue it (`length_growFrom_iff`, `exists_laneBlock`).
-/

namespace Evidentrail

open Rust Std

/-! ## Clocks and caps -/

def BothTimed (a b : Event) : Prop :=
  a.timestamps.adapterMonotonicTime.isSome ∧ b.timestamps.adapterMonotonicTime.isSome

instance : DecidableRel BothTimed := fun _ _ => inferInstanceAs (Decidable (_ ∧ _))

/-- A block of `length` records cannot take in one more that leaves this state
and these bytes. -/
def OverCaps (next : RecognitionState) (length bytes : Nat) : Prop :=
  maxReconstructedStateDepthV1 < next.depth ∨ maxReconstructedBlockLinesV1 ≤ length ∨
    maxReconstructedBlockBytesV1 < bytes

instance (next : RecognitionState) (length bytes : Nat) : Decidable (OverCaps next length bytes) :=
  inferInstanceAs (Decidable (_ ∨ _))

/-- The record behind the block continues it, but a cap is reached. -/
def StoppedByCap (block behind : List Event) : Prop :=
  ∃ last ∈ block.getLast?, ∃ candidate ∈ behind.head?,
    monotonicRelation last candidate ≠ .boundary ∧
    ∃ state ∈ blockState (block ++ behind) block.length,
    ∃ next ∈ recognizedContinuation state candidate
      (eligibleLookahead state (rawBytes block) block.length candidate behind.tail.head?),
      OverCaps next block.length (rawBytes block + candidate.raw.length)

instance (block behind : List Event) : Decidable (StoppedByCap block behind) :=
  inferInstanceAs (Decidable (∃ last ∈ block.getLast?, ∃ candidate ∈ behind.head?, _))

/-- The record behind the block is the next of its lane and has no time, or the
last of the block has none. -/
def UntimedBehind (block behind : List Event) : Prop :=
  ∃ last ∈ block.getLast?, ∃ candidate ∈ behind.head?,
    monotonicRelation last candidate = .unavailable

theorem monotonicRelation_eq_unavailable_iff {previous next : Event}
    (h : monotonicRelation previous next ≠ .boundary) :
    monotonicRelation previous next = .unavailable ↔ ¬BothTimed previous next := by
  unfold monotonicRelation at h ⊢
  unfold BothTimed
  split at h
  · exact absurd rfl h
  rename_i hnext
  rw [if_neg hnext]
  cases hprevious : previous.timestamps.adapterMonotonicTime with
  | none => simp
  | some previousTime =>
      cases htime : next.timestamps.adapterMonotonicTime with
      | none => simp
      | some nextTime =>
          simp only [hprevious, htime] at h ⊢
          split at h
          · rename_i hwithin
            rw [if_pos hwithin]
            simp
          · exact absurd rfl h

/-! ## The flags of a block -/

section Flags

variable {behind : List Event}

/-- What the loop has noted when it stops: every pair that it joined, and the
record that it inspected last. -/
theorem growBlock_flags {joined : List Event} : ∀ {recognition : RecognitionState}
    {bytes length : Nat} {timing : Bool} {previous : Event} {grown : Grown},
    growBlock recognition bytes length timing previous (joined ++ behind) = .ok grown →
    length + joined.length = grown.length →
    (grown.timingUncertain = true ↔ timing = true ∨ ¬(previous :: joined).IsChain BothTimed ∨
      ∃ candidate ∈ behind.head?,
        monotonicRelation (joined.getLast?.getD previous) candidate = .unavailable) ∧
    (grown.terminatedByCap = true ↔ ∃ candidate ∈ behind.head?,
      monotonicRelation (joined.getLast?.getD previous) candidate ≠ .boundary ∧
      ∃ state ∈ stateAt recognition bytes length (joined ++ behind) joined.length,
      ∃ next ∈ recognizedContinuation state candidate
        (eligibleLookahead state (bytes + rawBytes joined) (length + joined.length) candidate
          behind.tail.head?),
        OverCaps next (length + joined.length)
          (bytes + rawBytes joined + candidate.raw.length)) := by
  induction joined with
  | nil =>
      intro recognition bytes length timing previous grown h hlength
      cases behind with
      | nil =>
          cases h
          simp
      | cons candidate rest =>
          have hnone : rawBytes [] = 0 := rfl
          simp only [List.nil_append, List.length_nil, Nat.add_zero, hnone, stateAt,
            List.head?_cons, List.tail_cons, List.getLast?_nil, Option.getD_none, Option.mem_def,
            Option.some.injEq, exists_eq_left', List.isChain_singleton, not_true_eq_false, false_or]
          obtain ⟨hboundary, rfl⟩ | ⟨hrelation, ⟨hstop, rfl⟩ | ⟨state, hstate, ⟨hcap, rfl⟩ |
            ⟨_, hrest⟩⟩⟩ := growBlock_cons_eq_ok h
          · simp [hboundary]
          · simp [hstop]
          · simp [hrelation, hstate, OverCaps, hcap]
          · have hlater := le_length_of_growBlock hrest
            rw [List.length_nil] at hlength
            omega
  | cons candidate joined ih =>
      intro recognition bytes length timing previous grown h hlength
      rw [List.length_cons] at hlength
      rw [List.cons_append] at h
      obtain ⟨_, rfl⟩ | ⟨hrelation, ⟨_, rfl⟩ | ⟨state, hstate, ⟨_, rfl⟩ | ⟨_, hrest⟩⟩⟩ :=
        growBlock_cons_eq_ok h
      · exact absurd hlength (by simp)
      · exact absurd hlength (by simp)
      · exact absurd hlength (by simp)
      obtain ⟨htiming, hcap⟩ := ih hrest (by omega)
      have hbytes : rawBytes (candidate :: joined) = candidate.raw.length + rawBytes joined := by
        simp [rawBytes]
      have hlast : (candidate :: joined).getLast?.getD previous =
          joined.getLast?.getD candidate := by
        rw [List.getLast?_cons, Option.getD_some]
      have hstate' : stateAt recognition bytes length (candidate :: joined ++ behind)
          (candidate :: joined).length =
            stateAt state (bytes + candidate.raw.length) (length + 1) (joined ++ behind)
              joined.length := by
        rw [List.cons_append, List.length_cons, stateAt, hstate]
        rfl
      rw [hlast, hstate', hbytes, List.length_cons, htiming, hcap, List.isChain_cons_cons,
        Bool.or_eq_true, decide_eq_true_eq, monotonicRelation_eq_unavailable_iff hrelation,
        not_and_or]
      simp only [or_assoc, Nat.add_assoc, Nat.add_comm 1]
      trivial

/-- The flags of a block of several records. -/
theorem flags_of_growFrom {event : Event} {rest block : List Event} {grown : Grown}
    (hgrown : growFrom event rest = .ok grown) (hblock : block = (event :: rest).take grown.length)
    (hsplit : event :: rest = block ++ behind) (hmany : 1 < grown.length) :
    (grown.timingUncertain = true ↔ ¬block.IsChain BothTimed ∨ UntimedBehind block behind) ∧
      (grown.terminatedByCap = true ↔ StoppedByCap block behind) := by
  have hlength : block.length = grown.length := hblock ▸ length_take_grown hgrown
  obtain hone | ⟨recognition, hstart, hgrow⟩ := growFrom_eq_ok_cases hgrown
  · omega
  obtain ⟨joined, rfl⟩ : ∃ joined, block = event :: joined := by
    cases block with
    | nil => simp only [List.length_nil] at hlength; omega
    | cons first joined =>
        exact ⟨joined, by rw [(List.cons.inj hsplit).1]⟩
  obtain rfl : rest = joined ++ behind := (List.cons.inj hsplit).2
  rw [List.length_cons, Nat.add_comm] at hlength
  obtain ⟨htiming, hcap⟩ := growBlock_flags hgrow hlength
  have hbytes : rawBytes (event :: joined) = event.raw.length + rawBytes joined := by
    simp [rawBytes]
  have hstate : blockState (event :: joined ++ behind) (event :: joined).length =
      stateAt recognition event.raw.length 1 (joined ++ behind) joined.length := by
    rw [List.cons_append, blockState, hstart]
    rfl
  rw [htiming, hcap, UntimedBehind, StoppedByCap, hstate, hbytes, List.length_cons,
    List.getLast?_cons]
  simp only [Bool.false_eq_true, false_or, Option.mem_def, Option.some.injEq, exists_eq_left',
    Nat.add_comm joined.length 1]
  trivial

end Flags

/-! ## Where a block ends -/

section Ends

variable {recognition : RecognitionState} {bytes length : Nat} {timing : Bool}
  {previous candidate : Event} {grown : Grown} {behind later : List Event}

/-- What is behind the last record of a block does not decide whether it is joined. -/
theorem continuation_eq_of_growBlock {joined : List Event}
    (h : growBlock recognition bytes length timing previous (candidate :: (joined ++ behind)) =
      .ok grown) (hlength : length + (joined.length + 1) = grown.length) (later : List Event) :
    recognizedContinuation recognition candidate
        (eligibleLookahead recognition bytes length candidate (joined ++ later).head?) =
      recognizedContinuation recognition candidate
        (eligibleLookahead recognition bytes length candidate (joined ++ behind).head?) := by
  cases joined with
  | cons next joined => rfl
  | nil =>
      cases halone : recognizedContinuation recognition candidate none with
      | none =>
          rw [List.length_nil] at hlength
          have hlast : length + 0 < grown.length := by omega
          have hbehind := growBlock_lookahead_sound h hlast rfl rfl halone
          omega
      | some state =>
          rw [recognizedContinuation_of_none halone, recognizedContinuation_of_none halone]

theorem stateAt_eq_of_growBlock {joined : List Event} : ∀ {recognition : RecognitionState}
    {bytes length : Nat} {timing : Bool} {previous : Event} {grown : Grown},
    growBlock recognition bytes length timing previous (joined ++ behind) = .ok grown →
    length + joined.length = grown.length → ∀ later : List Event,
      stateAt recognition bytes length (joined ++ later) joined.length =
        stateAt recognition bytes length (joined ++ behind) joined.length := by
  induction joined with
  | nil =>
      intro recognition bytes length timing previous grown _ _ later
      rw [List.length_nil, stateAt, stateAt]
  | cons candidate joined ih =>
      intro recognition bytes length timing previous grown h hlength later
      rw [List.length_cons] at hlength
      rw [List.cons_append] at h
      have hsame := continuation_eq_of_growBlock h hlength later
      obtain ⟨_, rfl⟩ | ⟨_, ⟨_, rfl⟩ | ⟨state, hstate, ⟨_, rfl⟩ | ⟨_, hrest⟩⟩⟩ :=
        growBlock_cons_eq_ok h
      · exact absurd hlength (by simp)
      · exact absurd hlength (by simp)
      · exact absurd hlength (by simp)
      rw [List.cons_append, List.cons_append, List.length_cons, stateAt, stateAt, hsame, hstate,
        Option.bind_eq_bind, Option.bind_some, Option.bind_some]
      exact ih hrest (by omega) later

/-- In front of other records the same block ends where it did if the first of
them does not continue it or a cap keeps it out. -/
theorem length_growBlock_iff {joined : List Event} : ∀ {recognition : RecognitionState}
    {bytes length : Nat} {timing : Bool} {previous : Event} {grown grown' : Grown},
    growBlock recognition bytes length timing previous (joined ++ behind) = .ok grown →
    length + joined.length = grown.length →
    growBlock recognition bytes length timing previous (joined ++ later) = .ok grown' →
      (grown'.length = length + joined.length ↔ ∀ candidate ∈ later.head?,
        monotonicRelation (joined.getLast?.getD previous) candidate ≠ .boundary →
        ∀ state ∈ stateAt recognition bytes length (joined ++ behind) joined.length,
        ∀ next ∈ recognizedContinuation state candidate
          (eligibleLookahead state (bytes + rawBytes joined) (length + joined.length) candidate
            later.tail.head?),
          OverCaps next (length + joined.length)
            (bytes + rawBytes joined + candidate.raw.length)) := by
  induction joined with
  | nil =>
      intro recognition bytes length timing previous grown grown' _ _ h'
      have hnone : rawBytes [] = 0 := rfl
      cases later with
      | nil =>
          cases h'
          simp
      | cons candidate rest =>
          simp only [List.nil_append, List.length_nil, Nat.add_zero, hnone, stateAt,
            List.head?_cons, List.tail_cons, List.getLast?_nil, Option.getD_none, Option.mem_def,
            Option.some.injEq, forall_eq']
          obtain ⟨hboundary, rfl⟩ | ⟨hrelation, ⟨hstop, rfl⟩ | ⟨state, hstate, ⟨hcap, rfl⟩ |
            ⟨hfits, hrest⟩⟩⟩ := growBlock_cons_eq_ok h'
          · simp [hboundary]
          · simp [hstop]
          · simp [hstate, OverCaps, hcap]
          · have hmore := le_length_of_growBlock hrest
            refine ⟨fun heq => by omega, fun hall => absurd (hall hrelation state hstate) hfits⟩
  | cons candidate joined ih =>
      intro recognition bytes length timing previous grown grown' h hlength h'
      rw [List.length_cons] at hlength
      rw [List.cons_append] at h h'
      have hsame := continuation_eq_of_growBlock h hlength later
      obtain ⟨_, rfl⟩ | ⟨hrelation, ⟨_, rfl⟩ | ⟨state, hstate, ⟨_, rfl⟩ | ⟨hfits, hrest⟩⟩⟩ :=
        growBlock_cons_eq_ok h
      · exact absurd hlength (by simp)
      · exact absurd hlength (by simp)
      · exact absurd hlength (by simp)
      rw [hstate] at hsame
      obtain ⟨hboundary, _⟩ | ⟨_, ⟨hstop, _⟩ | ⟨state', hstate', ⟨hcap, _⟩ | ⟨_, hrest'⟩⟩⟩ :=
        growBlock_cons_eq_ok h'
      · exact absurd hboundary hrelation
      · rw [hsame] at hstop
        cases hstop
      · rw [hsame, Option.some.injEq] at hstate'
        subst hstate'
        exact absurd hcap hfits
      rw [hsame, Option.some.injEq] at hstate'
      subst hstate'
      have hbytes : rawBytes (candidate :: joined) = candidate.raw.length + rawBytes joined := by
        simp [rawBytes]
      have hlast : (candidate :: joined).getLast?.getD previous =
          joined.getLast?.getD candidate := by
        rw [List.getLast?_cons, Option.getD_some]
      have hshift : stateAt recognition bytes length (candidate :: joined ++ behind)
          (candidate :: joined).length =
            stateAt state (bytes + candidate.raw.length) (length + 1) (joined ++ behind)
              joined.length := by
        rw [List.cons_append, List.length_cons, stateAt, hstate]
        rfl
      have hiff := ih hrest (by omega) hrest'
      rw [hlast, hshift, hbytes, List.length_cons, Nat.add_comm joined.length 1, ← Nat.add_assoc,
        ← Nat.add_assoc]
      exact hiff

/-- A block of several records that stands in front of other records: it is found
there again if it ends where it did. -/
theorem length_growFrom_iff {event : Event} {joined : List Event} {grown' : Grown}
    (h : growFrom event (joined ++ behind) = .ok grown) (hlength : grown.length = joined.length + 1)
    (hjoined : joined ≠ []) (h' : growFrom event (joined ++ later) = .ok grown') :
    grown'.length = joined.length + 1 ↔ ∀ candidate ∈ later.head?,
      monotonicRelation (joined.getLast?.getD event) candidate ≠ .boundary →
      ∀ state ∈ blockState (event :: joined ++ behind) (joined.length + 1),
      ∀ next ∈ recognizedContinuation state candidate
        (eligibleLookahead state (rawBytes (event :: joined)) (joined.length + 1) candidate
          later.tail.head?),
        OverCaps next (joined.length + 1) (rawBytes (event :: joined) + candidate.raw.length) := by
  obtain ⟨next, joined, rfl⟩ := List.exists_cons_of_ne_nil hjoined
  have hbytes : rawBytes (event :: next :: joined) =
      event.raw.length + rawBytes (next :: joined) := by
    simp [rawBytes]
  obtain hone | ⟨recognition, hstart, hgrow⟩ := growFrom_eq_ok_cases h
  · rw [List.length_cons] at hlength
    omega
  have hgrow' : growBlock recognition event.raw.length 1 false event (next :: joined ++ later) =
      .ok grown' := by
    rw [growFrom, List.cons_append, List.head?_cons] at h h'
    rw [List.cons_append, List.head?_cons] at hstart
    simp only [hstart] at h h'
    split_ifs at h h' with hlarge
    · cases h
      simp at hlength
    · exact h'
  have hstate : blockState (event :: (next :: joined) ++ behind) ((next :: joined).length + 1) =
      stateAt recognition event.raw.length 1 (next :: joined ++ behind)
        (next :: joined).length := by
    rw [List.cons_append, blockState, hstart]
    rfl
  rw [hstate, hbytes, Nat.add_comm]
  exact length_growBlock_iff hgrow (by omega) hgrow'

end Ends

/-! ## The loops return -/

/-- An event as ledgers hold them. -/
structure Event.Held (event : Event) : Prop where
  exact : event.IsExact
  payload_lt : event.payload.length < 2 ^ 63

theorem length_raw_lt_of_joinable {event : Event} (h : event.Held)
    (hjoinable : isJoinableLine event = true) : event.raw.length < 2 ^ 63 + 2 := by
  have hpayload := h.payload_lt
  have hterminator : (event.terminator.getD []).length ≤ 2 := by
    simp only [isJoinableLine, Bool.and_eq_true, Bool.or_eq_true, decide_eq_true_eq] at hjoinable
    obtain ⟨⟨⟨⟨_, ((hline | hline) | hline) | hline⟩, _⟩, _⟩, _⟩ := hjoinable <;>
      simp [hline]
  rw [h.exact, List.length_append]
  omega

/-- Only an overflow ends the inner loop with an error, and no line is that long. -/
theorem growBlock_returns {rest : List Event} : ∀ {recognition : RecognitionState}
    {bytes length : Nat} {timing : Bool} {previous : Event}, (∀ event ∈ rest, event.Held) →
    bytes ≤ maxReconstructedBlockBytesV1 →
      ∃ grown, growBlock recognition bytes length timing previous rest = .ok grown := by
  induction rest with
  | nil => exact fun _ _ => ⟨_, rfl⟩
  | cons candidate rest ih =>
      intro recognition bytes length timing previous hheld hbytes
      obtain ⟨hcandidate, hrest⟩ := List.forall_mem_cons.mp hheld
      rw [growBlock]
      split_ifs with hboundary
      · exact ⟨_, rfl⟩
      simp only
      split
      · exact ⟨_, rfl⟩
      rename_i state hstate
      split_ifs with hcap
      · exact ⟨_, rfl⟩
      have hlength : bytes + candidate.raw.length < u64Bound := by
        have hjoinable : isJoinableLine candidate = true := by
          by_contra hnot
          rw [recognizedContinuation, if_pos (by simpa using hnot)] at hstate
          cases hstate
        have hlt := length_raw_lt_of_joinable hcandidate hjoinable
        unfold maxReconstructedBlockBytesV1 at hbytes
        unfold u64Bound
        omega
      rw [checkedAdd_eq_some.mpr ⟨hlength, rfl⟩]
      simp only
      split_ifs with hlarge
      · exact ⟨_, rfl⟩
      · exact ih hrest (Nat.not_lt.mp hlarge)

theorem growFrom_returns (event : Event) {rest : List Event} (h : ∀ event ∈ rest, event.Held) :
    ∃ grown, growFrom event rest = .ok grown := by
  unfold growFrom
  split
  · exact ⟨_, rfl⟩
  · split_ifs with hlarge
    · exact ⟨_, rfl⟩
    · exact growBlock_returns h (Nat.not_lt.mp hlarge)

theorem frameLane_returns (lane : LaneKey) (policy : FramingPolicy) {events : List Event} :
    ∀ (skip : Nat), (∀ event ∈ events, event.Held) →
      ∃ assignments, frameLane lane policy skip events = .ok assignments := by
  induction events with
  | nil => exact fun _ _ => ⟨_, rfl⟩
  | cons event rest ih =>
      intro skip hheld
      obtain ⟨_, hrest⟩ := List.forall_mem_cons.mp hheld
      cases skip with
      | succ skip => exact ih skip hrest
      | zero =>
          obtain ⟨grown, hgrown⟩ := growFrom_returns event hrest
          obtain ⟨assignments, hassignments⟩ := ih (grown.length - 1) hrest
          simp only [frameLane, hgrown, hassignments]
          exact ⟨_, rfl⟩

/-! ## What is behind the next records -/

/-- The inner loop looks no further than two records behind its block. -/
theorem growBlock_append {near far far' : List Event} : ∀ {recognition : RecognitionState}
    {bytes length : Nat} {timing : Bool} {previous : Event} {grown : Grown},
    growBlock recognition bytes length timing previous (near ++ far) = .ok grown →
    grown.length + 2 ≤ length + near.length →
      growBlock recognition bytes length timing previous (near ++ far') = .ok grown := by
  induction near with
  | nil =>
      intro recognition bytes length timing previous grown h hlength
      have hle := le_length_of_growBlock h
      rw [List.length_nil] at hlength
      omega
  | cons candidate near ih =>
      intro recognition bytes length timing previous grown h hlength
      have hle := le_length_of_growBlock h
      rw [List.length_cons] at hlength
      obtain ⟨lookahead, near, rfl⟩ : ∃ lookahead later, near = lookahead :: later :=
        List.exists_cons_of_length_pos (by omega)
      rw [List.cons_append, growBlock] at h ⊢
      simp only [List.cons_append, List.head?_cons] at h ⊢
      split_ifs at h ⊢ with hboundary
      · exact h
      split at h
      · exact h
      split_ifs at h ⊢ with hcap
      · exact h
      split at h
      · cases h
      split_ifs at h ⊢ with hlarge
      · exact h
      · exact ih h (by omega)

theorem growFrom_append {event : Event} {near far far' : List Event} {grown : Grown}
    (h : growFrom event (near ++ far) = .ok grown) (hlength : grown.length + 1 ≤ near.length) :
    growFrom event (near ++ far') = .ok grown := by
  have hpos := length_pos_of_growFrom h
  obtain ⟨next, near, rfl⟩ : ∃ next later, near = next :: later :=
    List.exists_cons_of_length_pos (by omega)
  rw [growFrom, List.cons_append, List.head?_cons] at h ⊢
  split at h
  · exact h
  split_ifs at h ⊢ with hlarge
  · exact h
  · have hnear : grown.length + 2 ≤ 1 + (next :: near).length := by omega
    exact growBlock_append h hnear

/-- A block of several records is found again in front of other records if it
ends where it did: the blocks before it cannot see that far. -/
theorem exists_laneBlock {lane : LaneKey} {policy : FramingPolicy} {event : Event}
    {joined behind later : List Event} {grown : Grown} (hjoined : joined ≠ [])
    (hgrown : growFrom event (joined ++ later) = .ok grown)
    (hlength : grown.length = joined.length + 1) {before : List Event} :
    ∀ {skip : Nat} {first after blocks : List (BlockAssignment × List Event)},
      skip ≤ before.length → first.flatMap (·.2) = before.drop skip →
      laneBlocks lane policy skip (before ++ (event :: joined ++ behind)) = .ok (first ++ after) →
      laneBlocks lane policy skip (before ++ (event :: joined ++ later)) = .ok blocks →
        (assignment lane (event :: joined) policy
          (blockClassification grown event (joined ++ later).head?), event :: joined) ∈ blocks := by
  have hmany : 0 < joined.length := List.length_pos_iff.mpr hjoined
  induction before with
  | nil =>
      intro skip first after blocks hskip _ _ h
      obtain rfl := Nat.le_zero.mp hskip
      simp only [List.nil_append, List.cons_append, laneBlocks, hgrown] at h
      split at h
      · cases h
      cases h
      have htake : (event :: (joined ++ later)).take grown.length = event :: joined := by
        rw [hlength, List.take_succ_cons, List.take_left]
      rw [htake]
      exact List.mem_cons_self ..
  | cons head before ih =>
      intro skip first after blocks hskip hfirst hblocks h
      rw [List.cons_append] at hblocks h
      cases skip with
      | succ skip => exact ih (Nat.le_of_succ_le_succ hskip) hfirst hblocks h
      | zero =>
          simp only [laneBlocks] at hblocks
          split at hblocks
          · cases hblocks
          rename_i far hfar
          split at hblocks
          · cases hblocks
          rename_i laterBlocks hlater
          rw [Except.ok.injEq] at hblocks
          -- the block at the head lies within the records before
          cases first with
          | nil => cases hfirst
          | cons block first =>
              obtain ⟨rfl, rfl⟩ := List.cons.inj hblocks
              rw [List.flatMap_cons, List.drop_zero] at hfirst
              have hfarLength := length_take_grown hfar
              have hle : far.length ≤ (head :: before).length := by
                rw [← hfirst, List.length_append, hfarLength]
                exact Nat.le_add_right _ _
              rw [← List.cons_append, List.take_append_of_le_length hle] at hfirst
              have hrest : first.flatMap (·.2) = before.drop (far.length - 1) := by
                obtain ⟨count, hcount⟩ :=
                  Nat.exists_eq_succ_of_ne_zero (length_pos_of_growFrom hfar).ne'
                have htail : first.flatMap (·.2) = (head :: before).drop far.length :=
                  List.append_cancel_left (hfirst.trans (List.take_append_drop ..).symm)
                rw [htail, hcount]
                rfl
              have hnear : far.length + 1 ≤ (before ++ event :: joined).length := by
                rw [List.length_append, List.length_cons]
                rw [List.length_cons] at hle
                omega
              rw [← List.append_assoc] at hfar
              have hfar' : growFrom head ((before ++ event :: joined) ++ later) = .ok far :=
                growFrom_append hfar hnear
              rw [List.append_assoc] at hfar'
              simp only [laneBlocks, hfar'] at h
              split at h
              · cases h
              rename_i tail htail
              cases h
              rw [List.length_cons] at hle
              exact List.mem_cons_of_mem _ (ih (by omega) hrest hlater htail)

end Evidentrail
