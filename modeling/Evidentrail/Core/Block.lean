import Evidentrail.Core.LedgerIndex
import Mathlib.Data.List.Chain
import Mathlib.Data.List.Sort

/-!
# Block reconciliation

A framer proposes block memberships; `BlockIndex.reconcile` accepts them
only when they partition the ledger: members exist, lie on the declared
lane, have consecutive lane sequences and ledger order, no event is in
two blocks and none is left out.
-/

namespace Evidentrail

open Rust Std

inductive BlockState where
  | providerAtomic
  | reconstructed
  | ambiguous
  | fallbackSingleton
deriving DecidableEq

inductive BlockConfidence where
  | certain
  | high
  | medium
  | low
  | unknown
deriving DecidableEq

/-- A proposed membership. The source keeps ids and lane sequences in two
vectors that one `unzip` fills; here they stay paired. -/
structure BlockAssignment where
  lane : LaneKey
  members : List (EventId × LaneSequence)
  framingPolicy : FramingPolicy
  state : BlockState
  confidence : BlockConfidence

namespace BlockAssignment

def newSameLaneV1 (lane : LaneKey) (members : List (EventId × LaneSequence))
    (framingPolicy : FramingPolicy) (state : BlockState) (confidence : BlockConfidence) :
    BlockAssignment :=
  ⟨lane, members, framingPolicy, state, confidence⟩

def memberIds (a : BlockAssignment) : List EventId := a.members.map (·.1)

def memberLaneSequences (a : BlockAssignment) : List LaneSequence := a.members.map (·.2)

end BlockAssignment

/-- One immutable block sealed against a ledger. -/
structure EventBlock where
  id : BlockId
  ordinal : Nat
  lane : LaneKey
  memberIds : List EventId
  memberLaneSequences : List LaneSequence
  memberPositions : List Nat
  framingPolicy : FramingPolicy
  state : BlockState
  confidence : BlockConfidence

inductive BlockReconciliationError where
  | emptyAssignment (assignmentIndex : Nat)
  | foreignMember (assignmentIndex memberIndex : Nat) (eventId : EventId)
  | memberLaneMismatch (assignmentIndex memberIndex : Nat)
  | memberLaneSequenceMismatch (assignmentIndex memberIndex : Nat)
  | duplicateMember (assignmentIndex memberIndex : Nat) (eventId : EventId)
  | reversedMembers (assignmentIndex previousMemberIndex memberIndex : Nat)
  | reversedLaneSequence (assignmentIndex previousMemberIndex memberIndex : Nat)
  | nonContiguousLaneSequence (assignmentIndex previousMemberIndex memberIndex : Nat)
  | duplicateAssignment (firstAssignmentIndex duplicateAssignmentIndex : Nat)
      (blockId : BlockId)
  | overlappingMember (firstAssignmentIndex secondAssignmentIndex : Nat)
      (eventId : EventId)
  | missingEvents (ids : List EventId)
  | blockIdCollision (id : BlockId)
  | blockCountOverflow
deriving DecidableEq

structure CandidateBlock where
  id : BlockId
  lane : LaneKey
  memberIds : List EventId
  memberLaneSequences : List LaneSequence
  memberPositions : List Nat
  framingPolicy : FramingPolicy
  state : BlockState
  confidence : BlockConfidence

structure SeenBlockIdentity where
  assignmentIndex : Nat
  lane : LaneKey
  members : List (EventId × LaneSequence)
  framingPolicy : FramingPolicy

/-- A reconciled primary block partition over one ledger. -/
structure BlockIndex where
  ledger : EventLedger
  blocks : List EventBlock
  blockPositions : ExtTreeMap BlockId Nat
  eventBlockPositions : ExtTreeMap EventId Nat

namespace BlockIndex

/-! ## The member loop -/

/-- The lane sequence check against the previous member. -/
def checkSequence (assignmentIndex memberIndex : Nat) (previous : Option LaneSequence)
    (sequence : LaneSequence) : Except BlockReconciliationError Unit :=
  match previous with
  | none => .ok ()
  | some previous =>
      if sequence.get ≤ previous.get then
        .error (.reversedLaneSequence assignmentIndex (memberIndex - 1) memberIndex)
      else if checkedAdd previous.get 1 ≠ some sequence.get then
        .error (.nonContiguousLaneSequence assignmentIndex (memberIndex - 1) memberIndex)
      else .ok ()

/-- One member: its ledger position, after all checks. `seen` and
`positions` hold the members before it. -/
def placeMember (ledger : EventLedger) (lane : LaneKey) (assignmentIndex memberIndex : Nat)
    (previous : Option LaneSequence) (seen : ExtTreeSet Nat) (positions : List Nat)
    (eventId : EventId) (sequence : LaneSequence) :
    Except (Fault BlockReconciliationError) Nat :=
  match checkSequence assignmentIndex memberIndex previous sequence with
  | .error error => .error (.err error)
  | .ok () =>
      match ledger.positions[eventId]? with
      | none => .error (.err (.foreignMember assignmentIndex memberIndex eventId))
      | some position =>
          if position ∈ seen then
            .error (.err (.duplicateMember assignmentIndex memberIndex eventId))
          else
            match ledger.events[position]? with
            | none => .error .panicked
            | some event =>
                if event.lane ≠ lane then
                  .error (.err (.memberLaneMismatch assignmentIndex memberIndex))
                else if event.laneSequence ≠ sequence then
                  .error (.err (.memberLaneSequenceMismatch assignmentIndex memberIndex))
                else if positions.getLast?.any (position < ·) then
                  .error (.err
                    (.reversedMembers assignmentIndex (memberIndex - 1) memberIndex))
                else .ok position

def placeMembers (ledger : EventLedger) (lane : LaneKey) (assignmentIndex memberIndex : Nat)
    (previous : Option LaneSequence) (seen : ExtTreeSet Nat) (positions : List Nat) :
    List (EventId × LaneSequence) → Except (Fault BlockReconciliationError) (List Nat)
  | [] => .ok positions
  | (eventId, sequence) :: rest =>
      match placeMember ledger lane assignmentIndex memberIndex previous seen positions
          eventId sequence with
      | .error fault => .error fault
      | .ok position =>
          placeMembers ledger lane assignmentIndex (memberIndex + 1) (some sequence)
            (seen.insert position) (positions ++ [position]) rest

/-! ## The assignment loop -/

/-- Positions taken so far, with the assignment that took them. -/
abbrev Owners := ExtTreeMap Nat Nat

/-- The first member that another assignment already holds. -/
def findOwned (owners : Owners) : List (EventId × Nat) → Option (EventId × Nat)
  | [] => none
  | (eventId, position) :: rest =>
      match owners[position]? with
      | some first => some (eventId, first)
      | none => findOwned owners rest

def own (owners : Owners) (assignmentIndex : Nat) (positions : List Nat) : Owners :=
  positions.foldl (fun owners position => owners.insert position assignmentIndex) owners

variable [Sha256]

def assignmentId (ledger : EventLedger) (a : BlockAssignment) : BlockId :=
  sameLaneBlockIdV1 ledger.retrievalId a.lane a.memberIds a.memberLaneSequences
    a.framingPolicy

def candidate (ledger : EventLedger) (a : BlockAssignment) (positions : List Nat) :
    CandidateBlock :=
  ⟨assignmentId ledger a, a.lane, a.memberIds, a.memberLaneSequences, positions,
    a.framingPolicy, a.state, a.confidence⟩

/-- The identity check of one assignment against those before it. -/
def checkIdentity (ledger : EventLedger) (seenIds : ExtTreeMap BlockId SeenBlockIdentity)
    (assignmentIndex : Nat) (a : BlockAssignment) : Except BlockReconciliationError Unit :=
  match seenIds[assignmentId ledger a]? with
  | none => .ok ()
  | some seen =>
      if seen.lane = a.lane ∧ seen.members = a.members ∧
          seen.framingPolicy = a.framingPolicy then
        .error (.duplicateAssignment seen.assignmentIndex assignmentIndex
          (assignmentId ledger a))
      else .error (.blockIdCollision (assignmentId ledger a))

/-- The candidates, and who owns which position. -/
def reconcileAssignments (ledger : EventLedger) (assignmentIndex : Nat) (owners : Owners)
    (seenIds : ExtTreeMap BlockId SeenBlockIdentity) :
    List BlockAssignment →
      Except (Fault BlockReconciliationError) (List CandidateBlock × Owners)
  | [] => .ok ([], owners)
  | a :: rest =>
      if a.members = [] then .error (.err (.emptyAssignment assignmentIndex))
      else
        match placeMembers ledger a.lane assignmentIndex 0 none ∅ [] a.members with
        | .error fault => .error fault
        | .ok positions =>
            match checkIdentity ledger seenIds assignmentIndex a with
            | .error error => .error (.err error)
            | .ok () =>
                match findOwned owners (a.memberIds.zip positions) with
                | some (eventId, first) =>
                    .error (.err (.overlappingMember first assignmentIndex eventId))
                | none =>
                    match reconcileAssignments ledger (assignmentIndex + 1)
                        (own owners assignmentIndex positions)
                        (seenIds.insert (assignmentId ledger a)
                          ⟨assignmentIndex, a.lane, a.members, a.framingPolicy⟩) rest with
                    | .error fault => .error fault
                    | .ok (candidates, owners') =>
                        .ok (candidate ledger a positions :: candidates, owners')

/-! ## The index -/

/-- Events without an owner, from `position` on. -/
def missingFrom (owners : Owners) (position : Nat) : List Event → List EventId
  | [] => []
  | event :: rest =>
      if position ∈ owners then missingFrom owners (position + 1) rest
      else event.id :: missingFrom owners (position + 1) rest

/-- `sort_by_key` on the first member position; both sorts are stable. -/
def sortCandidates (candidates : List CandidateBlock) : List CandidateBlock :=
  candidates.insertionSort fun a b =>
    a.memberPositions.headD 0 ≤ b.memberPositions.headD 0

/-- Blocks in order, with the two lookup maps. -/
def pushBlocks (index : BlockIndex) :
    List CandidateBlock → Except BlockReconciliationError BlockIndex
  | [] => .ok index
  | c :: rest =>
      match u64TryFrom index.blocks.length with
      | none => .error .blockCountOverflow
      | some ordinal =>
          pushBlocks
            { index with
              blocks := index.blocks ++ [⟨c.id, ordinal, c.lane, c.memberIds,
                c.memberLaneSequences, c.memberPositions, c.framingPolicy, c.state,
                c.confidence⟩]
              blockPositions := index.blockPositions.insert c.id index.blocks.length
              eventBlockPositions := c.memberIds.foldl
                (fun map id => map.insert id index.blocks.length)
                index.eventBlockPositions } rest

def reconcile (ledger : EventLedger) (assignments : List BlockAssignment) :
    Except (Fault BlockReconciliationError) BlockIndex :=
  match reconcileAssignments ledger 0 ∅ ∅ assignments with
  | .error fault => .error fault
  | .ok (candidates, owners) =>
      let missing := missingFrom owners 0 ledger.events
      if missing ≠ [] then .error (.err (.missingEvents missing))
      else
        match pushBlocks ⟨ledger, [], ∅, ∅⟩ (sortCandidates candidates) with
        | .error error => .error (.err error)
        | .ok index => .ok index

end BlockIndex

/-! ## Reconciliation accepts partitions -/

namespace BlockIndex

/-- Consecutive lane sequences. -/
def Follows (a b : Event) : Prop :=
  a.laneSequence.get + 1 = b.laneSequence.get

/-- An assignment that proposes these events, in ledger order. -/
structure Proposes (ledger : EventLedger) (a : BlockAssignment) (events : List Event) :
    Prop where
  members : a.members = events.map fun event => (event.id, event.laneSequence)
  nonempty : events ≠ []
  mem : ∀ event ∈ events, event ∈ ledger.events
  lane : ∀ event ∈ events, event.lane = a.lane
  ordered : events.Pairwise fun a b => ledger.pos a < ledger.pos b
  chained : events.IsChain Follows

theorem checkSequence_eq_ok {assignmentIndex memberIndex : Nat} {previous : Option Event}
    {event : Event} (h : ∀ a ∈ previous, Follows a event) :
    checkSequence assignmentIndex memberIndex (previous.map (·.laneSequence))
      event.laneSequence = .ok () := by
  cases previous with
  | none => rfl
  | some a =>
      have hnext : a.laneSequence.get + 1 = event.laneSequence.get := h a rfl
      have hlt : event.laneSequence.get < u64Bound := event.laneSequence.value.toNat_lt
      have hadd : checkedAdd a.laneSequence.get 1 = some event.laneSequence.get :=
        checkedAdd_eq_some.mpr ⟨by omega, hnext.symm⟩
      simp only [Option.map_some, checkSequence]
      rw [if_neg (by omega), if_neg (not_not_intro hadd)]

theorem placeMember_eq_ok {ledger : EventLedger} (h : ledger.Indexed) {lane : LaneKey}
    (assignmentIndex memberIndex : Nat) {before : List Event} {event : Event}
    {seen : ExtTreeSet Nat} (hseen : ∀ p, p ∈ seen ↔ p ∈ before.map ledger.pos)
    (hmem : event ∈ ledger.events) (hlane : event.lane = lane)
    (hchain : ∀ a ∈ before.getLast?, Follows a event)
    (hafter : ∀ a ∈ before, ledger.pos a < ledger.pos event) :
    placeMember ledger lane assignmentIndex memberIndex
      (before.getLast?.map (·.laneSequence)) seen (before.map ledger.pos) event.id
      event.laneSequence = .ok (ledger.pos event) := by
  obtain ⟨hindex, hevent⟩ := h.lookup hmem
  have hfresh : ledger.pos event ∉ seen := by
    rw [hseen, List.mem_map]
    rintro ⟨a, ha, heq⟩
    exact absurd (hafter a ha) (by omega)
  have hlast : ¬ (before.map ledger.pos).getLast?.any (ledger.pos event < ·) = true := by
    rw [List.getLast?_map, Option.any_map]
    cases hlast : before.getLast? with
    | none => simp
    | some a =>
        have ha := hafter a (List.mem_of_getLast? hlast)
        simp only [Option.any_some, decide_eq_true_eq]
        omega
  simp only [placeMember, checkSequence_eq_ok hchain, hindex, if_neg hfresh, hevent, hlane,
    ne_eq, not_true_eq_false, if_false, if_neg hlast]

theorem placeMembers_eq_ok {ledger : EventLedger} (h : ledger.Indexed) {lane : LaneKey}
    {assignmentIndex : Nat} (events : List Event) : ∀ (before : List Event)
    (memberIndex : Nat) (seen : ExtTreeSet Nat),
    (∀ p, p ∈ seen ↔ p ∈ before.map ledger.pos) →
    (∀ event ∈ events, event ∈ ledger.events ∧ event.lane = lane) →
    (before ++ events).Pairwise (fun a b => ledger.pos a < ledger.pos b) →
    (before ++ events).IsChain Follows →
    placeMembers ledger lane assignmentIndex memberIndex
      (before.getLast?.map (·.laneSequence)) seen (before.map ledger.pos)
      (events.map fun event => (event.id, event.laneSequence)) =
        .ok ((before ++ events).map ledger.pos) := by
  induction events with
  | nil =>
      intro before memberIndex seen _ _ _ _
      rw [List.append_nil]
      rfl
  | cons event events ih =>
      intro before memberIndex seen hseen hmem hordered hchain
      have hhere := hmem event (List.mem_cons_self ..)
      have hafter : ∀ a ∈ before, ledger.pos a < ledger.pos event := fun a ha =>
        (List.pairwise_append.mp hordered).2.2 a ha event (List.mem_cons_self ..)
      have hlast : ∀ a ∈ before.getLast?, Follows a event := fun a ha =>
        (List.isChain_append.mp hchain).2.2 a ha event rfl
      have hstep :=
        placeMember_eq_ok h assignmentIndex memberIndex hseen hhere.1 hhere.2 hlast hafter
      have hseen' : ∀ p, p ∈ seen.insert (ledger.pos event) ↔
          p ∈ (before ++ [event]).map ledger.pos := by
        intro p
        rw [mem_insert_set, hseen, List.map_append, List.mem_append, List.map_singleton,
          List.mem_singleton]
        tauto
      have hrest := ih (before ++ [event]) (memberIndex + 1)
        (seen.insert (ledger.pos event)) hseen'
        (fun later hlater => hmem later (List.mem_cons_of_mem _ hlater))
        (by simpa using hordered) (by simpa using hchain)
      simp only [List.getLast?_concat, Option.map_some, List.map_append, List.map_singleton]
        at hrest
      rw [List.map_cons, placeMembers, hstep]
      simp only [hrest, List.append_assoc, List.singleton_append, List.map_append,
        List.map_cons]

theorem Proposes.placeMembers {ledger : EventLedger} {a : BlockAssignment}
    {events : List Event} (hp : Proposes ledger a events) (h : ledger.Indexed)
    (assignmentIndex : Nat) :
    placeMembers ledger a.lane assignmentIndex 0 none ∅ [] a.members =
      .ok (events.map ledger.pos) := by
  rw [hp.members]
  exact placeMembers_eq_ok h events [] 0 ∅ (by simp)
    (fun event hmem => ⟨hp.mem event hmem, hp.lane event hmem⟩) hp.ordered hp.chained

theorem findOwned_eq_none {owners : Owners} : ∀ {pairs : List (EventId × Nat)},
    (∀ pair ∈ pairs, pair.2 ∉ owners) → findOwned owners pairs = none
  | [], _ => rfl
  | (eventId, position) :: rest, h => by
      have hfree : owners[position]? = none :=
        ExtTreeMap.getElem?_eq_none (h _ (List.mem_cons_self ..))
      rw [findOwned, hfree]
      exact findOwned_eq_none fun pair hpair => h pair (List.mem_cons_of_mem _ hpair)

theorem mem_own (assignmentIndex position : Nat) : ∀ (positions : List Nat)
    (owners : Owners), position ∈ own owners assignmentIndex positions ↔
      position ∈ positions ∨ position ∈ owners
  | [], owners => by simp [own]
  | first :: rest, owners => by
      have hrest := mem_own assignmentIndex position rest
        (owners.insert first assignmentIndex)
      simp only [own, List.foldl_cons] at hrest ⊢
      rw [hrest, mem_insert, List.mem_cons]
      tauto

theorem missingFrom_eq_nil {owners : Owners} : ∀ {events : List Event} {position : Nat},
    (∀ i < events.length, position + i ∈ owners) → missingFrom owners position events = []
  | [], _, _ => rfl
  | event :: rest, position, h => by
      have hhere : position ∈ owners := h 0 (Nat.zero_lt_succ _)
      rw [missingFrom, if_pos hhere]
      refine missingFrom_eq_nil fun i hi => ?_
      rw [Nat.add_assoc, Nat.add_comm 1 i]
      exact h (i + 1) (Nat.succ_lt_succ hi)

/-- The candidate a block was made from: all but its ordinal. -/
def toCandidate (b : EventBlock) : CandidateBlock :=
  ⟨b.id, b.lane, b.memberIds, b.memberLaneSequences, b.memberPositions, b.framingPolicy,
    b.state, b.confidence⟩

theorem pushBlocks_eq_ok : ∀ (candidates : List CandidateBlock) (index : BlockIndex),
    index.blocks.length + candidates.length ≤ u64Bound →
    ∃ result, pushBlocks index candidates = .ok result ∧ result.ledger = index.ledger ∧
      result.blocks.map toCandidate = index.blocks.map toCandidate ++ candidates
  | [], index, _ => ⟨index, rfl, rfl, (List.append_nil _).symm⟩
  | c :: rest, index, hlen => by
      rw [List.length_cons] at hlen
      have hordinal : u64TryFrom index.blocks.length = some index.blocks.length :=
        u64TryFrom_eq_some.mpr ⟨by omega, rfl⟩
      simp only [pushBlocks, hordinal]
      obtain ⟨result, hok, hledger, hblocks⟩ := pushBlocks_eq_ok rest
        { index with
          blocks := index.blocks ++ [⟨c.id, index.blocks.length, c.lane, c.memberIds,
            c.memberLaneSequences, c.memberPositions, c.framingPolicy, c.state,
            c.confidence⟩]
          blockPositions := index.blockPositions.insert c.id index.blocks.length
          eventBlockPositions := c.memberIds.foldl
            (fun map id => map.insert id index.blocks.length) index.eventBlockPositions }
        (by rw [List.length_append, List.length_singleton]; omega)
      refine ⟨result, hok, hledger, ?_⟩
      rw [hblocks, List.map_append, List.append_assoc]
      rfl

theorem length_proposals_le {ledger : EventLedger} :
    ∀ {proposals : List (BlockAssignment × List Event)},
    (∀ p ∈ proposals, Proposes ledger p.1 p.2) →
    proposals.length ≤ (proposals.flatMap (·.2)).length
  | [], _ => Nat.le_refl _
  | p :: rest, h => by
      have hpos := List.length_pos_of_ne_nil (h p (List.mem_cons_self ..)).nonempty
      have hrest := length_proposals_le fun q hq => h q (List.mem_cons_of_mem _ hq)
      rw [List.flatMap_cons, List.length_append, List.length_cons]
      omega

section Assignments

variable [Sha256]

/-- Disjoint proposals with distinct ids all become candidates. -/
theorem reconcileAssignments_eq_ok {ledger : EventLedger} (h : ledger.Indexed)
    (proposals : List (BlockAssignment × List Event)) :
    ∀ (assignmentIndex : Nat) (owners : Owners)
      (seenIds : ExtTreeMap BlockId SeenBlockIdentity),
    (∀ p ∈ proposals, Proposes ledger p.1 p.2) →
    ((proposals.flatMap (·.2)).map ledger.pos).Nodup →
    (∀ event ∈ proposals.flatMap (·.2), ledger.pos event ∉ owners) →
    (proposals.map (assignmentId ledger ·.1)).Nodup →
    (∀ p ∈ proposals, assignmentId ledger p.1 ∉ seenIds) →
    ∃ owners', reconcileAssignments ledger assignmentIndex owners seenIds
        (proposals.map (·.1)) =
        .ok (proposals.map fun p => candidate ledger p.1 (p.2.map ledger.pos), owners') ∧
      ∀ position, position ∈ owners' ↔
        position ∈ (proposals.flatMap (·.2)).map ledger.pos ∨ position ∈ owners := by
  induction proposals with
  | nil => exact fun _ owners _ _ _ _ _ _ => ⟨owners, rfl, by simp⟩
  | cons p proposals ih =>
      intro assignmentIndex owners seenIds hprop hnodup hfree hids hunseen
      obtain ⟨a, events⟩ := p
      have hhead := hprop _ (List.mem_cons_self ..)
      rw [List.flatMap_cons, List.map_append, List.nodup_append] at hnodup
      obtain ⟨hnew, hids'⟩ := List.nodup_cons.mp hids
      have hmembers : a.members ≠ [] := by
        rw [hhead.members, ne_eq, List.map_eq_nil_iff]
        exact hhead.nonempty
      have hidentity : checkIdentity ledger seenIds assignmentIndex a = .ok () := by
        rw [checkIdentity, ExtTreeMap.getElem?_eq_none (hunseen _ (List.mem_cons_self ..))]
      have hunowned : findOwned owners (a.memberIds.zip (events.map ledger.pos)) = none := by
        refine findOwned_eq_none fun pair hpair => ?_
        obtain ⟨event, hevent, heq⟩ := List.mem_map.mp (List.of_mem_zip hpair).2
        rw [← heq]
        exact hfree event (List.mem_append_left _ hevent)
      obtain ⟨owners', hok, howners⟩ := ih (assignmentIndex + 1)
        (own owners assignmentIndex (events.map ledger.pos))
        (seenIds.insert (assignmentId ledger a)
          ⟨assignmentIndex, a.lane, a.members, a.framingPolicy⟩)
        (fun q hq => hprop q (List.mem_cons_of_mem _ hq)) hnodup.2.1
        (fun event hevent hin => by
          rcases (mem_own _ _ _ _).mp hin with hin | hin
          · exact hnodup.2.2 _ hin _ (List.mem_map.mpr ⟨event, hevent, rfl⟩) rfl
          · exact hfree event (List.mem_append_right _ hevent) hin)
        hids'
        (fun q hq hin => by
          rcases mem_insert.mp hin with heq | hin
          · exact hnew (List.mem_map.mpr ⟨q, hq, heq.symm⟩)
          · exact hunseen q (List.mem_cons_of_mem _ hq) hin)
      refine ⟨owners', ?_, fun position => ?_⟩
      · rw [List.map_cons, reconcileAssignments, if_neg hmembers, hhead.placeMembers h]
        simp only [hidentity, hunowned, hok, List.map_cons]
      · rw [howners, mem_own, List.flatMap_cons, List.map_append, List.mem_append]
        tauto

/-- Proposals that partition the ledger, with distinct ids, reconcile. -/
theorem reconcile_eq_ok {ledger : EventLedger} (h : ledger.Indexed)
    {proposals : List (BlockAssignment × List Event)}
    (hprop : ∀ p ∈ proposals, Proposes ledger p.1 p.2)
    (hnodup : ((proposals.flatMap (·.2)).map ledger.pos).Nodup)
    (hmem : ∀ event, event ∈ proposals.flatMap (·.2) ↔ event ∈ ledger.events)
    (hids : (proposals.map (assignmentId ledger ·.1)).Nodup) :
    ∃ index, reconcile ledger (proposals.map (·.1)) = .ok index ∧ index.ledger = ledger ∧
      index.blocks.map toCandidate = sortCandidates
        (proposals.map fun p => candidate ledger p.1 (p.2.map ledger.pos)) := by
  obtain ⟨owners, hok, howners⟩ := reconcileAssignments_eq_ok h proposals 0 ∅ ∅ hprop hnodup
    (by simp) hids (by simp)
  have hmissing : missingFrom owners 0 ledger.events = [] := by
    refine missingFrom_eq_nil fun i hi => ?_
    have hevent := List.getElem?_eq_getElem hi
    rw [Nat.zero_add, howners, ← (h.position_of_getElem? hevent).2]
    exact .inl (List.mem_map.mpr ⟨_, (hmem _).mpr (List.mem_of_getElem? hevent), rfl⟩)
  have hcount : proposals.length ≤ ledger.events.length := by
    have hsub : (proposals.flatMap (·.2)).map ledger.pos ⊆
        List.range ledger.events.length := by
      rw [← h.map_pos]
      exact List.map_subset _ fun event hevent => (hmem event).mp hevent
    have hle := (List.subperm_of_subset hnodup hsub).length_le
    rw [List.length_map, List.length_range] at hle
    exact Nat.le_trans (length_proposals_le hprop) hle
  obtain ⟨index, hpush, hledger, hblocks⟩ := pushBlocks_eq_ok
    (sortCandidates (proposals.map fun p => candidate ledger p.1 (p.2.map ledger.pos)))
    ⟨ledger, [], ∅, ∅⟩ (by
      rw [sortCandidates, List.length_insertionSort, List.length_map, List.length_nil]
      have hle := h.length_le
      omega)
  refine ⟨index, ?_, hledger, by simpa using hblocks⟩
  simp only [reconcile, hok, hmissing, ne_eq, not_true_eq_false, if_false, hpush]

end Assignments

end BlockIndex

end Evidentrail
