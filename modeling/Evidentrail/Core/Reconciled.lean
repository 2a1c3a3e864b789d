import Evidentrail.Core.Block
import Evidentrail.Core.LaneOrder
import Evidentrail.Lib.Locate
import Evidentrail.Lib.Sort

/-!
# Reconciliation accepts partitions and nothing else

The exits of `reconcile`, read backwards: what it accepts are runs of lanes that
together hold every event once (`reconcile_ok_iff_partition`). On a ledger there
is, the check of the ledger order cannot fail after the checks of the sequences,
for sequences and positions of a lane agree. The index does not depend on the
order of the proposals, and its two lookups find the one block of an event and
the bytes of its members.
-/

namespace Evidentrail

open Rust Std

namespace BlockIndex

/-! ## Partitions -/

/-- Members that follow each other in the lane. -/
structure IsRun (ledger : EventLedger) (a : BlockAssignment) : Prop where
  nonempty : a.members ≠ []
  members : ∀ member ∈ a.members, ∃ event ∈ ledger.events, event.id = member.1 ∧
    event.lane = a.lane ∧ event.laneSequence = member.2
  consecutive : a.members.IsChain fun prior next => prior.2.get + 1 = next.2.get

/-- Runs of lanes that hold every event of the ledger once. -/
structure IsPartition (ledger : EventLedger) (assignments : List BlockAssignment) : Prop where
  runs : ∀ a ∈ assignments, IsRun ledger a
  once : ∀ event ∈ ledger.events, (assignments.flatMap (·.memberIds)).count event.id = 1

theorem IsPartition.of_perm {ledger : EventLedger} {assignments assignments' : List BlockAssignment}
    (h : IsPartition ledger assignments) (hperm : assignments'.Perm assignments) :
    IsPartition ledger assignments' := by
  refine ⟨fun a ha => h.runs a (hperm.mem_iff.mp ha), fun event hevent => ?_⟩
  rw [(hperm.flatMap_right _).count_eq, h.once event hevent]

/-- The events of an assignment. -/
theorem IsRun.exists_events {ledger : EventLedger} {a : BlockAssignment} (h : IsRun ledger a) :
    ∃ events : List Event, a.members = events.map (fun event => (event.id, event.laneSequence)) ∧
      (∀ event ∈ events, event ∈ ledger.events ∧ event.lane = a.lane) := by
  have hmembers := h.members
  generalize a.members = members at hmembers
  induction members with
  | nil => exact ⟨[], rfl, fun event hevent => absurd hevent List.not_mem_nil⟩
  | cons member rest ih =>
      obtain ⟨hhead, hrest⟩ := List.forall_mem_cons.mp hmembers
      obtain ⟨event, hevent, hid, hlane, hsequence⟩ := hhead
      obtain ⟨events, rfl, hevents⟩ := ih hrest
      refine ⟨event :: events, ?_, List.forall_mem_cons.mpr ⟨⟨hevent, hlane⟩, hevents⟩⟩
      rw [List.map_cons, hid, hsequence]

/-- A run proposes its events: what follows in the lane follows in the ledger. -/
theorem IsRun.proposes {ledger : EventLedger} {a : BlockAssignment} (h : IsRun ledger a)
    (hindexed : ledger.Indexed) (hlaned : ledger.Laned) :
    ∃ events, Proposes ledger a events := by
  obtain ⟨events, hmembers, hevents⟩ := h.exists_events
  have hchain : events.IsChain Follows := by
    have hconsecutive := h.consecutive
    rw [hmembers, List.isChain_map] at hconsecutive
    exact hconsecutive
  have hgrow : events.Pairwise fun a b => a.laneSequence.get < b.laneSequence.get := by
    have htrans : IsTrans Event fun a b => a.laneSequence.get < b.laneSequence.get :=
      ⟨fun _ _ _ => Nat.lt_trans⟩
    refine List.isChain_iff_pairwise.mp (hchain.imp fun a b hab => ?_)
    unfold Follows at hab
    omega
  refine ⟨events, hmembers, fun hnil => h.nonempty ?_, fun event hevent => (hevents event hevent).1,
    fun event hevent => (hevents event hevent).2, ?_, hchain⟩
  · rw [hmembers, hnil, List.map_nil]
  · refine hgrow.imp_of_mem fun {a b} ha hb hab => ?_
    obtain ⟨hmemA, hlaneA⟩ := hevents a ha
    obtain ⟨hmemB, hlaneB⟩ := hevents b hb
    exact hlaned.pos_lt hindexed hmemA hmemB (hlaneA.trans hlaneB.symm) hab

/-! ## The members of an accepted assignment -/

/-- The members of an assignment, as reconciliation finds them. -/
def placed (ledger : EventLedger) (a : BlockAssignment) : List Nat :=
  a.members.map fun member => ledger.positions[member.1]?.getD 0

/-- Members are found under their ids. -/
theorem map_memberIds {ledger : EventLedger} {a : BlockAssignment} :
    a.memberIds.map (fun id => ledger.positions[id]?.getD 0) = placed ledger a := by
  rw [BlockAssignment.memberIds, List.map_map]
  rfl

theorem map_flatMap_memberIds {ledger : EventLedger} {assignments : List BlockAssignment} :
    (assignments.flatMap (·.memberIds)).map (fun id => ledger.positions[id]?.getD 0) =
      assignments.flatMap (placed ledger) := by
  rw [List.map_flatMap]
  exact List.flatMap_congr fun a _ => map_memberIds

theorem Proposes.placed_eq {ledger : EventLedger} {a : BlockAssignment} {events : List Event}
    (h : Proposes ledger a events) : placed ledger a = events.map ledger.pos := by
  rw [placed, h.members, List.map_map]
  rfl

/-- What the checks on a member leave. -/
theorem placeMember_cases {ledger : EventLedger} {lane : LaneKey}
    {assignmentIndex memberIndex : Nat} {previous : Option LaneSequence} {seen : ExtTreeSet Nat}
    {positions : List Nat} {eventId : EventId} {sequence : LaneSequence} {position : Nat}
    (h : placeMember ledger lane assignmentIndex memberIndex previous seen positions eventId
      sequence = .ok position) :
    (∀ prior ∈ previous, prior.get + 1 = sequence.get) ∧
      ledger.positions[eventId]? = some position ∧ position ∉ seen ∧
      ∃ event, ledger.events[position]? = some event ∧ event.lane = lane ∧
        event.laneSequence = sequence := by
  unfold placeMember at h
  split at h
  · cases h
  rename_i hsequence
  split at h
  · cases h
  rename_i found hfound
  split at h
  · cases h
  rename_i hseen
  split at h
  · cases h
  rename_i event hevent
  split at h
  · cases h
  rename_i hlane
  split at h
  · cases h
  rename_i hsame
  split at h
  · cases h
  cases h
  refine ⟨?_, hfound, hseen, event, hevent, not_not.mp hlane, not_not.mp hsame⟩
  rintro prior hprior
  cases hprior
  unfold checkSequence at hsequence
  simp only at hsequence
  split at hsequence
  · cases hsequence
  split at hsequence
  · cases hsequence
  rename_i hnext
  exact (checkedAdd_eq_some.mp (not_not.mp hnext)).2.symm

/-- What the checks on all members leave. -/
theorem placeMembers_eq_ok_cases {ledger : EventLedger} (hindexed : ledger.Indexed) {lane : LaneKey}
    {assignmentIndex : Nat} {members : List (EventId × LaneSequence)} : ∀ {memberIndex : Nat}
    {previous : Option LaneSequence} {seen : ExtTreeSet Nat} {positions result : List Nat},
    placeMembers ledger lane assignmentIndex memberIndex previous seen positions members =
        .ok result →
      result = positions ++ members.map (fun member => ledger.positions[member.1]?.getD 0) ∧
      (∀ member ∈ members, ∃ event ∈ ledger.events, event.id = member.1 ∧ event.lane = lane ∧
        event.laneSequence = member.2) ∧
      (previous.toList ++ members.map (·.2)).IsChain (fun prior next => prior.get + 1 = next.get) ∧
      (members.map fun member => ledger.positions[member.1]?.getD 0).Nodup ∧
      ∀ member ∈ members, ledger.positions[member.1]?.getD 0 ∉ seen := by
  induction members with
  | nil =>
      intro memberIndex previous seen positions result h
      cases h
      refine ⟨(List.append_nil _).symm, by simp, ?_, List.nodup_nil, by simp⟩
      cases previous <;> simp
  | cons member rest ih =>
      intro memberIndex previous seen positions result h
      obtain ⟨eventId, sequence⟩ := member
      simp only [placeMembers] at h
      split at h
      · cases h
      rename_i position hplaced
      obtain ⟨hprevious, hposition, hfresh, event, hevent, hlane, hsequence⟩ :=
        placeMember_cases hplaced
      obtain ⟨hresult, hmembers, hchain, hnodup, hunseen⟩ := ih h
      have hfound : ledger.positions[eventId]?.getD 0 = position := by
        rw [hposition, Option.getD_some]
      have hid : event.id = eventId := by
        have hget := (hindexed.positions eventId position).mp hposition
        rw [List.getElem?_map, hevent] at hget
        exact Option.some.inj hget
      rw [List.map_cons, List.map_cons, hfound]
      refine ⟨?_, List.forall_mem_cons.mpr
        ⟨⟨event, List.mem_of_getElem? hevent, hid, hlane, hsequence⟩, hmembers⟩, ?_,
        List.nodup_cons.mpr ⟨fun hin => ?_, hnodup⟩,
        List.forall_mem_cons.mpr ⟨by rwa [hfound], fun later hlater hin => ?_⟩⟩
      · rw [hresult, List.append_assoc, List.singleton_append]
      · cases previous with
        | none => exact hchain
        | some prior => exact .cons_cons (hprevious prior rfl) hchain
      · obtain ⟨later, hlater, heq⟩ := List.mem_map.mp hin
        exact hunseen later hlater (mem_insert_set.mpr (.inl heq.symm))
      · exact hunseen later hlater (mem_insert_set.mpr (.inr hin))

theorem isRun_of_placeMembers {ledger : EventLedger} (hindexed : ledger.Indexed)
    {a : BlockAssignment} {assignmentIndex : Nat} {positions : List Nat} (hne : a.members ≠ [])
    (h : placeMembers ledger a.lane assignmentIndex 0 none ∅ [] a.members = .ok positions) :
    IsRun ledger a ∧ positions = placed ledger a ∧ (placed ledger a).Nodup := by
  obtain ⟨hresult, hmembers, hchain, hnodup, _⟩ := placeMembers_eq_ok_cases hindexed h
  refine ⟨⟨hne, hmembers, ?_⟩, hresult, hnodup⟩
  rw [Option.toList_none, List.nil_append, List.isChain_map] at hchain
  exact hchain

/-! ## The accepted assignments -/

theorem findOwned_eq_none_iff {owners : Owners} : ∀ {pairs : List (EventId × Nat)},
    findOwned owners pairs = none ↔ ∀ pair ∈ pairs, pair.2 ∉ owners
  | [] => by simp [findOwned]
  | (eventId, position) :: rest => by
      rw [findOwned, List.forall_mem_cons, ← @findOwned_eq_none_iff _ rest]
      cases hfound : owners[position]? with
      | none =>
          have hnot : position ∉ owners := by
            rw [← ExtTreeMap.isSome_getElem?_iff_mem, hfound]
            simp
          simp [hnot]
      | some first =>
          have hin : position ∈ owners := by
            rw [← ExtTreeMap.isSome_getElem?_iff_mem, hfound]
            rfl
          simp [hin]

theorem missingFrom_eq_nil_iff {owners : Owners} : ∀ {events : List Event} {position : Nat},
    missingFrom owners position events = [] ↔ ∀ i < events.length, position + i ∈ owners
  | [], _ => by simp [missingFrom]
  | event :: rest, position => by
      have hrest := @missingFrom_eq_nil_iff owners rest (position + 1)
      rw [missingFrom]
      constructor
      · intro h
        split at h
        · rename_i hhere
          intro i hi
          cases i with
          | zero => exact hhere
          | succ i =>
              have hlater := hrest.mp h i (Nat.lt_of_succ_lt_succ hi)
              rwa [Nat.add_assoc, Nat.add_comm 1 i] at hlater
        · cases h
      · intro h
        have hhere : position ∈ owners := h 0 (Nat.zero_lt_succ _)
        rw [if_pos hhere, hrest]
        intro i hi
        rw [Nat.add_assoc, Nat.add_comm 1 i]
        exact h (i + 1) (Nat.succ_lt_succ hi)

theorem pushBlocks_blocks : ∀ {candidates : List CandidateBlock} {index result : BlockIndex},
    pushBlocks index candidates = .ok result → result.ledger = index.ledger ∧
      result.blocks.map toCandidate = index.blocks.map toCandidate ++ candidates
  | [], index, result, h => by
      cases h
      exact ⟨rfl, (List.append_nil _).symm⟩
  | c :: rest, index, result, h => by
      simp only [pushBlocks] at h
      split at h
      · cases h
      obtain ⟨hledger, hblocks⟩ := pushBlocks_blocks h
      refine ⟨hledger, ?_⟩
      rw [hblocks, List.map_append, List.append_assoc]
      rfl

section Accepted

variable [Sha256]

/-- What the loop over the assignments leaves: runs that share no position. -/
theorem reconcileAssignments_eq_ok_cases {ledger : EventLedger} (hindexed : ledger.Indexed)
    {assignments : List BlockAssignment} :
    ∀ {assignmentIndex : Nat} {owners owners' : Owners}
      {seenIds : ExtTreeMap BlockId SeenBlockIdentity} {candidates : List CandidateBlock},
      reconcileAssignments ledger assignmentIndex owners seenIds assignments =
          .ok (candidates, owners') →
        candidates = assignments.map (fun a => candidate ledger a (placed ledger a)) ∧
        (∀ a ∈ assignments, IsRun ledger a) ∧
        (assignments.flatMap (placed ledger)).Nodup ∧
        (∀ position ∈ assignments.flatMap (placed ledger), position ∉ owners) ∧
        ∀ position, position ∈ owners' ↔
          position ∈ assignments.flatMap (placed ledger) ∨ position ∈ owners := by
  induction assignments with
  | nil =>
      intro assignmentIndex owners owners' seenIds candidates h
      cases h
      simp
  | cons a rest ih =>
      intro assignmentIndex owners owners' seenIds candidates h
      simp only [reconcileAssignments] at h
      split at h
      · cases h
      rename_i hne
      split at h
      · cases h
      rename_i positions hplaced
      split at h
      · cases h
      split at h
      · cases h
      rename_i hunowned
      split at h
      · cases h
      rename_i later owners'' hlater
      cases h
      obtain ⟨hrun, rfl, hnodup⟩ := isRun_of_placeMembers hindexed hne hplaced
      obtain ⟨hcandidates, hruns, hrest, hfree, howners⟩ := ih hlater
      have hlength : a.memberIds.length = (placed ledger a).length := by
        simp [BlockAssignment.memberIds, placed]
      have hfresh : ∀ position ∈ placed ledger a, position ∉ owners := by
        intro position hposition
        obtain ⟨i, hi, rfl⟩ := List.mem_iff_getElem.mp hposition
        have hzip : i < (a.memberIds.zip (placed ledger a)).length := by
          rw [List.length_zip, hlength, Nat.min_self]
          exact hi
        have hpair := findOwned_eq_none_iff.mp hunowned _ (List.getElem_mem hzip)
        rwa [List.getElem_zip] at hpair
      simp only [List.flatMap_cons, List.map_cons, hcandidates]
      refine ⟨trivial, List.forall_mem_cons.mpr ⟨hrun, hruns⟩, List.nodup_append.mpr
          ⟨hnodup, hrest, fun position hin later hlater heq => ?_⟩,
        fun position hposition hin => ?_, fun position => ?_⟩
      · exact hfree later hlater ((mem_own _ _ _ _).mpr (.inl (heq ▸ hin)))
      · rcases List.mem_append.mp hposition with hhere | hlater
        · exact hfresh position hhere hin
        · exact hfree position hlater ((mem_own _ _ _ _).mpr (.inr hin))
      · rw [howners, mem_own, List.mem_append]
        tauto

/-- The candidates an index is made from. -/
def candidates (ledger : EventLedger) (assignments : List BlockAssignment) :
    List CandidateBlock :=
  sortCandidates (assignments.map fun a => candidate ledger a (placed ledger a))

/-- What is accepted is a partition, and its index is made from the sorted candidates. -/
theorem reconcile_eq_ok_cases {ledger : EventLedger} (hindexed : ledger.Indexed)
    {assignments : List BlockAssignment} {index : BlockIndex}
    (h : reconcile ledger assignments = .ok index) :
    IsPartition ledger assignments ∧
      pushBlocks ⟨ledger, [], ∅, ∅⟩ (candidates ledger assignments) = .ok index := by
  unfold reconcile at h
  split at h
  · cases h
  rename_i found owners hfound
  simp only at h
  split at h
  · cases h
  rename_i hmissing
  split at h
  · cases h
  rename_i result hresult
  cases h
  obtain ⟨rfl, hruns, hnodup, _, howners⟩ := reconcileAssignments_eq_ok_cases hindexed hfound
  refine ⟨⟨hruns, fun event hevent => ?_⟩, hresult⟩
  rw [← map_flatMap_memberIds] at hnodup
  refine List.count_eq_one_of_mem hnodup.of_map ?_
  -- the position of the event is owned, and the owner found it under its id
  obtain ⟨hposition, hget⟩ := hindexed.lookup hevent
  have howned := missingFrom_eq_nil_iff.mp (not_not.mp hmissing) (ledger.pos event)
    (List.getElem?_eq_some_iff.mp hget).1
  rw [Nat.zero_add, howners, ← map_flatMap_memberIds] at howned
  obtain ⟨id, hid, heq⟩ := List.mem_map.mp (howned.resolve_right (by simp))
  obtain ⟨a, ha, hmember⟩ := List.mem_flatMap.mp hid
  obtain ⟨member, hin, rfl⟩ := List.mem_map.mp hmember
  obtain ⟨other, hother, hsame, _⟩ := (hruns a ha).members member hin
  have hpos : ledger.pos other = ledger.pos event := by
    rw [← heq, ← hsame]
    rfl
  have hfirst := (hindexed.lookup hother).2
  rw [hpos, hget, Option.some.injEq] at hfirst
  rw [hfirst, hsame]
  exact hid

theorem reconcile_candidates {ledger : EventLedger} (hindexed : ledger.Indexed)
    {assignments : List BlockAssignment} {index : BlockIndex}
    (h : reconcile ledger assignments = .ok index) :
    index.ledger = ledger ∧ index.blocks.map toCandidate = candidates ledger assignments :=
  pushBlocks_blocks (reconcile_eq_ok_cases hindexed h).2

end Accepted

/-! ## Partitions are accepted -/

section Partition

variable {ledger : EventLedger} {assignments : List BlockAssignment}

theorem IsPartition.exists_event (h : IsPartition ledger assignments) {id : EventId}
    (hid : id ∈ assignments.flatMap (·.memberIds)) : ∃ event ∈ ledger.events, event.id = id := by
  obtain ⟨a, ha, hmember⟩ := List.mem_flatMap.mp hid
  obtain ⟨member, hin, rfl⟩ := List.mem_map.mp hmember
  obtain ⟨event, hevent, hsame, _⟩ := (h.runs a ha).members member hin
  exact ⟨event, hevent, hsame⟩

theorem IsPartition.nodup_ids (h : IsPartition ledger assignments) :
    (assignments.flatMap (·.memberIds)).Nodup := by
  rw [List.nodup_iff_count_le_one]
  intro id
  by_cases hid : id ∈ assignments.flatMap (·.memberIds)
  · obtain ⟨event, hevent, rfl⟩ := h.exists_event hid
    exact Nat.le_of_eq (h.once event hevent)
  · rw [List.count_eq_zero_of_not_mem hid]
    exact Nat.zero_le _

theorem IsPartition.nodup_placed (h : IsPartition ledger assignments)
    (hindexed : ledger.Indexed) : (assignments.flatMap (placed ledger)).Nodup := by
  rw [← map_flatMap_memberIds]
  refine List.Nodup.map_on (fun id hid other hother heq => ?_) h.nodup_ids
  obtain ⟨event, hevent, rfl⟩ := h.exists_event hid
  obtain ⟨event', hevent', rfl⟩ := h.exists_event hother
  have hpos : ledger.pos event = ledger.pos event' := heq
  have hlookup := (hindexed.lookup hevent).2
  rw [hpos, (hindexed.lookup hevent').2, Option.some.injEq] at hlookup
  rw [hlookup]

/-- Blocks of a partition begin at different events. -/
theorem IsPartition.nodup_heads (h : IsPartition ledger assignments) (hindexed : ledger.Indexed) :
    (assignments.map fun a => (placed ledger a).headD 0).Nodup := by
  have hnodup := h.nodup_placed hindexed
  rw [List.nodup_flatMap] at hnodup
  rw [List.Nodup, List.pairwise_map]
  refine hnodup.2.imp_of_mem fun {a b} ha hb hdisjoint heq => ?_
  have hhead : ∀ a ∈ assignments, (placed ledger a).headD 0 ∈ placed ledger a := by
    intro a ha
    obtain ⟨member, rest, hmembers⟩ := List.exists_cons_of_ne_nil (h.runs a ha).nonempty
    rw [placed, hmembers, List.map_cons, List.headD_cons]
    exact List.mem_cons_self ..
  exact hdisjoint (hhead a ha) (heq ▸ hhead b hb)

theorem IsPartition.exists_proposals (h : IsPartition ledger assignments)
    (hindexed : ledger.Indexed) (hlaned : ledger.Laned) :
    ∃ proposals : List (BlockAssignment × List Event), assignments = proposals.map (·.1) ∧
      ∀ p ∈ proposals, Proposes ledger p.1 p.2 := by
  have hruns := h.runs
  clear h
  induction assignments with
  | nil => exact ⟨[], rfl, fun p hp => absurd hp List.not_mem_nil⟩
  | cons a rest ih =>
      obtain ⟨hrun, hrest⟩ := List.forall_mem_cons.mp hruns
      obtain ⟨events, hevents⟩ := hrun.proposes hindexed hlaned
      obtain ⟨proposals, rfl, hproposals⟩ := ih hrest
      exact ⟨(a, events) :: proposals, rfl, List.forall_mem_cons.mpr ⟨hevents, hproposals⟩⟩

theorem Proposes.memberIds_eq {a : BlockAssignment} {events : List Event}
    (h : Proposes ledger a events) : a.memberIds = events.map (·.id) := by
  rw [BlockAssignment.memberIds, h.members, List.map_map]
  rfl

variable [Sha256]

/-- Block ids of proposals with different members differ. -/
def NoCollision (ledger : EventLedger) (assignments : List BlockAssignment) : Prop :=
  ∀ a ∈ assignments, ∀ b ∈ assignments,
    assignmentId ledger a = assignmentId ledger b → a.memberIds = b.memberIds

theorem IsPartition.nodup_assignmentIds (h : IsPartition ledger assignments)
    (hcollision : NoCollision ledger assignments) :
    (assignments.map (assignmentId ledger)).Nodup := by
  have hnodup := h.nodup_ids
  rw [List.nodup_flatMap] at hnodup
  rw [List.Nodup, List.pairwise_map]
  refine hnodup.2.imp_of_mem fun {a b} ha hb hdisjoint hid => ?_
  have hsame := hcollision a ha b hb hid
  obtain ⟨member, rest, hmembers⟩ := List.exists_cons_of_ne_nil (h.runs a ha).nonempty
  have hin : member.1 ∈ a.memberIds := by
    rw [BlockAssignment.memberIds, hmembers]
    exact List.mem_cons_self ..
  have hin' : member.1 ∈ b.memberIds := hsame ▸ hin
  exact hdisjoint hin hin'

theorem IsPartition.reconcile_ok (h : IsPartition ledger assignments) (hindexed : ledger.Indexed)
    (hlaned : ledger.Laned) (hcollision : NoCollision ledger assignments) :
    ∃ index, reconcile ledger assignments = .ok index := by
  have hids := h.nodup_assignmentIds hcollision
  have hplaced := h.nodup_placed hindexed
  have honce := h.once
  obtain ⟨proposals, rfl, hproposals⟩ := h.exists_proposals hindexed hlaned
  have hnodup : ((proposals.flatMap (·.2)).map ledger.pos).Nodup := by
    rw [List.flatMap_map] at hplaced
    rw [List.map_flatMap]
    convert hplaced using 1
    exact List.flatMap_congr fun p hp => ((hproposals p hp).placed_eq).symm
  have hmem : ∀ event, event ∈ proposals.flatMap (·.2) ↔ event ∈ ledger.events := by
    intro event
    constructor
    · intro hin
      obtain ⟨p, hp, hevent⟩ := List.mem_flatMap.mp hin
      exact (hproposals p hp).mem event hevent
    · intro hevent
      have hid : event.id ∈ (proposals.map (·.1)).flatMap (·.memberIds) := by
        rw [← List.count_pos_iff, honce event hevent]
        exact Nat.one_pos
      obtain ⟨a, ha, hmember⟩ := List.mem_flatMap.mp hid
      obtain ⟨p, hp, rfl⟩ := List.mem_map.mp ha
      rw [(hproposals p hp).memberIds_eq] at hmember
      obtain ⟨other, hother, hsame⟩ := List.mem_map.mp hmember
      have heq : other = event := List.inj_on_of_nodup_map hindexed.ids_nodup
        ((hproposals p hp).mem other hother) hevent hsame
      exact List.mem_flatMap.mpr ⟨p, hp, heq ▸ hother⟩
  rw [List.map_map] at hids
  obtain ⟨index, hok, _⟩ := reconcile_eq_ok hindexed hproposals hnodup hmem hids
  exact ⟨index, hok⟩

theorem candidates_eq_of_perm (h : IsPartition ledger assignments) (hindexed : ledger.Indexed)
    {assignments' : List BlockAssignment} (hperm : assignments'.Perm assignments) :
    candidates ledger assignments' = candidates ledger assignments := by
  refine Sorting.insertionSort_eq_of_perm (fun c : CandidateBlock => c.memberPositions.headD 0) ?_
    (hperm.map _)
  rw [List.map_map]
  exact h.nodup_heads hindexed

end Partition

/-! ## Lookups -/

end BlockIndex

inductive BlockLookupError where
  | unknownBlock (id : BlockId)
  | unknownEvent (id : EventId)
deriving DecidableEq

/-- The members of a block, with the block. -/
structure BlockExpansion where
  block : EventBlock
  events : List Event

/-- Member bytes in source order, with nothing between them. -/
def BlockExpansion.exactBytes (expansion : BlockExpansion) : List UInt8 :=
  expansion.events.foldl (fun bytes event => bytes ++ event.raw) []

theorem BlockExpansion.exactBytes_eq (expansion : BlockExpansion) :
    expansion.exactBytes = expansion.events.flatMap (·.raw) := by
  rw [exactBytes, List.flatMap_eq_foldl]

namespace BlockIndex

def blockForEvent (index : BlockIndex) (eventId : EventId) :
    Except (Fault BlockLookupError) EventBlock :=
  match index.eventBlockPositions[eventId]? with
  | none => .error (.err (.unknownEvent eventId))
  | some position =>
      match index.blocks[position]? with
      | none => .error .panicked
      | some block => .ok block

/-- The members of a block, as `expand_block` looks them up; `none` is an
index out of bounds. -/
def expansion (index : BlockIndex) (block : EventBlock) : Option (List Event) :=
  block.memberPositions.mapM (index.ledger.events[·]?)

def expandEvent (index : BlockIndex) (eventId : EventId) :
    Except (Fault BlockLookupError) BlockExpansion :=
  match index.blockForEvent eventId with
  | .error fault => .error fault
  | .ok block =>
      match index.expansion block with
      | none => .error .panicked
      | some events => .ok ⟨block, events⟩

/-- The event map names the position of a block with the event, and of no other. -/
def Locates (index : BlockIndex) : Prop :=
  ∀ (id : EventId) (position : Nat), index.eventBlockPositions[id]? = some position ↔
    ∃ block, index.blocks[position]? = some block ∧ id ∈ block.memberIds

/-- One more block, with events that no block has yet. -/
theorem Locates.push {index : BlockIndex} (h : index.Locates) {block : EventBlock}
    {blockPositions : ExtTreeMap BlockId Nat}
    (hfresh : ∀ other ∈ index.blocks, ∀ id ∈ block.memberIds, id ∉ other.memberIds) :
    Locates { index with
      blocks := index.blocks ++ [block]
      blockPositions := blockPositions
      eventBlockPositions := block.memberIds.foldl
        (fun positions id => positions.insert id index.blocks.length)
        index.eventBlockPositions } :=
  Locate.Locates.push h hfresh

theorem pushBlocks_locates : ∀ {candidates : List CandidateBlock} {index result : BlockIndex},
    pushBlocks index candidates = .ok result → index.Locates →
    (index.blocks.flatMap (·.memberIds) ++ candidates.flatMap (·.memberIds)).Nodup →
      result.Locates
  | [], index, result, h, hlocates, _ => by
      cases h
      exact hlocates
  | c :: rest, index, result, h, hlocates, hnodup => by
      simp only [pushBlocks] at h
      split at h
      · cases h
      rename_i ordinal hordinal
      refine pushBlocks_locates h (hlocates.push fun other hother id hid hin => ?_) ?_
      · rw [List.flatMap_cons, List.nodup_append] at hnodup
        exact hnodup.2.2 id (List.mem_flatMap.mpr ⟨other, hother, hin⟩) id
          (List.mem_append_left _ hid) rfl
      · rw [List.flatMap_append, List.flatMap_singleton, List.append_assoc]
        exact hnodup

theorem Locates.blockForEvent_eq_ok {index : BlockIndex} (h : index.Locates) {id : EventId}
    {block : EventBlock} (hblock : block ∈ index.blocks) (hid : id ∈ block.memberIds) :
    index.blockForEvent id = .ok block ∧
      ∀ other ∈ index.blocks, id ∈ other.memberIds → other = block := by
  obtain ⟨⟨position, hindex, hposition⟩, hunique⟩ := Locate.Locates.getElem?_eq h hblock hid
  exact ⟨by simp only [blockForEvent, hindex, hposition], hunique⟩

section Result

variable [Sha256]

/-- Reconciliation accepts the partitions of a ledger into runs of its lanes. The
index is the same for every order of the proposals; its blocks stand in the order
of their first members; the block of an event is the one that has it, and its
expansion holds the bytes of its members in lane order. -/
theorem reconcile_ok_iff_partition (ledger : EventLedger) (h : ledger.Obtained)
    (assignments : List BlockAssignment) (hcollision : NoCollision ledger assignments) :
    ((∃ index, reconcile ledger assignments = .ok index) ↔ IsPartition ledger assignments) ∧
    ∀ index, reconcile ledger assignments = .ok index →
      (∀ assignments' : List BlockAssignment, assignments'.Perm assignments →
        reconcile ledger assignments' = .ok index) ∧
      (index.blocks.map (·.memberIds)).Perm (assignments.map (·.memberIds)) ∧
      index.blocks.Pairwise
        (fun a b => a.memberPositions.headD 0 < b.memberPositions.headD 0) ∧
      ∀ event ∈ ledger.events, ∃ block ∈ index.blocks, ∃ members : List Event,
        index.blockForEvent event.id = .ok block ∧
        (∀ other ∈ index.blocks, event.id ∈ other.memberIds ↔ other = block) ∧
        index.expandEvent event.id = .ok ⟨block, members⟩ ∧
        block.memberIds = members.map (·.id) ∧
        block.memberPositions = members.map ledger.pos ∧
        (∀ member ∈ members, member ∈ ledger.laneEvents block.lane) ∧
        members.IsChain Follows ∧
        BlockExpansion.exactBytes ⟨block, members⟩ = members.flatMap (·.raw) := by
  have hindexed := h.indexed
  have hlaned := h.laned
  refine ⟨⟨fun ⟨index, hok⟩ => (reconcile_eq_ok_cases hindexed hok).1,
    fun hpartition => hpartition.reconcile_ok hindexed hlaned hcollision⟩, fun index hok => ?_⟩
  obtain ⟨hpartition, hpush⟩ := reconcile_eq_ok_cases hindexed hok
  obtain ⟨hledger, hblocks⟩ := reconcile_candidates hindexed hok
  have hperm : (index.blocks.map toCandidate).Perm
      (assignments.map fun a => candidate ledger a (placed ledger a)) := by
    rw [hblocks]
    exact List.perm_insertionSort _ _
  have hids : (index.blocks.map (·.memberIds)).Perm (assignments.map (·.memberIds)) := by
    have hmap := hperm.map (·.memberIds)
    rwa [List.map_map, List.map_map] at hmap
  refine ⟨fun assignments' hperm' => ?_, hids, ?_, fun event hevent => ?_⟩
  · have hcollision' : NoCollision ledger assignments' := fun a ha b hb =>
      hcollision a (hperm'.mem_iff.mp ha) b (hperm'.mem_iff.mp hb)
    obtain ⟨other, hother⟩ :=
      (hpartition.of_perm hperm').reconcile_ok hindexed hlaned hcollision'
    have hpush' := (reconcile_eq_ok_cases hindexed hother).2
    rw [candidates_eq_of_perm hpartition hindexed hperm', hpush] at hpush'
    cases hpush'
    exact hother
  · have hordered : (index.blocks.map toCandidate).Pairwise
        fun a b => a.memberPositions.headD 0 < b.memberPositions.headD 0 := by
      rw [hblocks]
      refine Sorting.pairwise_lt_insertionSort
        (fun c : CandidateBlock => c.memberPositions.headD 0) ?_
      rw [List.map_map]
      exact hpartition.nodup_heads hindexed
    rwa [List.pairwise_map] at hordered
  · have hlocates : index.Locates := by
      refine pushBlocks_locates hpush (fun id position => by simp) ?_
      have hflat : ((candidates ledger assignments).flatMap (·.memberIds)).Perm
          (assignments.flatMap (·.memberIds)) := by
        have hsorted := (List.perm_insertionSort (fun a b : CandidateBlock =>
          a.memberPositions.headD 0 ≤ b.memberPositions.headD 0)
          (assignments.map fun a => candidate ledger a (placed ledger a))).flatMap_right
            (·.memberIds)
        rwa [List.flatMap_map] at hsorted
      rw [List.flatMap_nil, List.nil_append, hflat.nodup_iff]
      exact hpartition.nodup_ids
    have hin : event.id ∈ assignments.flatMap (·.memberIds) := by
      rw [← List.count_pos_iff, hpartition.once event hevent]
      exact Nat.one_pos
    obtain ⟨a, ha, hmember⟩ := List.mem_flatMap.mp hin
    have hcandidate : candidate ledger a (placed ledger a) ∈ index.blocks.map toCandidate :=
      hperm.mem_iff.mpr (List.mem_map_of_mem ha)
    obtain ⟨block, hblock, heq⟩ := List.mem_map.mp hcandidate
    have hlane : block.lane = a.lane := congrArg CandidateBlock.lane heq
    have hmembers : block.memberIds = a.memberIds := congrArg CandidateBlock.memberIds heq
    have hpositions : block.memberPositions = placed ledger a :=
      congrArg CandidateBlock.memberPositions heq
    obtain ⟨members, hproposes⟩ := (hpartition.runs a ha).proposes hindexed hlaned
    have hid : event.id ∈ block.memberIds := hmembers ▸ hmember
    obtain ⟨hfound, hunique⟩ := hlocates.blockForEvent_eq_ok hblock hid
    have hexpansion : index.expansion block = some members := by
      rw [expansion, hpositions, hproposes.placed_eq, hledger]
      exact mapM_lookup hindexed hproposes.mem
    refine ⟨block, hblock, members, hfound, fun other hother => ⟨hunique other hother, ?_⟩, ?_,
      hmembers.trans hproposes.memberIds_eq, hpositions.trans hproposes.placed_eq,
      fun member hin => ?_, hproposes.chained, BlockExpansion.exactBytes_eq _⟩
    · rintro rfl
      exact hid
    · simp only [expandEvent, hfound, hexpansion]
    · rw [hlane]
      exact List.mem_filter.mpr
        ⟨hproposes.mem member hin, decide_eq_true (hproposes.lane member hin)⟩

end Result

/-! ## Two lanes, and one block for each or for each event -/

instance {ledger : EventLedger} {a : BlockAssignment} : Decidable (IsRun ledger a) :=
  decidable_of_iff (a.members ≠ [] ∧
      (∀ member ∈ a.members, ∃ event ∈ ledger.events, event.id = member.1 ∧
        event.lane = a.lane ∧ event.laneSequence = member.2) ∧
      a.members.IsChain fun prior next => prior.2.get + 1 = next.2.get)
    ⟨fun h => ⟨h.1, h.2.1, h.2.2⟩, fun h => ⟨h.nonempty, h.members, h.consecutive⟩⟩

instance {ledger : EventLedger} {assignments : List BlockAssignment} :
    Decidable (IsPartition ledger assignments) :=
  decidable_of_iff ((∀ a ∈ assignments, IsRun ledger a) ∧
      ∀ event ∈ ledger.events, (assignments.flatMap (·.memberIds)).count event.id = 1)
    ⟨fun h => ⟨h.1, h.2⟩, fun h => ⟨h.runs, h.once⟩⟩

def replayFraming : FramingPolicy := ⟨.singleton 120, .singleton 49⟩

/-- Every event in a block of its own. -/
def singleBlocks (ledger : EventLedger) : List BlockAssignment :=
  ledger.events.map fun event =>
    .newSameLaneV1 event.lane [(event.id, event.laneSequence)] replayFraming .reconstructed .high

/-- The ledger of a replay, with a block for every event. -/
def replayIndex [Sha256] (es : List RawEnvelopeV1) (bytes : Nat) :
    Option (EventLedger × BlockIndex) := do
  let ledger ← replayLedger es bytes
  let index ← (reconcile ledger (singleBlocks ledger)).toOption
  some (ledger, index)

theorem of_replayIndex [Sha256] {es : List RawEnvelopeV1} {bytes : Nat} {ledger : EventLedger}
    {index : BlockIndex} (h : replayIndex es bytes = some (ledger, index)) :
    ledger.Obtained ∧ reconcile ledger (singleBlocks ledger) = .ok index := by
  simp only [replayIndex, Option.bind_eq_bind, Option.bind_eq_some_iff, Option.some.injEq,
    Prod.mk.injEq] at h
  obtain ⟨_, hledger, _, hindex, rfl, rfl⟩ := h
  exact ⟨obtained_of_replayLedger hledger, toOption_eq_some.mp hindex⟩

/-- Every lane whole, the one of the second event first. -/
def wholeLanes (ledger : EventLedger) : List BlockAssignment :=
  [SourceStream.stdout, .stderr].map fun stream =>
    .newSameLaneV1 ⟨replayLane.member, stream⟩
      ((ledger.laneEvents ⟨replayLane.member, stream⟩).map fun event =>
        (event.id, event.laneSequence)) replayFraming .reconstructed .high

/-- Both orders of the lanes make one index; a lane alone makes none. -/
theorem reconcile_ok_iff_partition_two_blocks :
    letI := fips180
    ∃ ledger index, ledger.Obtained ∧ reconcile ledger (wholeLanes ledger) = .ok index ∧
      reconcile ledger (wholeLanes ledger).reverse = .ok index ∧
      index.blocks.map (·.memberPositions) = [[0, 2], [1]] ∧
      ¬ ∃ index, reconcile ledger ((wholeLanes ledger).take 1) = .ok index := by
  rw [fips180_eq]
  let := fips180Evaluated
  have hrun : (replayLedger twoStreams 4).map (fun ledger => decide (
      (∀ a ∈ wholeLanes ledger, ∀ b ∈ wholeLanes ledger,
        assignmentId ledger a = assignmentId ledger b → a.memberIds = b.memberIds) ∧
      IsPartition ledger (wholeLanes ledger) ∧
      ¬ IsPartition ledger ((wholeLanes ledger).take 1) ∧
      (reconcile ledger (wholeLanes ledger)).toOption.map (·.blocks.map (·.memberPositions)) =
        some [[0, 2], [1]])) = some true := by
    decide +kernel
  obtain ⟨ledger, hledger, hdecided⟩ := Option.map_eq_some_iff.mp hrun
  obtain ⟨hcollision, hpartition, hpart, hshape⟩ := of_decide_eq_true hdecided
  have hobtained := obtained_of_replayLedger hledger
  have hfirst := reconcile_ok_iff_partition ledger hobtained ((wholeLanes ledger).take 1)
    fun a ha b hb => hcollision a (List.mem_of_mem_take ha) b (List.mem_of_mem_take hb)
  obtain ⟨hiff, hresult⟩ := reconcile_ok_iff_partition ledger hobtained _ hcollision
  obtain ⟨index, hok⟩ := hiff.mpr hpartition
  rw [hok] at hshape
  exact ⟨ledger, index, hobtained, hok, (hresult index hok).1 _ (List.reverse_perm _),
    Option.some.inj hshape, fun h => hpart (hfirst.1.mp h)⟩

end BlockIndex

end Evidentrail
