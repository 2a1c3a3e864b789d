import Evidentrail.Core.Reconciled

/-!
# Blocks by their id

What a reader of an index relies on, whatever proposals it was made from
(`Reconciled`): the ids of its blocks differ and are found, and the members of the
blocks are the events of the ledger, each once.
-/

namespace Evidentrail

open Rust Std

namespace BlockIndex

/-! ## Lookups -/

def block (index : BlockIndex) (blockId : BlockId) : Except (Fault BlockLookupError) EventBlock :=
  match index.blockPositions[blockId]? with
  | none => .error (.err (.unknownBlock blockId))
  | some position =>
      match index.blocks[position]? with
      | none => .error .panicked
      | some block => .ok block

def expandBlock (index : BlockIndex) (blockId : BlockId) :
    Except (Fault BlockLookupError) BlockExpansion :=
  match index.block blockId with
  | .error fault => .error fault
  | .ok block =>
      match index.expansion block with
      | none => .error .panicked
      | some events => .ok ⟨block, events⟩

/-- The events at the positions of a block. -/
def members (index : BlockIndex) (block : EventBlock) : List Event :=
  (index.expansion block).getD []

/-- What reconciliation leaves, for every reader. -/
structure Reconciled (index : BlockIndex) : Prop where
  expands : ∀ block ∈ index.blocks,
    index.expandBlock block.id = .ok ⟨block, index.members block⟩
  ids_nodup : (index.blocks.map (·.id)).Nodup
  memberIds : ∀ block ∈ index.blocks, block.memberIds = (index.members block).map (·.id)
  memberPositions : ∀ block ∈ index.blocks,
    block.memberPositions = (index.members block).map index.ledger.pos
  nonempty : ∀ block ∈ index.blocks, index.members block ≠ []
  lane : ∀ block ∈ index.blocks, ∀ event ∈ index.members block, event.lane = block.lane
  chained : ∀ block ∈ index.blocks, (index.members block).IsChain Follows
  covers : (index.blocks.flatMap index.members).Perm index.ledger.events
  ordered : index.blocks.Pairwise fun a b =>
    a.memberPositions.headD 0 < b.memberPositions.headD 0

/-! ## Ids -/

section Ids

variable [Sha256]

/-- The identity check lets no id through twice. -/
theorem reconcileAssignments_ids {ledger : EventLedger} {assignments : List BlockAssignment} :
    ∀ {assignmentIndex : Nat} {owners owners' : Owners}
      {seenIds : ExtTreeMap BlockId SeenBlockIdentity} {candidates : List CandidateBlock},
      reconcileAssignments ledger assignmentIndex owners seenIds assignments =
          .ok (candidates, owners') →
        (candidates.map (·.id)).Nodup ∧ ∀ candidate ∈ candidates, candidate.id ∉ seenIds := by
  induction assignments with
  | nil =>
      intro assignmentIndex owners owners' seenIds candidates h
      cases h
      simp
  | cons a rest ih =>
      intro assignmentIndex owners owners' seenIds candidates h
      simp only [reconcileAssignments] at h
      split at h
      · cases h
      split at h
      · cases h
      rename_i positions hplaced
      split at h
      · cases h
      rename_i hidentity
      split at h
      · cases h
      split at h
      · cases h
      rename_i later owners'' hlater
      cases h
      obtain ⟨hnodup, hfresh⟩ := ih hlater
      have hnew : assignmentId ledger a ∉ seenIds := by
        intro hin
        obtain ⟨seen, hseen⟩ :=
          Option.isSome_iff_exists.mp (ExtTreeMap.isSome_getElem?_iff_mem.mpr hin)
        simp only [checkIdentity, hseen] at hidentity
        split at hidentity <;> cases hidentity
      refine ⟨List.nodup_cons.mpr ⟨fun hin => ?_, hnodup⟩, List.forall_mem_cons.mpr ⟨hnew, ?_⟩⟩
      · obtain ⟨candidate, hcandidate, hid⟩ := List.mem_map.mp hin
        exact hfresh candidate hcandidate (mem_insert.mpr (.inl hid.symm))
      · exact fun candidate hcandidate hin =>
          hfresh candidate hcandidate (mem_insert.mpr (.inr hin))

theorem reconcile_ids_nodup {ledger : EventLedger} (hindexed : ledger.Indexed)
    {assignments : List BlockAssignment} {index : BlockIndex}
    (h : reconcile ledger assignments = .ok index) :
    ((candidates ledger assignments).map (·.id)).Nodup := by
  unfold reconcile at h
  split at h
  · cases h
  rename_i found owners hfound
  obtain ⟨rfl, _⟩ := reconcileAssignments_eq_ok_cases hindexed hfound
  have hnodup := (reconcileAssignments_ids hfound).1
  exact ((List.perm_insertionSort _ _).map _).nodup_iff.mpr hnodup

end Ids

theorem pushBlocks_locatesIds : ∀ {candidates : List CandidateBlock} {index result : BlockIndex},
    pushBlocks index candidates = .ok result →
    Locate.Locates (fun block : EventBlock => [block.id]) index.blockPositions index.blocks →
    (index.blocks.map (·.id) ++ candidates.map (·.id)).Nodup →
      Locate.Locates (fun block : EventBlock => [block.id]) result.blockPositions result.blocks
  | [], index, result, h, hlocates, _ => by
      cases h
      exact hlocates
  | c :: rest, index, result, h, hlocates, hnodup => by
      simp only [pushBlocks] at h
      split at h
      · cases h
      rename_i ordinal hordinal
      refine pushBlocks_locatesIds h (hlocates.push (a := ⟨c.id, ordinal, c.lane, c.memberIds,
        c.memberLaneSequences, c.memberPositions, c.framingPolicy, c.state, c.confidence⟩)
        fun other hother id hid hin => ?_) ?_
      · rw [List.map_cons, List.nodup_append] at hnodup
        rw [List.mem_singleton] at hid hin
        exact hnodup.2.2 other.id (List.mem_map_of_mem hother) c.id (List.mem_cons_self ..)
          (hin.symm.trans hid)
      · rw [List.map_append, List.append_assoc]
        exact hnodup

section Accepted

variable [Sha256] {ledger : EventLedger} {assignments : List BlockAssignment} {index : BlockIndex}

/-- The proposal of a block, and its members. -/
theorem exists_proposes (h : ledger.Obtained) (hok : reconcile ledger assignments = .ok index)
    {block : EventBlock} (hblock : block ∈ index.blocks) :
    ∃ a ∈ assignments, block.lane = a.lane ∧ block.memberIds = a.memberIds ∧
      index.expansion block = some (index.members block) ∧
      block.memberPositions = (index.members block).map ledger.pos ∧
      Proposes ledger a (index.members block) := by
  have hindexed := h.indexed
  obtain ⟨hpartition, _⟩ := reconcile_eq_ok_cases hindexed hok
  obtain ⟨hledger, hblocks⟩ := reconcile_candidates hindexed hok
  have hin : toCandidate block ∈ candidates ledger assignments :=
    hblocks ▸ List.mem_map_of_mem hblock
  obtain ⟨a, ha, heq⟩ := List.mem_map.mp ((List.perm_insertionSort _ _).mem_iff.mp hin)
  obtain ⟨events, hproposes⟩ := (hpartition.runs a ha).proposes hindexed h.laned
  have hpositions : block.memberPositions = events.map ledger.pos := by
    rw [← hproposes.placed_eq]
    exact (congrArg CandidateBlock.memberPositions heq).symm
  have hexpansion : index.expansion block = some events := by
    rw [expansion, hpositions, hledger]
    exact mapM_lookup hindexed hproposes.mem
  have hmembers : index.members block = events := by
    rw [members, hexpansion, Option.getD_some]
  rw [hmembers]
  exact ⟨a, ha, (congrArg CandidateBlock.lane heq).symm,
    (congrArg CandidateBlock.memberIds heq).symm, hexpansion, hpositions, hproposes⟩

theorem block_eq_ok (h : ledger.Obtained) (hok : reconcile ledger assignments = .ok index)
    {block : EventBlock} (hblock : block ∈ index.blocks) : index.block block.id = .ok block := by
  have hindexed := h.indexed
  obtain ⟨_, hpush⟩ := reconcile_eq_ok_cases hindexed hok
  have hlocates := pushBlocks_locatesIds hpush Locate.locates_nil
    (by simpa using reconcile_ids_nodup hindexed hok)
  obtain ⟨⟨position, hposition, hget⟩, _⟩ :=
    hlocates.getElem?_eq hblock (List.mem_singleton.mpr rfl)
  simp only [BlockIndex.block, hposition, hget]

theorem Reconciled.of_reconcile (h : ledger.Obtained)
    (hok : reconcile ledger assignments = .ok index) :
    index.Reconciled ∧ index.ledger = ledger := by
  have hindexed := h.indexed
  obtain ⟨hpartition, _⟩ := reconcile_eq_ok_cases hindexed hok
  obtain ⟨hledger, hblocks⟩ := reconcile_candidates hindexed hok
  have hperm : (index.blocks.map toCandidate).Perm
      (assignments.map fun a => candidate ledger a (placed ledger a)) :=
    hblocks ▸ List.perm_insertionSort _ _
  have hids : (index.blocks.flatMap index.members).map (·.id) =
      index.blocks.flatMap (·.memberIds) := by
    rw [List.map_flatMap]
    refine List.flatMap_congr fun block hblock => ?_
    obtain ⟨a, _, _, hmemberIds, _, _, hproposes⟩ := exists_proposes h hok hblock
    rw [hmemberIds, hproposes.memberIds_eq]
  have hflat : (index.blocks.flatMap (·.memberIds)).Perm (assignments.flatMap (·.memberIds)) := by
    have hmap := hperm.flatMap_right (·.memberIds)
    rwa [List.flatMap_map, List.flatMap_map] at hmap
  have hnodup : ((index.blocks.flatMap index.members).map (·.id)).Nodup := by
    rw [hids, hflat.nodup_iff]
    exact hpartition.nodup_ids
  have hmem : ∀ event ∈ index.blocks.flatMap index.members, event ∈ ledger.events := by
    intro event hevent
    obtain ⟨block, hblock, hin⟩ := List.mem_flatMap.mp hevent
    obtain ⟨_, _, _, _, _, _, hproposes⟩ := exists_proposes h hok hblock
    exact hproposes.mem event hin
  constructor
  · constructor
    · intro block hblock
      obtain ⟨_, _, _, _, hexpansion, _⟩ := exists_proposes h hok hblock
      simp only [expandBlock, block_eq_ok h hok hblock, hexpansion]
    · have hsame := reconcile_ids_nodup hindexed hok
      rw [← hblocks, List.map_map] at hsame
      exact hsame
    · intro block hblock
      obtain ⟨_, _, _, hmemberIds, _, _, hproposes⟩ := exists_proposes h hok hblock
      rw [hmemberIds, hproposes.memberIds_eq]
    · intro block hblock
      obtain ⟨_, _, _, _, _, hpositions, _⟩ := exists_proposes h hok hblock
      rw [hledger, hpositions]
    · intro block hblock
      obtain ⟨_, _, _, _, _, _, hproposes⟩ := exists_proposes h hok hblock
      exact hproposes.nonempty
    · intro block hblock event hevent
      obtain ⟨_, _, hlane, _, _, _, hproposes⟩ := exists_proposes h hok hblock
      rw [hlane, hproposes.lane event hevent]
    · intro block hblock
      obtain ⟨_, _, _, _, _, _, hproposes⟩ := exists_proposes h hok hblock
      exact hproposes.chained
    · rw [hledger, List.perm_ext_iff_of_nodup hnodup.of_map hindexed.ids_nodup.of_map]
      refine fun event => ⟨hmem event, fun hevent => ?_⟩
      have hin : event.id ∈ (index.blocks.flatMap index.members).map (·.id) := by
        rw [hids, hflat.mem_iff, ← List.count_pos_iff, hpartition.once event hevent]
        exact Nat.one_pos
      obtain ⟨other, hother, hsame⟩ := List.mem_map.mp hin
      exact List.inj_on_of_nodup_map hindexed.ids_nodup (hmem other hother) hevent hsame ▸ hother
    · have hordered : (index.blocks.map toCandidate).Pairwise
          fun a b => a.memberPositions.headD 0 < b.memberPositions.headD 0 := by
        rw [hblocks]
        refine Sorting.pairwise_lt_insertionSort
          (fun c : CandidateBlock => c.memberPositions.headD 0) ?_
        rw [List.map_map]
        exact hpartition.nodup_heads hindexed
      rwa [List.pairwise_map] at hordered
  · exact hledger

end Accepted

end BlockIndex

end Evidentrail
