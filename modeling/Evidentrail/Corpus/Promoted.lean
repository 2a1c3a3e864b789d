import Evidentrail.Corpus.Feedback
import Evidentrail.Lib.Search
import Mathlib.Data.List.Dedup

/-!
# Rejected evidence stays out

A record keeps the group it was indexed into, so what a rejection removes from a version
is all the version will ever hold of the group. The members of a version are therefore
what was promoted when it was made, less what was rejected since, whatever happens in
between (`Recorded`), and what is promoted are the members of the active version
(`Sound`).
-/

namespace Evidentrail

open Rust

/-! ## Groups of records -/

namespace Tables

variable {t t' : Tables} {nativeId : List UInt8} {groupId : Nat}

/-- Records that are in a group stay in it. -/
def Extends (t t' : Tables) : Prop :=
  ∀ nativeId groupId, t.memberGroup nativeId = some groupId →
    t'.memberGroup nativeId = some groupId

theorem Extends.refl (t : Tables) : t.Extends t := fun _ _ h => h

theorem Extends.trans {t'' : Tables} (h : t.Extends t') (h' : t'.Extends t'') : t.Extends t'' :=
  fun nativeId groupId hgroup => h' nativeId groupId (h nativeId groupId hgroup)

theorem extends_of_append {new : List GroupMember} (h : t'.groupMembers = t.groupMembers ++ new) :
    t.Extends t' := by
  intro nativeId groupId hgroup
  obtain ⟨member, hfind, hmember⟩ := Option.map_eq_some_iff.mp hgroup
  unfold Table.find at hfind
  rw [memberGroup, Table.find, h, List.find?_append, hfind, Option.some_or, Option.map_some,
    hmember]

theorem memberGroup_eq_some (h : (t.groupMembers.map GroupMember.nativeId).Nodup) :
    t.memberGroup nativeId = some groupId ↔ nativeId ∈ t.idsOfGroup groupId := by
  rw [memberGroup, Option.map_eq_some_iff, idsOfGroup, List.mem_map]
  simp only [List.mem_filter, decide_eq_true_eq]
  constructor
  · rintro ⟨member, hfind, hgroup⟩
    obtain ⟨hmember, hid⟩ := Table.mem_of_find hfind
    exact ⟨member, ⟨hmember, hgroup⟩, hid⟩
  · rintro ⟨member, ⟨hmember, hgroup⟩, hid⟩
    exact ⟨member, (Slice.find?_eq_some_iff h).mpr ⟨hmember, hid⟩, hgroup⟩

theorem memberGroup_of_groupForRecord {group : LogGroup}
    (h : t.groupForRecord nativeId = some group) : t.memberGroup nativeId = some group.groupId := by
  obtain ⟨groupId, hgroup, hfind⟩ := Option.bind_eq_some_iff.mp h
  rw [hgroup, (Table.mem_of_find hfind).2]

variable [Sha256] [LogModel] [Rowids]

theorem extends_commitRecord {record : HistoryRecordV1} (h : commitRecord t record = .ok t') :
    t.Extends t' := by
  rcases commitRecord_ok h with ⟨_, rfl⟩ | ⟨_, indexed, hindex, hedge⟩
  · exact .refl t'
  · obtain ⟨joined, _, _, rfl⟩ := indexNewRecord_ok hindex
    rcases indexNewEdge_ok hedge with ⟨rfl, _⟩ | ⟨edge, serviceEdges, _, _, _, rfl⟩
    · exact extends_of_append rfl
    · exact extends_of_append rfl

theorem extends_commitPage (fault : Option CorpusError) (records : List HistoryRecordV1) :
    t.Extends (commitPageChecked fault t records).2 :=
  commitPage_keeps (P := t.Extends) (fun h hcommit => h.trans (extends_commitRecord hcommit))
    fault records (.refl t)

end Tables

/-! ## What a search cannot refuse -/

theorem exists_feedback_search [Sha256] {task : String} {digest : Digest} (t : Tables)
    (h : feedbackTaskDigest task = .ok digest) :
    ∃ page, t.searchCandidateGroups task 64 = .ok page := by
  unfold feedbackTaskDigest at h
  rw [ite_error_eq_ok, not_or, Nat.not_lt] at h
  have hlength : ¬(64 = 0 ∨ 64 > 256 ∨ (Utf8.asBytes task).length > 8192) := by omega
  rw [Tables.searchCandidateGroups, if_neg hlength]
  split
  · exact ⟨_, rfl⟩
  · exact ⟨_, rfl⟩

/-! ## Rated groups -/

theorem sublist_map_filterMap {α β γ : Type*} {f : α → Option β} {g : β → γ} {k : α → γ}
    (h : ∀ a b, f a = some b → g b = k a) (l : List α) :
    ((l.filterMap f).map g).Sublist (l.map k) := by
  induction l with
  | nil => exact .slnil
  | cons a rest ih =>
      cases hfa : f a with
      | none =>
          rw [List.filterMap_cons_none hfa, List.map_cons]
          exact ih.cons _
      | some b =>
          rw [List.filterMap_cons_some hfa, List.map_cons, List.map_cons, h a b hfa]
          exact ih.cons_cons _

theorem ratedGroup_eq_some {groupId : Nat} {rows : List FeedbackObservation} {group : RatedGroup}
    (h : ratedGroup groupId rows = some group) :
    group.groupId = groupId ∧ (∃ row ∈ rows, row.nativeId = group.nativeId) ∧
      (group.negatives = 0 → ∀ row ∈ rows, row.verdict ≠ .notUseful) := by
  obtain ⟨nativeId, hmin, rfl⟩ := Option.map_eq_some_iff.mp h
  refine ⟨rfl, List.mem_map.mp (List.min?_mem hmin), ?_⟩
  intro hnone row hrow hverdict
  exact List.countP_eq_zero.mp hnone row hrow (decide_eq_true hverdict)

namespace FeedbackStore

/-- A standing rejection. -/
def Rejected (s : FeedbackStore) (taskDigest : Digest) (groupId : Nat) : Prop :=
  ∃ row ∈ s.ratings taskDigest groupId, row.verdict = .notUseful

/-- Native ids that may be promoted together. -/
structure Promotable (s : FeedbackStore) (taskDigest : Digest) (nativeIds : List (List UInt8)) :
    Prop where
  few : nativeIds.length ≤ 16
  apart : (nativeIds.map s.tables.memberGroup).Nodup
  allowed : ∀ nativeId ∈ nativeIds, ∃ groupId, s.tables.memberGroup nativeId = some groupId ∧
    ¬s.Rejected taskDigest groupId

variable {s s' : FeedbackStore} {taskDigest : Digest} {nativeIds : List (List UInt8)}

theorem mem_ratings {row : FeedbackObservation} {groupId : Nat} :
    row ∈ s.ratings taskDigest groupId ↔ row ∈ s.observations ∧ row.taskDigest = taskDigest ∧
      s.tables.memberGroup row.nativeId = some groupId := by
  rw [ratings, List.mem_filter, decide_eq_true_eq]

theorem mem_ratedGroups {group : RatedGroup} (h : group ∈ s.ratedGroups taskDigest) :
    s.tables.memberGroup group.nativeId = some group.groupId ∧
      (group.negatives = 0 → ¬s.Rejected taskDigest group.groupId) := by
  obtain ⟨groupId, _, hgroup⟩ := List.mem_filterMap.mp h
  obtain ⟨rfl, ⟨row, hrow, hid⟩, hnegatives⟩ := ratedGroup_eq_some hgroup
  refine ⟨hid ▸ (mem_ratings.mp hrow).2.2, fun hnone => ?_⟩
  rintro ⟨row, hrow, hverdict⟩
  exact hnegatives hnone row hrow hverdict

theorem nodup_ratedGroups : ((s.ratedGroups taskDigest).map RatedGroup.groupId).Nodup := by
  have hids := List.nodup_dedup ((s.observations.filter fun row => row.taskDigest = taskDigest)
    |>.filterMap fun row => s.tables.memberGroup row.nativeId)
  have hsorted := (List.perm_insertionSort (· ≤ ·) _).nodup_iff.mpr hids
  rw [← List.map_id (List.insertionSort _ _)] at hsorted
  refine hsorted.sublist (sublist_map_filterMap (k := id) ?_ _)
  exact fun groupId group h => (ratedGroup_eq_some h).1

theorem promotable_eligible (baseline : List Nat) :
    s.Promotable taskDigest ((((s.ratedGroups taskDigest).filter
      (RatedGroup.isEligible baseline)).take 16).map RatedGroup.nativeId) := by
  have hsublist := ((List.take_sublist 16 _).trans
    (List.filter_sublist (p := RatedGroup.isEligible baseline) (l := s.ratedGroups taskDigest)))
  refine ⟨?_, ?_, ?_⟩
  · rw [List.length_map]
    exact List.length_take_le ..
  · have hgroups : ∀ group ∈ ((s.ratedGroups taskDigest).filter
        (RatedGroup.isEligible baseline)).take 16,
        (s.tables.memberGroup ∘ RatedGroup.nativeId) group = (some ∘ RatedGroup.groupId) group :=
      fun group hgroup => (mem_ratedGroups (hsublist.subset hgroup)).1
    rw [List.map_map, List.map_congr_left hgroups, ← List.map_map]
    exact (nodup_ratedGroups.sublist (hsublist.map _)).map (Option.some_injective _)
  · intro nativeId hmem
    obtain ⟨group, hgroup, rfl⟩ := List.mem_map.mp hmem
    obtain ⟨hmember, hallowed⟩ := mem_ratedGroups (hsublist.subset hgroup)
    have heligible := (List.mem_filter.mp (List.mem_of_mem_take hgroup)).2
    rw [RatedGroup.isEligible, decide_eq_true_eq] at heligible
    exact ⟨group.groupId, hmember, hallowed heligible.2.1⟩

/-- Promotable ids stay so while no group of theirs is rejected. -/
theorem Promotable.transfer (h : s.Promotable taskDigest nativeIds) {kept : List (List UInt8)}
    (hkept : kept.Sublist nativeIds) (hextends : s.tables.Extends s'.tables)
    (hrejected : ∀ nativeId ∈ kept, ∀ groupId, s.tables.memberGroup nativeId = some groupId →
      s'.Rejected taskDigest groupId → s.Rejected taskDigest groupId) :
    s'.Promotable taskDigest kept := by
  refine ⟨hkept.length_le.trans h.few, ?_, ?_⟩
  · have hgroups : ∀ nativeId ∈ kept,
        s'.tables.memberGroup nativeId = s.tables.memberGroup nativeId := by
      intro nativeId hmem
      obtain ⟨groupId, hgroup, _⟩ := h.allowed nativeId (hkept.subset hmem)
      rw [hgroup, hextends nativeId groupId hgroup]
    rw [List.map_congr_left hgroups]
    exact h.apart.sublist (hkept.map _)
  · intro nativeId hmem
    obtain ⟨groupId, hgroup, hallowed⟩ := h.allowed nativeId (hkept.subset hmem)
    exact ⟨groupId, hextends nativeId groupId hgroup,
      fun hrej => hallowed (hrejected nativeId hmem groupId hgroup hrej)⟩

/-! ## What the calls change -/

/-- The store after a promotion. -/
def promoted (s : FeedbackStore) (taskDigest : Digest) (version : Nat)
    (nativeIds : List (List UInt8)) : FeedbackStore :=
  { s with
    promotions := s.promotions.filter (fun row => row.taskDigest ≠ taskDigest) ++
      nativeIds.map (FeedbackPromotion.mk taskDigest)
    versions := s.versions ++ [⟨taskDigest, version, s.activeVersion taskDigest⟩]
    members := s.members ++ nativeIds.map (FeedbackPolicyMember.mk taskDigest version)
    states := upsertState s.states ⟨taskDigest, version⟩ }

/-- The store after a rollback. -/
def restored (s : FeedbackStore) (taskDigest : Digest) (parent : Nat) : FeedbackStore :=
  { s with
    promotions := s.promotions.filter (fun row => row.taskDigest ≠ taskDigest) ++
      (s.membersOf taskDigest parent).map (FeedbackPromotion.mk taskDigest)
    states := updateState s.states taskDigest parent }

/-! ### Members -/

theorem membersOf_reject (digest : Digest) (groupId version : Nat) :
    (s.reject digest groupId).membersOf taskDigest version =
      if taskDigest = digest then (s.membersOf taskDigest version).filter
        fun nativeId => nativeId ∉ s.tables.idsOfGroup groupId
      else s.membersOf taskDigest version := by
  split
  · rename_i hdigest
    exact Table.map_filter_of_touched fun row hrow => hrow.1.trans hdigest
  · rename_i hdigest
    refine congrArg (List.map FeedbackPolicyMember.nativeId) (Table.filter_of_untouched ?_)
    exact fun row hrow hdeleted => hdigest (hrow.1.symm.trans hdeleted.1)

theorem membersOf_promoted (digest : Digest) (version version' : Nat) :
    (s.promoted digest version nativeIds).membersOf taskDigest version' =
      s.membersOf taskDigest version' ++
        if taskDigest = digest ∧ version' = version then nativeIds else [] := by
  unfold membersOf promoted
  dsimp only
  rw [List.filter_append, List.map_append]
  congr 1
  rw [List.filter_map, List.map_map]
  split
  · rename_i h
    rw [List.filter_eq_self.mpr]
    · exact List.map_id _
    · intro nativeId _
      exact decide_eq_true ⟨h.1.symm, h.2.symm⟩
  · rename_i h
    rw [List.filter_eq_nil_iff.mpr]
    · rfl
    · intro nativeId _ hrow
      obtain ⟨hdigest, hversion⟩ := of_decide_eq_true hrow
      exact h ⟨hdigest.symm, hversion.symm⟩

/-! ### Promotions -/

theorem promotionsOf_reject (digest : Digest) (groupId : Nat) :
    (s.reject digest groupId).promotionsOf taskDigest =
      if taskDigest = digest then (s.promotionsOf taskDigest).filter
        fun nativeId => nativeId ∉ s.tables.idsOfGroup groupId
      else s.promotionsOf taskDigest := by
  split
  · rename_i hdigest
    exact Table.map_filter_of_touched fun row hrow => hrow.trans hdigest
  · rename_i hdigest
    refine congrArg (List.map FeedbackPromotion.nativeId) (Table.filter_of_untouched ?_)
    exact fun row hrow hdeleted => hdigest (hrow.symm.trans hdeleted.1)

/-- The promotions of one task are replaced. -/
theorem map_filter_replaced (rows : List FeedbackPromotion) (digest : Digest) :
    ((rows.filter (fun row => row.taskDigest ≠ digest) ++
        nativeIds.map (FeedbackPromotion.mk digest)).filter
          fun row => row.taskDigest = taskDigest).map FeedbackPromotion.nativeId =
      if taskDigest = digest then nativeIds
      else (rows.filter fun row => row.taskDigest = taskDigest).map
        FeedbackPromotion.nativeId := by
  rw [List.filter_append, List.map_append, List.filter_map, List.map_map]
  split
  · rename_i hdigest
    have hrows : (rows.filter fun row => row.taskDigest ≠ digest).filter
        (fun row => row.taskDigest = taskDigest) = [] := by
      rw [List.filter_eq_nil_iff]
      intro row hrow hsame
      exact of_decide_eq_true (List.mem_filter.mp hrow).2 ((of_decide_eq_true hsame).trans hdigest)
    rw [hrows, List.map_nil, List.nil_append, List.filter_eq_self.mpr]
    · exact List.map_id _
    · intro nativeId _
      exact decide_eq_true hdigest.symm
  · rename_i hdigest
    have hnone : nativeIds.filter ((fun row => decide (row.taskDigest = taskDigest)) ∘
        FeedbackPromotion.mk digest) = [] := by
      rw [List.filter_eq_nil_iff]
      intro nativeId _ hrow
      exact hdigest (of_decide_eq_true hrow).symm
    rw [hnone, List.map_nil, List.append_nil]
    exact congrArg _ (Table.filter_of_untouched fun row hrow hsame =>
      hdigest (hrow.symm.trans hsame))

theorem promotionsOf_promoted (digest : Digest) (version : Nat) :
    (s.promoted digest version nativeIds).promotionsOf taskDigest =
      if taskDigest = digest then nativeIds else s.promotionsOf taskDigest :=
  map_filter_replaced s.promotions digest

theorem promotionsOf_restored (digest : Digest) (parent : Nat) :
    (s.restored digest parent).promotionsOf taskDigest =
      if taskDigest = digest then s.membersOf digest parent else s.promotionsOf taskDigest :=
  map_filter_replaced s.promotions digest

/-! ### Active versions -/

theorem activeVersion_update (digest : Digest) (version : Nat) :
    ({ s with states := updateState s.states digest version }).activeVersion taskDigest =
      if taskDigest = digest then (s.activeVersion taskDigest).map fun _ => version
      else s.activeVersion taskDigest := by
  have hkey : ∀ row : FeedbackPolicyState,
      ({ row with activeVersion := version } : FeedbackPolicyState).taskDigest = row.taskDigest :=
    fun _ => rfl
  unfold activeVersion updateState
  dsimp only
  rw [Table.find_update hkey]
  split
  · rw [Option.map_map, Option.map_map]
    rfl
  · rfl

theorem activeVersion_promoted (digest : Digest) (version : Nat) :
    (s.promoted digest version nativeIds).activeVersion taskDigest =
      if taskDigest = digest then some version else s.activeVersion taskDigest := by
  unfold promoted upsertState
  dsimp only
  split
  · rename_i hsome
    refine (activeVersion_update digest version).trans ?_
    split
    · rename_i hdigest
      obtain ⟨row, hrow⟩ := Option.isSome_iff_exists.mp hsome
      rw [hdigest, activeVersion, hrow]
      rfl
    · rfl
  · rename_i hnone
    unfold activeVersion
    dsimp only
    rw [Table.find_append_row (Option.not_isSome_iff_eq_none.mp hnone)]
    split
    · rfl
    · rfl

theorem activeVersion_restored (digest : Digest) (parent : Nat)
    (hactive : (s.activeVersion digest).isSome) :
    (s.restored digest parent).activeVersion taskDigest =
      if taskDigest = digest then some parent else s.activeVersion taskDigest := by
  refine (activeVersion_update digest parent).trans ?_
  split
  · rename_i hdigest
    obtain ⟨active, hactive⟩ := Option.isSome_iff_exists.mp hactive
    rw [hdigest, hactive, Option.map_some]
  · rfl

/-! ### Ratings -/

theorem mem_upsertObservation {rows : List FeedbackObservation} {row other : FeedbackObservation}
    (h : other ∈ upsertObservation rows row) :
    other ∈ rows ∨ (other.taskDigest = row.taskDigest ∧ other.nativeId = row.nativeId ∧
      other.verdict = row.verdict) := by
  unfold upsertObservation at h
  split at h
  · rcases Table.mem_update.mp h with ⟨hold, _⟩ | ⟨old, _, hkey, rfl⟩
    · exact .inl hold
    · exact .inr ⟨congrArg Prod.fst hkey, congrArg (fun key => key.2.1) hkey, rfl⟩
  · rcases List.mem_append.mp h with hold | hnew
    · exact .inl hold
    · rw [List.mem_singleton.mp hnew]
      exact .inr ⟨rfl, rfl, rfl⟩

theorem Rejected.of_observe {row : FeedbackObservation} {groupId : Nat}
    (h : (s.observe row).Rejected taskDigest groupId) :
    s.Rejected taskDigest groupId ∨ (taskDigest = row.taskDigest ∧ row.verdict = .notUseful ∧
      s.tables.memberGroup row.nativeId = some groupId) := by
  obtain ⟨other, hother, hverdict⟩ := h
  obtain ⟨hmem, hdigest, hgroup⟩ := mem_ratings.mp hother
  rcases mem_upsertObservation hmem with hold | ⟨htask, hid, hsame⟩
  · exact .inl ⟨other, mem_ratings.mpr ⟨hold, hdigest, hgroup⟩, hverdict⟩
  · exact .inr ⟨hdigest.symm.trans htask, hsame.symm.trans hverdict, hid ▸ hgroup⟩

theorem insertVersion_eq_ok {row : FeedbackPolicyVersion} :
    s.insertVersion row = .ok s' ↔ row.key ∉ s.versions.map FeedbackPolicyVersion.key ∧
      { s with versions := s.versions ++ [row] } = s' := by
  rw [insertVersion, ite_error_eq_ok, Except.ok.injEq, Option.not_isSome_iff_eq_none,
    Table.find_eq_none, List.mem_map, not_exists]
  simp only [not_and]

section Calls

variable [Sha256]

theorem rollback_eq_ok {task : String} (h : s.rollback task = .ok s') :
    ∃ digest active parent, feedbackTaskDigest task = .ok digest ∧
      s.activeVersion digest = some active ∧ ⟨digest, active, some parent⟩ ∈ s.versions ∧
      s' = s.restored digest parent := by
  simp only [rollback, except_bind_eq_ok, okOr_eq_ok, Except.ok.injEq] at h
  obtain ⟨digest, hdigest, active, hactive, row, hrow, parent, hparent, promotions, hinsert, rfl⟩ :=
    h
  obtain ⟨hmem, hkey⟩ := Table.mem_of_find hrow
  obtain ⟨rfl, rfl⟩ := Prod.mk.inj hkey
  refine ⟨row.taskDigest, row.version, parent, hdigest, hactive, ?_, ?_⟩
  · rw [← hparent]
    exact hmem
  · rw [Table.eq_append_of_insertAll hinsert]
    rfl

theorem evaluateFeedback_of_digest {task : String} {digest : Digest}
    (h : feedbackTaskDigest task = .ok digest) :
    ∃ evaluation, s.evaluateFeedback task = .ok evaluation := by
  obtain ⟨page, hpage⟩ := exists_feedback_search s.tables h
  rw [evaluateFeedback, h]
  exact ⟨_, by rw [except_bind_ok, hpage]; rfl⟩

variable [LogModel]

/-! ## Invariant -/

/-- What holds between calls: promoted are the members of the active version, and all
members may be promoted still. -/
structure Sound (s : FeedbackStore) : Prop where
  consistent : s.tables.Consistent
  observed : ∀ row ∈ s.observations, (s.tables.memberGroup row.nativeId).isSome
  active : ∀ taskDigest, s.promotionsOf taskDigest =
    ((s.activeVersion taskDigest).map (s.membersOf taskDigest)).getD []
  activeRow : ∀ taskDigest version, s.activeVersion taskDigest = some version →
    (taskDigest, version) ∈ s.versions.map FeedbackPolicyVersion.key
  parents : ∀ row ∈ s.versions, ∀ parent, row.parentVersion = some parent →
    (row.taskDigest, parent) ∈ s.versions.map FeedbackPolicyVersion.key
  memberRows : ∀ row ∈ s.members,
    (row.taskDigest, row.version) ∈ s.versions.map FeedbackPolicyVersion.key
  promotable : ∀ taskDigest version, s.Promotable taskDigest (s.membersOf taskDigest version)


/-- The group that a call rejects for a task. -/
def rejection (s : FeedbackStore) (taskDigest : Digest) : FeedbackCall → Option Nat
  | .recordFeedback task nativeId _ .notUseful =>
      if feedbackTaskDigest task = .ok taskDigest then
        (s.tables.groupForRecord nativeId).map LogGroup.groupId
      else none
  | _ => none

/-- What a call does to a store. -/
inductive Change (s : FeedbackStore) : FeedbackCall → FeedbackStore → Prop where
  | refused {call : FeedbackCall} (hquiet : ∀ taskDigest, s.rejection taskDigest call = none) :
      Change s call s
  | commitPage {fault : Option CorpusError} {records : List HistoryRecordV1} {t : Tables}
      (hextends : s.tables.Extends t) (hconsistent : t.Consistent) :
      Change s (.commitPage fault records) { s with tables := t }
  | useful {task : String} {nativeId : List UInt8} {resultNonce digest : Digest} {groupId : Nat}
      (hgroup : s.tables.memberGroup nativeId = some groupId) :
      Change s (.recordFeedback task nativeId resultNonce .useful)
        (s.observe ⟨digest, nativeId, resultNonce, .useful⟩)
  | notUseful {task : String} {nativeId : List UInt8} {resultNonce digest : Digest}
      {group : LogGroup} (hdigest : feedbackTaskDigest task = .ok digest)
      (hgroup : s.tables.groupForRecord nativeId = some group) :
      Change s (.recordFeedback task nativeId resultNonce .notUseful)
        ((s.observe ⟨digest, nativeId, resultNonce, .notUseful⟩).reject digest group.groupId)
  | promoteFeedback {task : String} {digest : Digest} {version : Nat}
      {nativeIds : List (List UInt8)} (hdigest : feedbackTaskDigest task = .ok digest)
      (hnew : (digest, version) ∉ s.versions.map FeedbackPolicyVersion.key)
      (hids : s.Promotable digest nativeIds) :
      Change s (.promoteFeedback task) (s.promoted digest version nativeIds)
  | rollbackFeedback {task : String} {digest : Digest} {active parent : Nat}
      (hdigest : feedbackTaskDigest task = .ok digest)
      (hactive : s.activeVersion digest = some active)
      (hparent : ⟨digest, active, some parent⟩ ∈ s.versions) :
      Change s (.rollbackFeedback task) (s.restored digest parent)

/-! ### Calls are changes -/

/-- There are no promotions without a version. -/
theorem Sound.adoptLegacy (h : s.Sound) (digest : Digest) :
    s.adoptLegacy digest = .ok (s, s.activeVersion digest) := by
  unfold FeedbackStore.adoptLegacy
  rw [if_neg]
  rintro ⟨hnone, hsome⟩
  rw [h.active, Option.isNone_iff_eq_none.mp hnone] at hsome
  exact hsome rfl

theorem promotion_eq_ok {task : String} (hsound : s.Sound) (h : s.promotion task = .ok s') :
    ∃ digest version nativeIds, feedbackTaskDigest task = .ok digest ∧
      (digest, version) ∉ s.versions.map FeedbackPolicyVersion.key ∧
      s.Promotable digest nativeIds ∧ s' = s.promoted digest version nativeIds := by
  simp only [promotion, except_bind_eq_ok, hsound.adoptLegacy, insertMembers, okOr_eq_ok,
    Except.ok.injEq, insertVersion_eq_ok] at h
  obtain ⟨digest, hdigest, page, _, _, rfl, version, _, _, ⟨hnew, rfl⟩, _, ⟨members, hinsert, rfl⟩,
    rfl⟩ := h
  have hids := @promotable_eligible s digest
    (page.groups.map CorpusGroupCard.groupId)
  refine ⟨digest, version, _, hdigest, hnew, hids, ?_⟩
  have hnodup := (List.Nodup.of_map _ hids.apart).map fun a b hab =>
    congrArg FeedbackPromotion.nativeId (hab : FeedbackPromotion.mk digest a = ⟨digest, b⟩)
  rw [Table.eq_append_of_insertAll hinsert, Table.insertOrIgnoreAll_of_new hnodup ?_]
  · rfl
  · intro row hrow hold
    obtain ⟨nativeId, _, rfl⟩ := List.mem_map.mp hrow
    exact of_decide_eq_true (List.mem_filter.mp hold).2 rfl


/-! ### Calls keep the invariant -/

/-- A page adds records, but none to what is rated or promoted. -/
theorem Sound.commitPage {t : Tables} (h : s.Sound) (hextends : s.tables.Extends t)
    (hconsistent : t.Consistent) : ({ s with tables := t }).Sound := by
  refine ⟨hconsistent, ?_, h.active, h.activeRow, h.parents, h.memberRows, ?_⟩
  · intro row hrow
    obtain ⟨groupId, hgroup⟩ := Option.isSome_iff_exists.mp (h.observed row hrow)
    exact Option.isSome_iff_exists.mpr ⟨groupId, hextends _ _ hgroup⟩
  · intro taskDigest version
    refine (h.promotable taskDigest version).transfer (.refl _) hextends ?_
    rintro nativeId _ groupId _ ⟨row, hrow, hverdict⟩
    obtain ⟨hmem, hdigest, hnow⟩ := mem_ratings.mp hrow
    obtain ⟨before, hbefore⟩ := Option.isSome_iff_exists.mp (h.observed row hmem)
    obtain rfl := Option.some.inj ((hextends _ _ hbefore).symm.trans hnow)
    exact ⟨row, mem_ratings.mpr ⟨hmem, hdigest, hbefore⟩, hverdict⟩

theorem Sound.observed_observe (h : s.Sound) {row : FeedbackObservation} {groupId : Nat}
    (hgroup : s.tables.memberGroup row.nativeId = some groupId) :
    ∀ other ∈ (s.observe row).observations, (s.tables.memberGroup other.nativeId).isSome := by
  intro other hother
  rcases mem_upsertObservation hother with hold | ⟨_, hid, _⟩
  · exact h.observed other hold
  · rw [hid]
    exact Option.isSome_iff_exists.mpr ⟨groupId, hgroup⟩

theorem Sound.observe (h : s.Sound) {row : FeedbackObservation} {groupId : Nat}
    (hgroup : s.tables.memberGroup row.nativeId = some groupId) (huseful : row.verdict = .useful) :
    (s.observe row).Sound := by
  refine ⟨h.consistent, h.observed_observe hgroup, h.active, h.activeRow, h.parents, h.memberRows,
    fun taskDigest version => (h.promotable taskDigest version).transfer (.refl _) (.refl _) ?_⟩
  intro _ _ _ _ hrejected
  refine hrejected.of_observe.resolve_right fun hnew => ?_
  exact FeedbackVerdict.noConfusion (huseful.symm.trans hnew.2.1)

/-- The group of a rejected record is taken from every version. -/
theorem Sound.reject (h : s.Sound) {row : FeedbackObservation} {groupId : Nat}
    (hgroup : s.tables.memberGroup row.nativeId = some groupId) :
    ((s.observe row).reject row.taskDigest groupId).Sound := by
  refine ⟨h.consistent, h.observed_observe hgroup, ?_, h.activeRow, h.parents, ?_, ?_⟩
  · intro taskDigest
    rw [promotionsOf_reject]
    change (if taskDigest = row.taskDigest then (s.promotionsOf taskDigest).filter _
      else s.promotionsOf taskDigest) = ((s.activeVersion taskDigest).map _).getD []
    rw [h.active taskDigest]
    cases s.activeVersion taskDigest with
    | none => simp only [Option.map_none, Option.getD_none, List.filter_nil, ite_self]
    | some version =>
        rw [Option.map_some, Option.map_some, Option.getD_some, Option.getD_some,
          membersOf_reject]
        rfl
  · intro other hother
    exact h.memberRows other (List.mem_of_mem_filter hother)
  · intro taskDigest version
    rw [membersOf_reject]
    split
    · refine (h.promotable taskDigest version).transfer List.filter_sublist (.refl _) ?_
      intro nativeId hkept other hother hrejected
      have hobserved : (s.observe row).Rejected taskDigest other := hrejected
      refine hobserved.of_observe.resolve_right fun hnew => ?_
      obtain rfl := Option.some.inj (hgroup.symm.trans hnew.2.2)
      exact of_decide_eq_true (List.mem_filter.mp hkept).2
        ((Tables.memberGroup_eq_some h.consistent.grouped.once).mp hother)
    · rename_i hdigest
      refine (h.promotable taskDigest version).transfer (.refl _) (.refl _) ?_
      intro _ _ other _ hrejected
      have hobserved : (s.observe row).Rejected taskDigest other := hrejected
      exact hobserved.of_observe.resolve_right fun hnew => hdigest hnew.1

/-- A new version has no members but those it is made with. -/
theorem Sound.promoted (h : s.Sound) {digest : Digest} {version : Nat}
    (hnew : (digest, version) ∉ s.versions.map FeedbackPolicyVersion.key)
    (hids : s.Promotable digest nativeIds) : (s.promoted digest version nativeIds).Sound := by
  have hempty : s.membersOf digest version = [] := by
    rw [membersOf, List.map_eq_nil_iff, List.filter_eq_nil_iff]
    intro row hrow hsame
    obtain ⟨hd, hv⟩ := of_decide_eq_true hsame
    exact hnew (hd ▸ hv ▸ h.memberRows row hrow)
  refine ⟨h.consistent, h.observed, ?_, ?_, ?_, ?_, ?_⟩
  · intro taskDigest
    rw [promotionsOf_promoted, activeVersion_promoted]
    split
    · rename_i hsame
      rw [Option.map_some, Option.getD_some, membersOf_promoted, if_pos ⟨hsame, rfl⟩, hsame,
        hempty, List.nil_append]
    · rename_i hother
      have hmembers : (s.promoted digest version nativeIds).membersOf taskDigest =
          s.membersOf taskDigest := by
        funext version'
        rw [membersOf_promoted, if_neg fun hsame => hother hsame.1, List.append_nil]
      rw [hmembers]
      exact h.active taskDigest
  · intro taskDigest version' hactive
    rw [activeVersion_promoted] at hactive
    rw [FeedbackStore.promoted, List.map_append]
    split at hactive
    · rename_i hsame
      obtain rfl := Option.some.inj hactive
      exact List.mem_append_right _ (List.mem_singleton.mpr (hsame ▸ rfl))
    · exact List.mem_append_left _ (h.activeRow taskDigest version' hactive)
  · intro row hrow parent hparent
    rw [FeedbackStore.promoted, List.map_append]
    refine List.mem_append_left _ ?_
    rcases List.mem_append.mp hrow with hold | hadded
    · exact h.parents row hold parent hparent
    · obtain rfl := List.mem_singleton.mp hadded
      exact h.activeRow digest parent hparent
  · intro row hrow
    rw [FeedbackStore.promoted, List.map_append]
    rcases List.mem_append.mp hrow with hold | hadded
    · exact List.mem_append_left _ (h.memberRows row hold)
    · obtain ⟨nativeId, _, rfl⟩ := List.mem_map.mp hadded
      exact List.mem_append_right _ (List.mem_singleton_self _)
  · intro taskDigest version'
    rw [membersOf_promoted]
    split
    · rename_i hsame
      rw [hsame.1, hsame.2, hempty, List.nil_append]
      exact hids.transfer (.refl _) (.refl _) fun _ _ _ _ hrejected => hrejected
    · rw [List.append_nil]
      exact (h.promotable taskDigest version').transfer (.refl _) (.refl _)
        fun _ _ _ _ hrejected => hrejected

theorem Sound.restored (h : s.Sound) {digest : Digest} {active parent : Nat}
    (hactive : s.activeVersion digest = some active)
    (hparent : ⟨digest, active, some parent⟩ ∈ s.versions) : (s.restored digest parent).Sound := by
  have hsome := Option.isSome_iff_exists.mpr ⟨active, hactive⟩
  refine ⟨h.consistent, h.observed, ?_, ?_, h.parents, h.memberRows, ?_⟩
  · intro taskDigest
    rw [promotionsOf_restored, activeVersion_restored digest parent hsome]
    split
    · rename_i hsame
      rw [hsame]
      rfl
    · exact h.active taskDigest
  · intro taskDigest version hversion
    rw [activeVersion_restored digest parent hsome] at hversion
    split at hversion
    · rename_i hsame
      obtain rfl := Option.some.inj hversion
      rw [hsame]
      exact h.parents _ hparent parent rfl
    · exact h.activeRow taskDigest version hversion
  · intro taskDigest version
    exact (h.promotable taskDigest version).transfer (.refl _) (.refl _)
      fun _ _ _ _ hrejected => hrejected

theorem Sound.change {call : FeedbackCall} (h : s.Sound) (hchange : s.Change call s') :
    s'.Sound := by
  cases hchange with
  | refused => exact h
  | commitPage hextends hconsistent => exact h.commitPage hextends hconsistent
  | useful hgroup => exact h.observe hgroup rfl
  | notUseful _ hgroup => exact h.reject (Tables.memberGroup_of_groupForRecord hgroup)
  | promoteFeedback _ hnew hids => exact h.promoted hnew hids
  | rollbackFeedback _ hactive hparent => exact h.restored hactive hparent

theorem sound_empty : ({} : FeedbackStore).Sound where
  consistent := Tables.consistent_empty
  observed := List.forall_mem_nil _
  active _ := rfl
  activeRow _ _ h := by cases h
  parents := List.forall_mem_nil _
  memberRows := List.forall_mem_nil _
  promotable _ _ := ⟨Nat.zero_le 16, List.nodup_nil, List.forall_mem_nil _⟩

/-! ## What becomes of a version -/

theorem Change.extends {call : FeedbackCall} (h : s.Change call s') :
    s.tables.Extends s'.tables := by
  cases h with
  | commitPage hextends _ => exact hextends
  | refused | useful | notUseful | promoteFeedback | rollbackFeedback => exact .refl _

/-- A version that is there loses what the call rejects. -/
theorem Change.membersOf {call : FeedbackCall} (h : s.Change call s') (hsound : s.Sound)
    {version : Nat} (hversion : (taskDigest, version) ∈ s.versions.map FeedbackPolicyVersion.key) :
    s'.membersOf taskDigest version = (s.membersOf taskDigest version).filter fun nativeId =>
      ∀ groupId ∈ s.rejection taskDigest call, s.tables.memberGroup nativeId ≠ some groupId := by
  have hkept : s.rejection taskDigest call = none →
      (s.membersOf taskDigest version).filter (fun nativeId =>
        ∀ groupId ∈ s.rejection taskDigest call, s.tables.memberGroup nativeId ≠ some groupId) =
      s.membersOf taskDigest version := by
    intro hnone
    rw [List.filter_eq_self]
    intro nativeId _
    rw [decide_eq_true_eq, hnone]
    intro groupId hmem
    cases hmem
  cases h with
  | refused hquiet => exact (hkept (hquiet taskDigest)).symm
  | commitPage => exact (hkept rfl).symm
  | useful => exact (hkept rfl).symm
  | @notUseful task nativeId resultNonce digest group hdigest hgroup =>
      rw [membersOf_reject]
      split
      · rename_i hsame
        have hrejection : s.rejection taskDigest
            (.recordFeedback task nativeId resultNonce .notUseful) = some group.groupId := by
          rw [rejection, hdigest, if_pos (congrArg _ hsame.symm), hgroup, Option.map_some]
        rw [hrejection]
        refine List.filter_congr fun other _ => ?_
        rw [Bool.eq_iff_iff, decide_eq_true_eq, decide_eq_true_eq]
        simp only [Option.mem_some_iff, forall_eq', ne_eq,
          Tables.memberGroup_eq_some hsound.consistent.grouped.once]
        rfl
      · rename_i hother
        refine (hkept ?_).symm
        rw [rejection, hdigest, if_neg fun hsame => hother (Except.ok.inj hsame).symm]
  | @promoteFeedback task digest version' nativeIds hdigest hnew hids =>
      rw [membersOf_promoted, if_neg, List.append_nil]
      · exact (hkept rfl).symm
      · rintro ⟨rfl, rfl⟩
        exact hnew hversion
  | rollbackFeedback => exact (hkept rfl).symm

/-- A new version is made by a promotion, and is active then. -/
theorem Change.versions {call : FeedbackCall} (h : s.Change call s') {row : FeedbackPolicyVersion}
    (hrow : row ∈ s'.versions) :
    row ∈ s.versions ∨ ∃ task, call = .promoteFeedback task ∧
      feedbackTaskDigest task = .ok row.taskDigest ∧
      row.key ∉ s.versions.map FeedbackPolicyVersion.key ∧
      s'.activeVersion row.taskDigest = some row.version := by
  cases h with
  | refused | commitPage | useful | notUseful | rollbackFeedback => exact .inl hrow
  | @promoteFeedback task digest version nativeIds hdigest hnew hids =>
      rcases List.mem_append.mp hrow with hold | hadded
      · exact .inl hold
      · obtain rfl := List.mem_singleton.mp hadded
        refine .inr ⟨task, rfl, hdigest, hnew, ?_⟩
        rw [activeVersion_promoted, if_pos rfl]

/-! ## Runs -/

variable [Rowids]

theorem change_step (h : s.Sound) (call : FeedbackCall) : s.Change call (s.step call) := by
  cases call with
  | commitPage fault records =>
      exact .commitPage (Tables.extends_commitPage fault records)
        (commitPage_keeps (fun hconsistent hcommit => hconsistent.commitRecord hcommit)
          fault records h.consistent)
  | recordFeedback task nativeId resultNonce verdict =>
      rw [step, recordFeedback]
      cases hdigest : feedbackTaskDigest task with
      | error e =>
          refine .refused fun taskDigest => ?_
          cases verdict with
          | useful => rfl
          | notUseful =>
              rw [rejection, if_neg]
              rw [hdigest]
              exact fun hsame => by cases hsame
      | ok digest =>
          rw [except_bind_ok]
          cases hgroup : s.tables.groupForRecord nativeId with
          | none =>
              refine .refused fun taskDigest => ?_
              cases verdict with
              | useful => rfl
              | notUseful =>
                  rw [rejection, hgroup]
                  split <;> rfl
          | some group =>
              cases verdict with
              | useful => exact .useful (Tables.memberGroup_of_groupForRecord hgroup)
              | notUseful => exact .notUseful hdigest hgroup
  | promoteFeedback task =>
      rw [step, promoteFeedback]
      cases hpromotion : s.promotion task with
      | error e => exact .refused fun _ => rfl
      | ok s' =>
          obtain ⟨digest, version, nativeIds, hdigest, hnew, hids, rfl⟩ :=
            promotion_eq_ok h hpromotion
          exact .promoteFeedback hdigest hnew hids
  | rollbackFeedback task =>
      rw [step, rollbackFeedback]
      cases hrollback : s.rollback task with
      | error e => exact .refused fun _ => rfl
      | ok s' =>
          obtain ⟨digest, active, parent, hdigest, hactive, hparent, rfl⟩ :=
            rollback_eq_ok hrollback
          exact .rollbackFeedback hdigest hactive hparent

theorem Sound.run (h : s.Sound) (calls : List FeedbackCall) : (s.runCalls calls).Sound := by
  induction calls generalizing s with
  | nil => exact h
  | cons call rest ih => exact ih (h.change (change_step h call))

theorem sound_run (calls : List FeedbackCall) : (runCalls {} calls).Sound := sound_empty.run calls

theorem Sound.extends_run (h : s.Sound) (calls : List FeedbackCall) :
    s.tables.Extends (s.runCalls calls).tables := by
  induction calls generalizing s with
  | nil => exact .refl _
  | cons call rest ih =>
      have hchange := change_step h call
      exact hchange.extends.trans (ih (h.change hchange))

/-- The groups that a run of calls rejects for a task. -/
def rejections (taskDigest : Digest) : FeedbackStore → List FeedbackCall → List Nat
  | _, [] => []
  | s, call :: rest =>
      (s.rejection taskDigest call).toList ++ rejections taskDigest (s.step call) rest

theorem rejections_append (calls more : List FeedbackCall) :
    rejections taskDigest s (calls ++ more) =
      rejections taskDigest s calls ++ rejections taskDigest (s.runCalls calls) more := by
  induction calls generalizing s with
  | nil => rfl
  | cons call rest ih =>
      rw [List.cons_append, rejections, rejections, ih, List.append_assoc]
      rfl

theorem runCalls_append (calls more : List FeedbackCall) :
    s.runCalls (calls ++ more) = (s.runCalls calls).runCalls more :=
  List.foldl_append

/-- The members of a version are what was promoted when it was made, less the groups
that were rejected since. -/
def Recorded (calls : List FeedbackCall) (row : FeedbackPolicyVersion) : Prop :=
  ∃ before task after, calls = before ++ .promoteFeedback task :: after ∧
    feedbackTaskDigest task = .ok row.taskDigest ∧
    row.key ∉ (runCalls {} before).versions.map FeedbackPolicyVersion.key ∧
    let made := runCalls {} (before ++ [.promoteFeedback task])
    made.activeVersion row.taskDigest = some row.version ∧
    (runCalls {} calls).membersOf row.taskDigest row.version =
      (made.promotionsOf row.taskDigest).filter fun nativeId =>
        ∀ groupId ∈ rejections row.taskDigest made after,
          made.tables.memberGroup nativeId ≠ some groupId

theorem recorded_run (calls : List FeedbackCall) :
    ∀ row ∈ (runCalls {} calls).versions, Recorded calls row := by
  induction calls using List.reverseRecOn with
  | nil => exact List.forall_mem_nil _
  | append_singleton calls call ih =>
      intro row hrow
      have hsound := sound_run calls
      have hchange := change_step hsound call
      have hstep : runCalls {} (calls ++ [call]) = (runCalls {} calls).step call :=
        runCalls_append calls [call]
      rw [hstep] at hrow
      rcases hchange.versions hrow with hold | ⟨task, rfl, hdigest, hnew, hactive⟩
      · obtain ⟨before, task, after, rfl, hdigest, hnew, hactive, hmembers⟩ := ih row hold
        refine ⟨before, task, after ++ [call], by rw [List.append_assoc, List.cons_append],
          hdigest, hnew, hactive, ?_⟩
        have hkey := List.mem_map_of_mem (f := FeedbackPolicyVersion.key) hold
        have hmade := sound_run (before ++ [.promoteFeedback task])
        have hrest : runCalls {} (before ++ .promoteFeedback task :: after) =
            (runCalls {} (before ++ [.promoteFeedback task])).runCalls after := by
          rw [← runCalls_append, List.append_assoc, List.singleton_append]
        have hextends := hmade.extends_run after
        rw [hstep, hchange.membersOf hsound hkey, hmembers, List.filter_filter]
        refine List.filter_congr fun nativeId hmem => ?_
        have hpromoted := hmade.active row.taskDigest
        rw [hactive, Option.map_some, Option.getD_some] at hpromoted
        obtain ⟨groupId, hgroup, _⟩ :=
          (hmade.promotable row.taskDigest row.version).allowed nativeId (hpromoted ▸ hmem)
        rw [Bool.eq_iff_iff, Bool.and_eq_true, decide_eq_true_eq, decide_eq_true_eq,
          decide_eq_true_eq, rejections_append, ← hrest, rejections, rejections, List.append_nil,
          hrest, hextends nativeId groupId hgroup, hgroup, List.forall_mem_append,
          and_comm]
        simp only [Option.mem_toList, Option.mem_def]
      · refine ⟨calls, task, [], rfl, hdigest, hnew, ?_, ?_⟩
        · rw [hstep]
          exact hactive
        · have hpromoted := (sound_run (calls ++ [.promoteFeedback task])).active row.taskDigest
          rw [hstep, hactive, Option.map_some, Option.getD_some] at hpromoted
          rw [hstep, hpromoted, eq_comm, List.filter_eq_self]
          intro nativeId _
          exact decide_eq_true (List.forall_mem_nil _)

/-- Over every run of calls: what is promoted for a task or kept in a version of it is in
a group without a standing rejection; at most sixteen ids of different groups are promoted;
a rollback that succeeds promotes what the parent of the active version promoted when it
was made, less what was rejected since, and one that fails changes nothing. -/
theorem rejected_never_promoted (calls : List FeedbackCall) :
    let s := runCalls {} calls
    (∀ taskDigest nativeId, (nativeId ∈ s.promotionsOf taskDigest ∨
        ∃ version, nativeId ∈ s.membersOf taskDigest version) →
      ∃ groupId, s.tables.memberGroup nativeId = some groupId ∧ ¬s.Rejected taskDigest groupId) ∧
    (∀ taskDigest, (s.promotionsOf taskDigest).length ≤ 16 ∧
      ((s.promotionsOf taskDigest).map s.tables.memberGroup).Nodup) ∧
    (∀ task evaluation s', s.rollbackFeedback task = (.ok evaluation, s') →
      ∃ taskDigest active parent, feedbackTaskDigest task = .ok taskDigest ∧
        s.activeVersion taskDigest = some active ∧
        ⟨taskDigest, active, some parent⟩ ∈ s.versions ∧
        s'.activeVersion taskDigest = some parent ∧
        ∃ before earlier after, calls = before ++ .promoteFeedback earlier :: after ∧
          feedbackTaskDigest earlier = .ok taskDigest ∧
          (taskDigest, parent) ∉
            (runCalls {} before).versions.map FeedbackPolicyVersion.key ∧
          let made := runCalls {} (before ++ [.promoteFeedback earlier])
          made.activeVersion taskDigest = some parent ∧
          s'.promotionsOf taskDigest = (made.promotionsOf taskDigest).filter fun nativeId =>
            ∀ groupId ∈ rejections taskDigest made after,
              made.tables.memberGroup nativeId ≠ some groupId) ∧
    ∀ task e s', s.rollbackFeedback task = (.error e, s') → s' = s := by
  intro s
  have hsound : s.Sound := sound_run calls
  refine ⟨?_, ?_, ?_, ?_⟩
  · rintro taskDigest nativeId (hpromoted | ⟨version, hmember⟩)
    · rw [hsound.active] at hpromoted
      cases hactive : s.activeVersion taskDigest with
      | none =>
          rw [hactive] at hpromoted
          cases hpromoted
      | some version =>
          rw [hactive] at hpromoted
          exact (hsound.promotable taskDigest version).allowed nativeId hpromoted
    · exact (hsound.promotable taskDigest version).allowed nativeId hmember
  · intro taskDigest
    rw [hsound.active]
    cases s.activeVersion taskDigest with
    | none => exact ⟨Nat.zero_le 16, List.nodup_nil⟩
    | some version =>
        have h := hsound.promotable taskDigest version
        exact ⟨h.few, h.apart⟩
  · intro task evaluation s' h
    cases hrollback : s.rollback task with
    | error e =>
        rw [rollbackFeedback, hrollback] at h
        cases h
    | ok restored =>
        rw [rollbackFeedback, hrollback] at h
        obtain rfl := congrArg Prod.snd h
        obtain ⟨digest, active, parent, hdigest, hactive, hparent, hrestored⟩ :=
          rollback_eq_ok hrollback
        have hsome := Option.isSome_iff_exists.mpr ⟨active, hactive⟩
        obtain ⟨row, hrow, hkey⟩ := List.mem_map.mp (hsound.parents _ hparent parent rfl)
        obtain ⟨rfl, rfl⟩ := Prod.mk.inj hkey
        obtain ⟨before, earlier, after, hcalls, hearlier, hnew, hmade, hmembers⟩ :=
          recorded_run calls row hrow
        refine ⟨row.taskDigest, active, row.version, hdigest, hactive, hparent, ?_, before,
          earlier, after, hcalls, hearlier, hnew, hmade, ?_⟩
        · rw [evaluated, hrestored, activeVersion_restored _ _ hsome, if_pos rfl]
        · rw [evaluated, hrestored, promotionsOf_restored, if_pos rfl]
          exact hmembers
  · intro task e s' h
    rw [rollbackFeedback] at h
    cases hrollback : s.rollback task with
    | error e' =>
        rw [hrollback] at h
        exact (congrArg Prod.snd h).symm
    | ok restored =>
        obtain ⟨digest, _, _, hdigest, _⟩ := rollback_eq_ok hrollback
        obtain ⟨evaluation, hevaluation⟩ := evaluateFeedback_of_digest (s := restored) hdigest
        rw [hrollback] at h
        have hresult : restored.evaluateFeedback task = .error e := congrArg Prod.fst h
        rw [hevaluation] at hresult
        cases hresult

end Calls

/-! ## A group that is rejected between two promotions -/

theorem length_answerNonce (n : UInt8) : (List.replicate 32 n).length = 32 :=
  List.length_replicate

def answerNonce (n : UInt8) : Digest := ⟨List.replicate 32 n, length_answerNonce n⟩

/-- Records of two groups are useful in three answers each and are promoted; then one of
them is rejected, and the other is promoted alone. -/
def ratedCalls : List FeedbackCall :=
  [.commitPage none [⟨[1], 5, [1]⟩, ⟨[2], 6, [2]⟩],
    .recordFeedback "login" [1] (answerNonce 1) .useful,
    .recordFeedback "login" [1] (answerNonce 2) .useful,
    .recordFeedback "login" [1] (answerNonce 3) .useful,
    .recordFeedback "login" [2] (answerNonce 1) .useful,
    .recordFeedback "login" [2] (answerNonce 2) .useful,
    .recordFeedback "login" [2] (answerNonce 3) .useful, .promoteFeedback "login",
    .recordFeedback "login" [1] (answerNonce 4) .notUseful, .promoteFeedback "login"]

/-- The rollback goes back to the version of both groups, without the rejected one. -/
theorem rejected_never_promoted_rated :
    letI := fips180
    letI := callingLog
    letI := noRetry
    let both := runCalls {} (ratedCalls.take 8)
    let s := runCalls {} ratedCalls
    both.promotions.map FeedbackPromotion.nativeId = [[1], [2]] ∧
      s.versions.map FeedbackPolicyVersion.parentVersion = [none, some 1] ∧
      ∃ evaluation s' taskDigest parent, s.rollbackFeedback "login" = (.ok evaluation, s') ∧
        s'.promotions.map FeedbackPromotion.nativeId = [[2]] ∧
        s'.activeVersion taskDigest = some parent ∧
        ∃ before earlier after, ratedCalls = before ++ .promoteFeedback earlier :: after ∧
          let made := runCalls {} (before ++ [.promoteFeedback earlier])
          made.activeVersion taskDigest = some parent ∧
          s'.promotionsOf taskDigest = (made.promotionsOf taskDigest).filter fun nativeId =>
            ∀ groupId ∈ rejections taskDigest made after,
              made.tables.memberGroup nativeId ≠ some groupId := by
  rw [fips180_eq]
  let := fips180Evaluated
  let := callingLog
  let := noRetry
  intro both s
  have hrun : both.promotions.map FeedbackPromotion.nativeId = [[1], [2]] ∧
      s.versions.map FeedbackPolicyVersion.parentVersion = [none, some 1] ∧
      (s.rollbackFeedback "login").1.toOption.isSome ∧
      (s.rollbackFeedback "login").2.promotions.map FeedbackPromotion.nativeId = [[2]] := by
    decide +kernel
  obtain ⟨hboth, hversions, hok, hpromotions⟩ := hrun
  cases hresult : s.rollbackFeedback "login" with
  | mk result s' =>
      rw [hresult] at hok hpromotions
      cases result with
      | error e => cases hok
      | ok evaluation =>
          obtain ⟨taskDigest, _, parent, _, _, _, hactive, before, earlier, after, hcalls, _, _,
            hmade, hrestored⟩ :=
            (rejected_never_promoted ratedCalls).2.2.1 "login" evaluation s' hresult
          exact ⟨hboth, hversions, evaluation, s', taskDigest, parent, rfl, hpromotions, hactive,
            before, earlier, after, hcalls, hmade, hrestored⟩

end FeedbackStore

end Evidentrail
