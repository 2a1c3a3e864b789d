import Evidentrail.Corpus.Tables

/-!
# The derived index

What the derived tables say about the stored records, in every state that
committed pages lead to. Records may arrive in any order, so the extremes of a
group or an edge are followed record by record. The summary of a service is
followed in the same way, from the key of the record that arrives and not from
the group it joins; that the extremes over the groups come out is a fact about
least elements.
-/

namespace Evidentrail

open Rust

/-- Records under groups. -/
def membership : Labelling HistoryRecordV1 GroupMember (List UInt8) RecordKey Nat where
  id := HistoryRecordV1.nativeId
  key := HistoryRecordV1.key
  rowId := GroupMember.nativeId
  label := GroupMember.groupId

/-- Records under edges. -/
def evidencing : Labelling HistoryRecordV1 EdgeEvidence (List UInt8) RecordKey EdgeKey where
  id := HistoryRecordV1.nativeId
  key := HistoryRecordV1.key
  rowId := EdgeEvidence.nativeId
  label := EdgeEvidence.edge

/-! ## Groups -/

theorem le_foldl_max (l : List Nat) (start : Nat) :
    start ≤ l.foldl max start ∧ ∀ id ∈ l, id ≤ l.foldl max start := by
  induction l generalizing start with
  | nil => simp
  | cons first rest ih =>
      obtain ⟨hstart, hrest⟩ := ih (max start first)
      refine ⟨(le_max_left ..).trans hstart, fun id hid => ?_⟩
      rcases List.mem_cons.mp hid with rfl | hid
      · exact (le_max_right ..).trans hstart
      · exact hrest id hid

theorem nextRowid_unused [Rowids] {used : List Nat} {id : Nat} (h : nextRowid used = .ok id) :
    id ∉ used ∧ 0 < id ∧ id ≤ i64Max := by
  unfold nextRowid at h
  split at h
  · rename_i hlt
    cases h
    refine ⟨fun hid => ?_, Nat.succ_pos _, hlt⟩
    have := (le_foldl_max used 0).2 _ hid
    omega
  · exact Rowids.unused (okOr_eq_ok.mp h)

theorem extendTally_ok {tally next : Tally RecordKey} {record : HistoryRecordV1}
    (h : extendTally tally record = .ok next) : next = tally.add record.key := by
  unfold extendTally at h
  split at h
  · cases h
    rfl
  · cases h

section Groups

variable [Sha256] [LogModel] {records : List HistoryRecordV1} {groups : List LogGroup}
  {members : List GroupMember} {record : HistoryRecordV1}
  {joined : List LogGroup × Nat × Bool}

/-- What joining a group does to the table of groups. -/
inductive JoinsGroup (groups : List LogGroup) (record : HistoryRecordV1) :
    List LogGroup × Nat × Bool → Prop
  | prior {group : LogGroup} (hgroup : group ∈ groups) (hkey : group.key = groupKeyOf record) :
      JoinsGroup groups record
        (Table.update LogGroup.groupId group.groupId
          (fun row => { row with tally := group.tally.add record.key }) groups,
          group.groupId, false)
  | new {groupId : Nat} (hkey : ∀ group ∈ groups, group.key ≠ groupKeyOf record)
      (hid : ∀ group ∈ groups, group.groupId ≠ groupId)
      (hrowid : 0 < groupId ∧ groupId ≤ i64Max) :
      JoinsGroup groups record
        (groups ++ [⟨groupId, groupKeyOf record, .one record.key⟩], groupId, true)

theorem joinsGroup [Rowids] (h : joinGroup groups record = .ok joined) :
    JoinsGroup groups record joined := by
  unfold joinGroup at h
  split at h
  · rename_i prior hfind
    obtain ⟨tally, htally, h⟩ := except_bind_eq_ok.mp h
    cases h
    obtain ⟨hprior, hkey⟩ := Table.mem_of_find hfind
    rw [extendTally_ok htally]
    exact .prior hprior hkey
  · rename_i hfind
    obtain ⟨groupId, hid, h⟩ := except_bind_eq_ok.mp h
    cases h
    obtain ⟨hunused, hrowid⟩ := nextRowid_unused hid
    refine .new (Table.find_eq_none.mp hfind) (fun group hgroup heq => ?_) hrowid
    exact hunused (heq ▸ List.mem_map_of_mem hgroup)

/-- The groups of the records that are members so far. -/
structure Grouped (records : List HistoryRecordV1) (groups : List LogGroup)
    (members : List GroupMember) : Prop where
  recordIds : (records.map HistoryRecordV1.nativeId).Nodup
  ids : (groups.map LogGroup.groupId).Nodup
  keys : (groups.map LogGroup.key).Nodup
  rowids : ∀ group ∈ groups, 0 < group.groupId ∧ group.groupId ≤ i64Max
  once : (members.map GroupMember.nativeId).Nodup
  covered : membership.Covered records members
  grouped : ∀ member ∈ members, ∀ record ∈ records, record.nativeId = member.nativeId →
    ∃ group ∈ groups, group.groupId = member.groupId ∧ group.key = groupKeyOf record
  tallies : ∀ group ∈ groups, membership.Tallied records members group.groupId group.tally

namespace Grouped

/-- A record that is not indexed yet. -/
theorem append_record (h : Grouped records groups members)
    (hnew : ∀ other ∈ records, other.nativeId ≠ record.nativeId) :
    Grouped (records ++ [record]) groups members where
  recordIds := Table.nodup_append_row h.recordIds hnew
  ids := h.ids
  keys := h.keys
  rowids := h.rowids
  once := h.once
  covered := h.covered.append_record
  grouped member hmember found hfound hid := by
    rcases List.mem_append.mp hfound with hold | hadded
    · exact h.grouped member hmember found hold hid
    · -- a member is about a record that was there before
      obtain ⟨other, hother, hsame⟩ := h.covered member hmember
      rw [List.mem_singleton.mp hadded] at hid
      exact absurd (hsame.trans hid.symm) (hnew other hother)
  tallies group hgroup := (h.tallies group hgroup).append_record h.covered hnew

/-- Joining a group changes no id and no key. -/
theorem kept (hjoins : JoinsGroup groups record joined) :
    ∀ group ∈ groups, ∃ group' ∈ joined.1,
      group'.groupId = group.groupId ∧ group'.key = group.key := by
  intro group hgroup
  cases hjoins with
  | @prior target htarget hkey =>
      by_cases hid : group.groupId = target.groupId
      · exact ⟨_, Table.mem_update.mpr (.inr ⟨group, hgroup, hid, rfl⟩), rfl, rfl⟩
      · exact ⟨group, Table.mem_update.mpr (.inl ⟨hgroup, hid⟩), rfl, rfl⟩
  | new hkey hid hrowid => exact ⟨group, List.mem_append_left _ hgroup, rfl, rfl⟩

/-- The group that was joined has the key of the record. -/
theorem target (hjoins : JoinsGroup groups record joined) :
    ∃ group ∈ joined.1, group.groupId = joined.2.1 ∧ group.key = groupKeyOf record := by
  cases hjoins with
  | @prior target htarget hkey =>
      exact ⟨_, Table.mem_update.mpr (.inr ⟨target, htarget, rfl, rfl⟩), rfl, hkey⟩
  | new hkey hid hrowid =>
      exact ⟨_, List.mem_append_right _ (List.mem_singleton_self _), rfl, rfl⟩

theorem index_grouped (h : Grouped records groups members)
    (hjoins : JoinsGroup groups record joined) (hrecord : record ∈ records) :
    ∀ member ∈ members ++ [⟨record.nativeId, joined.2.1⟩], ∀ found ∈ records,
      found.nativeId = member.nativeId →
        ∃ group ∈ joined.1, group.groupId = member.groupId ∧ group.key = groupKeyOf found := by
  intro member hmember found hfound hid
  rcases List.mem_append.mp hmember with hold | hnew
  · obtain ⟨group, hgroup, hgroupId, hkey⟩ := h.grouped member hold found hfound hid
    obtain ⟨group', hgroup', hgroupId', hkey'⟩ := kept hjoins group hgroup
    exact ⟨group', hgroup', hgroupId'.trans hgroupId, hkey'.trans hkey⟩
  · rw [List.mem_singleton.mp hnew] at hid ⊢
    rw [List.inj_on_of_nodup_map h.recordIds hfound hrecord hid]
    exact target hjoins

/-- The record joins the group of its key. -/
theorem index (h : Grouped records groups members) (hrecord : record ∈ records)
    (hfresh : record.nativeId ∉ members.map GroupMember.nativeId)
    (hjoins : JoinsGroup groups record joined) :
    Grouped records joined.1 (members ++ [⟨record.nativeId, joined.2.1⟩]) := by
  have honce : ((members ++ [(⟨record.nativeId, joined.2.1⟩ : GroupMember)]).map
      GroupMember.nativeId).Nodup :=
    Table.nodup_append_row h.once fun member hmember heq =>
      hfresh (List.mem_map.mpr ⟨member, hmember, heq⟩)
  have hcovered := h.covered.append ⟨record.nativeId, joined.2.1⟩ hrecord rfl
  have hgrouped := h.index_grouped hjoins hrecord
  cases hjoins with
  | @prior target htarget hkey =>
      refine ⟨h.recordIds, ?_, ?_, ?_, honce, hcovered, hgrouped, ?_⟩
      · rw [Table.map_update]
        · exact h.ids
        · intro group
          rfl
      · rw [Table.map_update]
        · exact h.keys
        · intro group
          rfl
      · intro group hgroup
        rcases Table.mem_update.mp hgroup with ⟨hgroup, _⟩ | ⟨old, hold, _, rfl⟩
        · exact h.rowids group hgroup
        · exact h.rowids old hold
      · intro group hgroup
        rcases Table.mem_update.mp hgroup with ⟨hgroup, hne⟩ | ⟨old, hold, hid, rfl⟩
        · exact (h.tallies group hgroup).append_of_ne hne.symm
        · have htallied := Labelling.Tallied.append (L := membership)
            ⟨record.nativeId, target.groupId⟩ (h.tallies target htarget) h.recordIds hrecord rfl
          rw [show old.groupId = target.groupId from hid]
          exact htallied
  | @new groupId hkey hid hrowid =>
      have hunused : ∀ member ∈ members, member.groupId ≠ groupId := by
        intro member hmember heq
        obtain ⟨found, hfound, hsame⟩ := h.covered member hmember
        obtain ⟨group, hgroup, hgroupId, _⟩ := h.grouped member hmember found hfound hsame
        exact hid group hgroup (hgroupId.trans heq)
      refine ⟨h.recordIds, Table.nodup_append_row h.ids hid, Table.nodup_append_row h.keys hkey, ?_,
        honce, hcovered, hgrouped, ?_⟩
      · intro group hgroup
        rcases List.mem_append.mp hgroup with hold | hnew
        · exact h.rowids group hold
        · rw [List.mem_singleton.mp hnew]
          exact hrowid
      · intro group hgroup
        rcases List.mem_append.mp hgroup with hold | hnew
        · exact (h.tallies group hold).append_of_ne (hid group hold).symm
        · rw [List.mem_singleton.mp hnew]
          exact membership.tallied_one ⟨record.nativeId, groupId⟩ hunused h.recordIds hrecord rfl

end Grouped

end Groups

/-! ## Severe services -/

def SevereServiceGroup.oldest (row : SevereServiceGroup) : Int ×ₗ Nat :=
  toLex (row.oldestTimestampMillis, row.oldestGroupId)

def SevereServiceGroup.newest (row : SevereServiceGroup) : Int ×ₗ Nat :=
  toLex (row.newestTimestampMillis, row.newestGroupId)

/-- A severe group of the service. -/
def LogGroup.isSevereOf (service : String) (group : LogGroup) : Bool :=
  isSevere group.key.role && group.key.service = service

section Merge

variable {row : SevereServiceGroup} {groupId : Nat} {first last : Int} {new : Bool}

theorem SevereServiceGroup.merge_oldest :
    (row.merge groupId first last new).oldest =
      if toLex (first, groupId) < row.oldest then toLex (first, groupId) else row.oldest := by
  simp only [oldest, merge, Prod.Lex.toLex_lt_toLex]
  split
  · rename_i hlt
    rcases hlt with hlt | ⟨heq, _⟩
    · rw [min_eq_right hlt.le]
    · rw [heq, min_self]
  · rename_i hlt
    rw [not_or] at hlt
    rw [min_eq_left (Int.not_lt.mp hlt.1)]

theorem SevereServiceGroup.merge_newest :
    (row.merge groupId first last new).newest =
      if toLex (last, groupId) > row.newest then toLex (last, groupId) else row.newest := by
  simp only [newest, merge, gt_iff_lt, Prod.Lex.toLex_lt_toLex]
  split
  · rename_i hlt
    rcases hlt with hlt | ⟨heq, hid⟩
    · rw [max_eq_right hlt.le, if_pos (.inl hlt)]
    · rw [heq, max_self, if_pos (.inr ⟨rfl, hid⟩)]
  · rename_i hlt
    rw [not_or, not_and] at hlt
    rw [max_eq_left (Int.not_lt.mp hlt.1), if_neg]
    rintro (hgt | ⟨heq, hid⟩)
    · exact hlt.1 hgt
    · exact hlt.2 heq.symm hid

end Merge

section Severe

variable [Sha256] [LogModel] {records : List HistoryRecordV1} {groups : List LogGroup}
  {members : List GroupMember} {severe : List SevereServiceGroup} {record : HistoryRecordV1}
  {joined : List LogGroup × Nat × Bool} {service : String}

/-- Timestamp and group of every record in a severe group of the service. -/
def severeKeys (records : List HistoryRecordV1) (members : List GroupMember) (service : String) :
    Set (Int ×ₗ Nat) :=
  {entry | ∃ record ∈ records, ∃ member ∈ members, member.nativeId = record.nativeId ∧
    isSevere (groupKeyOf record).role = true ∧ (groupKeyOf record).service = service ∧
    toLex (record.eventTimestampMillis, member.groupId) = entry}

theorem severeKeys_append_record (hcovered : membership.Covered records members)
    (hnew : ∀ other ∈ records, other.nativeId ≠ record.nativeId) :
    severeKeys (records ++ [record]) members service = severeKeys records members service := by
  ext entry
  constructor
  · rintro ⟨found, hfound, member, hmember, hid, hsevere⟩
    rcases List.mem_append.mp hfound with hold | hadded
    · exact ⟨found, hold, member, hmember, hid, hsevere⟩
    · obtain ⟨other, hother, hsame⟩ := hcovered member hmember
      rw [List.mem_singleton.mp hadded] at hid
      exact absurd (hsame.trans hid) (hnew other hother)
  · rintro ⟨found, hfound, member, hmember, hid, hsevere⟩
    exact ⟨found, List.mem_append_left _ hfound, member, hmember, hid, hsevere⟩

theorem severeKeys_append {groupId : Nat}
    (hids : (records.map HistoryRecordV1.nativeId).Nodup) (hrecord : record ∈ records) :
    severeKeys records (members ++ [⟨record.nativeId, groupId⟩]) service =
      if isSevere (groupKeyOf record).role = true ∧ (groupKeyOf record).service = service then
        insert (toLex (record.eventTimestampMillis, groupId)) (severeKeys records members service)
      else severeKeys records members service := by
  have hiff : ∀ entry, entry ∈ severeKeys records (members ++ [⟨record.nativeId, groupId⟩])
      service ↔ entry ∈ severeKeys records members service ∨
        isSevere (groupKeyOf record).role = true ∧ (groupKeyOf record).service = service ∧
          entry = toLex (record.eventTimestampMillis, groupId) := by
    intro entry
    constructor
    · rintro ⟨found, hfound, member, hmember, hid, hsevere, hservice, rfl⟩
      rcases List.mem_append.mp hmember with hold | hnew
      · exact .inl ⟨found, hfound, member, hold, hid, hsevere, hservice, rfl⟩
      · rw [List.mem_singleton.mp hnew] at hid ⊢
        have hsame := List.inj_on_of_nodup_map hids hfound hrecord hid.symm
        subst hsame
        exact .inr ⟨hsevere, hservice, rfl⟩
    · rintro (⟨found, hfound, member, hmember, hid, hsevere⟩ | ⟨hsevere, hservice, rfl⟩)
      · exact ⟨found, hfound, member, List.mem_append_left _ hmember, hid, hsevere⟩
      · exact ⟨record, hrecord, _, List.mem_append_right _ (List.mem_singleton_self _), rfl,
          hsevere, hservice, rfl⟩
  ext entry
  rw [hiff]
  split
  · rename_i hcondition
    rw [Set.mem_insert_iff]
    tauto
  · rename_i hcondition
    tauto

/-- The rows of the services that have severe groups. -/
structure Summarised (records : List HistoryRecordV1) (groups : List LogGroup)
    (members : List GroupMember) (severe : List SevereServiceGroup) : Prop where
  services : (severe.map SevereServiceGroup.service).Nodup
  counts : ∀ row ∈ severe, row.groupCount = groups.countP (LogGroup.isSevereOf row.service)
  oldest : ∀ row ∈ severe, IsLeast (severeKeys records members row.service) row.oldest
  newest : ∀ row ∈ severe, IsGreatest (severeKeys records members row.service) row.newest
  present : ∀ group ∈ groups, isSevere group.key.role = true →
    ∃ row ∈ severe, row.service = group.key.service

theorem countP_joined (hjoins : JoinsGroup groups record joined) (service : String) :
    joined.1.countP (LogGroup.isSevereOf service) =
      groups.countP (LogGroup.isSevereOf service) +
        if isSevere (groupKeyOf record).role = true ∧ (groupKeyOf record).service = service
        then joined.2.2.toNat else 0 := by
  cases hjoins with
  | prior hgroup hkey =>
      rw [Table.countP_update]
      · simp
      · intro row
        rfl
  | new hkey hid hrowid =>
      rw [List.countP_append, List.countP_singleton]
      simp only [LogGroup.isSevereOf, Bool.and_eq_true, decide_eq_true_eq, Bool.toNat_true]

theorem key_of_joined (hjoins : JoinsGroup groups record joined) :
    ∀ group ∈ joined.1, (∃ old ∈ groups, old.key = group.key) ∨ group.key = groupKeyOf record := by
  intro group hgroup
  cases hjoins with
  | prior htarget hkey =>
      rcases Table.mem_update.mp hgroup with ⟨hgroup, _⟩ | ⟨old, hold, _, rfl⟩
      · exact .inl ⟨group, hgroup, rfl⟩
      · exact .inl ⟨old, hold, rfl⟩
  | new hkey hid hrowid =>
      rcases List.mem_append.mp hgroup with hold | hnew
      · exact .inl ⟨group, hold, rfl⟩
      · rw [List.mem_singleton.mp hnew]
        exact .inr rfl

namespace Summarised

theorem append_record (h : Summarised records groups members severe)
    (hcovered : membership.Covered records members)
    (hnew : ∀ other ∈ records, other.nativeId ≠ record.nativeId) :
    Summarised (records ++ [record]) groups members severe where
  services := h.services
  counts := h.counts
  oldest row hrow := by
    rw [severeKeys_append_record hcovered hnew]
    exact h.oldest row hrow
  newest row hrow := by
    rw [severeKeys_append_record hcovered hnew]
    exact h.newest row hrow
  present := h.present

/-- What is said of the row of one service. -/
structure Row (records : List HistoryRecordV1) (groups : List LogGroup)
    (members : List GroupMember) (row : SevereServiceGroup) : Prop where
  count : row.groupCount = groups.countP (LogGroup.isSevereOf row.service)
  oldest : IsLeast (severeKeys records members row.service) row.oldest
  newest : IsGreatest (severeKeys records members row.service) row.newest

theorem row (h : Summarised records groups members severe) {row : SevereServiceGroup}
    (hrow : row ∈ severe) : Row records groups members row :=
  ⟨h.counts row hrow, h.oldest row hrow, h.newest row hrow⟩

/-- A row that the record does not concern. -/
theorem Row.index_of_other {row : SevereServiceGroup} (h : Row records groups members row)
    (hids : (records.map HistoryRecordV1.nativeId).Nodup) (hrecord : record ∈ records)
    (hjoins : JoinsGroup groups record joined)
    (hother : ¬(isSevere (groupKeyOf record).role = true ∧
      (groupKeyOf record).service = row.service)) :
    Row records joined.1 (members ++ [⟨record.nativeId, joined.2.1⟩]) row := by
  refine ⟨?_, ?_, ?_⟩
  · rw [countP_joined hjoins, if_neg hother, Nat.add_zero]
    exact h.count
  · rw [severeKeys_append hids hrecord, if_neg hother]
    exact h.oldest
  · rw [severeKeys_append hids hrecord, if_neg hother]
    exact h.newest

/-- The row of the service of a severe record. -/
theorem Row.index_merge {row : SevereServiceGroup} (h : Row records groups members row)
    (hids : (records.map HistoryRecordV1.nativeId).Nodup) (hrecord : record ∈ records)
    (hjoins : JoinsGroup groups record joined)
    (hsevere : isSevere (groupKeyOf record).role = true)
    (hservice : (groupKeyOf record).service = row.service) :
    Row records joined.1 (members ++ [⟨record.nativeId, joined.2.1⟩])
      (row.merge joined.2.1 record.eventTimestampMillis record.eventTimestampMillis
        joined.2.2) := by
  refine ⟨?_, ?_, ?_⟩
  · show row.groupCount + _ = joined.1.countP (LogGroup.isSevereOf row.service)
    rw [countP_joined hjoins, if_pos ⟨hsevere, hservice⟩, h.count]
  · rw [SevereServiceGroup.merge_oldest]
    show IsLeast (severeKeys _ _ row.service) _
    rw [severeKeys_append hids hrecord, if_pos ⟨hsevere, hservice⟩]
    exact h.oldest.replace
  · rw [SevereServiceGroup.merge_newest]
    show IsGreatest (severeKeys _ _ row.service) _
    rw [severeKeys_append hids hrecord, if_pos ⟨hsevere, hservice⟩]
    exact h.newest.replace

/-- A service that had no severe group so far. -/
theorem row_new (h : Summarised records groups members severe)
    (hgrouped : Grouped records groups members) (hrecord : record ∈ records)
    (hjoins : JoinsGroup groups record joined)
    (hsevere : isSevere (groupKeyOf record).role = true)
    (hnone : ∀ row ∈ severe, row.service ≠ (groupKeyOf record).service) :
    Row records joined.1 (members ++ [⟨record.nativeId, joined.2.1⟩])
      ⟨(groupKeyOf record).service, 1, joined.2.1, record.eventTimestampMillis, joined.2.1,
        record.eventTimestampMillis⟩ := by
  have habsent : ∀ group ∈ groups, isSevere group.key.role = true →
      group.key.service ≠ (groupKeyOf record).service := by
    intro group hgroup hgroupSevere heq
    obtain ⟨row, hrow, hservice⟩ := h.present group hgroup hgroupSevere
    exact hnone row hrow (hservice.trans heq)
  have hcount : groups.countP (LogGroup.isSevereOf (groupKeyOf record).service) = 0 := by
    rw [List.countP_eq_zero]
    intro group hgroup hcounted
    simp only [LogGroup.isSevereOf, Bool.and_eq_true, decide_eq_true_eq] at hcounted
    exact habsent group hgroup hcounted.1 hcounted.2
  have hnew : joined.2.2 = true := by
    cases hjoins with
    | @prior group hgroup hkey =>
        exact absurd (congrArg GroupKey.service hkey)
          (habsent group hgroup (hkey ▸ hsevere))
    | new hkey hid hrowid => rfl
  have hkeys : severeKeys records members (groupKeyOf record).service = ∅ := by
    ext entry
    refine ⟨?_, False.elim⟩
    rintro ⟨found, hfound, member, hmember, hid, hfoundSevere, hservice, _⟩
    obtain ⟨group, hgroup, _, hkey⟩ := hgrouped.grouped member hmember found hfound hid.symm
    exact habsent group hgroup (hkey ▸ hfoundSevere) (hkey ▸ hservice)
  refine ⟨?_, ?_, ?_⟩
  · show 1 = joined.1.countP (LogGroup.isSevereOf (groupKeyOf record).service)
    rw [countP_joined hjoins, if_pos ⟨hsevere, rfl⟩, hcount, hnew]
    rfl
  · show IsLeast (severeKeys _ _ (groupKeyOf record).service) _
    rw [severeKeys_append hgrouped.recordIds hrecord, if_pos ⟨hsevere, rfl⟩, hkeys,
      insert_empty_eq]
    exact isLeast_singleton
  · show IsGreatest (severeKeys _ _ (groupKeyOf record).service) _
    rw [severeKeys_append hgrouped.recordIds hrecord, if_pos ⟨hsevere, rfl⟩, hkeys,
      insert_empty_eq]
    exact isGreatest_singleton

theorem of_rows (hservices : (severe.map SevereServiceGroup.service).Nodup)
    (hrows : ∀ row ∈ severe, Row records groups members row)
    (hpresent : ∀ group ∈ groups, isSevere group.key.role = true →
      ∃ row ∈ severe, row.service = group.key.service) :
    Summarised records groups members severe :=
  ⟨hservices, fun row hrow => (hrows row hrow).count, fun row hrow => (hrows row hrow).oldest,
    fun row hrow => (hrows row hrow).newest, hpresent⟩

/-- The row of its service follows a severe record; no other row does. -/
theorem index (h : Summarised records groups members severe)
    (hgrouped : Grouped records groups members) (hrecord : record ∈ records)
    (hjoins : JoinsGroup groups record joined) :
    Summarised records joined.1 (members ++ [⟨record.nativeId, joined.2.1⟩])
      (if isSevere (groupKeyOf record).role then
        upsertSevereService severe (groupKeyOf record).service joined.2.1
          record.eventTimestampMillis record.eventTimestampMillis joined.2.2
      else severe) := by
  have hids := hgrouped.recordIds
  -- a severe group has the service of a row, or that of the record
  have hpresent : ∀ group ∈ joined.1, isSevere group.key.role = true →
      (∃ row ∈ severe, row.service = group.key.service) ∨
        isSevere (groupKeyOf record).role = true ∧
          (groupKeyOf record).service = group.key.service := by
    intro group hgroup hgroupSevere
    rcases key_of_joined hjoins group hgroup with ⟨old, hold, hkey⟩ | hkey
    · rw [← hkey] at hgroupSevere ⊢
      exact .inl (h.present old hold hgroupSevere)
    · rw [hkey] at hgroupSevere ⊢
      exact .inr ⟨hgroupSevere, rfl⟩
  split
  · rename_i hsevere
    unfold upsertSevereService
    split
    · rename_i hfind
      have hnone := Table.find_eq_none.mp hfind
      refine of_rows (Table.nodup_append_row h.services hnone) ?_ ?_
      · intro row hrow
        rcases List.mem_append.mp hrow with hold | hnew
        · exact (h.row hold).index_of_other hids hrecord hjoins
            fun hsame => hnone row hold hsame.2.symm
        · rw [List.mem_singleton.mp hnew]
          exact h.row_new hgrouped hrecord hjoins hsevere hnone
      · intro group hgroup hgroupSevere
        rcases hpresent group hgroup hgroupSevere with ⟨row, hrow, hservice⟩ | ⟨_, hservice⟩
        · exact ⟨row, List.mem_append_left _ hrow, hservice⟩
        · exact ⟨_, List.mem_append_right _ (List.mem_singleton_self _), hservice⟩
    · rename_i prior hfind
      obtain ⟨hprior, hpriorService⟩ := Table.mem_of_find hfind
      refine of_rows ?_ ?_ ?_
      · rw [Table.map_update]
        · exact h.services
        · intro row
          rfl
      · intro row hrow
        rcases Table.mem_update.mp hrow with ⟨hrow, hne⟩ | ⟨old, hold, hservice, rfl⟩
        · exact (h.row hrow).index_of_other hids hrecord hjoins fun hsame => hne hsame.2.symm
        · exact (h.row hold).index_merge hids hrecord hjoins hsevere hservice.symm
      · intro group hgroup hgroupSevere
        rcases hpresent group hgroup hgroupSevere with ⟨row, hrow, hservice⟩ | ⟨_, hservice⟩
        · by_cases hsame : row.service = (groupKeyOf record).service
          · exact ⟨_, Table.mem_update.mpr (.inr ⟨row, hrow, hsame, rfl⟩), hservice⟩
          · exact ⟨row, Table.mem_update.mpr (.inl ⟨hrow, hsame⟩), hservice⟩
        · exact ⟨_, Table.mem_update.mpr (.inr ⟨prior, hprior, hpriorService, rfl⟩),
            hpriorService.trans hservice⟩
  · rename_i hsevere
    refine of_rows h.services ?_ ?_
    · intro row hrow
      exact (h.row hrow).index_of_other hids hrecord hjoins fun hsame => hsevere hsame.1
    · intro group hgroup hgroupSevere
      rcases hpresent group hgroup hgroupSevere with hrow | ⟨hrecordSevere, _⟩
      · exact hrow
      · exact absurd hrecordSevere hsevere

end Summarised

end Severe

/-! ## Edges -/

section Edges

variable {records : List HistoryRecordV1} {edges edges' : List ServiceEdge}
  {evidence : List EdgeEvidence} {record : HistoryRecordV1} {edge : EdgeKey}

/-- What one more record does to the table of edges. -/
inductive JoinsEdge (edges : List ServiceEdge) (edge : EdgeKey) (record : HistoryRecordV1) :
    List ServiceEdge → Prop
  | prior {row : ServiceEdge} (hrow : row ∈ edges) (hkey : row.key = edge) :
      JoinsEdge edges edge record (Table.update ServiceEdge.key edge
        (fun found => { found with tally := row.tally.add record.key }) edges)
  | new (hkey : ∀ row ∈ edges, row.key ≠ edge) :
      JoinsEdge edges edge record (edges ++ [⟨edge, .one record.key⟩])

theorem joinsEdge (h : joinEdge edges edge record = .ok edges') :
    JoinsEdge edges edge record edges' := by
  unfold joinEdge at h
  split at h
  · rename_i prior hfind
    obtain ⟨tally, htally, h⟩ := except_bind_eq_ok.mp h
    cases h
    obtain ⟨hprior, hkey⟩ := Table.mem_of_find hfind
    rw [extendTally_ok htally]
    exact .prior hprior hkey
  · rename_i hfind
    cases h
    exact .new (Table.find_eq_none.mp hfind)

variable [LogModel]

/-- The edges of the records that are evidence so far. -/
structure Evidenced (records : List HistoryRecordV1) (edges : List ServiceEdge)
    (evidence : List EdgeEvidence) : Prop where
  keys : (edges.map ServiceEdge.key).Nodup
  once : (evidence.map EdgeEvidence.nativeId).Nodup
  covered : evidencing.Covered records evidence
  drawn : ∀ row ∈ evidence, ∀ record ∈ records, record.nativeId = row.nativeId →
    edgeOf record = some row.edge
  present : ∀ row ∈ evidence, ∃ found ∈ edges, found.key = row.edge
  tallies : ∀ found ∈ edges, evidencing.Tallied records evidence found.key found.tally

namespace Evidenced

theorem append_record (h : Evidenced records edges evidence)
    (hnew : ∀ other ∈ records, other.nativeId ≠ record.nativeId) :
    Evidenced (records ++ [record]) edges evidence where
  keys := h.keys
  once := h.once
  covered := h.covered.append_record
  drawn row hrow found hfound hid := by
    rcases List.mem_append.mp hfound with hold | hadded
    · exact h.drawn row hrow found hold hid
    · obtain ⟨other, hother, hsame⟩ := h.covered row hrow
      rw [List.mem_singleton.mp hadded] at hid
      exact absurd (hsame.trans hid.symm) (hnew other hother)
  present := h.present
  tallies found hfound := (h.tallies found hfound).append_record h.covered hnew

theorem index (h : Evidenced records edges evidence)
    (hids : (records.map HistoryRecordV1.nativeId).Nodup) (hrecord : record ∈ records)
    (hfresh : record.nativeId ∉ evidence.map EdgeEvidence.nativeId)
    (hedge : edgeOf record = some edge) (hjoins : JoinsEdge edges edge record edges') :
    Evidenced records edges' (evidence ++ [⟨record.nativeId, edge⟩]) := by
  have honce : ((evidence ++ [(⟨record.nativeId, edge⟩ : EdgeEvidence)]).map
      EdgeEvidence.nativeId).Nodup :=
    Table.nodup_append_row h.once fun row hrow heq =>
      hfresh (List.mem_map.mpr ⟨row, hrow, heq⟩)
  have hcovered := h.covered.append ⟨record.nativeId, edge⟩ hrecord rfl
  have hdrawn : ∀ row ∈ evidence ++ [⟨record.nativeId, edge⟩], ∀ found ∈ records,
      found.nativeId = row.nativeId → edgeOf found = some row.edge := by
    intro row hrow found hfound hid
    rcases List.mem_append.mp hrow with hold | hnew
    · exact h.drawn row hold found hfound hid
    · rw [List.mem_singleton.mp hnew] at hid ⊢
      rw [List.inj_on_of_nodup_map hids hfound hrecord hid]
      exact hedge
  cases hjoins with
  | @prior target htarget hkey =>
      refine ⟨?_, honce, hcovered, hdrawn, ?_, ?_⟩
      · rw [Table.map_update]
        · exact h.keys
        · intro row
          rfl
      · have hkept : ∀ found ∈ edges, ∃ found' ∈ Table.update ServiceEdge.key edge
            (fun found => { found with tally := target.tally.add record.key }) edges,
            found'.key = found.key := by
          intro found hfound
          by_cases hsame : found.key = edge
          · exact ⟨_, Table.mem_update.mpr (.inr ⟨found, hfound, hsame, rfl⟩), rfl⟩
          · exact ⟨found, Table.mem_update.mpr (.inl ⟨hfound, hsame⟩), rfl⟩
        intro row hrow
        rcases List.mem_append.mp hrow with hold | hnew
        · obtain ⟨found, hfound, hfoundKey⟩ := h.present row hold
          obtain ⟨found', hfound', hkey'⟩ := hkept found hfound
          exact ⟨found', hfound', hkey'.trans hfoundKey⟩
        · obtain ⟨found', hfound', hkey'⟩ := hkept target htarget
          rw [List.mem_singleton.mp hnew]
          exact ⟨found', hfound', hkey'.trans hkey⟩
      · intro found hfound
        rcases Table.mem_update.mp hfound with ⟨hfound, hne⟩ | ⟨old, hold, hid, rfl⟩
        · exact (h.tallies found hfound).append_of_ne (Ne.symm hne)
        · have htallied := h.tallies target htarget
          rw [hkey] at htallied
          rw [show old.key = edge from hid]
          exact Labelling.Tallied.append (L := evidencing) ⟨record.nativeId, edge⟩ htallied hids
            hrecord rfl
  | new hkey =>
      have hunused : ∀ row ∈ evidence, row.edge ≠ edge := by
        intro row hrow heq
        obtain ⟨found, hfound, hfoundKey⟩ := h.present row hrow
        exact hkey found hfound (hfoundKey.trans heq)
      refine ⟨Table.nodup_append_row h.keys hkey, honce, hcovered, hdrawn, ?_, ?_⟩
      · intro row hrow
        rcases List.mem_append.mp hrow with hold | hnew
        · obtain ⟨found, hfound, hfoundKey⟩ := h.present row hold
          exact ⟨found, List.mem_append_left _ hfound, hfoundKey⟩
        · rw [List.mem_singleton.mp hnew]
          exact ⟨_, List.mem_append_right _ (List.mem_singleton_self _), rfl⟩
      · intro found hfound
        rcases List.mem_append.mp hfound with hold | hnew
        · exact (h.tallies found hold).append_of_ne (hkey found hold).symm
        · rw [List.mem_singleton.mp hnew]
          exact evidencing.tallied_one ⟨record.nativeId, edge⟩ hunused hids hrecord rfl

end Evidenced

end Edges

/-! ## All of the tables -/

section Tables

variable {t t' : Tables} {record : HistoryRecordV1} [LogModel]

/-- What drawing an edge does to the tables. -/
theorem indexNewEdge_ok (h : indexNewEdge t record = .ok t') :
    t' = t ∧ (record.nativeId ∈ t.edgeEvidence.map EdgeEvidence.nativeId ∨
      edgeOf record = none) ∨
    ∃ edge serviceEdges, record.nativeId ∉ t.edgeEvidence.map EdgeEvidence.nativeId ∧
      edgeOf record = some edge ∧ JoinsEdge t.serviceEdges edge record serviceEdges ∧
      t' = { t with
        serviceEdges
        edgeEvidence := t.edgeEvidence ++ [⟨record.nativeId, edge⟩]
        graphVersion := t.graphVersion + 1 } := by
  unfold indexNewEdge at h
  split at h
  · rename_i hold
    cases h
    exact .inl ⟨rfl, .inl hold⟩
  · rename_i hfresh
    split at h
    · rename_i hnone
      cases h
      exact .inl ⟨rfl, .inr hnone⟩
    · rename_i edge hedge
      obtain ⟨serviceEdges, hjoin, h⟩ := except_bind_eq_ok.mp h
      cases h
      exact .inr ⟨edge, serviceEdges, hfresh, hedge, joinsEdge hjoin, rfl⟩

variable [Sha256]

/-- What holds of the derived tables, whichever records are indexed. -/
structure Tables.Consistent (t : Tables) : Prop where
  grouped : Grouped t.historyRecords t.logGroups t.groupMembers
  summarised : Summarised t.historyRecords t.logGroups t.groupMembers t.severeServiceGroups
  evidenced : Evidenced t.historyRecords t.serviceEdges t.edgeEvidence

theorem Tables.consistent_empty : ({} : Tables).Consistent := by
  refine ⟨⟨?_, ?_, ?_, ?_, ?_, ?_, ?_, ?_⟩, ⟨?_, ?_, ?_, ?_, ?_⟩, ⟨?_, ?_, ?_, ?_, ?_, ?_⟩⟩ <;>
    simp [Labelling.Covered]

theorem Tables.Consistent.append_record (h : t.Consistent)
    (hnew : ∀ other ∈ t.historyRecords, other.nativeId ≠ record.nativeId) :
    ({ t with historyRecords := t.historyRecords ++ [record] } : Tables).Consistent :=
  ⟨h.grouped.append_record hnew, h.summarised.append_record h.grouped.covered hnew,
    h.evidenced.append_record hnew⟩

theorem Tables.Consistent.indexEdge (h : t.Consistent) (hrecord : record ∈ t.historyRecords)
    (hindex : indexNewEdge t record = .ok t') : t'.Consistent := by
  rcases indexNewEdge_ok hindex with ⟨rfl, _⟩ | ⟨edge, serviceEdges, hfresh, hedge, hjoins, rfl⟩
  · exact h
  · exact ⟨h.grouped, h.summarised,
      h.evidenced.index h.grouped.recordIds hrecord hfresh hedge hjoins⟩

variable [Rowids]

/-- What indexing a record does to the tables. -/
theorem indexNewRecord_ok (h : indexNewRecord t record = .ok t') :
    ∃ joined, JoinsGroup t.logGroups record joined ∧
      record.nativeId ∉ t.groupMembers.map GroupMember.nativeId ∧
      t' = { t with
        logGroups := joined.1
        severeServiceGroups :=
          if isSevere (groupKeyOf record).role then
            upsertSevereService t.severeServiceGroups (groupKeyOf record).service joined.2.1
              record.eventTimestampMillis record.eventTimestampMillis joined.2.2
          else t.severeServiceGroups
        groupTerms := indexGroupTerms t.groupTerms joined.2.1 (LogModel.parseEvent record.bytes)
        groupMembers := t.groupMembers ++ [⟨record.nativeId, joined.2.1⟩] } := by
  obtain ⟨joined, hjoin, h⟩ := except_bind_eq_ok.mp h
  dsimp only at h
  split at h
  · cases h
  · rename_i hfresh
    cases h
    exact ⟨joined, joinsGroup hjoin, hfresh, rfl⟩

theorem Tables.Consistent.indexRecord (h : t.Consistent) (hrecord : record ∈ t.historyRecords)
    (hindex : indexNewRecord t record = .ok t') : t'.Consistent := by
  obtain ⟨joined, hjoins, hfresh, rfl⟩ := indexNewRecord_ok hindex
  exact ⟨h.grouped.index hrecord hfresh hjoins,
    h.summarised.index h.grouped hrecord hjoins, h.evidenced⟩

end Tables

end Evidentrail
