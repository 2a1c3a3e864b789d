import Evidentrail.Corpus.Migrated

/-!
# Rebuilding is the same as ingesting

What an index says follows from the records alone, except for the ids of its groups. Two
open stores with the same records are therefore indexed alike, whatever pages their records
came in and however often an index was emptied and filled again
(`rebuild_equals_ingestion`).
-/

namespace Evidentrail

open Rust

/-! ## Indexes that are alike -/

/-- What a summary says, but for the groups it names. -/
def SevereServiceGroup.summary (row : SevereServiceGroup) : String × Nat × Int × Int :=
  (row.service, row.groupCount, row.oldestTimestampMillis, row.newestTimestampMillis)

namespace Tables

/-- The groups that a summary names are severe groups of its service, and have the
timestamps it says. -/
def NamesGroups (t : Tables) : Prop :=
  ∀ row ∈ t.severeServiceGroups,
    (∃ group ∈ t.logGroups, group.isSevereOf row.service = true ∧
      group.groupId = row.oldestGroupId ∧
      (ofLex group.tally.first).1 = row.oldestTimestampMillis) ∧
    ∃ group ∈ t.logGroups, group.isSevereOf row.service = true ∧
      group.groupId = row.newestGroupId ∧
      (ofLex group.tally.last).1 = row.newestTimestampMillis

/-- The same index, up to the ids of the groups, and to which of several groups with one
timestamp a summary names. -/
structure SameIndex (rename : Nat → Nat) (t t' : Tables) : Prop where
  groups : (t.logGroups.map fun group => (rename group.groupId, group.key, group.tally)).Perm
    (t'.logGroups.map fun group => (group.groupId, group.key, group.tally))
  members : (t.groupMembers.map fun member => (member.nativeId, rename member.groupId)).Perm
    (t'.groupMembers.map fun member => (member.nativeId, member.groupId))
  terms : (t.groupTerms.map fun row => (row.1, rename row.2)).Perm t'.groupTerms
  severe : (t.severeServiceGroups.map SevereServiceGroup.summary).Perm
    (t'.severeServiceGroups.map SevereServiceGroup.summary)
  named : t.NamesGroups ∧ t'.NamesGroups
  edges : t.serviceEdges.Perm t'.serviceEdges
  evidence : t.edgeEvidence.Perm t'.edgeEvidence

/-- The id of the group with the same key. -/
def renameGroup (t t' : Tables) (groupId : Nat) : Nat :=
  match Table.find LogGroup.groupId t.logGroups groupId with
  | none => 0
  | some group =>
      match Table.find LogGroup.key t'.logGroups group.key with
      | none => 0
      | some group' => group'.groupId

end Tables

section Rebuilt

variable [Sha256] [LogModel] {t t' : Tables}

/-- SHA-256 has no collision on the fingerprints of these records. -/
def NoFingerprintCollision (records : List HistoryRecordV1) : Prop :=
  ∀ a ∈ records, ∀ b ∈ records,
    Sha256.digest (Utf8.asBytes (LogModel.parseEvent a.bytes).fingerprint) =
        Sha256.digest (Utf8.asBytes (LogModel.parseEvent b.bytes).fingerprint) →
      (LogModel.parseEvent a.bytes).fingerprint = (LogModel.parseEvent b.bytes).fingerprint

theorem parseEvent_eq_of_key {records : List HistoryRecordV1}
    (hsha : NoFingerprintCollision records) {a b : HistoryRecordV1} (ha : a ∈ records)
    (hb : b ∈ records) (hkey : groupKeyOf a = groupKeyOf b) :
    LogModel.parseEvent a.bytes = LogModel.parseEvent b.bytes := by
  simp only [groupKeyOf, GroupKey.mk.injEq] at hkey
  obtain ⟨hservice, hrole, hdigest⟩ := hkey
  have hfingerprint := hsha a ha b hb hdigest
  cases ha : LogModel.parseEvent a.bytes
  cases hb : LogModel.parseEvent b.bytes
  rw [ha, hb] at hservice hrole hfingerprint
  simp only at hservice hrole hfingerprint
  rw [hservice, hrole, hfingerprint]

/-! ## An index in terms of its records -/

namespace Tables.Indexed

/-- The group of a record is the one with its key. -/
theorem group_of_record (h : t.Indexed) {record : HistoryRecordV1}
    (hrecord : record ∈ t.historyRecords) :
    ∃ group ∈ t.logGroups, group.key = groupKeyOf record ∧ t.InGroup record group.groupId := by
  obtain ⟨member, hmember, hid⟩ := List.mem_map.mp (h.complete record hrecord)
  obtain ⟨group, hgroup, hgroupId, hkey⟩ :=
    h.consistent.grouped.grouped member hmember record hrecord hid.symm
  exact ⟨group, hgroup, hkey, hrecord, member, hmember, hid, hgroupId.symm⟩

theorem inGroup_iff (h : t.Indexed) {group : LogGroup} (hgroup : group ∈ t.logGroups)
    {record : HistoryRecordV1} (hrecord : record ∈ t.historyRecords) :
    t.InGroup record group.groupId ↔ groupKeyOf record = group.key := by
  have hgrouped := h.consistent.grouped
  constructor
  · rintro ⟨_, member, hmember, hid, hgroupId⟩
    obtain ⟨found, hfound, hfoundId, hkey⟩ :=
      hgrouped.grouped member hmember record hrecord hid.symm
    rw [List.inj_on_of_nodup_map hgrouped.ids hfound hgroup (hfoundId.trans hgroupId)] at hkey
    exact hkey.symm
  · intro hkey
    obtain ⟨found, hfound, hfoundKey, hin⟩ := h.group_of_record hrecord
    rw [List.inj_on_of_nodup_map hgrouped.keys hfound hgroup (hfoundKey.trans hkey)] at hin
    exact hin

/-- Every group is that of a record. -/
theorem record_of_group (h : t.Indexed) {group : LogGroup} (hgroup : group ∈ t.logGroups) :
    ∃ record ∈ t.historyRecords, groupKeyOf record = group.key := by
  obtain ⟨record, hrecord, member, hmember, hid, hgroupId, _⟩ :=
    (h.consistent.grouped.tallies group hgroup).first_least.1
  exact ⟨record, hrecord,
    (h.inGroup_iff hgroup hrecord).mp ⟨hrecord, member, hmember, hid, hgroupId⟩⟩

theorem describes_group (h : t.Indexed) {group : LogGroup} (hgroup : group ∈ t.logGroups) :
    group.tally.Describes (t.historyRecords.countP fun record => groupKeyOf record = group.key)
      {key | ∃ record ∈ t.historyRecords, groupKeyOf record = group.key ∧ record.key = key} := by
  have hgrouped := h.consistent.grouped
  refine (hgrouped.tallies group hgroup).describes hgrouped.recordIds hgrouped.once
    hgrouped.covered fun record hrecord => ?_
  rw [← h.inGroup_iff hgroup hrecord]
  exact and_iff_right hrecord

/-- The terms of a group are those of each of its records. -/
theorem mem_terms (h : t.Indexed) (hsha : NoFingerprintCollision t.historyRecords)
    {row : Digest × Nat} :
    row ∈ t.groupTerms ↔ ∃ record ∈ t.historyRecords, ∃ group ∈ t.logGroups,
      group.key = groupKeyOf record ∧ group.groupId = row.2 ∧
        row.1 ∈ termDigests (LogModel.parseEvent record.bytes) := by
  have hgrouped := h.consistent.grouped
  constructor
  · intro hrow
    obtain ⟨record, hin, hterm⟩ := h.termsSound.sound row hrow
    obtain ⟨hrecord, member, hmember, hid, hgroupId⟩ := hin
    obtain ⟨group, hgroup, hsame, hkey⟩ :=
      hgrouped.grouped member hmember record hrecord hid.symm
    exact ⟨record, hrecord, group, hgroup, hkey, hsame.trans hgroupId, hterm⟩
  · rintro ⟨record, hrecord, group, hgroup, hkey, hgroupId, hterm⟩
    obtain ⟨found, hin, hterms⟩ := h.termsFull group hgroup
    have hfoundKey := (h.inGroup_iff hgroup hin.1).mp hin
    rw [parseEvent_eq_of_key hsha hrecord hin.1 (hkey.symm.trans hfoundKey.symm)] at hterm
    have hrow := hterms row.1 hterm
    rwa [hgroupId] at hrow

theorem mem_edgeEvidence (h : t.Indexed) {row : EdgeEvidence} :
    row ∈ t.edgeEvidence ↔
      ∃ record ∈ t.historyRecords, record.nativeId = row.nativeId ∧
        edgeOf record = some row.edge := by
  have hevidenced := h.consistent.evidenced
  constructor
  · intro hrow
    obtain ⟨record, hrecord, hid⟩ := hevidenced.covered row hrow
    exact ⟨record, hrecord, hid, hevidenced.drawn row hrow record hrecord hid⟩
  · rintro ⟨record, hrecord, hid, hedge⟩
    obtain ⟨found, hfound, hsame⟩ :=
      List.mem_map.mp (h.edgesFull record hrecord (hedge ▸ rfl))
    have hdrawn := hevidenced.drawn found hfound record hrecord hsame.symm
    rw [hedge, Option.some.injEq] at hdrawn
    have hrow : found = row := by
      cases found
      cases row
      simp only at hsame hid hdrawn
      rw [hsame, hid, hdrawn]
    exact hrow ▸ hfound

theorem describes_edge (h : t.Indexed) {edge : ServiceEdge} (hedge : edge ∈ t.serviceEdges) :
    edge.tally.Describes (t.historyRecords.countP fun record => edgeOf record = some edge.key)
      {key | ∃ record ∈ t.historyRecords, edgeOf record = some edge.key ∧ record.key = key} := by
  have hevidenced := h.consistent.evidenced
  refine (hevidenced.tallies edge hedge).describes h.consistent.grouped.recordIds hevidenced.once
    hevidenced.covered fun record hrecord => ?_
  constructor
  · intro hdrawn
    exact ⟨⟨record.nativeId, edge.key⟩, h.mem_edgeEvidence.mpr ⟨record, hrecord, rfl, hdrawn⟩,
      rfl, rfl⟩
  · rintro ⟨row, hrow, hid, hkey⟩
    rw [← hkey]
    exact hevidenced.drawn row hrow record hrecord hid.symm

/-- There is an edge for every record that draws one, and no other. -/
theorem edge_iff (h : t.Indexed) {key : EdgeKey} :
    (∃ edge ∈ t.serviceEdges, edge.key = key) ↔
      ∃ record ∈ t.historyRecords, edgeOf record = some key := by
  constructor
  · rintro ⟨edge, hedge, rfl⟩
    obtain ⟨record, hrecord, hdrawn, _⟩ := (h.describes_edge hedge).first_least.1
    exact ⟨record, hrecord, hdrawn⟩
  · rintro ⟨record, hrecord, hdrawn⟩
    exact h.consistent.evidenced.present ⟨record.nativeId, key⟩
      (h.mem_edgeEvidence.mpr ⟨record, hrecord, rfl, hdrawn⟩)

/-! ## Two indexes of the same records -/

theorem group_alike (h : t.Indexed) (h' : t'.Indexed)
    (hrecords : t.historyRecords.Perm t'.historyRecords) {group : LogGroup}
    (hgroup : group ∈ t.logGroups) :
    ∃ group' ∈ t'.logGroups, group'.key = group.key ∧ group'.tally = group.tally := by
  obtain ⟨record, hrecord, hkey⟩ := h.record_of_group hgroup
  obtain ⟨group', hgroup', hkey', _⟩ := h'.group_of_record (hrecords.mem_iff.mp hrecord)
  have hsame : group'.key = group.key := hkey'.trans hkey
  refine ⟨group', hgroup', hsame, ?_⟩
  have hdescribes := h'.describes_group hgroup'
  rw [hsame, ← hrecords.countP_eq] at hdescribes
  simp only [← hrecords.mem_iff] at hdescribes
  exact hdescribes.unique (h.describes_group hgroup)

theorem renameGroup_eq (h : t.Indexed) (h' : t'.Indexed) {group group' : LogGroup}
    (hgroup : group ∈ t.logGroups) (hgroup' : group' ∈ t'.logGroups)
    (hkey : group'.key = group.key) : t.renameGroup t' group.groupId = group'.groupId := by
  have hfind := Table.find_of_mem h'.consistent.grouped.keys hgroup'
  rw [hkey] at hfind
  unfold renameGroup
  simp only [Table.find_of_mem h.consistent.grouped.ids hgroup, hfind]

/-- Different groups have different names. -/
theorem renameGroup_inj (h : t.Indexed) (h' : t'.Indexed)
    (hrecords : t.historyRecords.Perm t'.historyRecords) {a b : LogGroup}
    (ha : a ∈ t.logGroups) (hb : b ∈ t.logGroups)
    (heq : t.renameGroup t' a.groupId = t.renameGroup t' b.groupId) : a.groupId = b.groupId := by
  obtain ⟨a', ha', hkeyA, _⟩ := h.group_alike h' hrecords ha
  obtain ⟨b', hb', hkeyB, _⟩ := h.group_alike h' hrecords hb
  rw [h.renameGroup_eq h' ha ha' hkeyA, h.renameGroup_eq h' hb hb' hkeyB] at heq
  rw [List.inj_on_of_nodup_map h'.consistent.grouped.ids ha' hb' heq] at hkeyA
  rw [List.inj_on_of_nodup_map h.consistent.grouped.keys ha hb (hkeyA.symm.trans hkeyB)]

theorem groups_perm (h : t.Indexed) (h' : t'.Indexed)
    (hrecords : t.historyRecords.Perm t'.historyRecords) :
    (t.logGroups.map fun group => (t.renameGroup t' group.groupId, group.key, group.tally)).Perm
      (t'.logGroups.map fun group => (group.groupId, group.key, group.tally)) := by
  have hkeys : ∀ {table : Tables}, table.Indexed → ∀ rename : Nat → Nat,
      (table.logGroups.map fun group => (rename group.groupId, group.key, group.tally)).Nodup := by
    intro table htable rename
    refine List.Nodup.of_map (fun row => row.2.1) ?_
    rw [List.map_map]
    exact htable.consistent.grouped.keys
  refine (List.perm_ext_iff_of_nodup (hkeys h _)
    (hkeys h' fun groupId => groupId)).mpr fun row => ?_
  rw [List.mem_map, List.mem_map]
  constructor
  · rintro ⟨group, hgroup, rfl⟩
    obtain ⟨group', hgroup', hkey, htally⟩ := h.group_alike h' hrecords hgroup
    exact ⟨group', hgroup', by rw [h.renameGroup_eq h' hgroup hgroup' hkey, hkey, htally]⟩
  · rintro ⟨group', hgroup', rfl⟩
    obtain ⟨group, hgroup, hkey, htally⟩ := h'.group_alike h hrecords.symm hgroup'
    exact ⟨group, hgroup, by rw [h.renameGroup_eq h' hgroup hgroup' hkey.symm, hkey, htally]⟩

theorem member_iff (h : t.Indexed) {nativeId : List UInt8} {groupId : Nat} :
    (∃ member ∈ t.groupMembers, member.nativeId = nativeId ∧ member.groupId = groupId) ↔
      ∃ record ∈ t.historyRecords, record.nativeId = nativeId ∧ ∃ group ∈ t.logGroups,
        group.key = groupKeyOf record ∧ group.groupId = groupId := by
  have hgrouped := h.consistent.grouped
  constructor
  · rintro ⟨member, hmember, hid, hgroupId⟩
    obtain ⟨record, hrecord, hsame⟩ := hgrouped.covered member hmember
    obtain ⟨group, hgroup, hfound, hkey⟩ := hgrouped.grouped member hmember record hrecord hsame
    exact ⟨record, hrecord, hsame.trans hid, group, hgroup, hkey, hfound.trans hgroupId⟩
  · rintro ⟨record, hrecord, rfl, group, hgroup, hkey, rfl⟩
    exact ((h.inGroup_iff hgroup hrecord).mpr hkey.symm).2

theorem members_perm (h : t.Indexed) (h' : t'.Indexed)
    (hrecords : t.historyRecords.Perm t'.historyRecords) :
    (t.groupMembers.map fun member =>
        (member.nativeId, t.renameGroup t' member.groupId)).Perm
      (t'.groupMembers.map fun member => (member.nativeId, member.groupId)) := by
  have honce : ∀ {table : Tables}, table.Indexed → ∀ rename : Nat → Nat,
      (table.groupMembers.map fun member => (member.nativeId, rename member.groupId)).Nodup := by
    intro table htable rename
    refine List.Nodup.of_map Prod.fst ?_
    rw [List.map_map]
    exact htable.consistent.grouped.once
  refine (List.perm_ext_iff_of_nodup (honce h _)
    (honce h' fun groupId => groupId)).mpr fun ⟨nativeId, groupId⟩ => ?_
  simp only [List.mem_map, Prod.mk.injEq]
  rw [h'.member_iff]
  constructor
  · rintro ⟨member, hmember, rfl, rfl⟩
    obtain ⟨record, hrecord, hid, group, hgroup, hkey, hsame⟩ :=
      h.member_iff.mp ⟨member, hmember, rfl, rfl⟩
    obtain ⟨group', hgroup', hkey', _⟩ := h.group_alike h' hrecords hgroup
    refine ⟨record, hrecords.mem_iff.mp hrecord, hid, group', hgroup', hkey'.trans hkey, ?_⟩
    rw [← hsame, h.renameGroup_eq h' hgroup hgroup' hkey']
  · rintro ⟨record, hrecord, hid, group', hgroup', hkey', rfl⟩
    obtain ⟨group, hgroup, hkey, _⟩ := h'.group_alike h hrecords.symm hgroup'
    obtain ⟨member, hmember, hmemberId, hgroupId⟩ := h.member_iff.mpr
      ⟨record, hrecords.mem_iff.mpr hrecord, hid, group, hgroup, hkey.trans hkey', rfl⟩
    rw [← h.renameGroup_eq h' hgroup hgroup' hkey.symm]
    exact ⟨member, hmember, hmemberId, congrArg _ hgroupId⟩

theorem terms_perm (h : t.Indexed) (h' : t'.Indexed)
    (hrecords : t.historyRecords.Perm t'.historyRecords)
    (hsha : NoFingerprintCollision t.historyRecords) :
    (t.groupTerms.map fun row => (row.1, t.renameGroup t' row.2)).Perm t'.groupTerms := by
  have hsha' : NoFingerprintCollision t'.historyRecords := fun a ha b hb =>
    hsha a (hrecords.mem_iff.mpr ha) b (hrecords.mem_iff.mpr hb)
  refine (List.perm_ext_iff_of_nodup ?_ h'.termsSound.once).mpr fun ⟨digest, groupId⟩ => ?_
  · refine h.termsSound.once.map_on fun a ha b hb heq => ?_
    rw [Prod.mk.injEq] at heq
    obtain ⟨_, _, groupA, hgroupA, _, hidA, _⟩ := (h.mem_terms hsha).mp ha
    obtain ⟨_, _, groupB, hgroupB, _, hidB, _⟩ := (h.mem_terms hsha).mp hb
    rw [← hidA, ← hidB] at heq
    have hsame := h.renameGroup_inj h' hrecords hgroupA hgroupB heq.2
    exact Prod.ext heq.1 (hidA.symm.trans (hsame.trans hidB))
  · rw [h'.mem_terms hsha', List.mem_map]
    constructor
    · rintro ⟨row, hrow, hname⟩
      rw [Prod.mk.injEq] at hname
      obtain ⟨record, hrecord, group, hgroup, hkey, hid, hterm⟩ := (h.mem_terms hsha).mp hrow
      obtain ⟨group', hgroup', hkey', _⟩ := h.group_alike h' hrecords hgroup
      refine ⟨record, hrecords.mem_iff.mp hrecord, group', hgroup', hkey'.trans hkey, ?_,
        hname.1 ▸ hterm⟩
      rw [← hname.2, ← hid, h.renameGroup_eq h' hgroup hgroup' hkey']
    · rintro ⟨record, hrecord, group', hgroup', hkey', hid, hterm⟩
      obtain ⟨group, hgroup, hkey, _⟩ := h'.group_alike h hrecords.symm hgroup'
      refine ⟨(digest, group.groupId), (h.mem_terms hsha).mpr ⟨record,
        hrecords.mem_iff.mpr hrecord, group, hgroup, hkey.trans hkey', rfl, hterm⟩, ?_⟩
      rw [h.renameGroup_eq h' hgroup hgroup' hkey.symm, hid]

/-! ### Services -/

/-- What the severe groups of a service say of one of their columns. -/
def severeColumn (t : Tables) (column : Tally RecordKey → Int) (service : String) : Set Int :=
  {ts | ∃ group ∈ t.logGroups, group.isSevereOf service = true ∧ column group.tally = ts}

theorem severeColumn_subset (h : t.Indexed) (h' : t'.Indexed)
    (hrecords : t.historyRecords.Perm t'.historyRecords) {column : Tally RecordKey → Int}
    {service : String} : severeColumn t column service ⊆ severeColumn t' column service := by
  rintro ts ⟨group, hgroup, hsevere, rfl⟩
  obtain ⟨group', hgroup', hkey, htally⟩ := h.group_alike h' hrecords hgroup
  exact ⟨group', hgroup', (LogGroup.isSevereOf_of_key hkey service).trans hsevere, by rw [htally]⟩

theorem oldest_least (h : t.Indexed) {row : SevereServiceGroup}
    (hrow : row ∈ t.severeServiceGroups) :
    IsLeast (severeColumn t (fun tally => (ofLex tally.first).1) row.service)
      row.oldestTimestampMillis := by
  obtain ⟨hmem, hle⟩ := (h.consistent.derivedIndex h.complete).severeOldest row hrow
  obtain ⟨group, hgroup, hsevere, heq⟩ := hmem
  refine ⟨⟨group, hgroup, hsevere, congrArg (fun entry : Int ×ₗ Nat => (ofLex entry).1) heq⟩, ?_⟩
  rintro ts ⟨other, hother, hotherSevere, rfl⟩
  exact Prod.Lex.monotone_fst _ _ (hle ⟨other, hother, hotherSevere, rfl⟩)

theorem newest_greatest (h : t.Indexed) {row : SevereServiceGroup}
    (hrow : row ∈ t.severeServiceGroups) :
    IsGreatest (severeColumn t (fun tally => (ofLex tally.last).1) row.service)
      row.newestTimestampMillis := by
  obtain ⟨hmem, hle⟩ := (h.consistent.derivedIndex h.complete).severeNewest row hrow
  obtain ⟨group, hgroup, hsevere, heq⟩ := hmem
  refine ⟨⟨group, hgroup, hsevere, congrArg (fun entry : Int ×ₗ Nat => (ofLex entry).1) heq⟩, ?_⟩
  rintro ts ⟨other, hother, hotherSevere, rfl⟩
  exact Prod.Lex.monotone_fst _ _ (hle ⟨other, hother, hotherSevere, rfl⟩)

theorem namesGroups (h : t.Indexed) : t.NamesGroups := by
  intro row hrow
  have hindex := h.consistent.derivedIndex h.complete
  refine ⟨?_, ?_⟩
  · obtain ⟨group, hgroup, hsevere, heq⟩ := (hindex.severeOldest row hrow).1
    exact ⟨group, hgroup, hsevere, congrArg (fun entry : Int ×ₗ Nat => (ofLex entry).2) heq,
      congrArg (fun entry : Int ×ₗ Nat => (ofLex entry).1) heq⟩
  · obtain ⟨group, hgroup, hsevere, heq⟩ := (hindex.severeNewest row hrow).1
    exact ⟨group, hgroup, hsevere, congrArg (fun entry : Int ×ₗ Nat => (ofLex entry).2) heq,
      congrArg (fun entry : Int ×ₗ Nat => (ofLex entry).1) heq⟩

theorem countP_severe (h : t.Indexed) (h' : t'.Indexed)
    (hrecords : t.historyRecords.Perm t'.historyRecords) (service : String) :
    t.logGroups.countP (LogGroup.isSevereOf service) =
      t'.logGroups.countP (LogGroup.isSevereOf service) := by
  have hcount := (h.groups_perm h' hrecords).countP_eq
    fun row => isSevere row.2.1.role && row.2.1.service = service
  rwa [List.countP_map, List.countP_map] at hcount

theorem summary_mem (h : t.Indexed) (h' : t'.Indexed)
    (hrecords : t.historyRecords.Perm t'.historyRecords) {row : SevereServiceGroup}
    (hrow : row ∈ t.severeServiceGroups) :
    row.summary ∈ t'.severeServiceGroups.map SevereServiceGroup.summary := by
  obtain ⟨⟨group, hgroup, hsevere, _⟩, _⟩ := h.namesGroups row hrow
  obtain ⟨group', hgroup', hkey, _⟩ := h.group_alike h' hrecords hgroup
  obtain ⟨hrole, hservice⟩ := LogGroup.isSevereOf_iff.mp
    ((LogGroup.isSevereOf_of_key hkey row.service).trans hsevere)
  obtain ⟨row', hrow', hsame⟩ := h'.consistent.summarised.present group' hgroup' hrole
  rw [hservice] at hsame
  have hcolumn : ∀ column service,
      severeColumn t column service = severeColumn t' column service := fun column service =>
    (h.severeColumn_subset h' hrecords).antisymm (h'.severeColumn_subset h hrecords.symm)
  have holdest := h'.oldest_least hrow'
  have hnewest := h'.newest_greatest hrow'
  rw [hsame, ← hcolumn] at holdest hnewest
  refine List.mem_map.mpr ⟨row', hrow', ?_⟩
  rw [SevereServiceGroup.summary, SevereServiceGroup.summary, hsame,
    holdest.unique (h.oldest_least hrow), hnewest.unique (h.newest_greatest hrow),
    h'.consistent.summarised.counts row' hrow', h.consistent.summarised.counts row hrow, hsame,
    h.countP_severe h' hrecords]

theorem severe_perm (h : t.Indexed) (h' : t'.Indexed)
    (hrecords : t.historyRecords.Perm t'.historyRecords) :
    (t.severeServiceGroups.map SevereServiceGroup.summary).Perm
      (t'.severeServiceGroups.map SevereServiceGroup.summary) := by
  have hservices : ∀ {table : Tables}, table.Indexed →
      (table.severeServiceGroups.map SevereServiceGroup.summary).Nodup := by
    intro table htable
    refine List.Nodup.of_map Prod.fst ?_
    rw [List.map_map]
    exact htable.consistent.summarised.services
  refine (List.perm_ext_iff_of_nodup (hservices h) (hservices h')).mpr fun summary => ?_
  constructor
  · rintro hmem
    obtain ⟨row, hrow, rfl⟩ := List.mem_map.mp hmem
    exact h.summary_mem h' hrecords hrow
  · rintro hmem
    obtain ⟨row, hrow, rfl⟩ := List.mem_map.mp hmem
    exact h'.summary_mem h hrecords.symm hrow

/-! ### Edges -/

theorem edge_mem (h : t.Indexed) (h' : t'.Indexed)
    (hrecords : t.historyRecords.Perm t'.historyRecords) {edge : ServiceEdge}
    (hedge : edge ∈ t.serviceEdges) : edge ∈ t'.serviceEdges := by
  obtain ⟨record, hrecord, hdrawn⟩ := h.edge_iff.mp ⟨edge, hedge, rfl⟩
  obtain ⟨edge', hedge', hkey⟩ := h'.edge_iff.mpr ⟨record, hrecords.mem_iff.mp hrecord, hdrawn⟩
  have hdescribes := h'.describes_edge hedge'
  rw [hkey, ← hrecords.countP_eq] at hdescribes
  simp only [← hrecords.mem_iff] at hdescribes
  have htally := hdescribes.unique (h.describes_edge hedge)
  have hsame : edge' = edge := by
    cases edge
    cases edge'
    simp only at hkey htally
    rw [hkey, htally]
  exact hsame ▸ hedge'

theorem edges_perm (h : t.Indexed) (h' : t'.Indexed)
    (hrecords : t.historyRecords.Perm t'.historyRecords) :
    t.serviceEdges.Perm t'.serviceEdges :=
  (List.perm_ext_iff_of_nodup h.consistent.evidenced.keys.of_map
    h'.consistent.evidenced.keys.of_map).mpr fun _ =>
      ⟨h.edge_mem h' hrecords, h'.edge_mem h hrecords.symm⟩

theorem evidence_perm (h : t.Indexed) (h' : t'.Indexed)
    (hrecords : t.historyRecords.Perm t'.historyRecords) :
    t.edgeEvidence.Perm t'.edgeEvidence := by
  refine (List.perm_ext_iff_of_nodup h.consistent.evidenced.once.of_map
    h'.consistent.evidenced.once.of_map).mpr fun row => ?_
  rw [h.mem_edgeEvidence, h'.mem_edgeEvidence]
  simp only [hrecords.mem_iff]

theorem sameIndex (h : t.Indexed) (h' : t'.Indexed)
    (hrecords : t.historyRecords.Perm t'.historyRecords)
    (hsha : NoFingerprintCollision t.historyRecords) :
    SameIndex (t.renameGroup t') t t' where
  groups := h.groups_perm h' hrecords
  members := h.members_perm h' hrecords
  terms := h.terms_perm h' hrecords hsha
  severe := h.severe_perm h' hrecords
  named := ⟨h.namesGroups, h'.namesGroups⟩
  edges := h.edges_perm h' hrecords
  evidence := h.evidence_perm h' hrecords

end Tables.Indexed

/-! ## Histories -/

variable [Rowids]

/-- Two histories that end with an open store and the same records end with the same index. -/
theorem rebuild_equals_ingestion (events events' : List CorpusEvent)
    (hready : (CorpusHistory.run {} events).ready = true)
    (hready' : (CorpusHistory.run {} events').ready = true)
    (hrecords : ∀ record, record ∈ (CorpusHistory.run {} events).store.tables.historyRecords ↔
      record ∈ (CorpusHistory.run {} events').store.tables.historyRecords)
    (hsha : NoFingerprintCollision
      (CorpusHistory.run {} events).store.tables.historyRecords) :
    ∃ rename, Tables.SameIndex rename (CorpusHistory.run {} events).store.tables
      (CorpusHistory.run {} events').store.tables := by
  have h := ((CorpusHistory.valid_empty.run events).ready hready).indexed
  have h' := ((CorpusHistory.valid_empty.run events').ready hready').indexed
  have hperm := (List.perm_ext_iff_of_nodup h.consistent.grouped.recordIds.of_map
    h'.consistent.grouped.recordIds.of_map).mpr hrecords
  exact ⟨_, h.sameIndex h' hperm hsha⟩

end Rebuilt

/-! ## A history with two rebuilds -/

/-- Groups of records that are gone, and everything is said to be complete. -/
def staleStore : CorpusStore where
  tables :=
    { logGroups := [⟨9, ⟨"old", "error", Digest.zero⟩, .one (toLex (1, [9]))⟩]
      groupMembers := [⟨[5], 9⟩, ⟨[9], 9⟩]
      severeServiceGroups := [⟨"old", 1, 9, 1, 9, 1⟩]
      serviceEdges := [⟨⟨"old", "db"⟩, .one (toLex (1, [9]))⟩]
      edgeEvidence := [⟨[9], ⟨"old", "db"⟩⟩] }
  graph := ⟨1, true⟩
  terms := ⟨1, true⟩
  severe := ⟨1, true, 9⟩

def ingestedEvents : List CorpusEvent :=
  [.openStore none, .commitPage none [⟨[1], 5, [1]⟩, ⟨[2], 7, [2]⟩],
    .commitPage none [⟨[4], 3, [1, 1]⟩, ⟨[5], 9, [1]⟩]]

/-- The same records in another order. An older program leaves its own groups in between, and
the open that replaces them is cut before a record is indexed; in the end edges and summaries
are made anew. -/
def rebuiltEvents : List CorpusEvent :=
  [.openStore none, .commitPage none [⟨[5], 9, [1]⟩, ⟨[2], 7, [2]⟩], .ofParser staleStore 3,
    .openStore (some 3), .openStore none, .commitPage none [⟨[1], 5, [1]⟩, ⟨[4], 3, [1, 1]⟩],
    .ofExtractor staleStore, .beforeSevere, .openStore (some 2), .openStore none]

theorem rebuild_equals_ingestion_calling :
    letI := fips180
    letI := callingLog
    letI := noRetry
    let ingested := (CorpusHistory.run {} ingestedEvents).store.tables
    let rebuilt := (CorpusHistory.run {} rebuiltEvents).store.tables
    ingested.logGroups.map (·.tally.count) = [2, 1, 1] ∧
      rebuilt.logGroups.map (·.tally.count) = [1, 2, 1] ∧
      rebuilt.severeServiceGroups.map SevereServiceGroup.summary =
        [("db", 1, 7, 7), ("api", 2, 3, 9)] ∧
      rebuilt.serviceEdges.map (·.tally.count) = [3] ∧
      ∃ rename, Tables.SameIndex rename ingested rebuilt := by
  rw [fips180_eq]
  let := fips180Evaluated
  let := callingLog
  let := noRetry
  intro ingested rebuilt
  have hrun : (CorpusHistory.run {} ingestedEvents).ready = true ∧
      (CorpusHistory.run {} rebuiltEvents).ready = true ∧
      (CorpusHistory.run {} ingestedEvents).store.tables.historyRecords.Perm
        (CorpusHistory.run {} rebuiltEvents).store.tables.historyRecords ∧
      ingested.logGroups.map (·.tally.count) = [2, 1, 1] ∧
      rebuilt.logGroups.map (·.tally.count) = [1, 2, 1] ∧
      rebuilt.severeServiceGroups.map SevereServiceGroup.summary =
        [("db", 1, 7, 7), ("api", 2, 3, 9)] ∧
      rebuilt.serviceEdges.map (·.tally.count) = [3] := by
    decide +kernel
  obtain ⟨hready, hready', hrecords, hgroups, hgroups', hsevere, hedges⟩ := hrun
  have hsha : NoFingerprintCollision
      (CorpusHistory.run {} ingestedEvents).store.tables.historyRecords := by
    unfold NoFingerprintCollision
    decide +kernel
  exact ⟨hgroups, hgroups', hsevere, hedges, rebuild_equals_ingestion ingestedEvents rebuiltEvents
    hready hready' (fun record => hrecords.mem_iff) hsha⟩

end Evidentrail
