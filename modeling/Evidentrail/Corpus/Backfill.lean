import Evidentrail.Corpus.Migration

/-!
# Tables that are filled later

The summaries of services can be made from the groups alone, one group after the other
(`Summary.upsert`), and are then those that are kept record by record
(`Summary.summarised`). The terms of a group are those of any of its records, and what an
edge is drawn from stands in its evidence. What holds of all tables once they are filled
(`Tables.Indexed`) is kept by every record that is committed.
-/

namespace Evidentrail

open Rust

/-! ## Summaries of some groups -/

/-- The entries of the severe groups of a service. -/
def severeEntries (entry : LogGroup → Int ×ₗ Nat) (groups : List LogGroup) (service : String) :
    Set (Int ×ₗ Nat) :=
  {e | ∃ group ∈ groups, group.isSevereOf service = true ∧ entry group = e}

/-- The row sums up the severe groups of its service. -/
structure SumsUp (groups : List LogGroup) (row : SevereServiceGroup) : Prop where
  count : row.groupCount = groups.countP (LogGroup.isSevereOf row.service)
  oldest : IsLeast (severeEntries LogGroup.oldest groups row.service) row.oldest
  newest : IsGreatest (severeEntries LogGroup.newest groups row.service) row.newest

/-- The rows sum up exactly these groups. -/
structure Summary (groups : List LogGroup) (severe : List SevereServiceGroup) : Prop where
  services : (severe.map SevereServiceGroup.service).Nodup
  rows : ∀ row ∈ severe, SumsUp groups row
  present : ∀ group ∈ groups, isSevere group.key.role = true →
    ∃ row ∈ severe, row.service = group.key.service

theorem LogGroup.isSevereOf_iff {group : LogGroup} {service : String} :
    group.isSevereOf service = true ↔
      isSevere group.key.role = true ∧ group.key.service = service := by
  rw [isSevereOf, Bool.and_eq_true, decide_eq_true_eq]

theorem LogGroup.isSevereOf_of_key {group group' : LogGroup} (hkey : group'.key = group.key)
    (service : String) : group'.isSevereOf service = group.isSevereOf service := by
  rw [isSevereOf, isSevereOf, hkey]

section Entries

variable {groups groups' : List LogGroup} {entry : LogGroup → Int ×ₗ Nat} {service : String}
  {group : LogGroup} {row : SevereServiceGroup} {severe : List SevereServiceGroup}

theorem severeEntries_perm (hperm : groups.Perm groups') :
    severeEntries entry groups service = severeEntries entry groups' service := by
  ext e
  simp only [severeEntries, Set.mem_ofPred_eq, hperm.mem_iff]

/-- The entries of a service when a group is added. -/
theorem severeEntries_append :
    severeEntries entry (groups ++ [group]) service =
      if group.isSevereOf service = true then
        insert (entry group) (severeEntries entry groups service)
      else severeEntries entry groups service := by
  ext e
  split
  · rename_i hsevere
    simp only [severeEntries, List.mem_append, List.mem_singleton, Set.mem_ofPred_eq,
      Set.mem_insert_iff]
    constructor
    · rintro ⟨found, hold | rfl, hfound, rfl⟩
      · exact .inr ⟨found, hold, hfound, rfl⟩
      · exact .inl rfl
    · rintro (rfl | ⟨found, hold, hfound, rfl⟩)
      · exact ⟨group, .inr rfl, hsevere, rfl⟩
      · exact ⟨found, .inl hold, hfound, rfl⟩
  · rename_i hother
    simp only [severeEntries, List.mem_append, List.mem_singleton, Set.mem_ofPred_eq]
    constructor
    · rintro ⟨found, hold | rfl, hfound, rfl⟩
      · exact ⟨found, hold, hfound, rfl⟩
      · exact absurd hfound hother
    · rintro ⟨found, hold, hfound, rfl⟩
      exact ⟨found, .inl hold, hfound, rfl⟩

theorem countP_append_group :
    (groups ++ [group]).countP (LogGroup.isSevereOf service) =
      groups.countP (LogGroup.isSevereOf service) +
        if group.isSevereOf service = true then 1 else 0 := by
  rw [List.countP_append, List.countP_singleton]

theorem SumsUp.perm (h : SumsUp groups row) (hperm : groups.Perm groups') :
    SumsUp groups' row where
  count := h.count.trans (hperm.countP_eq _)
  oldest := severeEntries_perm hperm ▸ h.oldest
  newest := severeEntries_perm hperm ▸ h.newest

/-- A group of another service, or one that is not severe. -/
theorem SumsUp.other (h : SumsUp groups row) (hother : ¬group.isSevereOf row.service = true) :
    SumsUp (groups ++ [group]) row := by
  refine ⟨?_, ?_, ?_⟩
  · rw [countP_append_group, if_neg hother]
    exact h.count
  · rw [severeEntries_append, if_neg hother]
    exact h.oldest
  · rw [severeEntries_append, if_neg hother]
    exact h.newest

/-- A severe group of the service of the row. -/
theorem SumsUp.merge (h : SumsUp groups row) (hsevere : group.isSevereOf row.service = true) :
    SumsUp (groups ++ [group]) (row.merge group.groupId (ofLex group.tally.first).1
      (ofLex group.tally.last).1 true) := by
  refine ⟨?_, ?_, ?_⟩
  · show row.groupCount + 1 = (groups ++ [group]).countP (LogGroup.isSevereOf row.service)
    rw [countP_append_group, if_pos hsevere, h.count]
  · show IsLeast (severeEntries _ (groups ++ [group]) row.service) _
    rw [severeEntries_append, if_pos hsevere, SevereServiceGroup.merge_oldest]
    exact h.oldest.replace
  · show IsGreatest (severeEntries _ (groups ++ [group]) row.service) _
    rw [severeEntries_append, if_pos hsevere, SevereServiceGroup.merge_newest]
    exact h.newest.replace

/-- The row of a service that had no severe group. -/
theorem SumsUp.first (hsevere : isSevere group.key.role = true)
    (hnone : ∀ found ∈ groups, ¬found.isSevereOf group.key.service = true) :
    SumsUp (groups ++ [group]) ⟨group.key.service, 1, group.groupId, (ofLex group.tally.first).1,
      group.groupId, (ofLex group.tally.last).1⟩ := by
  have hown : group.isSevereOf group.key.service = true :=
    LogGroup.isSevereOf_iff.mpr ⟨hsevere, rfl⟩
  have hempty : ∀ entry, severeEntries entry groups group.key.service = ∅ := by
    intro entry
    rw [Set.eq_empty_iff_forall_notMem]
    rintro e ⟨found, hfound, hcounted, _⟩
    exact hnone found hfound hcounted
  refine ⟨?_, ?_, ?_⟩
  · show 1 = (groups ++ [group]).countP (LogGroup.isSevereOf group.key.service)
    rw [countP_append_group, if_pos hown, List.countP_eq_zero.mpr hnone]
  · show IsLeast (severeEntries _ (groups ++ [group]) group.key.service) _
    rw [severeEntries_append, if_pos hown, hempty, insert_empty_eq]
    exact isLeast_singleton
  · show IsGreatest (severeEntries _ (groups ++ [group]) group.key.service) _
    rw [severeEntries_append, if_pos hown, hempty, insert_empty_eq]
    exact isGreatest_singleton

namespace Summary

theorem empty : Summary [] [] :=
  ⟨List.nodup_nil, List.forall_mem_nil _, List.forall_mem_nil _⟩

theorem perm (h : Summary groups severe) (hperm : groups.Perm groups') :
    Summary groups' severe where
  services := h.services
  rows row hrow := (h.rows row hrow).perm hperm
  present group hgroup := h.present group (hperm.mem_iff.mpr hgroup)

/-- A service without a row has no severe group. -/
theorem none_severe (h : Summary groups severe)
    (hnone : ∀ row ∈ severe, row.service ≠ service) :
    ∀ found ∈ groups, ¬found.isSevereOf service = true := by
  intro found hfound hcounted
  obtain ⟨hsevere, hservice⟩ := LogGroup.isSevereOf_iff.mp hcounted
  obtain ⟨row, hrow, hsame⟩ := h.present found hfound hsevere
  exact hnone row hrow (hsame.trans hservice)

/-- One more group is added to the row of its service. -/
theorem upsert (h : Summary groups severe) (group : LogGroup) :
    Summary (groups ++ [group]) (CorpusStore.upsertCard severe group) := by
  unfold CorpusStore.upsertCard
  split
  · rename_i hsevere
    unfold upsertSevereService
    split
    · rename_i hfind
      have hnone := Table.find_eq_none.mp hfind
      refine ⟨Table.nodup_append_row h.services hnone, ?_, ?_⟩
      · intro row hrow
        rcases List.mem_append.mp hrow with hold | hnew
        · refine (h.rows row hold).other fun hsame => hnone row hold ?_
          exact (LogGroup.isSevereOf_iff.mp hsame).2.symm
        · rw [List.mem_singleton.mp hnew]
          exact .first hsevere (h.none_severe hnone)
      · intro found hfound hfoundSevere
        rcases List.mem_append.mp hfound with hold | hnew
        · obtain ⟨row, hrow, hservice⟩ := h.present found hold hfoundSevere
          exact ⟨row, List.mem_append_left _ hrow, hservice⟩
        · rw [List.mem_singleton.mp hnew]
          exact ⟨_, List.mem_append_right _ (List.mem_singleton_self _), rfl⟩
    · rename_i prior hfind
      obtain ⟨hprior, hpriorService⟩ := Table.mem_of_find hfind
      refine ⟨?_, ?_, ?_⟩
      · rw [Table.map_update]
        · exact h.services
        · intro row
          rfl
      · intro row hrow
        rcases Table.mem_update.mp hrow with ⟨hrow, hne⟩ | ⟨old, hold, hservice, rfl⟩
        · refine (h.rows row hrow).other fun hsame => hne ?_
          exact (LogGroup.isSevereOf_iff.mp hsame).2.symm
        · exact (h.rows old hold).merge (LogGroup.isSevereOf_iff.mpr ⟨hsevere, hservice.symm⟩)
      · have hkept : ∀ row ∈ severe, ∃ row' ∈ Table.update SevereServiceGroup.service
            group.key.service (fun row => row.merge group.groupId (ofLex group.tally.first).1
              (ofLex group.tally.last).1 true) severe, row'.service = row.service := by
          intro row hrow
          by_cases hsame : row.service = group.key.service
          · exact ⟨_, Table.mem_update.mpr (.inr ⟨row, hrow, hsame, rfl⟩), rfl⟩
          · exact ⟨row, Table.mem_update.mpr (.inl ⟨hrow, hsame⟩), rfl⟩
        intro found hfound hfoundSevere
        rcases List.mem_append.mp hfound with hold | hnew
        · obtain ⟨row, hrow, hservice⟩ := h.present found hold hfoundSevere
          obtain ⟨row', hrow', hservice'⟩ := hkept row hrow
          exact ⟨row', hrow', hservice'.trans hservice⟩
        · obtain ⟨row', hrow', hservice'⟩ := hkept prior hprior
          rw [List.mem_singleton.mp hnew]
          exact ⟨row', hrow', hservice'.trans hpriorService⟩
  · rename_i hsevere
    have hother : ∀ service, ¬group.isSevereOf service = true := fun service hcounted =>
      hsevere (LogGroup.isSevereOf_iff.mp hcounted).1
    refine ⟨h.services, fun row hrow => (h.rows row hrow).other (hother _), ?_⟩
    intro found hfound hfoundSevere
    rcases List.mem_append.mp hfound with hold | hnew
    · exact h.present found hold hfoundSevere
    · rw [List.mem_singleton.mp hnew] at hfoundSevere
      exact absurd hfoundSevere hsevere

theorem upsertCards (h : Summary groups severe) (cards : List LogGroup) :
    Summary (groups ++ cards) (cards.foldl CorpusStore.upsertCard severe) := by
  induction cards generalizing groups severe with
  | nil => rwa [List.append_nil]
  | cons card rest ih =>
      rw [List.foldl_cons, List.append_cons]
      exact ih (h.upsert card)

variable [Sha256] [LogModel] {records : List HistoryRecordV1} {members : List GroupMember}

/-- What is made from the groups is what is kept record by record. -/
theorem summarised (h : Summary groups severe) (hgrouped : Grouped records groups members) :
    Summarised records groups members severe where
  services := h.services
  counts row hrow := (h.rows row hrow).count
  oldest row hrow := by
    refine (h.rows row hrow).oldest.of_part ?_ ?_
    · rintro entry ⟨group, hgroup, hsevere, rfl⟩
      exact hgrouped.entry_of_key hgroup hsevere (hgrouped.tallies group hgroup).first_least.1
    · intro entry hentry
      obtain ⟨group, hgroup, hsevere, hle, _⟩ := hgrouped.group_of_entry hentry
      exact ⟨group.oldest, ⟨group, hgroup, hsevere, rfl⟩, hle⟩
  newest row hrow := by
    refine (h.rows row hrow).newest.of_part ?_ ?_
    · rintro entry ⟨group, hgroup, hsevere, rfl⟩
      exact hgrouped.entry_of_key hgroup hsevere (hgrouped.tallies group hgroup).last_greatest.1
    · intro entry hentry
      obtain ⟨group, hgroup, hsevere, _, hle⟩ := hgrouped.group_of_entry hentry
      exact ⟨group.newest, ⟨group, hgroup, hsevere, rfl⟩, hle⟩
  present := h.present

end Summary

end Entries

/-! ## Terms -/

section Terms

variable [Sha256] {t t' : Tables} {record : HistoryRecordV1}

/-- The digests of the terms of an event. -/
def termDigests (parsed : ParsedEvent) : List Digest :=
  (searchTerms (parsed.service ++ " " ++ parsed.role ++ " " ++ parsed.fingerprint) 64).map
    fun term => Sha256.digest (Utf8.asBytes term)

theorem mem_insertTerm {table : List (Digest × Nat)} {groupId : Nat} {term : String}
    {row : Digest × Nat} :
    row ∈ insertTerm groupId table term ↔
      row ∈ table ∨ row = (Sha256.digest (Utf8.asBytes term), groupId) := by
  unfold insertTerm
  dsimp only
  split
  · rename_i hold
    constructor
    · exact .inl
    · rintro (hrow | rfl)
      · exact hrow
      · exact hold
  · rw [List.mem_append, List.mem_singleton]

theorem mem_indexGroupTerms {table : List (Digest × Nat)} {groupId : Nat} {parsed : ParsedEvent}
    {row : Digest × Nat} :
    row ∈ indexGroupTerms table groupId parsed ↔
      row ∈ table ∨ row.1 ∈ termDigests parsed ∧ row.2 = groupId := by
  unfold indexGroupTerms termDigests
  induction searchTerms (parsed.service ++ " " ++ parsed.role ++ " " ++ parsed.fingerprint) 64
    generalizing table with
  | nil => simp
  | cons term rest ih =>
      rw [List.foldl_cons, ih, mem_insertTerm, List.map_cons, List.mem_cons, Prod.ext_iff]
      tauto

/-- `PRIMARY KEY(term_digest, group_id)`. -/
theorem nodup_indexGroupTerms {table : List (Digest × Nat)} (h : table.Nodup) (groupId : Nat)
    (parsed : ParsedEvent) : (indexGroupTerms table groupId parsed).Nodup := by
  unfold indexGroupTerms
  induction searchTerms (parsed.service ++ " " ++ parsed.role ++ " " ++ parsed.fingerprint) 64
    generalizing table with
  | nil => exact h
  | cons term rest ih =>
      refine ih ?_
      unfold insertTerm
      dsimp only
      split
      · exact h
      · rename_i hnew
        exact List.nodup_append.mpr ⟨h, List.nodup_singleton _, fun a ha b hb heq =>
          hnew (List.mem_singleton.mp hb ▸ heq ▸ ha)⟩

namespace Tables

/-- The record stands in the group. -/
def InGroup (t : Tables) (record : HistoryRecordV1) (groupId : Nat) : Prop :=
  record ∈ t.historyRecords ∧
    ∃ member ∈ t.groupMembers, member.nativeId = record.nativeId ∧ member.groupId = groupId

/-- Nothing is taken from a group. -/
structure Grows (t t' : Tables) : Prop where
  records : t.historyRecords ⊆ t'.historyRecords
  members : t.groupMembers ⊆ t'.groupMembers
  terms : t.groupTerms ⊆ t'.groupTerms

omit [Sha256] in
theorem InGroup.mono {groupId : Nat} (h : t.InGroup record groupId) (hle : t.Grows t') :
    t'.InGroup record groupId :=
  ⟨hle.records h.1, h.2.imp fun _ hmember => ⟨hle.members hmember.1, hmember.2⟩⟩

omit [Sha256] in
/-- The record stands in the group it joined. -/
theorem inGroup_of_append {groupId : Nat} (hrecord : record ∈ t'.historyRecords)
    (hmembers : t'.groupMembers = t.groupMembers ++ [⟨record.nativeId, groupId⟩]) :
    t'.InGroup record groupId := by
  refine ⟨hrecord, ⟨record.nativeId, groupId⟩, ?_, rfl, rfl⟩
  rw [hmembers]
  exact List.mem_append_right _ (List.mem_singleton_self _)

variable [LogModel]

/-- Every term of a group is one of a record in it. -/
structure TermsSound (t : Tables) : Prop where
  once : t.groupTerms.Nodup
  sound : ∀ row ∈ t.groupTerms, ∃ record, t.InGroup record row.2 ∧
    row.1 ∈ termDigests (LogModel.parseEvent record.bytes)

/-- The group has all the terms of one of its records. -/
def HasTerms (t : Tables) (groupId : Nat) : Prop :=
  ∃ record, t.InGroup record groupId ∧
    ∀ digest ∈ termDigests (LogModel.parseEvent record.bytes), (digest, groupId) ∈ t.groupTerms

def TermsFull (t : Tables) : Prop := ∀ group ∈ t.logGroups, t.HasTerms group.groupId

theorem HasTerms.mono {groupId : Nat} (h : t.HasTerms groupId) (hle : t.Grows t') :
    t'.HasTerms groupId :=
  h.imp fun _ hrecord => ⟨hrecord.1.mono hle, fun digest hdigest =>
    hle.terms (hrecord.2 digest hdigest)⟩

variable [Rowids]

/-- What indexing a record does to the groups and their terms. -/
theorem groups_indexNewRecord (h : indexNewRecord t record = .ok t') :
    ∃ joined, JoinsGroup t.logGroups record joined ∧
      t'.historyRecords = t.historyRecords ∧ t'.logGroups = joined.1 ∧
      t'.groupMembers = t.groupMembers ++ [⟨record.nativeId, joined.2.1⟩] ∧
      t'.groupTerms =
        indexGroupTerms t.groupTerms joined.2.1 (LogModel.parseEvent record.bytes) := by
  obtain ⟨joined, hjoins, _, ht⟩ := indexNewRecord_ok h
  refine ⟨joined, hjoins, ?_, ?_, ?_, ?_⟩ <;> simp only [ht]

/-- What it does to the edges: nothing. -/
theorem edges_indexNewRecord (h : indexNewRecord t record = .ok t') :
    t'.serviceEdges = t.serviceEdges ∧ t'.edgeEvidence = t.edgeEvidence := by
  obtain ⟨joined, _, _, ht⟩ := indexNewRecord_ok h
  constructor <;> simp only [ht]

theorem grows_indexNewRecord (h : indexNewRecord t record = .ok t') : t.Grows t' := by
  obtain ⟨joined, _, hrecords, _, hmembers, hterms⟩ := groups_indexNewRecord h
  refine ⟨hrecords ▸ List.Subset.refl _, hmembers ▸ List.subset_append_left _ _, ?_⟩
  rw [hterms]
  exact fun row hrow => mem_indexGroupTerms.mpr (.inl hrow)

theorem TermsSound.indexRecord (h : t.TermsSound) (hrecord : record ∈ t.historyRecords)
    (hindex : indexNewRecord t record = .ok t') : t'.TermsSound := by
  have hle := grows_indexNewRecord hindex
  obtain ⟨joined, _, hrecords, _, hmembers, hterms⟩ := groups_indexNewRecord hindex
  refine ⟨?_, fun row hrow => ?_⟩
  · rw [hterms]
    exact nodup_indexGroupTerms h.once _ _
  · rw [hterms, mem_indexGroupTerms] at hrow
    rcases hrow with hold | ⟨hdigest, hgroup⟩
    · obtain ⟨found, hfound, hterm⟩ := h.sound row hold
      exact ⟨found, hfound.mono hle, hterm⟩
    · rw [hgroup]
      exact ⟨record, inGroup_of_append (hrecords ▸ hrecord) hmembers, hdigest⟩

/-- A new group gets the terms of its record. -/
theorem TermsFull.indexRecord (h : t.TermsFull) (hrecord : record ∈ t.historyRecords)
    (hindex : indexNewRecord t record = .ok t') : t'.TermsFull := by
  have hle := grows_indexNewRecord hindex
  obtain ⟨joined, hjoins, hrecords, hgroups, hmembers, hterms⟩ := groups_indexNewRecord hindex
  have hold : ∀ group ∈ joined.1, (∃ old ∈ t.logGroups, old.groupId = group.groupId) ∨
      group.groupId = joined.2.1 := by
    intro group hgroup
    cases hjoins with
    | @prior target htarget hkey =>
        rcases Table.mem_update.mp hgroup with ⟨hgroup, _⟩ | ⟨old, hold, _, rfl⟩
        · exact .inl ⟨group, hgroup, rfl⟩
        · exact .inl ⟨old, hold, rfl⟩
    | new hkey hid hrowid =>
        rcases List.mem_append.mp hgroup with hgroup | hnew
        · exact .inl ⟨group, hgroup, rfl⟩
        · rw [List.mem_singleton.mp hnew]
          exact .inr rfl
  intro group hgroup
  rcases hold group (hgroups ▸ hgroup) with ⟨old, hold, hsame⟩ | hnew
  · exact hsame ▸ (h old hold).mono hle
  · rw [hnew]
    refine ⟨record, inGroup_of_append (hrecords ▸ hrecord) hmembers, fun digest hdigest => ?_⟩
    rw [hterms]
    exact mem_indexGroupTerms.mpr (.inr ⟨hdigest, rfl⟩)

end Tables

end Terms

/-! ## Filled tables -/

section Filled

variable [LogModel] {t t' : Tables} {record : HistoryRecordV1}

namespace Tables

/-- Every record that draws an edge is evidence of it. -/
def EdgesFull (t : Tables) : Prop :=
  ∀ record ∈ t.historyRecords, (edgeOf record).isSome = true →
    record.nativeId ∈ t.edgeEvidence.map EdgeEvidence.nativeId

/-- An edge is drawn from the record, if it draws one, and from no other. -/
theorem evidence_indexNewEdge (h : indexNewEdge t record = .ok t') :
    ((edgeOf record).isSome = true → record.nativeId ∈ t'.edgeEvidence.map EdgeEvidence.nativeId) ∧
      t.edgeEvidence ⊆ t'.edgeEvidence := by
  rcases indexNewEdge_ok h with ⟨rfl, hold⟩ | ⟨edge, serviceEdges, _, _, _, rfl⟩
  · refine ⟨fun hsome => ?_, List.Subset.refl _⟩
    rcases hold with hevidence | hnone
    · exact hevidence
    · rw [hnone] at hsome
      cases hsome
  · refine ⟨fun _ => ?_, List.subset_append_left _ _⟩
    rw [List.map_append]
    exact List.mem_append_right _ (List.mem_singleton_self _)

/-- An edge touches no group. -/
theorem groups_indexNewEdge (h : indexNewEdge t record = .ok t') :
    t'.historyRecords = t.historyRecords ∧ t'.logGroups = t.logGroups ∧
      t'.groupMembers = t.groupMembers ∧ t'.groupTerms = t.groupTerms ∧
      t'.severeServiceGroups = t.severeServiceGroups := by
  rcases indexNewEdge_ok h with ⟨rfl, _⟩ | ⟨edge, serviceEdges, _, _, _, rfl⟩
  · exact ⟨rfl, rfl, rfl, rfl, rfl⟩
  · exact ⟨rfl, rfl, rfl, rfl, rfl⟩

theorem grows_indexNewEdge (h : indexNewEdge t record = .ok t') : t.Grows t' := by
  obtain ⟨hrecords, _, hmembers, hterms, _⟩ := groups_indexNewEdge h
  exact ⟨hrecords ▸ List.Subset.refl _, hmembers ▸ List.Subset.refl _,
    hterms ▸ List.Subset.refl _⟩

variable [Sha256]

theorem TermsSound.of_grows (h : t.TermsSound) (hle : t.Grows t')
    (hterms : t'.groupTerms = t.groupTerms) : t'.TermsSound := by
  refine ⟨hterms ▸ h.once, fun row hrow => ?_⟩
  obtain ⟨found, hfound, hterm⟩ := h.sound row (hterms ▸ hrow)
  exact ⟨found, hfound.mono hle, hterm⟩

theorem TermsFull.of_grows (h : t.TermsFull) (hle : t.Grows t')
    (hgroups : t'.logGroups = t.logGroups) : t'.TermsFull := fun group hgroup =>
  (h group (hgroups ▸ hgroup)).mono hle

/-- The derived tables follow from the records. -/
structure Indexed (t : Tables) : Prop where
  consistent : t.Consistent
  complete : t.Complete
  edgesFull : t.EdgesFull
  termsSound : t.TermsSound
  termsFull : t.TermsFull

variable [Rowids]

theorem Indexed.commitRecord (h : t.Indexed) (hcommit : commitRecord t record = .ok t') :
    t'.Indexed := by
  have hconsistent := h.consistent.commitRecord hcommit
  have hcomplete := h.complete.commitRecord hcommit
  rcases commitRecord_ok hcommit with ⟨_, rfl⟩ | ⟨hnew, indexed, hindex, hedge⟩
  · exact h
  · have hstored : t.Grows { t with historyRecords := t.historyRecords ++ [record] } :=
      ⟨List.subset_append_left _ _, List.Subset.refl _, List.Subset.refl _⟩
    have hrecord : record ∈ t.historyRecords ++ [record] :=
      List.mem_append_right _ (List.mem_singleton_self _)
    have hdrawn := grows_indexNewEdge hedge
    obtain ⟨hrecords, hgroups, _, hterms, _⟩ := groups_indexNewEdge hedge
    obtain ⟨hevidence, hkept⟩ := evidence_indexNewEdge hedge
    refine ⟨hconsistent, hcomplete, ?_, ?_, ?_⟩
    · obtain ⟨_, _, hsame, _⟩ := groups_indexNewRecord hindex
      obtain ⟨_, hundrawn⟩ := edges_indexNewRecord hindex
      rw [hundrawn] at hkept
      intro found hfound hsome
      rw [hrecords, hsame] at hfound
      rcases List.mem_append.mp hfound with hold | hadded
      · exact List.map_subset _ hkept (h.edgesFull found hold hsome)
      · rw [List.mem_singleton.mp hadded] at hsome ⊢
        exact hevidence hsome
    · exact ((h.termsSound.of_grows hstored rfl).indexRecord hrecord hindex).of_grows hdrawn
        hterms
    · exact TermsFull.of_grows (TermsFull.indexRecord
        (TermsFull.of_grows h.termsFull hstored rfl) hrecord hindex) hdrawn hgroups

theorem Indexed.commitPage (h : t.Indexed) (fault : Option CorpusError)
    (records : List HistoryRecordV1) : (commitPageChecked fault t records).2.Indexed :=
  commitPage_keeps (fun hindexed hcommit => hindexed.commitRecord hcommit) fault records h

end Tables

end Filled

end Evidentrail
