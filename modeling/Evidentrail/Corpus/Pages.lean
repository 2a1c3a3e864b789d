import Evidentrail.Corpus.Index

/-!
# Runs of pages

Whatever pages are committed, in whatever order and with whatever failures in
between, the derived tables agree with the records that are stored.
-/

namespace Evidentrail

open Rust

/-! ## What the tables promise -/

/-- The first timestamp of a group, then its id. -/
def LogGroup.oldest (group : LogGroup) : Int ×ₗ Nat :=
  toLex ((ofLex group.tally.first).1, group.groupId)

/-- The last timestamp of a group, then its id. -/
def LogGroup.newest (group : LogGroup) : Int ×ₗ Nat :=
  toLex ((ofLex group.tally.last).1, group.groupId)

namespace Tables

/-- The keys of the records that are members of the group. -/
def memberKeys (t : Tables) (groupId : Nat) : Set RecordKey :=
  {key | ∃ record ∈ t.historyRecords, ∃ member ∈ t.groupMembers,
    member.nativeId = record.nativeId ∧ member.groupId = groupId ∧ record.key = key}

/-- The keys of the records that are evidence of the edge. -/
def evidenceKeys (t : Tables) (edge : EdgeKey) : Set RecordKey :=
  {key | ∃ record ∈ t.historyRecords, ∃ evidence ∈ t.edgeEvidence,
    evidence.nativeId = record.nativeId ∧ evidence.edge = edge ∧ record.key = key}

/-- The derived tables agree with the records. -/
structure DerivedIndex (t : Tables) : Prop where
  /-- Every record is a member of one group. -/
  members : ∀ record ∈ t.historyRecords,
    t.groupMembers.countP (fun member => member.nativeId = record.nativeId) = 1
  repeatCounts : ∀ group ∈ t.logGroups,
    group.tally.count = t.groupMembers.countP fun member => member.groupId = group.groupId
  groupFirst : ∀ group ∈ t.logGroups, IsLeast (t.memberKeys group.groupId) group.tally.first
  groupLast : ∀ group ∈ t.logGroups, IsGreatest (t.memberKeys group.groupId) group.tally.last
  /-- There is one row for a service with a severe group, and none for others. -/
  severeRows : ∀ service, t.severeServiceGroups.countP (fun row => row.service = service) =
    if t.logGroups.any (LogGroup.isSevereOf service) then 1 else 0
  severeCounts : ∀ row ∈ t.severeServiceGroups,
    row.groupCount = t.logGroups.countP (LogGroup.isSevereOf row.service)
  severeOldest : ∀ row ∈ t.severeServiceGroups, IsLeast
    {entry | ∃ group ∈ t.logGroups, group.isSevereOf row.service = true ∧ group.oldest = entry}
    row.oldest
  severeNewest : ∀ row ∈ t.severeServiceGroups, IsGreatest
    {entry | ∃ group ∈ t.logGroups, group.isSevereOf row.service = true ∧ group.newest = entry}
    row.newest
  evidenceCounts : ∀ edge ∈ t.serviceEdges,
    edge.tally.count = t.edgeEvidence.countP fun evidence => evidence.edge = edge.key
  edgeFirst : ∀ edge ∈ t.serviceEdges, IsLeast (t.evidenceKeys edge.key) edge.tally.first
  edgeLast : ∀ edge ∈ t.serviceEdges, IsGreatest (t.evidenceKeys edge.key) edge.tally.last

end Tables

/-! ## From records to groups -/

section Extremes

variable [Sha256] [LogModel] {t : Tables}

/-- The entry of a severe group is that of one of its records. -/
theorem Grouped.entry_of_key {records : List HistoryRecordV1} {groups : List LogGroup}
    {members : List GroupMember} (h : Grouped records groups members) {group : LogGroup}
    (hgroup : group ∈ groups) {service : String} (hsevere : group.isSevereOf service = true)
    {key : RecordKey} (hkey : key ∈ membership.keys records members group.groupId) :
    toLex ((ofLex key).1, group.groupId) ∈ severeKeys records members service := by
  obtain ⟨record, hrecord, member, hmember, hid, hlabel, rfl⟩ := hkey
  obtain ⟨found, hfound, hgroupId, hgroupKey⟩ := h.grouped member hmember record hrecord hid.symm
  have hsame := List.inj_on_of_nodup_map h.ids hfound hgroup (hgroupId.trans hlabel)
  rw [hsame] at hgroupKey
  simp only [LogGroup.isSevereOf, Bool.and_eq_true, decide_eq_true_eq, hgroupKey] at hsevere
  refine ⟨record, hrecord, member, hmember, hid, hsevere.1, hsevere.2, ?_⟩
  rw [show member.groupId = group.groupId from hlabel]
  rfl

/-- A record in a severe group of the service lies between the entries of the
group. -/
theorem Grouped.group_of_entry {records : List HistoryRecordV1} {groups : List LogGroup}
    {members : List GroupMember} (h : Grouped records groups members) {service : String}
    {entry : Int ×ₗ Nat} (hentry : entry ∈ severeKeys records members service) :
    ∃ group ∈ groups, group.isSevereOf service = true ∧ group.oldest ≤ entry ∧
      entry ≤ group.newest := by
  obtain ⟨record, hrecord, member, hmember, hid, hsevere, hservice, rfl⟩ := hentry
  obtain ⟨group, hgroup, hgroupId, hkey⟩ := h.grouped member hmember record hrecord hid.symm
  have hmem : record.key ∈ membership.keys records members group.groupId :=
    ⟨record, hrecord, member, hmember, hid, hgroupId.symm, rfl⟩
  have htally := h.tallies group hgroup
  have hfirst := Prod.Lex.monotone_fst _ _ (htally.first_least.2 hmem)
  have hlast := Prod.Lex.monotone_fst _ _ (htally.last_greatest.2 hmem)
  refine ⟨group, hgroup, ?_, ?_, ?_⟩
  · simp [LogGroup.isSevereOf, hkey, hsevere, hservice]
  · rw [← hgroupId]
    exact Prod.Lex.toLex_mono ⟨hfirst, le_rfl⟩
  · rw [← hgroupId]
    exact Prod.Lex.toLex_mono ⟨hlast, le_rfl⟩

end Extremes

/-! ## Runs -/

section Runs

variable [Sha256] [LogModel] {t t' : Tables} {record : HistoryRecordV1}

/-- Every record is a member of a group. -/
def Tables.Complete (t : Tables) : Prop :=
  ∀ record ∈ t.historyRecords, record.nativeId ∈ t.groupMembers.map GroupMember.nativeId

theorem Tables.Consistent.derivedIndex (h : t.Consistent) (hcomplete : t.Complete) :
    t.DerivedIndex where
  members record hrecord := Table.countP_key h.grouped.once (hcomplete record hrecord)
  repeatCounts group hgroup := (h.grouped.tallies group hgroup).count_eq
  groupFirst group hgroup := (h.grouped.tallies group hgroup).first_least
  groupLast group hgroup := (h.grouped.tallies group hgroup).last_greatest
  severeRows service := by
    split
    · rename_i hany
      obtain ⟨group, hgroup, hsevere⟩ := List.any_eq_true.mp hany
      simp only [LogGroup.isSevereOf, Bool.and_eq_true, decide_eq_true_eq] at hsevere
      obtain ⟨row, hrow, hservice⟩ := h.summarised.present group hgroup hsevere.1
      exact Table.countP_key h.summarised.services
        (List.mem_map.mpr ⟨row, hrow, hservice.trans hsevere.2⟩)
    · rename_i hany
      rw [List.countP_eq_zero]
      intro row hrow hservice
      obtain ⟨group, hgroup, hsevere, _⟩ := h.grouped.group_of_entry
        (h.summarised.oldest row hrow).1
      rw [of_decide_eq_true hservice] at hsevere
      exact hany (List.any_eq_true.mpr ⟨group, hgroup, hsevere⟩)
  severeCounts := h.summarised.counts
  severeOldest row hrow := by
    refine (h.summarised.oldest row hrow).of_coinitial ?_ ?_
    · rintro entry ⟨group, hgroup, hsevere, rfl⟩
      exact h.grouped.entry_of_key hgroup hsevere (h.grouped.tallies group hgroup).first_least.1
    · intro entry hentry
      obtain ⟨group, hgroup, hsevere, hle, _⟩ := h.grouped.group_of_entry hentry
      exact ⟨group.oldest, ⟨group, hgroup, hsevere, rfl⟩, hle⟩
  severeNewest row hrow := by
    refine (h.summarised.newest row hrow).of_cofinal ?_ ?_
    · rintro entry ⟨group, hgroup, hsevere, rfl⟩
      exact h.grouped.entry_of_key hgroup hsevere (h.grouped.tallies group hgroup).last_greatest.1
    · intro entry hentry
      obtain ⟨group, hgroup, hsevere, _, hle⟩ := h.grouped.group_of_entry hentry
      exact ⟨group.newest, ⟨group, hgroup, hsevere, rfl⟩, hle⟩
  evidenceCounts edge hedge := (h.evidenced.tallies edge hedge).count_eq
  edgeFirst edge hedge := (h.evidenced.tallies edge hedge).first_least
  edgeLast edge hedge := (h.evidenced.tallies edge hedge).last_greatest

variable [Rowids]

/-- One record of a page is stored as it is, or was stored before. -/
theorem commitRecord_ok (h : commitRecord t record = .ok t') :
    (record ∈ t.historyRecords ∧ t' = t) ∨
    ((∀ other ∈ t.historyRecords, other.nativeId ≠ record.nativeId) ∧
      ∃ indexed, indexNewRecord { t with historyRecords := t.historyRecords ++ [record] } record =
        .ok indexed ∧ indexNewEdge indexed record = .ok t') := by
  unfold commitRecord at h
  split at h
  · cases h
  · split at h
    · cases h
    · split at h
      · rename_i prior hfind
        obtain ⟨hprior, hid⟩ := Table.mem_of_find hfind
        split at h
        · cases h
        · rename_i hsame
          cases h
          rw [not_or, not_not, not_not] at hsame
          refine .inl ⟨?_, rfl⟩
          cases record
          cases prior
          simp only at hid hsame
          rw [← hid, ← hsame.1, ← hsame.2]
          exact hprior
      · rename_i hfind
        obtain ⟨indexed, hindexed, h⟩ := except_bind_eq_ok.mp h
        exact .inr ⟨Table.find_eq_none.mp hfind, indexed, hindexed, h⟩

theorem historyRecords_indexNewRecord (h : indexNewRecord t record = .ok t') :
    t'.historyRecords = t.historyRecords := by
  obtain ⟨joined, _, _, rfl⟩ := indexNewRecord_ok h
  rfl

theorem Tables.Consistent.commitRecord (h : t.Consistent)
    (hcommit : commitRecord t record = .ok t') : t'.Consistent := by
  rcases commitRecord_ok hcommit with ⟨_, rfl⟩ | ⟨hnew, indexed, hindex, hedge⟩
  · exact h
  · have hrecord : record ∈ t.historyRecords ++ [record] :=
      List.mem_append_right _ (List.mem_singleton_self _)
    refine ((h.append_record hnew).indexRecord hrecord hindex).indexEdge ?_ hedge
    rw [historyRecords_indexNewRecord hindex]
    exact hrecord

theorem Tables.Complete.commitRecord (h : t.Complete)
    (hcommit : commitRecord t record = .ok t') : t'.Complete := by
  rcases commitRecord_ok hcommit with ⟨_, rfl⟩ | ⟨_, indexed, hindex, hedge⟩
  · exact h
  · have hindexed : indexed.Complete := by
      obtain ⟨joined, _, _, rfl⟩ := indexNewRecord_ok hindex
      intro found hfound
      rw [List.map_append]
      rcases List.mem_append.mp hfound with hold | hadded
      · exact List.mem_append_left _ (h found hold)
      · rw [List.mem_singleton.mp hadded]
        exact List.mem_append_right _ (List.mem_singleton_self _)
    rcases indexNewEdge_ok hedge with ⟨rfl, _⟩ | ⟨edge, serviceEdges, _, _, _, rfl⟩
    · exact hindexed
    · exact hindexed

theorem commitRecords_keeps {P : Tables → Prop}
    (hstep : ∀ {t t' : Tables} {record : HistoryRecordV1}, P t →
      commitRecord t record = .ok t' → P t')
    {records : List HistoryRecordV1} (h : P t) (hcommit : records.foldlM commitRecord t = .ok t') :
    P t' := by
  induction records generalizing t with
  | nil =>
      cases hcommit
      exact h
  | cons record rest ih =>
      rw [List.foldlM_cons] at hcommit
      obtain ⟨next, hnext, hcommit⟩ := except_bind_eq_ok.mp hcommit
      exact ih (hstep h hnext) hcommit

/-- A page is committed as a whole, or nothing is changed. -/
theorem commitPage_cases (fault : Option CorpusError) (t : Tables)
    (records : List HistoryRecordV1) :
    (∃ t', records.foldlM commitRecord t = .ok t' ∧
      commitPageChecked fault t records = (.ok (), t')) ∨
    ∃ e, commitPageChecked fault t records = (.error e, t) := by
  unfold commitPageChecked
  cases fault with
  | some e => exact .inr ⟨e, rfl⟩
  | none =>
      cases hcommit : records.foldlM commitRecord t with
      | ok t' => exact .inl ⟨t', rfl, rfl⟩
      | error e => exact .inr ⟨e, rfl⟩

/-- What holds of the empty store and is kept by every record that is
committed holds after every page. -/
theorem commitPage_keeps {P : Tables → Prop}
    (hstep : ∀ {t t' : Tables} {record : HistoryRecordV1}, P t →
      commitRecord t record = .ok t' → P t')
    (fault : Option CorpusError) (records : List HistoryRecordV1) (h : P t) :
    P (commitPageChecked fault t records).2 := by
  rcases commitPage_cases fault t records with ⟨t', hcommit, hpage⟩ | ⟨e, hpage⟩
  · rw [hpage]
    exact commitRecords_keeps hstep h hcommit
  · rw [hpage]
    exact h

/-- The store after pages, each with the failure it meets if it meets one. -/
def Tables.commitPages (t : Tables) (pages : List (Option CorpusError × List HistoryRecordV1)) :
    Tables :=
  pages.foldl (fun t page => (commitPageChecked page.1 t page.2).2) t

theorem Tables.commitPages_keeps {P : Tables → Prop}
    (hstep : ∀ {t t' : Tables} {record : HistoryRecordV1}, P t →
      Evidentrail.commitRecord t record = .ok t' → P t')
    (pages : List (Option CorpusError × List HistoryRecordV1)) (h : P t) :
    P (t.commitPages pages) := by
  induction pages generalizing t with
  | nil => exact h
  | cons page rest ih => exact ih (commitPage_keeps hstep page.1 page.2 h)

/-- From the empty store, after any pages: the derived tables agree with the
records, and a page that fails next changes nothing. -/
theorem pages_derive_index (pages : List (Option CorpusError × List HistoryRecordV1)) :
    (Tables.commitPages {} pages).DerivedIndex ∧
    ∀ (fault : Option CorpusError) (records : List HistoryRecordV1) (e : CorpusError),
      (commitPageChecked fault (Tables.commitPages {} pages) records).1 = .error e →
        (commitPageChecked fault (Tables.commitPages {} pages) records).2 =
          Tables.commitPages {} pages := by
  refine ⟨?_, ?_⟩
  · have hconsistent := Tables.commitPages_keeps Tables.Consistent.commitRecord pages
      Tables.consistent_empty
    have hcomplete : (Tables.commitPages {} pages).Complete :=
      Tables.commitPages_keeps Tables.Complete.commitRecord pages fun record hrecord => by
        cases hrecord
    exact hconsistent.derivedIndex hcomplete
  · intro fault records e herror
    rcases commitPage_cases fault (Tables.commitPages {} pages) records with
      ⟨t', _, hpage⟩ | ⟨e', hpage⟩
    · rw [hpage] at herror
      cases herror
    · rw [hpage]

end Runs

/-! ## A fixed parser -/

/-- One service and one template for every record. -/
abbrev plainLog : LogModel where
  parseEvent _ := ⟨"api", "info", "request served"⟩
  explicitPeerService _ := none

abbrev noRetry : Rowids where
  retry _ := none
  unused h := by cases h

/-! ## Pages of two services -/

/-- One service calls the other, and has errors of two kinds. -/
abbrev callingLog : LogModel where
  parseEvent raw :=
    ⟨if raw.head? = some 1 then "api" else "db", "error",
      if raw.length = 1 then "refused" else "timed out"⟩
  explicitPeerService raw := if raw.head? = some 1 then some "db" else none

/-- A record comes twice; one page fails as a whole, and one has a record that was
stored with other bytes. -/
def callingPages : List (Option CorpusError × List HistoryRecordV1) :=
  [(none, [⟨[1], 5, [1]⟩, ⟨[2], 7, [2]⟩]),
    (some .walPressure, [⟨[3], 8, [2]⟩]),
    (none, [⟨[1], 5, [1]⟩, ⟨[4], 3, [1, 1]⟩, ⟨[5], 9, [1]⟩]),
    (none, [⟨[6], 2, [2]⟩, ⟨[2], 7, [1]⟩])]

theorem pages_derive_index_calling :
    letI := fips180
    letI := callingLog
    letI := noRetry
    let t := Tables.commitPages {} callingPages
    t.historyRecords.map HistoryRecordV1.nativeId = [[1], [2], [4], [5]] ∧
      t.logGroups.map (·.tally.count) = [2, 1, 1] ∧
      t.serviceEdges.map (·.tally.count) = [3] ∧ t.DerivedIndex ∧
      commitPageChecked none t [⟨[6], 2, [2]⟩, ⟨[2], 7, [1]⟩] = (.error .conflictingRecord, t) := by
  rw [fips180_eq]
  let := fips180Evaluated
  let := callingLog
  let := noRetry
  intro t
  have hrun : t.historyRecords.map HistoryRecordV1.nativeId = [[1], [2], [4], [5]] ∧
      t.logGroups.map (·.tally.count) = [2, 1, 1] ∧
      t.serviceEdges.map (·.tally.count) = [3] ∧
      (commitPageChecked none t [⟨[6], 2, [2]⟩, ⟨[2], 7, [1]⟩]).1 =
        .error .conflictingRecord := by
    decide +kernel
  obtain ⟨hrecords, hgroups, hedges, herror⟩ := hrun
  obtain ⟨hindex, hunchanged⟩ := pages_derive_index callingPages
  exact ⟨hrecords, hgroups, hedges, hindex, Prod.ext herror (hunchanged none _ _ herror)⟩

end Evidentrail
