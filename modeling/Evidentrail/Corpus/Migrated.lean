import Evidentrail.Corpus.Backfill
import Evidentrail.Corpus.Paging
import Evidentrail.Lib.Loop

/-!
# Backfills that can be cut

What an open does not empty is kept in a state that any cut leaves behind: the groups are
those of the records that are indexed so far, and each summary is right up to its cursor
(`CorpusStore.Sound`). The backfills of an open add one property each, and none takes one
away, so the store that is open in the end has them all (`CorpusStore.opens`).
-/

namespace Evidentrail

open Rust Commits Sorting

namespace CorpusStore

variable {s : CorpusStore}

/-! ## Pages of groups -/

/-- How many groups the loop has not reached. -/
def groupsLeft (cursor : Nat) (s : CorpusStore) : Nat :=
  s.tables.logGroups.length -
    (s.tables.logGroups.filter fun group => group.groupId ≤ cursor).length

/-- A page of groups is empty at the end, and else moves the cursor over its groups. -/
theorem readGroupCards_cases (hids : (s.tables.logGroups.map LogGroup.groupId).Nodup)
    {cursor : Nat} {cards : List LogGroup}
    (h : s.tables.readGroupCards cursor 256 = .ok cards) :
    (cards.getLast? = none ∧ ∀ group ∈ s.tables.logGroups, group.groupId ≤ cursor) ∨
    ∃ last, cards.getLast? = some last ∧ groupsLeft last.groupId s < groupsLeft cursor s ∧
      (s.tables.logGroups.filter fun group => group.groupId ≤ last.groupId).Perm
        ((s.tables.logGroups.filter fun group => group.groupId ≤ cursor) ++ cards) := by
  rw [Tables.readGroupCards, if_neg (by decide), Except.ok.injEq] at h
  have hpage := (List.take_append_drop 256 _).symm.trans (congrArg (· ++ _) h)
  cases hlast : cards.getLast? with
  | none =>
      refine .inl ⟨rfl, fun group hgroup => ?_⟩
      by_contra hbehind
      rw [List.getLast?_eq_none_iff] at hlast
      rw [hlast, List.take_eq_nil_iff] at h
      have hmem : group ∈ (s.tables.logGroups.filter fun group => group.groupId > cursor) :=
        List.mem_filter.mpr ⟨hgroup, decide_eq_true (Nat.not_le.mp hbehind)⟩
      have hsorted := (List.perm_insertionSort (fun a b : LogGroup => a.groupId ≤ b.groupId)
        _).mem_iff.mpr hmem
      rw [h.resolve_left (by decide)] at hsorted
      cases hsorted
  | some last =>
      have hperm := perm_filter_le_last LogGroup.groupId hids hpage hlast
      refine .inr ⟨last, rfl, ?_, hperm⟩
      have hlength := hperm.length_eq
      have hle := List.length_filter_le (fun group : LogGroup => group.groupId ≤ last.groupId)
        s.tables.logGroups
      have hpos : 0 < cards.length := List.length_pos_of_mem (List.mem_of_getLast? hlast)
      rw [List.length_append] at hlength
      unfold groupsLeft
      omega

/-! ## Loops over the records -/

section Loops

variable {index : Tables → HistoryRecordV1 → Except CorpusError Tables}
  {P : CorpusStore → Prop} {D : HistoryRecordV1 → Tables → Prop}

/-- Indexing a record keeps the store as it has to be, does what there is to do for the record,
and undoes nothing. -/
def IndexStep (index : Tables → HistoryRecordV1 → Except CorpusError Tables)
    (P : CorpusStore → Prop) (D : HistoryRecordV1 → Tables → Prop) : Prop :=
  ∀ (s : CorpusStore) (tables : Tables) (record : HistoryRecordV1), P s →
    record ∈ s.tables.historyRecords → index s.tables record = .ok tables →
      P { s with tables } ∧ tables.historyRecords = s.tables.historyRecords ∧ D record tables ∧
        ∀ other, D other s.tables → D other tables

theorem IndexStep.foldlM (hstep : IndexStep index P D) (h : P s)
    {records : List HistoryRecordV1} (hstored : records ⊆ s.tables.historyRecords)
    {tables : Tables} (hfold : records.foldlM index s.tables = .ok tables) :
    P { s with tables } ∧ tables.historyRecords = s.tables.historyRecords ∧
      (∀ record ∈ records, D record tables) ∧ ∀ other, D other s.tables → D other tables := by
  refine Loop.foldlM_invariant (I := fun seen tables => P { s with tables } ∧
    tables.historyRecords = s.tables.historyRecords ∧ (∀ record ∈ seen, D record tables) ∧
    ∀ other, D other s.tables → D other tables) ?_
    ⟨h, rfl, List.forall_mem_nil _, fun _ => id⟩ hfold
  rintro seen record rest t t' hall ⟨hP, hrecords, hseen, hkept⟩ hindex
  have hrecord : record ∈ records := hall ▸ List.mem_append_right _ List.mem_cons_self
  have hhere : record ∈ t.historyRecords := hrecords ▸ hstored hrecord
  obtain ⟨hP', hrecords', hdone, hkept'⟩ := hstep { s with tables := t } t' record hP hhere hindex
  refine ⟨hP', hrecords'.trans hrecords, ?_, fun other hother => hkept' other (hkept other hother)⟩
  intro found hfound
  rcases List.mem_append.mp hfound with hold | hnew
  · exact hkept' found (hseen found hold)
  · exact List.mem_singleton.mp hnew ▸ hdone

theorem mem_later {table : HistoryTable} {after : Option CorpusCursor}
    {record : HistoryRecordV1} :
    record ∈ table.later after ↔ record ∈ table.rows ∧ isBehind after record = true := by
  rw [HistoryTable.later, List.mem_filter, table.perm_ordered.mem_iff]

/-- How many records the loop has not reached. -/
def recordsLeft (cursor : Option CorpusCursor) (s : CorpusStore) : Nat :=
  (s.tables.historyRecords.filter (isBehind cursor)).length

theorem recordsLeft_eq {table : HistoryTable} (htable : table.rows = s.tables.historyRecords)
    (cursor : Option CorpusCursor) : recordsLeft cursor s = (table.later cursor).length := by
  rw [recordsLeft, ← htable, HistoryTable.later]
  exact (table.perm_ordered.filter _).length_eq.symm

/-- The limits of a page that is indexed are admitted. -/
theorem exists_indexBudget :
    ∃ budget : PageBudget, budget.maxRecords = 64 ∧ budget.maxBytes = maxRawRecordBytes :=
  ⟨⟨64, maxRawRecordBytes, by decide, by decide, by decide, le_rfl⟩, rfl, rfl⟩

/-- A page of records is empty at the end, and is indexed else. -/
theorem recordPass_cases {cursor : Option CorpusCursor}
    {outcome : Option (CorpusStore × Option (Option CorpusCursor))}
    (hpass : recordPass index cursor s = .ok outcome) :
    ∃ table : HistoryTable, table.rows = s.tables.historyRecords ∧
      ∃ taken left, table.later cursor = taken ++ left ∧
        (taken = [] ∧ left = [] ∧ outcome = none ∨
        ∃ tables, taken.foldlM index s.tables = .ok tables ∧
          (left = [] ∧ outcome = some ({ s with tables }, none) ∨
          ∃ last : HistoryRecordV1, taken ≠ [] ∧ table.later (some last.cursor) = left ∧
            outcome = some ({ s with tables }, some (some last.cursor)))) := by
  obtain ⟨table, htable, hpass⟩ := except_bind_eq_ok.mp hpass
  obtain ⟨page, hpage, hpass⟩ := except_bind_eq_ok.mp hpass
  have hrows : table.rows = s.tables.historyRecords := by
    have htable := okOr_eq_ok.mp htable
    unfold Tables.history? at htable
    split at htable
    · cases htable
      rfl
    · cases htable
  refine ⟨table, hrows, ?_⟩
  obtain ⟨budget, hmaxRecords, hmaxBytes⟩ := exists_indexBudget
  rw [← hmaxRecords, ← hmaxBytes] at hpage
  rcases readPage_spec table budget cursor with
    ⟨found, left, hok, hlater, _, hnext⟩ | ⟨_, herror⟩
  · rw [hok] at hpage
    cases hpage
    refine ⟨page.records, left, hlater, ?_⟩
    split at hpass
    · rename_i hempty
      rw [List.isEmpty_iff] at hempty
      cases hpass
      rcases hnext with ⟨hleft, _⟩ | ⟨_, front, last, hrecords, _⟩
      · exact .inl ⟨hempty, hleft, rfl⟩
      · rw [hrecords] at hempty
        exact absurd hempty (by simp)
    · obtain ⟨tables, htables, hpass⟩ := except_bind_eq_ok.mp hpass
      refine .inr ⟨tables, htables, ?_⟩
      rcases hnext with ⟨hleft, hnone⟩ | ⟨hleft, front, last, hrecords, hsome⟩
      · rw [hnone] at hpass
        cases hpass
        exact .inl ⟨hleft, rfl⟩
      · rw [hsome] at hpass
        cases hpass
        have hfollowing : table.later cursor = front ++ last :: left := by
          rw [hlater, hrecords, List.append_assoc, List.singleton_append]
        have hne : page.records ≠ [] := by simp [hrecords]
        exact .inr ⟨last, hne, table.later_cursor hfollowing, rfl⟩
  · rw [herror] at hpage
    cases hpage

/-- A loop over the records does for each record what there is to do. -/
theorem IndexStep.triple (hstep : IndexStep index P D) (passes : Nat) :
    Triple (fun s => P s ∧ s.tables.historyRecords.length < passes) P
      (loop (recordPass index) passes none)
      (fun s => P s ∧ ∀ record ∈ s.tables.historyRecords, D record s.tables) := by
  -- everything that is not behind the cursor is done
  let done (cursor : Option CorpusCursor) (s : CorpusStore) : Prop := P s ∧
    ∀ record ∈ s.tables.historyRecords, isBehind cursor record = false → D record s.tables
  have hpage : ∀ {cursor s taken left tables} {table : HistoryTable}, done cursor s →
      table.rows = s.tables.historyRecords → table.later cursor = taken ++ left →
      taken.foldlM index s.tables = .ok tables →
        P { s with tables } ∧ tables.historyRecords = s.tables.historyRecords ∧
          ∀ record ∈ s.tables.historyRecords, record ∉ left → D record tables := by
    intro cursor s taken left tables table hs htable hlater hfold
    have hstored : taken ⊆ s.tables.historyRecords := fun record hrecord =>
      htable ▸ (mem_later.mp (hlater ▸ List.mem_append_left left hrecord)).1
    obtain ⟨hP, hrecords, htaken, hkept⟩ := hstep.foldlM hs.1 hstored hfold
    refine ⟨hP, hrecords, fun record hrecord hnot => ?_⟩
    cases hbehind : isBehind cursor record with
    | false => exact hkept record (hs.2 record hrecord hbehind)
    | true =>
        have hmem : record ∈ table.later cursor := mem_later.mpr ⟨htable ▸ hrecord, hbehind⟩
        rw [hlater] at hmem
        exact htaken record ((List.mem_append.mp hmem).resolve_right hnot)
  refine (Triple.loop (J := done) recordsLeft ?_ ?_ ?_ passes none).conseq ?_ (fun _ => id)
    (fun _ => id)
  · intro cursor s hs hpass
    obtain ⟨table, htable, taken, left, hlater, hcases⟩ := recordPass_cases hpass
    rcases hcases with ⟨htaken, hleft, _⟩ | ⟨tables, _, ⟨_, hsome⟩ | ⟨last, _, _, hsome⟩⟩
    · refine ⟨hs.1, fun record hrecord => hs.2 record hrecord ?_⟩
      rw [htaken, hleft, List.append_nil] at hlater
      by_contra hbehind
      have hmem : record ∈ table.later cursor :=
        mem_later.mpr ⟨htable ▸ hrecord, Bool.eq_true_of_not_eq_false hbehind⟩
      rw [hlater] at hmem
      cases hmem
    · cases hsome
    · cases hsome
  · intro cursor s s' hs hpass
    obtain ⟨table, htable, taken, left, hlater, hcases⟩ := recordPass_cases hpass
    rcases hcases with ⟨_, _, hnone⟩ | ⟨tables, hfold, ⟨hleft, hsome⟩ | ⟨last, _, _, hsome⟩⟩
    · cases hnone
    · cases hsome
      obtain ⟨hP, hrecords, hdone⟩ := hpage hs htable hlater hfold
      refine ⟨hP, hP, fun record hrecord => hdone record (hrecords ▸ hrecord) ?_⟩
      rw [hleft]
      exact List.not_mem_nil
    · cases hsome
  · intro cursor s s' cursor' hs hpass
    obtain ⟨table, htable, taken, left, hlater, hcases⟩ := recordPass_cases hpass
    rcases hcases with ⟨_, _, hnone⟩ | ⟨tables, hfold, ⟨_, hsome⟩ | ⟨last, hne, hrest, hsome⟩⟩
    · cases hnone
    · cases hsome
    · cases hsome
      obtain ⟨hP, hrecords, hdone⟩ := hpage hs htable hlater hfold
      refine ⟨hP, ⟨hP, fun record hrecord hbehind => ?_⟩, ?_⟩
      · rw [hrecords] at hrecord
        refine hdone record hrecord fun hleft => ?_
        rw [← hrest, mem_later, hbehind] at hleft
        cases hleft.2
      · have hless := List.length_pos_iff.mpr hne
        rw [recordsLeft_eq htable, recordsLeft_eq (htable.trans hrecords.symm), hrest, hlater,
          List.length_append]
        omega
  · rintro s ⟨hs, hlength⟩
    refine ⟨⟨hs, fun record _ hbehind => by cases hbehind⟩, ?_⟩
    exact (List.length_filter_le _ _).trans_lt hlength

end Loops

end CorpusStore

section Migrated

variable [LogModel]

namespace CorpusStore

variable {s : CorpusStore}

/-! ## What a cut leaves behind -/

structure GraphKept (s : CorpusStore) : Prop where
  evidenced : Evidenced s.tables.historyRecords s.tables.serviceEdges s.tables.edgeEvidence
  edgesFull : s.graph.backfillComplete = true → s.tables.EdgesFull

theorem evidenced_empty {records : List HistoryRecordV1} : Evidenced records [] [] := by
  refine ⟨?_, ?_, ?_, ?_, ?_, ?_⟩ <;> simp [Labelling.Covered]

theorem graphKept_reset : s.resetGraph.GraphKept where
  evidenced := evidenced_empty
  edgesFull hcomplete := by cases hcomplete

theorem GraphKept.resetGroups (h : s.GraphKept) : s.resetGroups.GraphKept where
  evidenced := h.evidenced
  edgesFull := h.edgesFull

variable [Sha256]

/-- What is derived with the parser, filled so far. -/
structure GroupsKept (s : CorpusStore) : Prop where
  grouped : Grouped s.tables.historyRecords s.tables.logGroups s.tables.groupMembers
  termsSound : s.tables.TermsSound
  /-- A summary that is cut is right up to its cursor; a new one is emptied first. -/
  summary : s.severe.backfillComplete = false → s.severe.lastGroupId ≠ 0 →
    Summary (s.tables.logGroups.filter fun group => group.groupId ≤ s.severe.lastGroupId)
      s.tables.severeServiceGroups
  summarised : s.severe.backfillComplete = true →
    Summarised s.tables.historyRecords s.tables.logGroups s.tables.groupMembers
      s.tables.severeServiceGroups
  termsFull : s.terms.backfillComplete = true → s.tables.TermsFull

/-- A store of the programs so far: what their versions do not have emptied is right. -/
structure Sound (s : CorpusStore) : Prop where
  recordIds : (s.tables.historyRecords.map HistoryRecordV1.nativeId).Nodup
  groups : s.parserVersion = parserIndexVersion → s.GroupsKept
  graph : s.parserVersion ≠ 1 → s.graph.extractorVersion ≠ 1 → s.GraphKept

/-- A store of this program. -/
structure Current (s : CorpusStore) : Prop where
  parser : s.parserVersion = parserIndexVersion
  extractor : s.graph.extractorVersion = graphIndexVersion
  groups : s.GroupsKept
  graph : s.GraphKept

theorem Current.sound (h : s.Current) : s.Sound :=
  ⟨h.groups.grouped.recordIds, fun _ => h.groups, fun _ _ => h.graph⟩

/-- A store that is open. -/
structure Ready (s : CorpusStore) : Prop where
  current : s.Current
  severe : s.severe.backfillComplete = true
  complete : s.tables.Complete
  graphComplete : s.graph.backfillComplete = true
  termsComplete : s.terms.backfillComplete = true

theorem Ready.indexed (h : s.Ready) : s.tables.Indexed where
  consistent := ⟨h.current.groups.grouped, h.current.groups.summarised h.severe,
    h.current.graph.evidenced⟩
  complete := h.complete
  edgesFull := h.current.graph.edgesFull h.graphComplete
  termsSound := h.current.groups.termsSound
  termsFull := h.current.groups.termsFull h.termsComplete

/-- Pages change the tables alone. -/
theorem Ready.withTables (h : s.Ready) {tables : Tables} (hindexed : tables.Indexed) :
    ({ s with tables } : CorpusStore).Ready where
  current :=
    ⟨h.current.parser, h.current.extractor,
      ⟨hindexed.consistent.grouped, hindexed.termsSound,
        fun hopen => absurd h.severe (ne_true_of_eq_false hopen),
        fun _ => hindexed.consistent.summarised, fun _ => hindexed.termsFull⟩,
      ⟨hindexed.consistent.evidenced, fun _ => hindexed.edgesFull⟩⟩
  severe := h.severe
  complete := hindexed.complete
  graphComplete := h.graphComplete
  termsComplete := h.termsComplete

/-! ## Emptied tables -/

theorem grouped_empty {records : List HistoryRecordV1}
    (h : (records.map HistoryRecordV1.nativeId).Nodup) : Grouped records [] [] := by
  refine ⟨h, ?_, ?_, ?_, ?_, ?_, ?_, ?_⟩ <;> simp [Labelling.Covered]

theorem groupsKept_reset (h : (s.tables.historyRecords.map HistoryRecordV1.nativeId).Nodup) :
    s.resetGroups.GroupsKept where
  grouped := grouped_empty h
  termsSound := ⟨List.nodup_nil, List.forall_mem_nil _⟩
  summary _ hlast := absurd rfl hlast
  summarised hcomplete := by cases hcomplete
  termsFull hcomplete := by cases hcomplete

theorem GroupsKept.resetGraph (h : s.GroupsKept) : s.resetGraph.GroupsKept where
  grouped := h.grouped
  termsSound := ⟨h.termsSound.once, h.termsSound.sound⟩
  summary := h.summary
  summarised := h.summarised
  termsFull := h.termsFull

/-- After this step everything that is there is of this program. -/
theorem resetIndexes_triple : Triple (fun s : CorpusStore => s.Sound ∧
      (1 ≤ s.parserVersion ∧ s.parserVersion ≤ 5 ∨ s.parserVersion = parserIndexVersion) ∧
      (s.graph.extractorVersion = 1 ∨ s.graph.extractorVersion = graphIndexVersion))
    Sound resetIndexes Current := by
  refine .choose fun opened ⟨hsound, hparser, hextractor⟩ => ?_
  by_cases hfirst : opened.parserVersion = 1
  · rw [if_pos hfirst, if_neg (fun h => h.1 hfirst)]
    refine .andThen (Q := Current) (.commit fun s s' hs hok => ?_) (.skip fun s hs => hs)
    cases hs
    cases hok
    have hcurrent : opened.resetGroups.resetGraph.Current :=
      ⟨rfl, rfl, (groupsKept_reset hsound.recordIds).resetGraph, graphKept_reset⟩
    exact ⟨hcurrent.sound, hcurrent⟩
  · rw [if_neg hfirst]
    -- the groups are of this parser, and so is the graph unless its extractor is older
    let middle (s : CorpusStore) : Prop := s.parserVersion = parserIndexVersion ∧
      s.graph.extractorVersion = opened.graph.extractorVersion ∧ s.GroupsKept ∧
      (opened.graph.extractorVersion ≠ 1 → s.GraphKept)
    have hmiddle : ∀ s, middle s → s.Sound := fun s hs =>
      ⟨hs.2.2.1.grouped.recordIds, fun _ => hs.2.2.1, fun _ hne => hs.2.2.2 (hs.2.1 ▸ hne)⟩
    refine .andThen (Q := middle) ?_ ?_
    · split
      · refine .commit fun s s' hs hok => ?_
        cases hs
        cases hok
        have hreset : middle opened.resetGroups :=
          ⟨rfl, rfl, groupsKept_reset hsound.recordIds, fun hne =>
            (hsound.graph hfirst hne).resetGroups⟩
        exact ⟨hmiddle _ hreset, hreset⟩
      · rename_i hnot
        have hlatest : opened.parserVersion = parserIndexVersion := by
          rcases hparser with hold | hlatest
          · omega
          · exact hlatest
        refine .skip fun s hs => ?_
        cases hs
        exact ⟨hlatest, rfl, hsound.groups hlatest, hsound.graph hfirst⟩
    · split
      · refine .commit fun s s' hs hok => ?_
        cases hok
        have hcurrent : s.resetGraph.Current :=
          ⟨hs.1, rfl, hs.2.2.1.resetGraph, graphKept_reset⟩
        exact ⟨hcurrent.sound, hcurrent⟩
      · rename_i hnot
        have hne : opened.graph.extractorVersion ≠ 1 := fun heq => hnot ⟨hfirst, heq⟩
        refine .skip fun s hs => ?_
        exact ⟨hs.1, hs.2.1.trans (hextractor.resolve_left hne), hs.2.2.1, hs.2.2.2 hne⟩

/-! ## Severe services -/

theorem Current.withSevere (h : s.Current) (severeServiceGroups : List SevereServiceGroup)
    (severe : SevereMetadata)
    (hsummary : severe.backfillComplete = false → severe.lastGroupId ≠ 0 →
      Summary (s.tables.logGroups.filter fun group => group.groupId ≤ severe.lastGroupId)
        severeServiceGroups)
    (hsummarised : severe.backfillComplete = true →
      Summarised s.tables.historyRecords s.tables.logGroups s.tables.groupMembers
        severeServiceGroups) :
    ({ s with tables := { s.tables with severeServiceGroups }, severe } : CorpusStore).Current where
  parser := h.parser
  extractor := h.extractor
  groups := ⟨h.groups.grouped, ⟨h.groups.termsSound.once, h.groups.termsSound.sound⟩, hsummary,
    hsummarised, h.groups.termsFull⟩
  graph := ⟨h.graph.evidenced, h.graph.edgesFull⟩

/-- The groups up to the cursor are summed up. -/
structure SummedUpTo (cursor : Nat) (s : CorpusStore) : Prop where
  current : s.Current
  running : s.severe.backfillComplete = false
  summary : Summary (s.tables.logGroups.filter fun group => group.groupId ≤ cursor)
    s.tables.severeServiceGroups

theorem severePass_cases {cursor : Nat} {outcome : Option (CorpusStore × Option Nat)}
    (h : SummedUpTo cursor s) (hpass : severePass cursor s = .ok outcome) :
    (outcome = none ∧ ∀ group ∈ s.tables.logGroups, group.groupId ≤ cursor) ∨
    ∃ s' last, outcome = some (s', some last) ∧ SummedUpTo last s' ∧
      groupsLeft last s' < groupsLeft cursor s := by
  obtain ⟨cards, hcards, hpass⟩ := except_bind_eq_ok.mp hpass
  rcases readGroupCards_cases h.current.groups.grouped.ids hcards with
    ⟨hnone, hall⟩ | ⟨last, hlast, hless, hperm⟩
  · rw [hnone] at hpass
    cases hpass
    exact .inl ⟨rfl, hall⟩
  · rw [hlast] at hpass
    cases hpass
    have hsummary := (h.summary.upsertCards cards).perm hperm.symm
    exact .inr ⟨_, last.groupId, rfl, ⟨h.current.withSevere _ _ (fun _ _ => hsummary)
      (fun hcomplete => absurd hcomplete (ne_true_of_eq_false h.running)), h.running, hsummary⟩,
      hless⟩

theorem severe_triple : Triple Current Current backfillSevereServicesIfNeeded
    fun s => s.Current ∧ s.severe.backfillComplete = true := by
  refine .choose fun opened hopened => ?_
  split
  · rename_i hcomplete
    refine .skip fun s hs => ?_
    cases hs
    exact ⟨hopened, hcomplete⟩
  · rename_i hopen
    have hrunning : opened.severe.backfillComplete = false := Bool.eq_false_iff.mpr hopen
    let summed (s : CorpusStore) : Prop := s.Current ∧ s.severe.backfillComplete = false ∧
      Summary s.tables.logGroups s.tables.severeServiceGroups
    refine .andThen (Q := fun s => SummedUpTo opened.severe.lastGroupId s ∧
      groupsLeft opened.severe.lastGroupId s < opened.tables.logGroups.length + 1) ?_
      (.andThen (Q := summed) ?_ ?_)
    · have hleft : groupsLeft opened.severe.lastGroupId opened <
          opened.tables.logGroups.length + 1 := by
        unfold groupsLeft
        omega
      split
      · rename_i hzero
        refine .commit fun s s' hs hok => ?_
        cases hs
        cases hok
        have hnone : (opened.tables.logGroups.filter fun group =>
            group.groupId ≤ opened.severe.lastGroupId) = [] := by
          refine List.filter_eq_nil_iff.mpr fun group hgroup => ?_
          have hpos := (hopened.groups.grouped.rowids group hgroup).1
          simp only [hzero, decide_eq_true_eq]
          omega
        have hcurrent := hopened.withSevere [] opened.severe
          (fun _ hne => absurd hzero hne)
          (fun hcomplete => absurd hcomplete hopen)
        exact ⟨hcurrent, ⟨hcurrent, hrunning, hnone ▸ Summary.empty⟩, hleft⟩
      · rename_i hne
        refine .skip fun s hs => ?_
        cases hs
        exact ⟨⟨hopened, hrunning, hopened.groups.summary hrunning hne⟩, hleft⟩
    · refine Triple.loop (J := SummedUpTo) groupsLeft ?_ ?_ ?_ _ _
      · intro cursor s hs hpass
        rcases severePass_cases hs hpass with ⟨_, hall⟩ | ⟨_, _, hsome, _⟩
        · refine ⟨hs.current, hs.running, ?_⟩
          have hsummary := hs.summary
          rwa [List.filter_eq_self.mpr fun group hgroup => decide_eq_true (hall group hgroup)]
            at hsummary
        · cases hsome
      · intro cursor s s' hs hpass
        rcases severePass_cases hs hpass with ⟨hnone, _⟩ | ⟨_, _, hsome, _⟩
        · cases hnone
        · cases hsome
      · intro cursor s s' cursor' hs hpass
        rcases severePass_cases hs hpass with ⟨hnone, _⟩ | ⟨_, _, hsome, hnext, hless⟩
        · cases hnone
        · cases hsome
          exact ⟨hnext.current, hnext, hless⟩
    · refine .commit fun s s' hs hok => ?_
      cases hok
      have hcurrent := hs.1.withSevere s.tables.severeServiceGroups
        { s.severe with backfillComplete := true } (fun hfalse => by cases hfalse)
        (fun _ => hs.2.2.summarised hs.1.groups.grouped)
      exact ⟨hcurrent, hcurrent, rfl⟩

/-! ## Records -/

/-- A store whose summaries are kept as records are indexed. -/
def Indexing (s : CorpusStore) : Prop := s.Current ∧ s.severe.backfillComplete = true

theorem Indexing.consistent (h : s.Indexing) : s.tables.Consistent :=
  ⟨h.1.groups.grouped, h.1.groups.summarised h.2, h.1.graph.evidenced⟩

/-- As many members as records, each for a record of its own, are all of them. -/
theorem complete_of_counts (h : s.Indexing)
    (hcounts : s.tables.historyRecords.length = s.tables.groupMembers.length) :
    s.tables.Complete := by
  have hsub : s.tables.groupMembers.map GroupMember.nativeId ⊆
      s.tables.historyRecords.map HistoryRecordV1.nativeId := by
    intro id hid
    obtain ⟨member, hmember, rfl⟩ := List.mem_map.mp hid
    obtain ⟨record, hrecord, hsame⟩ := h.1.groups.grouped.covered member hmember
    exact List.mem_map.mpr ⟨record, hrecord, hsame⟩
  have hperm := (List.subperm_of_subset h.1.groups.grouped.once hsub).perm_of_length_le
    (by rw [List.length_map, List.length_map]; exact hcounts.le)
  exact fun record hrecord => hperm.mem_iff.mpr (List.mem_map_of_mem hrecord)

theorem Current.withGraphComplete (h : s.Current) (hfull : s.tables.EdgesFull) :
    ({ s with graph := { s.graph with backfillComplete := true } } : CorpusStore).Current where
  parser := h.parser
  extractor := h.extractor
  groups := ⟨h.groups.grouped, h.groups.termsSound, h.groups.summary, h.groups.summarised,
    h.groups.termsFull⟩
  graph := ⟨h.graph.evidenced, fun _ => hfull⟩

section Indexing

variable [Rowids]

theorem Indexing.indexRecord (h : s.Indexing) {record : HistoryRecordV1}
    (hrecord : record ∈ s.tables.historyRecords) {tables : Tables}
    (hindex : indexNewRecord s.tables record = .ok tables) :
    ({ s with tables } : CorpusStore).Indexing := by
  have hconsistent := h.consistent.indexRecord hrecord hindex
  have hsound := h.1.groups.termsSound.indexRecord hrecord hindex
  refine ⟨⟨h.1.parser, h.1.extractor, ⟨hconsistent.grouped, hsound, ?_, ?_, ?_⟩,
    ⟨hconsistent.evidenced, ?_⟩⟩, h.2⟩
  · exact fun hopen => absurd h.2 (ne_true_of_eq_false hopen)
  · exact fun _ => hconsistent.summarised
  · exact fun hcomplete => (h.1.groups.termsFull hcomplete).indexRecord hrecord hindex
  · intro hcomplete found hfound hsome
    obtain ⟨_, _, hrecords, _⟩ := Tables.groups_indexNewRecord hindex
    rw [(Tables.edges_indexNewRecord hindex).2]
    exact h.1.graph.edgesFull hcomplete found (hrecords ▸ hfound) hsome

def IsMember (record : HistoryRecordV1) (t : Tables) : Prop :=
  record.nativeId ∈ t.groupMembers.map GroupMember.nativeId

theorem indexMissing_step : IndexStep indexMissing Indexing IsMember := by
  intro s tables record hs hrecord hindex
  unfold indexMissing at hindex
  split at hindex
  · rename_i hmember
    cases hindex
    exact ⟨hs, rfl, hmember, fun _ => id⟩
  · obtain ⟨joined, _, hrecords, _, hmembers, _⟩ := Tables.groups_indexNewRecord hindex
    refine ⟨hs.indexRecord hrecord hindex, hrecords, ?_, fun other hother => ?_⟩
    · rw [IsMember, hmembers, List.map_append]
      exact List.mem_append_right _ (List.mem_singleton_self _)
    · rw [IsMember, hmembers, List.map_append]
      exact List.mem_append_left _ hother

theorem records_triple : Triple Indexing Indexing indexUnindexedRecords
    fun s => s.Indexing ∧ s.tables.Complete := by
  refine .choose fun opened hopened => ?_
  split
  · rename_i hcounts
    refine .skip fun s hs => ?_
    cases hs
    exact ⟨hopened, complete_of_counts hopened hcounts⟩
  · refine .andThen ((indexMissing_step.triple _).conseq ?_ (fun _ => id) (fun _ => id))
      (.check fun s hs _ => hs)
    intro s hs
    cases hs
    exact ⟨hopened, Nat.lt_succ_self _⟩

end Indexing

/-! ## Edges -/

def EdgesOpen (s : CorpusStore) : Prop := s.Indexing ∧ s.tables.Complete

def IsDrawn (record : HistoryRecordV1) (t : Tables) : Prop :=
  (edgeOf record).isSome = true → record.nativeId ∈ t.edgeEvidence.map EdgeEvidence.nativeId

theorem indexNewEdge_step : IndexStep indexNewEdge EdgesOpen IsDrawn := by
  rintro s tables record ⟨hs, hcomplete⟩ hrecord hindex
  have hconsistent := hs.consistent.indexEdge hrecord hindex
  have hgrows := Tables.grows_indexNewEdge hindex
  obtain ⟨hrecords, hgroups, hmembers, hterms, _⟩ := Tables.groups_indexNewEdge hindex
  obtain ⟨hevidence, hkept⟩ := Tables.evidence_indexNewEdge hindex
  refine ⟨⟨⟨⟨hs.1.parser, hs.1.extractor, ⟨hconsistent.grouped, ?_, ?_, ?_, ?_⟩,
    ⟨hconsistent.evidenced, ?_⟩⟩, hs.2⟩, ?_⟩, hrecords, hevidence, ?_⟩
  · exact hs.1.groups.termsSound.of_grows hgrows hterms
  · exact fun hopen => absurd hs.2 (ne_true_of_eq_false hopen)
  · exact fun _ => hconsistent.summarised
  · exact fun hterms => (hs.1.groups.termsFull hterms).of_grows hgrows hgroups
  · intro hdone found hfound hsome
    exact List.map_subset _ hkept (hs.1.graph.edgesFull hdone found (hrecords ▸ hfound) hsome)
  · intro found hfound
    show found.nativeId ∈ tables.groupMembers.map GroupMember.nativeId
    rw [hmembers]
    exact hcomplete found (hrecords ▸ hfound)
  · exact fun other hother hsome => List.map_subset _ hkept (hother hsome)

theorem graph_triple : Triple EdgesOpen Indexing backfillGraphIfNeeded
    fun s => s.EdgesOpen ∧ s.graph.backfillComplete = true := by
  refine .choose fun opened hopened => ?_
  split
  · rename_i hcomplete
    refine .skip fun s hs => ?_
    cases hs
    exact ⟨hopened, hcomplete⟩
  · refine .andThen ((indexNewEdge_step.triple _).conseq ?_ (fun _ hs => hs.1) (fun _ => id))
      (.commit fun s s' hs hok => ?_)
    · intro s hs
      cases hs
      exact ⟨hopened, Nat.lt_succ_self _⟩
    · cases hok
      have hcurrent := hs.1.1.1.withGraphComplete hs.2
      exact ⟨⟨hcurrent, hs.1.1.2⟩, ⟨⟨hcurrent, hs.1.1.2⟩, hs.1.2⟩, rfl⟩

/-! ## Terms -/

section Terms

theorem Current.withTerms (h : s.Current) (groupTerms : List (Digest × Nat))
    (terms : TermMetadata)
    (hsound : ({ s.tables with groupTerms } : Tables).TermsSound)
    (hfull : terms.backfillComplete = true → ({ s.tables with groupTerms } : Tables).TermsFull) :
    ({ s with tables := { s.tables with groupTerms }, terms } : CorpusStore).Current where
  parser := h.parser
  extractor := h.extractor
  groups := ⟨h.groups.grouped, hsound, h.groups.summary, h.groups.summarised, hfull⟩
  graph := ⟨h.graph.evidenced, h.graph.edgesFull⟩

/-- The record that is read for a group is one of the group. -/
theorem indexCardTerms_ok (h : s.Current) {card : LogGroup} (hcard : card ∈ s.tables.logGroups)
    {table table' : List (Digest × Nat)}
    (hindex : indexCardTerms s.tables.historyRecords table card = .ok table') :
    ∃ record, s.tables.InGroup record card.groupId ∧
      table' = indexGroupTerms table card.groupId (LogModel.parseEvent record.bytes) := by
  obtain ⟨record, hfind, hindex⟩ := except_bind_eq_ok.mp hindex
  cases hindex
  obtain ⟨hrecord, hid⟩ := Table.mem_of_find (okOr_eq_ok.mp hfind)
  obtain ⟨found, hfound, member, hmember, hsame, hgroup, hkey⟩ :=
    (h.groups.grouped.tallies card hcard).first_least.1
  have hfirst : found.nativeId = record.nativeId :=
    (congrArg (fun key : RecordKey => (ofLex key).2) hkey).trans hid.symm
  rw [List.inj_on_of_nodup_map h.groups.grouped.recordIds hfound hrecord hfirst] at hsame
  exact ⟨record, ⟨hrecord, member, hmember, hsame, hgroup⟩, rfl⟩

theorem foldlM_indexCardTerms (h : s.Current) {cards : List LogGroup}
    (hcards : cards ⊆ s.tables.logGroups) {groupTerms : List (Digest × Nat)}
    (hfold : cards.foldlM (indexCardTerms s.tables.historyRecords) s.tables.groupTerms =
      .ok groupTerms) :
    ({ s.tables with groupTerms } : Tables).TermsSound ∧
      s.tables.Grows { s.tables with groupTerms } ∧
      ∀ card ∈ cards, ({ s.tables with groupTerms } : Tables).HasTerms card.groupId := by
  refine Loop.foldlM_invariant (I := fun seen groupTerms =>
    ({ s.tables with groupTerms } : Tables).TermsSound ∧
      s.tables.Grows { s.tables with groupTerms } ∧
      ∀ card ∈ seen, ({ s.tables with groupTerms } : Tables).HasTerms card.groupId) ?_
    ⟨h.groups.termsSound, ⟨List.Subset.refl _, List.Subset.refl _, List.Subset.refl _⟩,
      List.forall_mem_nil _⟩ hfold
  rintro seen card rest table table' hall ⟨hsound, hgrows, hseen⟩ hindex
  have hcard := hcards (hall ▸ List.mem_append_right _ List.mem_cons_self)
  obtain ⟨record, hgroup, htable⟩ := indexCardTerms_ok h hcard hindex
  have hrows : ∀ row, row ∈ table' ↔ row ∈ table ∨
      row.1 ∈ termDigests (LogModel.parseEvent record.bytes) ∧ row.2 = card.groupId := by
    intro row
    rw [htable, mem_indexGroupTerms]
  have hmore : ({ s.tables with groupTerms := table } : Tables).Grows
      { s.tables with groupTerms := table' } :=
    ⟨List.Subset.refl _, List.Subset.refl _, fun row hrow => (hrows row).mpr (.inl hrow)⟩
  have honce : table'.Nodup := htable ▸ nodup_indexGroupTerms hsound.once _ _
  refine ⟨⟨honce, fun row hrow => ?_⟩,
    ⟨hgrows.records, hgrows.members, List.Subset.trans hgrows.terms hmore.terms⟩,
    fun found hfound => ?_⟩
  · rcases (hrows row).mp hrow with hold | ⟨hdigest, hsame⟩
    · exact hsound.sound row hold
    · exact ⟨record, hsame ▸ hgroup, hdigest⟩
  · rcases List.mem_append.mp hfound with hold | hnew
    · exact (hseen found hold).mono hmore
    · rw [List.mem_singleton.mp hnew]
      exact ⟨record, hgroup, fun digest hdigest => (hrows _).mpr (.inr ⟨hdigest, rfl⟩)⟩

/-- The groups up to the cursor have their terms. -/
structure TermsUpTo (cursor : Nat) (s : CorpusStore) : Prop where
  edgesOpen : s.EdgesOpen
  graphComplete : s.graph.backfillComplete = true
  running : s.terms.backfillComplete = false
  terms : ∀ group ∈ s.tables.logGroups, group.groupId ≤ cursor → s.tables.HasTerms group.groupId

theorem termPass_cases {cursor : Nat} {outcome : Option (CorpusStore × Option Nat)}
    (h : TermsUpTo cursor s) (hpass : termPass cursor s = .ok outcome) :
    (outcome = none ∧ ∀ group ∈ s.tables.logGroups, group.groupId ≤ cursor) ∨
    ∃ s' last, outcome = some (s', some last) ∧ TermsUpTo last s' ∧
      groupsLeft last s' < groupsLeft cursor s := by
  have hcurrent := h.edgesOpen.1.1
  obtain ⟨cards, hcards, hpass⟩ := except_bind_eq_ok.mp hpass
  rcases readGroupCards_cases hcurrent.groups.grouped.ids hcards with
    ⟨hnone, hall⟩ | ⟨last, hlast, hless, hperm⟩
  · rw [hnone] at hpass
    cases hpass
    exact .inl ⟨rfl, hall⟩
  · rw [hlast] at hpass
    obtain ⟨groupTerms, hfold, hpass⟩ := except_bind_eq_ok.mp hpass
    cases hpass
    have hsub : cards ⊆ s.tables.logGroups := fun card hcard =>
      (List.mem_filter.mp (hperm.mem_iff.mpr (List.mem_append_right _ hcard))).1
    obtain ⟨hsound, hgrows, hterms⟩ := foldlM_indexCardTerms hcurrent hsub hfold
    have hnext := hcurrent.withTerms groupTerms s.terms hsound
      fun hcomplete => absurd hcomplete (ne_true_of_eq_false h.running)
    refine .inr ⟨_, last.groupId, rfl, ⟨⟨⟨hnext, h.edgesOpen.1.2⟩, h.edgesOpen.2⟩,
      h.graphComplete, h.running, fun group hgroup hle => ?_⟩, hless⟩
    have hmem := hperm.mem_iff.mp (List.mem_filter.mpr ⟨hgroup, decide_eq_true hle⟩)
    rcases List.mem_append.mp hmem with hold | hcard
    · exact (h.terms group hgroup (of_decide_eq_true (List.mem_filter.mp hold).2)).mono hgrows
    · exact hterms group hcard

theorem terms_triple : Triple (fun s => s.EdgesOpen ∧ s.graph.backfillComplete = true) EdgesOpen
    backfillTermsIfNeeded Ready := by
  refine .choose fun opened ⟨hopened, hgraph⟩ => ?_
  split
  · rename_i hcomplete
    refine .skip fun s hs => ?_
    cases hs
    exact ⟨hopened.1.1, hopened.1.2, hopened.2, hgraph, hcomplete⟩
  · rename_i hopen
    let filled (s : CorpusStore) : Prop :=
      s.EdgesOpen ∧ s.graph.backfillComplete = true ∧ s.tables.TermsFull
    refine .andThen (Q := filled) ?_ ?_
    · refine (Triple.loop (J := TermsUpTo) groupsLeft ?_ ?_ ?_ _ _).conseq ?_ (fun _ => id)
        (fun _ => id)
      · intro cursor s hs hpass
        rcases termPass_cases hs hpass with ⟨_, hall⟩ | ⟨_, _, hsome, _⟩
        · exact ⟨hs.edgesOpen, hs.graphComplete, fun group hgroup =>
            hs.terms group hgroup (hall group hgroup)⟩
        · cases hsome
      · intro cursor s s' hs hpass
        rcases termPass_cases hs hpass with ⟨hnone, _⟩ | ⟨_, _, hsome, _⟩
        · cases hnone
        · cases hsome
      · intro cursor s s' cursor' hs hpass
        rcases termPass_cases hs hpass with ⟨hnone, _⟩ | ⟨_, _, hsome, hnext, hless⟩
        · cases hnone
        · cases hsome
          exact ⟨hnext.edgesOpen, hnext, hless⟩
      · intro s hs
        cases hs
        refine ⟨⟨hopened, hgraph, Bool.eq_false_iff.mpr hopen, fun group hgroup hle => ?_⟩, ?_⟩
        · -- a row id is never zero
          have hpos := (hopened.1.1.groups.grouped.rowids group hgroup).1
          omega
        · unfold groupsLeft
          omega
    · refine .commit fun s s' ⟨hs, hgraph, hfull⟩ hok => ?_
      cases hok
      have hcurrent := hs.1.1.withTerms s.tables.groupTerms
        { s.terms with backfillComplete := true } hs.1.1.groups.termsSound
        fun _ => hfull
      exact ⟨⟨⟨hcurrent, hs.1.2⟩, hs.2⟩, ⟨hcurrent, hs.1.2, hs.2, hgraph, rfl⟩⟩

end Terms

/-! ## Opening -/

section Opening

variable [Rowids]

/-- An open leaves a sound store wherever it is cut, and one that is ready if it ends well. -/
theorem opens : Triple Sound Sound openStore Ready := by
  refine .andThen (.check fun s hs hnone => ?_) (.andThen resetIndexes_triple
    (.andThen (severe_triple.conseq (fun _ => id) (fun _ hs => hs.sound) (fun _ => id))
      (.andThen (records_triple.conseq (fun _ => id) (fun _ hs => hs.1.sound) (fun _ => id))
        (.andThen (graph_triple.conseq (fun _ => id) (fun _ hs => hs.1.sound) (fun _ => id))
          (terms_triple.conseq (fun _ => id) (fun _ hs => hs.1.1.sound) (fun _ => id))))))
  split at hnone
  · cases hnone
  · rename_i hversions
    exact ⟨hs, not_not.mp fun hparser => hversions (.inl hparser),
      not_not.mp fun hextractor => hversions (.inr (.inl hextractor))⟩

end Opening

end CorpusStore

/-! ## Histories -/

section Histories

variable [Sha256]

/-- Whatever happens to a store, what its versions do not have emptied is right, and an open
store is indexed. -/
structure CorpusHistory.Valid (h : CorpusHistory) : Prop where
  sound : h.store.Sound
  ready : h.ready = true → h.store.Ready

theorem CorpusStore.Sound.withGroupsOf {s old : CorpusStore} (h : s.Sound) {version : Nat}
    (hold : version ≠ parserIndexVersion) (hgraph : s.parserVersion ≠ 1) :
    ({ s.withGroupsOf old with parserVersion := version } : CorpusStore).Sound where
  recordIds := h.recordIds
  groups heq := absurd heq hold
  graph _ hextractor :=
    ⟨(h.graph hgraph hextractor).evidenced, (h.graph hgraph hextractor).edgesFull⟩

theorem CorpusStore.Sound.ofParser {s : CorpusStore} (h : s.Sound) (old : CorpusStore)
    (version : Nat) : (s.ofParser old version).Sound := by
  unfold CorpusStore.ofParser
  split
  · exact h
  · rename_i hlatest
    rw [not_not] at hlatest
    split
    · refine ⟨h.recordIds, fun heq => ?_, fun hne _ => absurd rfl hne⟩
      cases heq
    · split
      · rename_i hrange
        refine h.withGroupsOf ?_ ?_
        · rintro rfl
          exact absurd hrange.2 (by decide)
        · rw [hlatest]
          decide
      · exact h

theorem CorpusStore.Sound.ofExtractor {s : CorpusStore} (h : s.Sound) (old : CorpusStore) :
    (s.ofExtractor old).Sound where
  recordIds := h.recordIds
  groups heq :=
    have hkept := h.groups heq
    ⟨hkept.grouped, ⟨hkept.termsSound.once, hkept.termsSound.sound⟩, hkept.summary,
      hkept.summarised, hkept.termsFull⟩
  graph _ hne := absurd rfl hne

/-- There was nothing but records. -/
theorem CorpusStore.Sound.beforeGroups {s : CorpusStore} (h : s.Sound) :
    s.beforeGroups.Sound where
  recordIds := h.recordIds
  groups _ := (CorpusStore.groupsKept_reset h.recordIds).resetGraph
  graph _ _ := CorpusStore.graphKept_reset

theorem CorpusStore.Sound.beforeGraph {s : CorpusStore} (h : s.Sound) : s.beforeGraph.Sound where
  recordIds := h.recordIds
  groups heq := (h.groups heq).resetGraph
  graph _ _ := CorpusStore.graphKept_reset

theorem CorpusStore.Sound.beforeTerms {s : CorpusStore} (h : s.Sound) : s.beforeTerms.Sound where
  recordIds := h.recordIds
  groups heq :=
    have hkept := h.groups heq
    ⟨hkept.grouped, ⟨List.nodup_nil, List.forall_mem_nil _⟩, hkept.summary, hkept.summarised,
      (fun hfalse => by cases hfalse)⟩
  graph hne hextractor :=
    ⟨(h.graph hne hextractor).evidenced, (h.graph hne hextractor).edgesFull⟩

theorem CorpusStore.Sound.beforeSevere {s : CorpusStore} (h : s.Sound) :
    s.beforeSevere.Sound where
  recordIds := h.recordIds
  groups heq :=
    have hkept := h.groups heq
    ⟨hkept.grouped, ⟨hkept.termsSound.once, hkept.termsSound.sound⟩,
      fun _ hne => absurd rfl hne, (fun hfalse => by cases hfalse), hkept.termsFull⟩
  graph hne hextractor :=
    ⟨(h.graph hne hextractor).evidenced, (h.graph hne hextractor).edgesFull⟩

namespace CorpusHistory

theorem valid_empty : ({} : CorpusHistory).Valid where
  sound :=
    ⟨List.nodup_nil, fun _ => ⟨CorpusStore.grouped_empty List.nodup_nil,
        ⟨List.nodup_nil, List.forall_mem_nil _⟩, fun _ hne => absurd rfl hne,
        (fun hfalse => by cases hfalse), (fun hfalse => by cases hfalse)⟩,
      fun _ _ => ⟨CorpusStore.evidenced_empty, (fun hfalse => by cases hfalse)⟩⟩
  ready hready := by cases hready

variable [Rowids]

theorem Valid.step {h : CorpusHistory} (hvalid : h.Valid) (event : CorpusEvent) :
    (h.step event).Valid := by
  have hclosed : ∀ {store : CorpusStore}, store.Sound → (⟨store, false⟩ : CorpusHistory).Valid :=
    fun hsound => ⟨hsound, fun hready => by cases hready⟩
  cases event with
  | commitPage fault records =>
      unfold CorpusHistory.step
      dsimp only
      split
      · rename_i hready
        have hnext := (hvalid.ready hready).withTables
          ((hvalid.ready hready).indexed.commitPage fault records)
        exact ⟨hnext.current.sound, fun _ => hnext⟩
      · exact hvalid
  | openStore cut =>
      cases cut with
      | some n => exact hclosed (CorpusStore.opens.cut hvalid.sound hvalid.sound n)
      | none =>
          obtain ⟨hcommits, hend⟩ := CorpusStore.opens h.store hvalid.sound
          exact ⟨final_mem hvalid.sound hcommits, fun hready =>
            hend (Option.isNone_iff_eq_none.mp hready)⟩
  | ofParser old version => exact hclosed (hvalid.sound.ofParser old version)
  | ofExtractor old => exact hclosed (hvalid.sound.ofExtractor old)
  | beforeGroups => exact hclosed hvalid.sound.beforeGroups
  | beforeGraph => exact hclosed hvalid.sound.beforeGraph
  | beforeTerms => exact hclosed hvalid.sound.beforeTerms
  | beforeSevere => exact hclosed hvalid.sound.beforeSevere

theorem Valid.run {h : CorpusHistory} (hvalid : h.Valid) (events : List CorpusEvent) :
    (h.run events).Valid := by
  induction events generalizing h with
  | nil => exact hvalid
  | cons event rest ih => exact ih (hvalid.step event)

end CorpusHistory

end Histories

end Migrated

end Evidentrail
