import Evidentrail.Corpus.Reading

/-!
# Pages and neighbourhoods are exact

The records behind a cursor are an end of the whole list in order (`later`). A page is
a beginning of it, as long as the limits allow (`takePage_spec`), and the cursor of its
last record stands in front of what is left, so pages that follow each other put the list
together again.
-/

namespace Evidentrail

open Rust Sorting

/-! ## The order -/

namespace HistoryTable

variable (table : HistoryTable)

/-- All records, in order. -/
def ordered : List HistoryRecordV1 := ascending table.rows

/-- The records behind a cursor. -/
def later (after : Option CorpusCursor) : List HistoryRecordV1 :=
  table.ordered.filter (isBehind after)

theorem perm_ordered : table.ordered.Perm table.rows := List.perm_insertionSort _ _

theorem nodup_keys : (table.rows.map HistoryRecordV1.key).Nodup := by
  rw [List.Nodup, List.pairwise_map]
  have hids := table.ids
  rw [List.Nodup, List.pairwise_map] at hids
  refine hids.imp fun {a b} hne heq => hne ?_
  exact congrArg (fun key : RecordKey => (ofLex key).2) heq

theorem pairwise_ordered : table.ordered.Pairwise fun a b => a.key < b.key :=
  pairwise_lt_insertionSort _ table.nodup_keys

theorem ascending_filter (p : HistoryRecordV1 → Bool) :
    ascending (table.rows.filter p) = table.ordered.filter p :=
  insertionSort_eq_of_pairwise _ (table.pairwise_ordered.filter p)
    (table.perm_ordered.symm.filter p)

end HistoryTable

theorem isBehind_cursor {record row : HistoryRecordV1} :
    isBehind (some record.cursor) row = true ↔ record.key < row.key := by
  rw [HistoryRecordV1.key, HistoryRecordV1.key, Prod.Lex.toLex_lt_toLex]
  simp only [isBehind, HistoryRecordV1.cursor, Option.all_some, decide_eq_true_eq,
    @eq_comm _ row.eventTimestampMillis]

theorem isBehind_trans {after : Option CorpusCursor} {record row : HistoryRecordV1}
    (h : isBehind after record = true) (hrow : record.key < row.key) :
    isBehind after row = true := by
  cases after with
  | none => rfl
  | some cursor =>
      let start : HistoryRecordV1 := ⟨cursor.nativeId, cursor.eventTimestampMillis, []⟩
      have hstart : start.key < record.key := isBehind_cursor.mp h
      exact isBehind_cursor.mpr (hstart.trans hrow)

namespace HistoryTable

variable (table : HistoryTable)

/-- The cursor of a record stands in front of what comes behind the record. -/
theorem later_cursor {after : Option CorpusCursor} {front rest : List HistoryRecordV1}
    {last : HistoryRecordV1} (h : table.later after = front ++ last :: rest) :
    table.later (some last.cursor) = rest := by
  have hlast : isBehind after last = true := by
    have hmem : last ∈ table.later after := h ▸ List.mem_append_right _ List.mem_cons_self
    exact (List.mem_filter.mp hmem).2
  have hboth : table.later (some last.cursor) =
      (table.later after).filter fun row => last.key < row.key := by
    rw [later, later, List.filter_filter]
    refine List.filter_congr fun row _ => ?_
    rw [Bool.eq_iff_iff, isBehind_cursor, Bool.and_eq_true, decide_eq_true_iff]
    exact ⟨fun hrow => ⟨hrow, isBehind_trans hlast hrow⟩, fun hrow => hrow.1⟩
  have hsorted := table.pairwise_ordered.filter (isBehind after)
  rw [← later, h] at hsorted
  rw [hboth, h, filter_gt_of_pairwise _ hsorted]

end HistoryTable

/-! ## One page -/

/-- Limits that `read_page` admits. -/
structure PageBudget where
  maxRecords : Nat
  maxBytes : Nat
  records_pos : 0 < maxRecords
  records_le : maxRecords ≤ 256
  bytes_pos : 0 < maxBytes
  bytes_le : maxBytes ≤ maxRawRecordBytes

def recordBytes (records : List HistoryRecordV1) : Nat :=
  (records.map fun record => record.bytes.length).sum

/-- The records fit the limits. -/
structure PageBudget.Fits (budget : PageBudget) (records : List HistoryRecordV1) : Prop where
  count : records.length ≤ budget.maxRecords
  size : recordBytes records ≤ budget.maxBytes

/-- The first of the records is larger than a page. -/
def PageBudget.Blocks (budget : PageBudget) (rows : List HistoryRecordV1) : Prop :=
  ∃ next rest, rows = next :: rest ∧ budget.maxBytes < next.bytes.length

theorem recordBytes_append (a b : List HistoryRecordV1) :
    recordBytes (a ++ b) = recordBytes a + recordBytes b := by
  rw [recordBytes, List.map_append, List.sum_append, recordBytes, recordBytes]

variable {budget : PageBudget}

/-- The loop takes a beginning of the rows that fits, and fails only at a record that fits
no page. -/
theorem takePage_spec (rows : List HistoryRecordV1) {records : List HistoryRecordV1}
    (hfits : budget.Fits records) :
    (∃ taken left, rows = taken ++ left ∧ budget.Fits (records ++ taken) ∧
      (left ≠ [] → records ++ taken ≠ []) ∧
      takePage budget.maxRecords budget.maxBytes rows records (recordBytes records) =
        .ok (records ++ taken, !left.isEmpty)) ∨
    (records = [] ∧ budget.Blocks rows ∧
      takePage budget.maxRecords budget.maxBytes rows records (recordBytes records) =
        .error .recordExceedsPageBudget) := by
  induction rows generalizing records with
  | nil =>
      refine .inl ⟨[], [], rfl, ?_, fun h => absurd rfl h, ?_⟩
      · rwa [List.append_nil]
      · rw [takePage, List.append_nil]
        rfl
  | cons row rows ih =>
      have htotal : recordBytes (records ++ [row]) = recordBytes records + row.bytes.length := by
        rw [recordBytes_append]
        simp [recordBytes]
      have hsmall : budget.maxBytes < u64Bound - 1 :=
        lt_of_le_of_lt budget.bytes_le (by decide)
      have hpos := budget.records_pos
      by_cases hfull : records.length = budget.maxRecords
      · refine .inl ⟨[], row :: rows, rfl, ?_, fun _ hnil => ?_, ?_⟩
        · rwa [List.append_nil]
        · rw [List.append_nil] at hnil
          rw [hnil, List.length_nil] at hfull
          omega
        · rw [takePage, if_pos hfull, List.append_nil]
          rfl
      · by_cases hbytes : recordBytes (records ++ [row]) ≤ budget.maxBytes
        · have hnext : saturatingAdd (recordBytes records) row.bytes.length =
              recordBytes (records ++ [row]) := by
            rw [htotal]
            exact saturatingAdd_of_lt (by omega)
          have hfits' : budget.Fits (records ++ [row]) := by
            refine ⟨?_, hbytes⟩
            have hle := hfits.count
            rw [List.length_append, List.length_singleton]
            omega
          rcases ih hfits' with ⟨taken, left, hrows, htaken, hne, hok⟩ | ⟨hnil, _⟩
          · rw [← List.append_cons] at htaken hne hok
            refine .inl ⟨row :: taken, left, by rw [hrows, List.cons_append], htaken, hne, ?_⟩
            rw [takePage, if_neg hfull, hnext, if_neg (Nat.not_lt.mpr hbytes)]
            exact hok
          · exact absurd hnil (by simp)
        · have hnext : budget.maxBytes <
              saturatingAdd (recordBytes records) row.bytes.length := by
            rw [saturatingAdd]
            omega
          by_cases hempty : records = []
          · refine .inr ⟨hempty, ⟨row, rows, rfl, ?_⟩, ?_⟩
            · rw [hempty, List.nil_append] at hbytes
              simpa [recordBytes] using hbytes
            · rw [takePage, if_neg hfull, if_pos hnext, hempty]
              rfl
          · refine .inl ⟨[], row :: rows, rfl, ?_, fun _ hnil => ?_, ?_⟩
            · rwa [List.append_nil]
            · rw [List.append_nil] at hnil
              exact hempty hnil
            · rw [takePage, if_neg hfull, if_pos hnext, List.append_nil,
                if_neg (by simpa using hempty)]
              rfl

/-- A page is a beginning of what comes behind the cursor, and says whether anything is left;
or the next record is larger than any page. -/
theorem readPage_spec (table : HistoryTable) (budget : PageBudget) (after : Option CorpusCursor) :
    (∃ page left, readPage table after budget.maxRecords budget.maxBytes = .ok page ∧
      table.later after = page.records ++ left ∧ budget.Fits page.records ∧
      ((left = [] ∧ page.nextCursor = none) ∨
        (left ≠ [] ∧ ∃ front last, page.records = front ++ [last] ∧
          page.nextCursor = some last.cursor))) ∨
    (budget.Blocks (table.later after) ∧
      readPage table after budget.maxRecords budget.maxBytes =
        .error .recordExceedsPageBudget) := by
  have hbudget : ¬ (budget.maxRecords = 0 ∨ 256 < budget.maxRecords ∨ budget.maxBytes = 0 ∨
      maxRawRecordBytes < budget.maxBytes) := by
    have h₁ := budget.records_pos
    have h₂ := budget.records_le
    have h₃ := budget.bytes_pos
    have h₄ := budget.bytes_le
    omega
  have hstart : budget.Fits [] := ⟨Nat.zero_le _, Nat.zero_le _⟩
  have hpage : readPage table after budget.maxRecords budget.maxBytes =
      (takePage budget.maxRecords budget.maxBytes
        ((table.later after).take (budget.maxRecords + 1)) [] (recordBytes [])).map
          fun found => ⟨found.1, if found.2 then
            found.1.getLast?.map HistoryRecordV1.cursor else none⟩ := by
    rw [readPage, if_neg hbudget, table.ascending_filter]
    show (takePage _ _ ((table.later after).take _) [] (recordBytes []) >>= _) = _
    cases takePage budget.maxRecords budget.maxBytes
        ((table.later after).take (budget.maxRecords + 1)) [] (recordBytes []) <;> rfl
  rcases takePage_spec ((table.later after).take (budget.maxRecords + 1)) hstart with
    ⟨taken, left, hrows, hfits, hne, hok⟩ | ⟨_, hblocks, herror⟩
  · rw [List.nil_append] at hfits hne hok
    rw [hok] at hpage
    have hwhole := List.take_append_drop (budget.maxRecords + 1) (table.later after)
    rw [hrows, List.append_assoc] at hwhole
    refine .inl ⟨_, left ++ (table.later after).drop (budget.maxRecords + 1), hpage,
      hwhole.symm, hfits, ?_⟩
    cases left with
    | nil =>
        -- fewer rows than were asked for, so there are no others
        have hcount := hfits.count
        have hlength := congrArg List.length hrows
        rw [List.length_take, List.append_nil] at hlength
        exact .inl ⟨List.drop_eq_nil_of_le (by omega), rfl⟩
    | cons next rest =>
        have htaken := hne (List.cons_ne_nil _ _)
        refine .inr ⟨List.cons_ne_nil _ _, taken.dropLast, taken.getLast htaken,
          (List.dropLast_append_getLast htaken).symm, ?_⟩
        show taken.getLast?.map HistoryRecordV1.cursor = _
        rw [List.getLast?_eq_some_getLast htaken, Option.map_some]
  · rw [herror] at hpage
    obtain ⟨next, rest, hnext, hlarge⟩ := hblocks
    refine .inr ⟨?_, hpage⟩
    cases hlater : table.later after with
    | nil =>
        rw [hlater, List.take_nil] at hnext
        cases hnext
    | cons first others =>
        rw [hlater, List.take_succ_cons, List.cons.injEq] at hnext
        exact ⟨first, others, rfl, hnext.1 ▸ hlarge⟩

theorem readPage_error_iff (table : HistoryTable) (budget : PageBudget)
    (after : Option CorpusCursor) (e : CorpusError) :
    readPage table after budget.maxRecords budget.maxBytes = .error e ↔
      e = .recordExceedsPageBudget ∧ budget.Blocks (table.later after) := by
  rcases readPage_spec table budget after with
    ⟨page, left, hok, hlater, hfits, hnext⟩ | ⟨hblocks, herror⟩
  · rw [hok]
    constructor
    · exact fun h => by cases h
    · rintro ⟨_, next, rest, hrows, hlarge⟩
      -- the page would begin with the record that is too large
      rw [hlater] at hrows
      cases hpage : page.records with
      | nil =>
          rcases hnext with ⟨hleft, _⟩ | ⟨_, front, last, hlast, _⟩
          · rw [hpage, hleft] at hrows
            cases hrows
          · rw [hpage] at hlast
            exact absurd hlast.symm (by simp)
      | cons first records =>
          have hsize := hfits.size
          rw [hpage, List.cons_append, List.cons.injEq] at hrows
          rw [hpage, recordBytes, List.map_cons, List.sum_cons, hrows.1] at hsize
          omega
  · rw [herror, Except.error.injEq, @eq_comm _ _ e, and_iff_left hblocks]

/-! ## Page after page -/

inductive PagingEnd where
  | finished
  | failed (error : CorpusError)
  | unfinished
deriving DecidableEq

/-- The pages that follow a cursor, up to `calls` of them, and how the reading ended. -/
def followPages (table : HistoryTable) (maxRecords maxBytes : Nat) :
    Nat → Option CorpusCursor → List CorpusPage × PagingEnd
  | 0, _ => ([], .unfinished)
  | calls + 1, after =>
      match readPage table after maxRecords maxBytes with
      | .error error => ([], .failed error)
      | .ok page =>
          match page.nextCursor with
          | none => ([page], .finished)
          | some cursor =>
              let followed := followPages table maxRecords maxBytes calls (some cursor)
              (page :: followed.1, followed.2)

/-- What was read, and what is left of the records. -/
structure ReadsAll (budget : PageBudget) (rows : List HistoryRecordV1)
    (outcome : List CorpusPage × PagingEnd) (left : List HistoryRecordV1) : Prop where
  read : rows = outcome.1.flatMap CorpusPage.records ++ left
  fits : ∀ page ∈ outcome.1, budget.Fits page.records
  ends : (outcome.2 = .finished ∧ left = []) ∨
    (outcome.2 = .failed .recordExceedsPageBudget ∧ budget.Blocks left)

theorem followPages_spec (table : HistoryTable) (budget : PageBudget) {calls : Nat}
    {after : Option CorpusCursor} (hcalls : (table.later after).length < calls) :
    ∃ left, ReadsAll budget (table.later after)
      (followPages table budget.maxRecords budget.maxBytes calls after) left := by
  induction calls generalizing after with
  | zero => omega
  | succ calls ih =>
      rw [followPages]
      rcases readPage_spec table budget after with
        ⟨page, left, hok, hlater, hfits, hnext⟩ | ⟨hblocks, herror⟩
      · rw [hok]
        rcases hnext with ⟨hleft, hnone⟩ | ⟨hleft, front, last, hrecords, hsome⟩
        · refine ⟨[], ?_⟩
          simp only [hnone]
          refine ⟨by simpa [hleft] using hlater, ?_, .inl ⟨rfl, rfl⟩⟩
          exact fun p hp => List.mem_singleton.mp hp ▸ hfits
        · have hrest : table.later (some last.cursor) = left := by
            refine table.later_cursor (?_ : table.later after = front ++ last :: left)
            rw [hlater, hrecords, List.append_assoc, List.singleton_append]
          have hshorter : (table.later (some last.cursor)).length < calls := by
            have hlength := congrArg List.length hlater
            rw [hrecords, List.length_append, List.length_append, List.length_singleton] at hlength
            rw [hrest]
            omega
          obtain ⟨unread, hreads⟩ := ih hshorter
          refine ⟨unread, ?_⟩
          simp only [hsome]
          refine ⟨?_, ?_, hreads.ends⟩
          · rw [List.flatMap_cons, List.append_assoc, ← hreads.read, hrest, hlater]
          · intro p hp
            rcases List.mem_cons.mp hp with rfl | hlater'
            · exact hfits
            · exact hreads.fits p hlater'
      · rw [herror]
        exact ⟨table.later after, rfl, fun p hp => absurd hp List.not_mem_nil,
          .inr ⟨rfl, hblocks⟩⟩

theorem length_le_recordBytes {record : HistoryRecordV1} {records : List HistoryRecordV1}
    (h : record ∈ records) : record.bytes.length ≤ recordBytes records := by
  obtain ⟨front, rest, rfl⟩ := List.append_of_mem h
  have hcons : recordBytes (record :: rest) = record.bytes.length + recordBytes rest := rfl
  rw [recordBytes_append, hcons]
  omega

theorem ReadsAll.finished_iff {rows left : List HistoryRecordV1}
    {outcome : List CorpusPage × PagingEnd} (h : ReadsAll budget rows outcome left) :
    outcome.2 = .finished ↔ ∀ row ∈ rows, row.bytes.length ≤ budget.maxBytes := by
  rcases h.ends with ⟨hfinished, hleft⟩ | ⟨hfailed, next, rest, hleft, hlarge⟩
  · refine iff_of_true hfinished fun row hrow => ?_
    rw [h.read, hleft, List.append_nil] at hrow
    obtain ⟨page, hpage, hrow⟩ := List.mem_flatMap.mp hrow
    exact (length_le_recordBytes hrow).trans (h.fits page hpage).size
  · refine iff_of_false (by rw [hfailed]; exact fun heq => by cases heq) fun hall => ?_
    have hnext : next ∈ rows := by
      rw [h.read, hleft]
      exact List.mem_append_right _ List.mem_cons_self
    exact absurd (hall next hnext) (Nat.not_le.mpr hlarge)

/-! ## Neighbourhoods -/

namespace HistoryTable

variable (table : HistoryTable)

theorem getRecord_of_mem {row : HistoryRecordV1} (h : row ∈ table.rows) :
    getRecord table row.nativeId = some row := by
  cases hfind : getRecord table row.nativeId with
  | none => exact absurd rfl (Table.find_eq_none.mp hfind row h)
  | some found =>
      obtain ⟨hfound, hid⟩ := Table.mem_of_find hfind
      exact congrArg some (List.inj_on_of_nodup_map table.ids hfound h hid)

/-- The records on the two sides of one of them. -/
theorem sides {anchor : HistoryRecordV1} (h : anchor ∈ table.rows) :
    ∃ earlier later, table.ordered = earlier ++ anchor :: later ∧
      descending (table.rows.filter fun row => row.key < anchor.key) = earlier.reverse ∧
      ascending (table.rows.filter fun row => anchor.key < row.key) = later := by
  obtain ⟨earlier, later, hordered⟩ := List.append_of_mem (table.perm_ordered.mem_iff.mpr h)
  have hsorted := table.pairwise_ordered
  rw [hordered] at hsorted
  have hearlier : table.ordered.filter (fun row => row.key < anchor.key) = earlier := by
    rw [hordered, filter_lt_of_pairwise _ hsorted]
  refine ⟨earlier, later, hordered, ?_, ?_⟩
  · have hdescending : earlier.reverse.Pairwise fun a b =>
        OrderDual.toDual a.key < OrderDual.toDual b.key := by
      rw [List.pairwise_reverse]
      exact (List.pairwise_append.mp hsorted).1
    refine insertionSort_eq_of_pairwise (fun row : HistoryRecordV1 => OrderDual.toDual row.key)
      hdescending ?_
    have hperm := table.perm_ordered.symm.filter fun row => row.key < anchor.key
    rw [hearlier] at hperm
    exact hperm.trans (List.reverse_perm _).symm
  · rw [table.ascending_filter, hordered, filter_gt_of_pairwise _ hsorted]

end HistoryTable

/-- The loop selects a beginning of the candidates that fits what remains. -/
theorem selectNearby_spec {table : HistoryTable} (rows : List HistoryRecordV1)
    (hrows : ∀ row ∈ rows, row ∈ table.rows) (remaining : Nat) :
    ∃ selected left, rows = selected ++ left ∧ recordBytes selected ≤ remaining ∧
      (∀ next ∈ left.head?, remaining < recordBytes selected + next.bytes.length) ∧
      selectNearby table (rows.map fun row => (row.nativeId, row.bytes.length)) remaining =
        .ok (selected, remaining - recordBytes selected, !left.isEmpty) := by
  induction rows generalizing remaining with
  | nil => exact ⟨[], [], rfl, Nat.zero_le _, nofun, rfl⟩
  | cons row rows ih =>
      rw [List.forall_mem_cons] at hrows
      rw [List.map_cons, selectNearby]
      by_cases hstop : remaining < row.bytes.length
      · refine ⟨[], row :: rows, rfl, Nat.zero_le _, ?_, by rw [if_pos hstop]; rfl⟩
        rintro _ ⟨⟩
        exact Nat.lt_of_lt_of_le hstop (Nat.le_add_left _ _)
      · obtain ⟨selected, left, hsplit, hsize, hnext, hok⟩ :=
          ih hrows.2 (remaining - row.bytes.length)
        have htotal : recordBytes (row :: selected) = row.bytes.length + recordBytes selected := rfl
        refine ⟨row :: selected, left, by rw [hsplit, List.cons_append], by omega,
          fun next hmem => ?_, ?_⟩
        · have hover := hnext next hmem
          omega
        rw [if_neg hstop, table.getRecord_of_mem hrows.1, okOr_some, except_bind_ok, hok,
          except_bind_ok, htotal, Nat.sub_sub]
        rfl

/-- One side: what is selected comes first, and the flag says whether anything is left out. -/
theorem nearbySide_spec {table : HistoryTable} (rows : List HistoryRecordV1)
    (hrows : ∀ row ∈ rows, row ∈ table.rows) (limit remaining : Nat) :
    ∃ selected left, rows = selected ++ left ∧ selected.length ≤ limit ∧
      recordBytes selected ≤ remaining ∧
      (∀ next ∈ left.head?, selected.length = limit ∨
        remaining < recordBytes selected + next.bytes.length) ∧
      nearbySide table rows limit remaining =
        .ok (selected, remaining - recordBytes selected, !left.isEmpty) := by
  obtain ⟨selected, left, hsplit, hsize, hnext, hok⟩ := selectNearby_spec (rows.take limit)
    (fun row hrow => hrows row (List.mem_of_mem_take hrow)) remaining
  have hwhole := List.take_append_drop limit rows
  rw [hsplit, List.append_assoc] at hwhole
  have hcount : selected.length ≤ limit := by
    have hlength := congrArg List.length hsplit
    rw [List.length_take, List.length_append] at hlength
    omega
  refine ⟨selected, left ++ rows.drop limit, hwhole.symm, hcount, hsize, fun next hmem => ?_, ?_⟩
  · cases left with
    | cons first left => exact .inr (hnext next hmem)
    | nil =>
        -- the loop took all it was given, and there is more
        have hmore : rows.drop limit ≠ [] := List.ne_nil_of_mem (List.mem_of_mem_head? hmem)
        have hlength := congrArg List.length hsplit
        rw [ne_eq, List.drop_eq_nil_iff, Nat.not_le] at hmore
        rw [List.append_nil, List.length_take_of_le hmore.le] at hlength
        exact .inl hlength.symm
  have htake :
      ((rows.take (limit + 1)).map fun row => (row.nativeId, row.bytes.length)).take limit =
        (rows.take limit).map fun row => (row.nativeId, row.bytes.length) := by
    rw [← List.map_take, List.take_take, Nat.min_eq_left (Nat.le_succ _)]
  have hflag : (decide (limit < ((rows.take (limit + 1)).map fun row =>
      (row.nativeId, row.bytes.length)).length) || !left.isEmpty) =
        !(left ++ rows.drop limit).isEmpty := by
    rw [Bool.eq_iff_iff, Bool.or_eq_true, decide_eq_true_iff, List.length_map, List.length_take]
    simp only [Bool.not_eq_true', List.isEmpty_eq_false_iff, ne_eq, List.append_eq_nil_iff,
      List.drop_eq_nil_iff, not_and_or]
    rw [or_comm]
    exact or_congr_right (by omega)
  rw [nearbySide, htake, hok, except_bind_ok, ← hflag]
  rfl

/-- Limits that `read_nearby` admits. -/
structure NearbyBudget where
  before : Nat
  after : Nat
  maxBytes : Nat
  before_le : before ≤ 32
  after_le : after ≤ 32
  bytes_pos : 0 < maxBytes
  bytes_le : maxBytes ≤ 256 * 1024

/-- A run of the records in order, around one of them. A side ends where there are
no more records, at its limit or in front of a record that the bytes left do not
cover; what comes before the record is taken first. -/
structure Surrounds (table : HistoryTable) (budget : NearbyBudget) (anchor : HistoryRecordV1)
    (found : NearbyRecords) : Prop where
  run : ∃ front earlier later back, found.records = earlier ++ anchor :: later ∧
    table.ordered = front ++ found.records ++ back ∧ earlier.length ≤ budget.before ∧
    later.length ≤ budget.after ∧ (found.beforeTruncated = true ↔ front ≠ []) ∧
    (found.afterTruncated = true ↔ back ≠ []) ∧
    (∀ next ∈ front.getLast?, earlier.length = budget.before ∨
      budget.maxBytes < recordBytes (earlier ++ [anchor]) + next.bytes.length) ∧
    ∀ next ∈ back.head?, later.length = budget.after ∨
      budget.maxBytes < recordBytes found.records + next.bytes.length
  size : recordBytes found.records ≤ budget.maxBytes

section Nearby

variable (table : HistoryTable) (budget : NearbyBudget)

theorem NearbyBudget.admitted : ¬ (32 < budget.before ∨ 32 < budget.after ∨ budget.maxBytes = 0 ∨
    256 * 1024 < budget.maxBytes) := by
  have h₁ := budget.before_le
  have h₂ := budget.after_le
  have h₃ := budget.bytes_pos
  have h₄ := budget.bytes_le
  omega

/-- An id finds its record. -/
theorem getRecord_eq_some {nativeId : List UInt8} {row : HistoryRecordV1} :
    getRecord table nativeId = some row ↔ row ∈ table.rows ∧ row.nativeId = nativeId := by
  refine ⟨Table.mem_of_find, ?_⟩
  rintro ⟨hrow, rfl⟩
  exact table.getRecord_of_mem hrow

theorem readNearby_absent {nativeId : List UInt8}
    (h : ∀ row ∈ table.rows, row.nativeId ≠ nativeId) :
    readNearby table nativeId budget.before budget.after budget.maxBytes = .ok none := by
  have hnone : getRecord table nativeId = none := Table.find_eq_none.mpr h
  rw [readNearby, if_neg budget.admitted, hnone]
  rfl

theorem readNearby_spec {anchor : HistoryRecordV1} (h : anchor ∈ table.rows) :
    (budget.maxBytes < anchor.bytes.length →
      readNearby table anchor.nativeId budget.before budget.after budget.maxBytes =
        .error .recordExceedsPageBudget) ∧
    (anchor.bytes.length ≤ budget.maxBytes → ∃ found,
      readNearby table anchor.nativeId budget.before budget.after budget.maxBytes =
        .ok (some found) ∧ Surrounds table budget anchor found) := by
  rw [readNearby, if_neg budget.admitted, table.getRecord_of_mem h]
  refine ⟨fun hlarge => if_pos hlarge, fun hsmall => ?_⟩
  dsimp only
  rw [if_neg (Nat.not_lt.mpr hsmall)]
  obtain ⟨earlier, later, hordered, hdescending, hascending⟩ := table.sides h
  have hrows : ∀ row ∈ table.ordered, row ∈ table.rows :=
    fun row hrow => table.perm_ordered.mem_iff.mp hrow
  rw [hordered] at hrows
  obtain ⟨selected, front, hfront, hcount, hsize, hnext, hok⟩ := nearbySide_spec
    earlier.reverse (fun row hrow => hrows row (List.mem_append_left _
      (List.mem_reverse.mp hrow))) budget.before (budget.maxBytes - anchor.bytes.length)
  obtain ⟨selected', back, hback, hcount', hsize', hnext', hok'⟩ := nearbySide_spec later
    (fun row hrow => hrows row (List.mem_append_right _ (List.mem_cons_of_mem _ hrow)))
    budget.after (budget.maxBytes - anchor.bytes.length - recordBytes selected)
  have hreverse : recordBytes selected.reverse = recordBytes selected := by
    rw [recordBytes, List.map_reverse, List.sum_reverse, recordBytes]
  have hone : recordBytes [anchor] = anchor.bytes.length := Nat.add_zero _
  have htotal : recordBytes (selected.reverse ++ [anchor] ++ selected') =
      recordBytes selected + anchor.bytes.length + recordBytes selected' := by
    rw [recordBytes_append, recordBytes_append, hreverse, hone]
  refine ⟨⟨selected.reverse ++ [anchor] ++ selected', !front.isEmpty, !back.isEmpty⟩,
    ?_, ⟨front.reverse, selected.reverse, selected', back, ?_, ?_, ?_, hcount', ?_, ?_, ?_, ?_⟩,
    ?_⟩
  · rw [hdescending, hok, except_bind_ok, hascending, hok', except_bind_ok]
    rfl
  · rw [List.append_assoc, List.singleton_append]
  · have hearlier : earlier = front.reverse ++ selected.reverse := by
      rw [← List.reverse_append, ← hfront, List.reverse_reverse]
    rw [hordered, hearlier, hback]
    simp only [List.append_assoc, List.cons_append, List.nil_append]
  · rwa [List.length_reverse]
  · simp
  · simp
  · intro next hmem
    rw [List.getLast?_reverse] at hmem
    rw [List.length_reverse, recordBytes_append, hreverse, hone]
    exact (hnext next hmem).imp_right fun hover => by omega
  · intro next hmem
    rw [htotal]
    exact (hnext' next hmem).imp_right fun hover => by omega
  · rw [htotal]
    omega

end Nearby

/-- **Pages and neighbourhoods are exact.** The pages that follow each other from the start
fit the limits and end, and put together they are all the records in order, each once, unless
the next record alone is larger than a page: then, and only then, the reading fails. What is
read around a record is a run of the records in order, within the limits on both sides and in
total, and each flag says whether the run leaves a record of its side out; nothing is read
around an id that no record has. -/
theorem reading_exact (table : HistoryTable) :
    (table.ordered.Perm table.rows ∧ table.ordered.Pairwise fun a b => a.key < b.key) ∧
    (∀ (budget : PageBudget) (calls : Nat), table.rows.length < calls →
      (∃ left, ReadsAll budget table.ordered
        (followPages table budget.maxRecords budget.maxBytes calls none) left) ∧
      ((followPages table budget.maxRecords budget.maxBytes calls none).2 = .finished ↔
        ∀ row ∈ table.rows, row.bytes.length ≤ budget.maxBytes)) ∧
    (∀ (budget : PageBudget) (after : Option CorpusCursor) (e : CorpusError),
      readPage table after budget.maxRecords budget.maxBytes = .error e ↔
        e = .recordExceedsPageBudget ∧ budget.Blocks (table.later after)) ∧
    (∀ nativeId row, getRecord table nativeId = some row ↔
      row ∈ table.rows ∧ row.nativeId = nativeId) ∧
    ∀ budget : NearbyBudget,
      (∀ nativeId, (∀ row ∈ table.rows, row.nativeId ≠ nativeId) →
        readNearby table nativeId budget.before budget.after budget.maxBytes = .ok none) ∧
      ∀ anchor ∈ table.rows,
        (budget.maxBytes < anchor.bytes.length →
          readNearby table anchor.nativeId budget.before budget.after budget.maxBytes =
            .error .recordExceedsPageBudget) ∧
        (anchor.bytes.length ≤ budget.maxBytes → ∃ found,
          readNearby table anchor.nativeId budget.before budget.after budget.maxBytes =
            .ok (some found) ∧ Surrounds table budget anchor found) := by
  refine ⟨⟨table.perm_ordered, table.pairwise_ordered⟩, fun budget calls hcalls => ?_,
    readPage_error_iff table, fun _ _ => getRecord_eq_some table, fun budget =>
      ⟨fun _ => readNearby_absent table budget, fun _ => readNearby_spec table budget⟩⟩
  have hall : table.later none = table.ordered := List.filter_eq_self.mpr fun _ _ => rfl
  have hlength := table.perm_ordered.length_eq
  obtain ⟨left, hreads⟩ := followPages_spec table budget
    (show (table.later none).length < calls by rw [hall]; omega)
  rw [hall] at hreads
  refine ⟨⟨left, hreads⟩, hreads.finished_iff.trans ?_⟩
  simp only [table.perm_ordered.mem_iff]

/-- Four records, two of them with one time. -/
def fourRecords : HistoryTable :=
  ⟨[⟨[2], 10, [1, 2]⟩, ⟨[1], 10, [3]⟩, ⟨[3], 20, [4, 5, 6]⟩, ⟨[4], 5, [7]⟩], by decide⟩

def twoAPage : PageBudget := ⟨2, 8, Nat.succ_pos 1, by decide, Nat.succ_pos 7, by decide⟩

def oneEachSide : NearbyBudget := ⟨1, 1, 4, by decide, by decide, Nat.succ_pos 3, by decide⟩

/-- Two pages hold everything, one of two bytes cannot hold the last record, and
around a record the bytes may end before the limits do. -/
theorem reading_exact_four_records :
    (followPages fourRecords 2 8 5 none).2 = .finished ∧
    (followPages fourRecords 2 8 5 none).1.flatMap CorpusPage.records = fourRecords.ordered ∧
    readPage fourRecords (some ⟨10, [2]⟩) 2 2 = .error .recordExceedsPageBudget ∧
    getRecord fourRecords [2] = some ⟨[2], 10, [1, 2]⟩ ∧
    readNearby fourRecords [9] 1 1 4 = .ok none ∧
    readNearby fourRecords [3] 1 1 2 = .error .recordExceedsPageBudget ∧
    ∃ found, readNearby fourRecords [2] 1 1 4 = .ok (some found) ∧
      Surrounds fourRecords oneEachSide ⟨[2], 10, [1, 2]⟩ found := by
  obtain ⟨_, hpages, herrors, hfound, hnearby⟩ := reading_exact fourRecords
  obtain ⟨⟨left, hreads⟩, hfinished⟩ := hpages twoAPage 5 (by decide)
  have hends := hfinished.mpr (by decide)
  have hleft : left = [] := by
    obtain ⟨_, hleft⟩ | ⟨hfailed, _⟩ := hreads.ends
    · exact hleft
    · rw [hends] at hfailed
      cases hfailed
  have hread := hreads.read
  rw [hleft, List.append_nil] at hread
  refine ⟨hends, hread.symm, ?_, (hfound _ _).mpr (by decide),
    (hnearby oneEachSide).1 [9] (by decide), ?_, ?_⟩
  · exact (herrors ⟨2, 2, by decide, by decide, by decide, by decide⟩ _ _).mpr
      ⟨rfl, ⟨[3], 20, [4, 5, 6]⟩, [], by decide, by decide⟩
  · exact ((hnearby ⟨1, 1, 2, by decide, by decide, by decide, by decide⟩).2 ⟨[3], 20, [4, 5, 6]⟩
      (by decide)).1 (by decide)
  · exact ((hnearby oneEachSide).2 ⟨[2], 10, [1, 2]⟩ (by decide)).2 (by decide)

end Evidentrail
