import Evidentrail.Corpus.Learning
import Evidentrail.Corpus.Reading
import Evidentrail.Lib.Commits

/-!
# Opening a store

A store that an older program left is brought up to date when it is opened. The tables
that have to be built anew are emptied in one transaction, and four backfills fill them
from the records, batch by batch. An open that is cut goes on where it was when the store
is opened again.

A row of metadata that is missing is inserted before it is read, with the defaults of
these structures.
-/

namespace Evidentrail

open Rust Commits

def graphIndexVersion : Nat := 2

def termIndexVersion : Nat := 1

/-- `graph_metadata`, whose `graph_version` stands with the tables. -/
structure GraphMetadata where
  extractorVersion : Nat := graphIndexVersion
  backfillComplete : Bool := false

/-- `term_metadata`. -/
structure TermMetadata where
  indexVersion : Nat := termIndexVersion
  backfillComplete : Bool := false

/-- `severe_service_metadata`. -/
structure SevereMetadata where
  indexVersion : Nat := 1
  backfillComplete : Bool := false
  lastGroupId : Nat := 0

structure CorpusStore where
  tables : Tables := {}
  parserVersion : Nat := parserIndexVersion
  graph : GraphMetadata := {}
  terms : TermMetadata := {}
  severe : SevereMetadata := {}

namespace Tables

/-- The table of records, whose ids are its primary key. -/
def history? (t : Tables) : Option HistoryTable :=
  if h : (t.historyRecords.map HistoryRecordV1.nativeId).Nodup then some ⟨t.historyRecords, h⟩
  else none

/-- The groups behind `after_group_id`, in order. -/
def readGroupCards (t : Tables) (afterGroupId limit : Nat) :
    Except CorpusError (List LogGroup) :=
  if limit = 0 ∨ limit > 256 then .error .invalidPageBudget
  else .ok (((t.logGroups.filter fun group => group.groupId > afterGroupId).insertionSort
    fun a b => a.groupId ≤ b.groupId).take limit)

end Tables

namespace CorpusStore

/-! ## Emptied tables -/

/-- `DELETE` of everything that is derived with the parser. -/
def resetGroups (s : CorpusStore) : CorpusStore :=
  { s with
    tables := { s.tables with
      groupMembers := [], groupTerms := [], severeServiceGroups := [], logGroups := [] }
    parserVersion := parserIndexVersion
    terms := { s.terms with backfillComplete := false }
    severe := { s.severe with backfillComplete := false, lastGroupId := 0 } }

def resetGraph (s : CorpusStore) : CorpusStore :=
  { s with
    tables := { s.tables with edgeEvidence := [], serviceEdges := [], graphVersion := 0 }
    graph := ⟨graphIndexVersion, false⟩ }

def checkVersions : Program CorpusStore CorpusError :=
  check fun s =>
    if ¬(1 ≤ s.parserVersion ∧ s.parserVersion ≤ 5 ∨ s.parserVersion = parserIndexVersion) ∨
        ¬(s.graph.extractorVersion = 1 ∨ s.graph.extractorVersion = graphIndexVersion) ∨
        s.terms.indexVersion ≠ termIndexVersion ∨ s.severe.indexVersion ≠ 1 then
      some .indexVersionMismatch
    else none

def resetIndexes : Program CorpusStore CorpusError :=
  choose fun opened =>
    andThen
      (if opened.parserVersion = 1 then commit fun s => .ok s.resetGroups.resetGraph
      else if 2 ≤ opened.parserVersion ∧ opened.parserVersion ≤ 5 then
        commit fun s => .ok s.resetGroups
      else skip)
      (if opened.parserVersion ≠ 1 ∧ opened.graph.extractorVersion = 1 then
        commit fun s => .ok s.resetGraph
      else skip)

/-! ## Severe services -/

def upsertCard (table : List SevereServiceGroup) (card : LogGroup) : List SevereServiceGroup :=
  if isSevere card.key.role then
    upsertSevereService table card.key.service card.groupId (ofLex card.tally.first).1
      (ofLex card.tally.last).1 true
  else table

/-- One pass of the loop. -/
def severePass (cursor : Nat) (s : CorpusStore) :
    Except CorpusError (Option (CorpusStore × Option Nat)) := do
  let cards ← s.tables.readGroupCards cursor 256
  match cards.getLast? with
  | none => .ok none
  | some last => .ok (some ({ s with
      tables := { s.tables with
        severeServiceGroups := cards.foldl upsertCard s.tables.severeServiceGroups }
      severe := { s.severe with lastGroupId := last.groupId } }, some last.groupId))

/-- Every pass moves the cursor over a group, so the passes are never used up. -/
def backfillSevereServicesIfNeeded : Program CorpusStore CorpusError :=
  choose fun opened =>
    if opened.severe.backfillComplete then skip
    else
      andThen
        (if opened.severe.lastGroupId = 0 then
          commit fun s => .ok { s with tables := { s.tables with severeServiceGroups := [] } }
        else skip)
        (andThen (loop severePass (opened.tables.logGroups.length + 1) opened.severe.lastGroupId)
          (commit fun s => .ok { s with severe := { s.severe with backfillComplete := true } }))

section Indexing

variable [Sha256] [LogModel] [Rowids]

/-! ## Records -/

def indexMissing (t : Tables) (record : HistoryRecordV1) : Except CorpusError Tables :=
  if record.nativeId ∈ t.groupMembers.map GroupMember.nativeId then .ok t
  else indexNewRecord t record

/-- One pass of a loop over the pages of records. -/
def recordPass (index : Tables → HistoryRecordV1 → Except CorpusError Tables)
    (cursor : Option CorpusCursor) (s : CorpusStore) :
    Except CorpusError (Option (CorpusStore × Option (Option CorpusCursor))) := do
  let table ← okOr .storage s.tables.history?
  let page ← readPage table cursor 64 maxRawRecordBytes
  if page.records.isEmpty then .ok none
  else do
    let tables ← page.records.foldlM index s.tables
    .ok (some ({ s with tables }, page.nextCursor.map some))

def indexUnindexedRecords : Program CorpusStore CorpusError :=
  choose fun opened =>
    if opened.tables.historyRecords.length = opened.tables.groupMembers.length then skip
    else
      andThen (loop (recordPass indexMissing) (opened.tables.historyRecords.length + 1) none)
        (check fun s =>
          if s.tables.historyRecords.length = s.tables.groupMembers.length then none
          else some .storage)

/-! ## Edges -/

def backfillGraphIfNeeded : Program CorpusStore CorpusError :=
  choose fun opened =>
    if opened.graph.backfillComplete then skip
    else
      andThen (loop (recordPass indexNewEdge) (opened.tables.historyRecords.length + 1) none)
        (commit fun s => .ok { s with graph := { s.graph with backfillComplete := true } })

/-! ## Terms -/

/-- The terms of a group are those of its first record. -/
def indexCardTerms (records : List HistoryRecordV1) (table : List (Digest × Nat))
    (card : LogGroup) : Except CorpusError (List (Digest × Nat)) := do
  let record ← okOr .storage
    (Table.find HistoryRecordV1.nativeId records (ofLex card.tally.first).2)
  .ok (indexGroupTerms table card.groupId (LogModel.parseEvent record.bytes))

/-- One pass of the loop. -/
def termPass (cursor : Nat) (s : CorpusStore) :
    Except CorpusError (Option (CorpusStore × Option Nat)) := do
  let cards ← s.tables.readGroupCards cursor 256
  match cards.getLast? with
  | none => .ok none
  | some last => do
      let groupTerms ← cards.foldlM (indexCardTerms s.tables.historyRecords) s.tables.groupTerms
      .ok (some ({ s with tables := { s.tables with groupTerms } }, some last.groupId))

def backfillTermsIfNeeded : Program CorpusStore CorpusError :=
  choose fun opened =>
    if opened.terms.backfillComplete then skip
    else
      andThen (loop termPass (opened.tables.logGroups.length + 1) 0)
        (commit fun s => .ok { s with terms := { s.terms with backfillComplete := true } })

/-! ## Opening -/

def openStore : Program CorpusStore CorpusError :=
  andThen checkVersions (andThen resetIndexes (andThen backfillSevereServicesIfNeeded
    (andThen indexUnindexedRecords (andThen backfillGraphIfNeeded backfillTermsIfNeeded))))

end Indexing

/-! ## Older stores -/

/-- Everything that is derived with the parser, as another program left it. -/
def withGroupsOf (s old : CorpusStore) : CorpusStore :=
  { s with
    tables := { s.tables with
      logGroups := old.tables.logGroups
      groupMembers := old.tables.groupMembers
      groupTerms := old.tables.groupTerms
      severeServiceGroups := old.tables.severeServiceGroups }
    terms := { s.terms with backfillComplete := old.terms.backfillComplete }
    severe := { s.severe with
      backfillComplete := old.severe.backfillComplete
      lastGroupId := old.severe.lastGroupId } }

def withGraphOf (s old : CorpusStore) : CorpusStore :=
  { s with
    tables := { s.tables with
      serviceEdges := old.tables.serviceEdges
      edgeEvidence := old.tables.edgeEvidence
      graphVersion := old.tables.graphVersion }
    graph := old.graph }

/-- The store as a program of this parser version would have left it. The graph has a version of
its own, and is another only in a store of the first parser. -/
def ofParser (s old : CorpusStore) (version : Nat) : CorpusStore :=
  if s.parserVersion ≠ parserIndexVersion then s
  else if version = 1 then { (s.withGroupsOf old).withGraphOf old with parserVersion := 1 }
  else if 2 ≤ version ∧ version ≤ 5 then { s.withGroupsOf old with parserVersion := version }
  else s

/-- The store as a program with the first extractor would have left it. -/
def ofExtractor (s old : CorpusStore) : CorpusStore :=
  { s.withGraphOf old with graph := ⟨1, old.graph.backfillComplete⟩ }

/-- The store as it was before anything was derived. -/
def beforeGroups (s : CorpusStore) : CorpusStore := s.resetGroups.resetGraph

/-- The store as it was before there were edges. -/
def beforeGraph (s : CorpusStore) : CorpusStore := s.resetGraph

/-- The store as it was before there were terms. -/
def beforeTerms (s : CorpusStore) : CorpusStore :=
  { s with
    tables := { s.tables with groupTerms := [] }
    terms := { s.terms with backfillComplete := false } }

/-- The store as it was before there were summaries of services. -/
def beforeSevere (s : CorpusStore) : CorpusStore :=
  { s with
    tables := { s.tables with severeServiceGroups := [] }
    severe := { s.severe with backfillComplete := false, lastGroupId := 0 } }

end CorpusStore

/-! ## Histories -/

inductive CorpusEvent where
  | commitPage (fault : Option CorpusError) (records : List HistoryRecordV1)
  /-- An open, cut after so many commits if it is cut. -/
  | openStore (cut : Option Nat)
  | ofParser (old : CorpusStore) (version : Nat)
  | ofExtractor (old : CorpusStore)
  | beforeGroups
  | beforeGraph
  | beforeTerms
  | beforeSevere

/-- A store, and whether it is open. -/
structure CorpusHistory where
  store : CorpusStore := {}
  ready : Bool := false

namespace CorpusHistory

variable [Sha256] [LogModel] [Rowids]

def step (h : CorpusHistory) : CorpusEvent → CorpusHistory
  | .commitPage fault records =>
      if h.ready then
        { h with store := { h.store with
          tables := (commitPageChecked fault h.store.tables records).2 } }
      else h
  | .openStore cut =>
      let opening := CorpusStore.openStore h.store
      match cut with
      | some n => ⟨final h.store (opening.1.take n), false⟩
      | none => ⟨final h.store opening.1, opening.2.isNone⟩
  | .ofParser old version => ⟨h.store.ofParser old version, false⟩
  | .ofExtractor old => ⟨h.store.ofExtractor old, false⟩
  | .beforeGroups => ⟨h.store.beforeGroups, false⟩
  | .beforeGraph => ⟨h.store.beforeGraph, false⟩
  | .beforeTerms => ⟨h.store.beforeTerms, false⟩
  | .beforeSevere => ⟨h.store.beforeSevere, false⟩

def run (h : CorpusHistory) (events : List CorpusEvent) : CorpusHistory :=
  events.foldl step h

end CorpusHistory

end Evidentrail
