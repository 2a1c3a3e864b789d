import Evidentrail.Core.Hash
import Evidentrail.Lib.Table
import Evidentrail.Lib.Tally
import Evidentrail.Lib.Utf8
import Std.Data.ExtTreeSet

/-!
# The tables of the history store

Records are committed in pages, one transaction a page. Every new record is
indexed in the same transaction: it joins the group of its template, the
summary of its service is brought up to date, and an edge is drawn to the peer
it names. The store is never scanned for this, so each table carries its own
running count and extremes.

The parser of `evidentrail-log-model` is a parameter: it reads the bytes of one
record and nothing else.
-/

namespace Evidentrail

open Rust Std

inductive CorpusError where
  | invalidKey
  | encryptionUnavailable
  | scopeMismatch
  | conflictingRecord
  | invalidCheckpoint
  | invalidPageBudget
  | recordExceedsPageBudget
  | recordTooLarge
  | indexVersionMismatch
  | walPressure
  | storage
deriving DecidableEq

def maxRawRecordBytes : Nat := 16 * 1024 * 1024

/-- Timestamp, then native id. -/
abbrev RecordKey := Int ×ₗ List UInt8

/-- A record as the provider gives it, and as `history_records` keeps it. -/
structure HistoryRecordV1 where
  nativeId : List UInt8
  eventTimestampMillis : Int
  bytes : List UInt8
deriving DecidableEq

def HistoryRecordV1.key (record : HistoryRecordV1) : RecordKey :=
  toLex (record.eventTimestampMillis, record.nativeId)

structure ParsedEvent where
  service : String
  role : String
  fingerprint : String
deriving DecidableEq

/-- The parser, on the lossily decoded bytes of a record. -/
class LogModel where
  parseEvent : List UInt8 → ParsedEvent
  explicitPeerService : List UInt8 → Option String

def i64Max : Nat := 2 ^ 63 - 1

/-- How SQLite goes on once the largest row id is taken: it tries others, and
may find none. -/
class Rowids where
  retry : List Nat → Option Nat
  unused : ∀ {used : List Nat} {id : Nat}, retry used = some id →
    id ∉ used ∧ 0 < id ∧ id ≤ i64Max

/-- The row id of an `INSERT` that gives none. -/
def nextRowid [Rowids] (used : List Nat) : Except CorpusError Nat :=
  if used.foldl max 0 < i64Max then .ok (used.foldl max 0 + 1)
  else okOr .storage (Rowids.retry used)

/-! ## Rows -/

/-- One more record in the running columns of a group or an edge: the count,
which is an `i64`, and the first and the last record. -/
def extendTally (tally : Tally RecordKey) (record : HistoryRecordV1) :
    Except CorpusError (Tally RecordKey) :=
  if tally.count + 1 ≤ i64Max then .ok (tally.add record.key) else .error .storage

/-- The columns `UNIQUE(service, role, fingerprint_digest)`. -/
structure GroupKey where
  service : String
  role : String
  fingerprintDigest : Digest
deriving DecidableEq

/-- A row of `log_groups`. -/
structure LogGroup where
  groupId : Nat
  key : GroupKey
  tally : Tally RecordKey

/-- A row of `severe_service_groups`. -/
structure SevereServiceGroup where
  service : String
  groupCount : Nat
  oldestGroupId : Nat
  oldestTimestampMillis : Int
  newestGroupId : Nat
  newestTimestampMillis : Int

/-- A row of `group_members`. -/
structure GroupMember where
  nativeId : List UInt8
  groupId : Nat

/-- The columns `PRIMARY KEY(source_service, target_service)`. -/
structure EdgeKey where
  sourceService : String
  targetService : String
deriving DecidableEq

/-- A row of `service_edges`. -/
structure ServiceEdge where
  key : EdgeKey
  tally : Tally RecordKey

/-- A row of `edge_evidence`. -/
structure EdgeEvidence where
  nativeId : List UInt8
  edge : EdgeKey

structure Tables where
  historyRecords : List HistoryRecordV1 := []
  logGroups : List LogGroup := []
  severeServiceGroups : List SevereServiceGroup := []
  groupMembers : List GroupMember := []
  groupTerms : List (Digest × Nat) := []
  serviceEdges : List ServiceEdge := []
  edgeEvidence : List EdgeEvidence := []
  graphVersion : Nat := 0

/-- A row of `log_groups` as it is read back. -/
structure CorpusGroupCard where
  groupId : Nat
  service : String
  role : String
  tally : Tally RecordKey

/-! ## Indexing -/

def isSevere (role : String) : Bool :=
  role = "critical" || role = "error" || role = "warning"

/-- The columns of the conflicting row, with the `CASE` and `MIN`/`MAX`
expressions of the upsert. -/
def SevereServiceGroup.merge (row : SevereServiceGroup) (groupId : Nat)
    (firstTimestampMillis lastTimestampMillis : Int) (newGroup : Bool) : SevereServiceGroup where
  service := row.service
  groupCount := row.groupCount + newGroup.toNat
  oldestGroupId :=
    if firstTimestampMillis < row.oldestTimestampMillis ∨
        firstTimestampMillis = row.oldestTimestampMillis ∧ groupId < row.oldestGroupId
    then groupId else row.oldestGroupId
  oldestTimestampMillis := min row.oldestTimestampMillis firstTimestampMillis
  newestGroupId :=
    if lastTimestampMillis > row.newestTimestampMillis ∨
        lastTimestampMillis = row.newestTimestampMillis ∧ groupId > row.newestGroupId
    then groupId else row.newestGroupId
  newestTimestampMillis := max row.newestTimestampMillis lastTimestampMillis

def upsertSevereService (table : List SevereServiceGroup) (service : String) (groupId : Nat)
    (firstTimestampMillis lastTimestampMillis : Int) (newGroup : Bool) :
    List SevereServiceGroup :=
  match Table.find SevereServiceGroup.service table service with
  | none =>
      table ++ [⟨service, 1, groupId, firstTimestampMillis, groupId, lastTimestampMillis⟩]
  | some _ =>
      Table.update SevereServiceGroup.service service
        (fun row => row.merge groupId firstTimestampMillis lastTimestampMillis newGroup) table

def stopWords : List String :=
  ["the", "and", "for", "with", "from", "that", "this", "then", "into", "what", "when", "where",
    "why", "how", "logs", "log", "find", "show"]

/-- The distinct terms among the first `cap` of a text, in order. -/
def searchTerms (text : String) (cap : Nat) : List String :=
  let pieces := text.toList.splitOnP fun character => !character.isAlphanum
  let terms := (pieces.filter fun term => decide (3 ≤ term.length ∧ term.length ≤ 64)).map
    fun term => String.ofList (term.map Char.toLower)
  (ExtTreeSet.ofList ((terms.filter fun term => !stopWords.contains term).take cap)).toList

section Indexing

variable [Sha256]

/-- `INSERT OR IGNORE` of one term. -/
def insertTerm (groupId : Nat) (table : List (Digest × Nat)) (term : String) :
    List (Digest × Nat) :=
  let row := (Sha256.digest (Utf8.asBytes term), groupId)
  if row ∈ table then table else table ++ [row]

def indexGroupTerms (table : List (Digest × Nat)) (groupId : Nat) (parsed : ParsedEvent) :
    List (Digest × Nat) :=
  (searchTerms (parsed.service ++ " " ++ parsed.role ++ " " ++ parsed.fingerprint) 64).foldl
    (insertTerm groupId) table

variable [LogModel] [Rowids]

/-- The group of a record. -/
def groupKeyOf (record : HistoryRecordV1) : GroupKey :=
  let parsed := LogModel.parseEvent record.bytes
  ⟨parsed.service, parsed.role, Sha256.digest (Utf8.asBytes parsed.fingerprint)⟩

/-- The group of a new record with its running columns brought up to date, the
id of the group, and whether it is new. -/
def joinGroup (groups : List LogGroup) (record : HistoryRecordV1) :
    Except CorpusError (List LogGroup × Nat × Bool) :=
  match Table.find LogGroup.key groups (groupKeyOf record) with
  | some prior => do
      let tally ← extendTally prior.tally record
      .ok (Table.update LogGroup.groupId prior.groupId (fun row => { row with tally }) groups,
        prior.groupId, false)
  | none => do
      let groupId ← nextRowid (groups.map LogGroup.groupId)
      .ok (groups ++ [⟨groupId, groupKeyOf record, .one record.key⟩], groupId, true)

def indexNewRecord (t : Tables) (record : HistoryRecordV1) : Except CorpusError Tables := do
  let parsed := LogModel.parseEvent record.bytes
  let (logGroups, groupId, newGroup) ← joinGroup t.logGroups record
  let severeServiceGroups :=
    if isSevere parsed.role then
      upsertSevereService t.severeServiceGroups parsed.service groupId
        record.eventTimestampMillis record.eventTimestampMillis newGroup
    else t.severeServiceGroups
  let groupTerms := indexGroupTerms t.groupTerms groupId parsed
  if record.nativeId ∈ t.groupMembers.map GroupMember.nativeId then .error .storage
  else .ok { t with
    logGroups, severeServiceGroups, groupTerms
    groupMembers := t.groupMembers ++ [⟨record.nativeId, groupId⟩] }

/-- The edge a record is evidence of. -/
def edgeOf (record : HistoryRecordV1) : Option EdgeKey := do
  let target ← LogModel.explicitPeerService record.bytes
  let source := (LogModel.parseEvent record.bytes).service
  if source = "unknown" ∨ source = target then none else some ⟨source, target⟩

/-- An edge with one more record. -/
def joinEdge (edges : List ServiceEdge) (edge : EdgeKey) (record : HistoryRecordV1) :
    Except CorpusError (List ServiceEdge) :=
  match Table.find ServiceEdge.key edges edge with
  | some prior => do
      let tally ← extendTally prior.tally record
      .ok (Table.update ServiceEdge.key edge (fun row => { row with tally }) edges)
  | none => .ok (edges ++ [⟨edge, .one record.key⟩])

def indexNewEdge (t : Tables) (record : HistoryRecordV1) : Except CorpusError Tables :=
  if record.nativeId ∈ t.edgeEvidence.map EdgeEvidence.nativeId then .ok t
  else
    match edgeOf record with
    | none => .ok t
    | some edge => do
        let serviceEdges ← joinEdge t.serviceEdges edge record
        .ok { t with
          serviceEdges
          edgeEvidence := t.edgeEvidence ++ [⟨record.nativeId, edge⟩]
          graphVersion := t.graphVersion + 1 }

/-! ## Pages -/

def commitRecord (t : Tables) (record : HistoryRecordV1) : Except CorpusError Tables :=
  if record.nativeId.isEmpty ∨ record.eventTimestampMillis < 0 then .error .storage
  else if record.bytes.length > maxRawRecordBytes then .error .recordTooLarge
  else
    match Table.find HistoryRecordV1.nativeId t.historyRecords record.nativeId with
    | some prior =>
        if prior.eventTimestampMillis ≠ record.eventTimestampMillis ∨ prior.bytes ≠ record.bytes
        then .error .conflictingRecord
        else .ok t
    | none => do
        let t ← indexNewRecord
          { t with historyRecords := t.historyRecords ++ [record] } record
        indexNewEdge t record

/-- One page in one transaction, which is rolled back when it is dropped
before its commit. `fault` is what the write-ahead log, a statement or the
commit itself fails with. -/
def commitPageChecked (fault : Option CorpusError) (t : Tables)
    (records : List HistoryRecordV1) : Except CorpusError Unit × Tables :=
  match fault with
  | some e => (.error e, t)
  | none =>
      match records.foldlM commitRecord t with
      | .ok committed => (.ok (), committed)
      | .error e => (.error e, t)

end Indexing

end Evidentrail
