import Evidentrail.Corpus.Tables
import Evidentrail.Lib.Sort

/-!
# Reading the history in order

`read_page` cuts the records behind a cursor into pages, `read_nearby` reads around
one record. Both ask for one row more than they may return, to see whether anything
is left.

The order is that of `(event_timestamp_millis, native_id)`, and the id is the primary
key, so a cursor is a place between two records.
-/

namespace Evidentrail

open Rust

/-- The table `history_records`, with its primary key. -/
structure HistoryTable where
  rows : List HistoryRecordV1
  ids : (rows.map HistoryRecordV1.nativeId).Nodup

structure CorpusCursor where
  eventTimestampMillis : Int
  nativeId : List UInt8
deriving DecidableEq

structure CorpusPage where
  records : List HistoryRecordV1
  nextCursor : Option CorpusCursor
deriving DecidableEq

structure NearbyRecords where
  records : List HistoryRecordV1
  beforeTruncated : Bool
  afterTruncated : Bool
deriving DecidableEq

/-! ## Pages -/

/-- `ORDER BY event_timestamp_millis, native_id`. -/
def ascending (rows : List HistoryRecordV1) : List HistoryRecordV1 :=
  rows.insertionSort fun a b => a.key ≤ b.key

/-- `ORDER BY event_timestamp_millis DESC, native_id DESC`. -/
def descending (rows : List HistoryRecordV1) : List HistoryRecordV1 :=
  rows.insertionSort fun a b => b.key ≤ a.key

/-- The `WHERE` clause of a page. -/
def isBehind (after : Option CorpusCursor) (row : HistoryRecordV1) : Bool :=
  after.all fun cursor => cursor.eventTimestampMillis < row.eventTimestampMillis ∨
    row.eventTimestampMillis = cursor.eventTimestampMillis ∧ cursor.nativeId < row.nativeId

/-- The loop over the rows. -/
def takePage (maxRecords maxBytes : Nat) :
    List HistoryRecordV1 → List HistoryRecordV1 → Nat →
      Except CorpusError (List HistoryRecordV1 × Bool)
  | [], records, _ => .ok (records, false)
  | row :: rows, records, totalBytes =>
      if records.length = maxRecords then .ok (records, true)
      else
        let nextTotal := saturatingAdd totalBytes row.bytes.length
        if maxBytes < nextTotal then
          if records.isEmpty then .error .recordExceedsPageBudget else .ok (records, true)
        else takePage maxRecords maxBytes rows (records ++ [row]) nextTotal

def HistoryRecordV1.cursor (record : HistoryRecordV1) : CorpusCursor :=
  ⟨record.eventTimestampMillis, record.nativeId⟩

/-- The limits are small, so `max_records + 1` is an `i64`. -/
def readPage (table : HistoryTable) (after : Option CorpusCursor) (maxRecords maxBytes : Nat) :
    Except CorpusError CorpusPage := do
  if maxRecords = 0 ∨ 256 < maxRecords ∨ maxBytes = 0 ∨ maxRawRecordBytes < maxBytes then
    .error .invalidPageBudget
  let rows := (ascending (table.rows.filter (isBehind after))).take (maxRecords + 1)
  let (records, hasMore) ← takePage maxRecords maxBytes rows [] 0
  return ⟨records, if hasMore then records.getLast?.map HistoryRecordV1.cursor else none⟩

/-! ## Neighbours -/

def getRecord (table : HistoryTable) (nativeId : List UInt8) : Option HistoryRecordV1 :=
  Table.find HistoryRecordV1.nativeId table.rows nativeId

/-- The loop over the candidates of one side: the records it selects, the bytes that remain,
and whether it stopped at a record. -/
def selectNearby (table : HistoryTable) :
    List (List UInt8 × Nat) → Nat → Except CorpusError (List HistoryRecordV1 × Nat × Bool)
  | [], remaining => .ok ([], remaining, false)
  | (nativeId, length) :: candidates, remaining =>
      if remaining < length then .ok ([], remaining, true)
      else do
        let record ← okOr .storage (getRecord table nativeId)
        let (selected, left, stopped) ← selectNearby table candidates (remaining - length)
        return (record :: selected, left, stopped)

/-- One side of the anchor, whose rows come nearest first. -/
def nearbySide (table : HistoryTable) (rows : List HistoryRecordV1) (limit remaining : Nat) :
    Except CorpusError (List HistoryRecordV1 × Nat × Bool) := do
  let candidates := (rows.take (limit + 1)).map fun row => (row.nativeId, row.bytes.length)
  let (selected, left, stopped) ← selectNearby table (candidates.take limit) remaining
  return (selected, left, decide (limit < candidates.length) || stopped)

def readNearby (table : HistoryTable) (nativeId : List UInt8) (before after maxBytes : Nat) :
    Except CorpusError (Option NearbyRecords) := do
  if 32 < before ∨ 32 < after ∨ maxBytes = 0 ∨ 256 * 1024 < maxBytes then
    .error .invalidPageBudget
  let some anchor := getRecord table nativeId | return none
  if maxBytes < anchor.bytes.length then .error .recordExceedsPageBudget
  let earlier := descending (table.rows.filter fun row => row.key < anchor.key)
  let (selected, remaining, beforeTruncated) ←
    nearbySide table earlier before (maxBytes - anchor.bytes.length)
  let later := ascending (table.rows.filter fun row => anchor.key < row.key)
  let (selected', _, afterTruncated) ← nearbySide table later after remaining
  return some ⟨selected.reverse ++ [anchor] ++ selected', beforeTruncated, afterTruncated⟩

end Evidentrail
