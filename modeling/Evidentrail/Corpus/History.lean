import Evidentrail.Corpus.Pages
import Evidentrail.Lib.Attempt

/-!
# Synchronizing a history

The history of a source is fetched partition by partition, each in pages along
a chain of tokens. A page is committed before the next one is fetched, and the
checkpoint is moved once the last page of a partition is committed. Bounds on
both sides of a partition are inclusive, so the record on a bound is fetched
twice and stored once.

A run ends early when a call fails or the process stops; the store is left as
the calls before left it. The provider is a parameter with a state of its own.
-/

namespace Evidentrail

open Rust Attempt

structure HistoryPartitionV1 where
  startMillis : Int
  endMillis : Int
deriving DecidableEq

structure HistoryPageV1 where
  records : List HistoryRecordV1
  nextToken : Option (List UInt8)

structure HistorySyncLimitsV1 where
  partitionMillis : Int
  maxPartitions : Nat
  maxPagesPerPartition : Nat
  maxRecordsPerPage : Nat
  maxRecordBytes : Nat

def HistorySyncLimitsV1.valid (limits : HistorySyncLimitsV1) : Bool :=
  limits.partitionMillis > 0 && limits.maxPartitions > 0 && limits.maxPagesPerPartition > 0 &&
    limits.maxRecordsPerPage > 0 && limits.maxRecordBytes > 0

inductive HistorySyncErrorV1 where
  | invalidConfiguration
  | invalidPage
  | permissionDenied
  | accessScopeUnverifiable
  | authenticationChanged
  | tokenExpired
  | throttled
  | network
  | provider
  | store
  | storeWalPressure
deriving DecidableEq

inductive HistorySyncStatusV1 where
  | scannedToHighWater
  | backfilling
  | partialPageLimit
  | reconciledLookback
deriving DecidableEq

structure HistorySyncReceiptV1 where
  status : HistorySyncStatusV1
  completedThroughMillis : Int
  highWaterMillis : Int
  completedPartitions : Nat
  committedPages : Nat
  submittedRecords : Nat
deriving DecidableEq

/-! ## The two sides of a run -/

structure HistoryStore where
  tables : Tables := {}
  completedThroughMillis : Option Int := none

def HistoryStore.completePartitionChecked (store : HistoryStore) (completedThrough : Int) :
    Except CorpusError HistoryStore :=
  if completedThrough ≤ store.completedThroughMillis.getD 0 then .error .invalidCheckpoint
  else .ok { store with completedThroughMillis := some completedThrough }

/-- A provider that may answer whatever it likes. -/
structure HistoryPageSourceV1 (σ : Type) where
  fetchPage : σ → HistoryPartitionV1 → Option (List UInt8) →
    Except HistorySyncErrorV1 HistoryPageV1 × σ

/-- A call fails, or the process stops before it is made. -/
inductive Interruption where
  | failed (error : HistorySyncErrorV1)
  | stopped
deriving DecidableEq

/-- The store, the provider, what interrupts the coming calls, and the pages
the provider answered with so far. -/
structure HistoryWorld (σ : Type) where
  store : HistoryStore
  source : σ
  script : List (Option Interruption)
  answers : List (HistoryPartitionV1 × HistoryPageV1) := []

abbrev HistoryM (σ α : Type) := Attempt (HistoryWorld σ) Interruption α

variable {σ : Type}

/-- Before every call. -/
def interrupt : HistoryM σ Unit := fun w =>
  match w.script with
  | [] => (.ok (), w)
  | none :: rest => (.ok (), { w with script := rest })
  | some interruption :: rest => (.error interruption, { w with script := rest })

def fetchPage (source : HistoryPageSourceV1 σ) (partition : HistoryPartitionV1)
    (nextToken : Option (List UInt8)) : HistoryM σ HistoryPageV1 := do
  interrupt
  fun w =>
    match source.fetchPage w.source partition nextToken with
    | (.ok page, s) =>
        (.ok page, { w with source := s, answers := w.answers ++ [(partition, page)] })
    | (.error e, s) => (.error (.failed e), { w with source := s })

def checkpoint : HistoryM σ (Option Int) := do
  interrupt
  let w ← read
  pure w.store.completedThroughMillis

def completePartition (completedThrough : Int) : HistoryM σ Unit := do
  interrupt
  fun w =>
    match w.store.completePartitionChecked completedThrough with
    | .ok store => (.ok (), { w with store })
    | .error _ => (.error (.failed .store), w)

section Runs

variable [Sha256] [LogModel] [Rowids]

def commitPage (records : List HistoryRecordV1) : HistoryM σ Unit := do
  interrupt
  fun w =>
    match commitPageChecked none w.store.tables records with
    | (.ok (), tables) => (.ok (), { w with store := { w.store with tables } })
    | (.error .walPressure, tables) =>
        (.error (.failed .storeWalPressure), { w with store := { w.store with tables } })
    | (.error _, tables) =>
        (.error (.failed .store), { w with store := { w.store with tables } })

/-! ## The loops -/

/-- The timestamp is in the partition. -/
def HistoryPartitionV1.contains (partition : HistoryPartitionV1) (record : HistoryRecordV1) :
    Bool :=
  decide (partition.startMillis ≤ record.eventTimestampMillis) &&
    decide (record.eventTimestampMillis ≤ partition.endMillis)

def acceptsRecords (limits : HistorySyncLimitsV1) (partition : HistoryPartitionV1)
    (page : HistoryPageV1) : Bool :=
  page.records.length ≤ limits.maxRecordsPerPage &&
    page.records.all fun record =>
      !record.nativeId.isEmpty && record.bytes.length ≤ limits.maxRecordBytes &&
        partition.contains record

/-- A token is not empty and was not seen before. -/
def acceptsToken (seenTokens : List (List UInt8)) (page : HistoryPageV1) : Bool :=
  match page.nextToken with
  | none => true
  | some token => !token.isEmpty && !seenTokens.contains token

/-- The pages of one partition, `remaining` more of them at most. The flag says
that the run returns here. -/
def pageLoop (source : HistoryPageSourceV1 σ) (limits : HistorySyncLimitsV1)
    (partition : HistoryPartitionV1) : Nat → Option (List UInt8) → List (List UInt8) →
      HistorySyncReceiptV1 → HistoryM σ (HistorySyncReceiptV1 × Bool)
  | 0, _, _, receipt => pure ({ receipt with status := .partialPageLimit }, true)
  | remaining + 1, nextToken, seenTokens, receipt => do
      let page ← fetchPage source partition nextToken
      require (acceptsRecords limits partition page) (.failed .invalidPage)
      require (acceptsToken seenTokens page) (.failed .invalidPage)
      commitPage page.records
      let receipt := { receipt with
        committedPages := receipt.committedPages + 1
        submittedRecords := receipt.submittedRecords + page.records.length }
      match page.nextToken with
      | none => pure (receipt, false)
      | some token =>
          pageLoop source limits partition remaining (some token) (token :: seenTokens) receipt

/-- `saturating_add` of an `i64`. -/
def saturatingAddI64 (a b : Int) : Int := min (a + b) i64Max

/-- The partitions up to the high-water mark, `remaining` more of them at most.
`advance` is what is done once a partition is complete. -/
def partitionLoop (source : HistoryPageSourceV1 σ) (limits : HistorySyncLimitsV1)
    (highWater : Int) (advance : Int → HistoryM σ Unit) :
    Nat → HistorySyncReceiptV1 → HistoryM σ (HistorySyncReceiptV1 × Bool)
  | 0, receipt => pure (receipt, false)
  | remaining + 1, receipt =>
      if receipt.completedThroughMillis < highWater then do
        let start := receipt.completedThroughMillis
        let stop := min (saturatingAddI64 start limits.partitionMillis) highWater
        let (receipt, done) ← pageLoop source limits ⟨start, stop⟩ limits.maxPagesPerPartition
          none [] receipt
        if done then pure (receipt, true)
        else do
          advance stop
          partitionLoop source limits highWater advance remaining { receipt with
            completedThroughMillis := stop
            completedPartitions := receipt.completedPartitions + 1 }
      else pure (receipt, false)

/-- Both passes over the partitions from `start` on. -/
def scanHistory (source : HistoryPageSourceV1 σ) (limits : HistorySyncLimitsV1)
    (start highWater : Int) (advance : Int → HistoryM σ Unit) (whole : HistorySyncStatusV1) :
    HistoryM σ HistorySyncReceiptV1 := do
  let (receipt, done) ← partitionLoop source limits highWater advance limits.maxPartitions
    ⟨.backfilling, start, highWater, 0, 0, 0⟩
  if done then pure receipt
  else pure { receipt with
    status := if receipt.completedThroughMillis = highWater then whole else .backfilling }

def synchronizeHistoryV1 (source : HistoryPageSourceV1 σ) (highWater : Int)
    (limits : HistorySyncLimitsV1) : HistoryM σ HistorySyncReceiptV1 := do
  require (limits.valid && highWater > 0) (.failed .invalidConfiguration)
  let prior ← checkpoint
  let completedThrough := prior.getD 0
  require (0 ≤ completedThrough && completedThrough ≤ highWater) (.failed .invalidConfiguration)
  scanHistory source limits completedThrough highWater completePartition .scannedToHighWater

def reconcileHistoryRangeV1 (source : HistoryPageSourceV1 σ) (start highWater : Int)
    (limits : HistorySyncLimitsV1) : HistoryM σ HistorySyncReceiptV1 := do
  require (limits.valid && 0 ≤ start && start < highWater) (.failed .invalidConfiguration)
  let prior ← checkpoint
  require (match prior with
    | none => false
    | some completedThrough => decide (highWater ≤ completedThrough))
    (.failed .invalidConfiguration)
  scanHistory source limits start highWater (fun _ => pure ()) .reconciledLookback

/-- `saturating_sub` of two positive numbers does not saturate. -/
def reconcileHistoryV1 (source : HistoryPageSourceV1 σ) (lookback : Int)
    (limits : HistorySyncLimitsV1) : HistoryM σ HistorySyncReceiptV1 := do
  require (limits.valid && lookback > 0) (.failed .invalidConfiguration)
  let prior ← checkpoint
  match prior with
  | none => fail (.failed .invalidConfiguration)
  | some highWater => do
      require (highWater > 0) (.failed .invalidConfiguration)
      reconcileHistoryRangeV1 source (max (highWater - lookback) 0) highWater limits

/-! ## Runs -/

/-- A run with its arguments. -/
inductive HistoryRunV1 where
  | synchronize (highWater : Int) (limits : HistorySyncLimitsV1)
  | reconcile (lookback : Int) (limits : HistorySyncLimitsV1)
  | reconcileRange (start highWater : Int) (limits : HistorySyncLimitsV1)

def HistoryRunV1.attempt (source : HistoryPageSourceV1 σ) :
    HistoryRunV1 → HistoryM σ HistorySyncReceiptV1
  | .synchronize highWater limits => synchronizeHistoryV1 source highWater limits
  | .reconcile lookback limits => reconcileHistoryV1 source lookback limits
  | .reconcileRange start highWater limits =>
      reconcileHistoryRangeV1 source start highWater limits

def HistoryRunV1.limits : HistoryRunV1 → HistorySyncLimitsV1
  | .synchronize _ limits => limits
  | .reconcile _ limits => limits
  | .reconcileRange _ _ limits => limits

/-- A run, the state its provider starts in, and what interrupts its calls. -/
structure HistorySessionV1 (σ : Type) where
  run : HistoryRunV1
  source : σ
  script : List (Option Interruption)

/-- The world a session ends in, and what it reports. -/
def HistorySessionV1.result (session : HistorySessionV1 σ) (source : HistoryPageSourceV1 σ)
    (store : HistoryStore) : Except Interruption HistorySyncReceiptV1 × HistoryWorld σ :=
  session.run.attempt source ⟨store, session.source, session.script, []⟩

def HistoryStore.runSessions (source : HistoryPageSourceV1 σ) (store : HistoryStore)
    (sessions : List (HistorySessionV1 σ)) : HistoryStore :=
  sessions.foldl (fun store session => (session.result source store).2.store) store

end Runs

end Evidentrail
