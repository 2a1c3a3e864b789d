import Evidentrail.Lib.Attempt
import Evidentrail.Lib.Bytes
import Evidentrail.Lib.Search
import Evidentrail.Store.Authority

/-!
# Directories of a durable result

A result lives in one directory: a lock file, a request segment, one segment
for each batch, the data commit, the sealed products and the repository
commitment. Frames are encrypted with the result's key; opening one with
another key fails, and with the right key gives back what was sealed. The
encodings of frames enter only through digests, which are parameters
(`SnapshotFormatV2`).
-/

namespace Evidentrail

open Rust Std Encoding Slice
open Bytes (beBytes i64Be)

def maxFramePlaintextBytes : Nat := 8 * 1024 * 1024
def maxFramesPerSegment : Nat := 4096
def maxDurableBatchEvents : Nat := maxFramesPerSegment - 2
def maxDurableExpansionEvents : Nat := 1024
def maxDurableExpansionBytes : Nat := 64 * 1024 * 1024
def creatingRecoveryGraceNanos : Int := 300000000000
def eventPayloadHeaderBytes : Nat := 112
def maxAuthenticatedEventIndexEntries : Nat := 1000000
def maxAuthenticatedEventIndexShardEntries : Nat := 16384

inductive DurableRepositoryErrorV2 where
  | invalidRoot
  | unsafeFilesystemObject
  | repositoryLocked
  | resultLocked
  | authorityLocked
  | authorityUnavailable
  | invalidOperation
  | operationConflict
  | invalidState
  | capacityExceeded
  | resultUnavailable
  | writeFailed
  | fileSyncFailed
  | directorySyncFailed
  | readFailed
  | decodeFailed
  | authenticationFailed
  | commitmentMismatch
  | duplicateEvent
  | batchOrdinalMismatch
  | publicationFailed
  | rollbackOrCorruption
  | reissueRequired
  | cleanupFailed
  | faultInjected
deriving DecidableEq

/-- `From<KeyAuthorityErrorV2>`. -/
def DurableRepositoryErrorV2.ofAuthority : KeyAuthorityErrorV2 → DurableRepositoryErrorV2
  | .locked => .authorityLocked
  | .notFound => .resultUnavailable
  | .operationConflict => .operationConflict
  | .invalidTransition => .invalidState
  | .capacityExceeded => .capacityExceeded
  | .nonceNamespaceExhausted => .capacityExceeded
  | _ => .authorityUnavailable

/-! ## Inputs -/

structure DurableEventInputV2 where
  eventId : EventId
  exactnessBasis : ExactnessBasis
  authorizedBytes : List UInt8
  fits : eventPayloadHeaderBytes + authorizedBytes.length ≤ maxFramePlaintextBytes
deriving DecidableEq

/-- The basis codes that `decode_event_payload` accepts. -/
def DurableEventInputV2.decodes (event : DurableEventInputV2) : Bool :=
  match event.exactnessBasis with
  | .sourceExact => true
  | .postPolicy policyDigest receiptId =>
      policyDigest.asBytes.any (· ≠ 0) && receiptId.asBytes.any (· ≠ 0)

structure BatchCommitInputV2 where
  ordinal : Nat
  operation : OperationIdV1
  events : List DurableEventInputV2
  semanticReceipts : List (List UInt8)
  operationalReceipts : List (List UInt8)
deriving DecidableEq

def BatchCommitInputV2.frameCount (input : BatchCommitInputV2) : Nat :=
  2 + input.events.length + input.semanticReceipts.length + input.operationalReceipts.length

def BatchCommitInputV2.new (ordinal : Nat) (operation : OperationIdV1)
    (events : List DurableEventInputV2) (semanticReceipts operationalReceipts : List (List UInt8)) :
    Except DurableRepositoryErrorV2 BatchCommitInputV2 :=
  let input : BatchCommitInputV2 :=
    ⟨ordinal, operation, events, semanticReceipts, operationalReceipts⟩
  if operation.isZero ∨ events.length > maxDurableBatchEvents ∨
      input.frameCount > maxFramesPerSegment ∨
      (semanticReceipts ++ operationalReceipts).any (·.length > maxFramePlaintextBytes) then
    .error .invalidOperation
  else .ok input

structure DataCommitInputV2 where
  operation : OperationIdV1
  questionConfiguration : LifecycleDigestV1
  acquisitionReceipt : LifecycleDigestV1
  transformationReceipts : LifecycleDigestV1
  fetchCompletion : LifecycleDigestV1
  sourceIdentity : LifecycleDigestV1
  buildContext : BuildContextDigestsV1
deriving DecidableEq

structure SealInputV2 where
  operation : OperationIdV1
  logBrief : List UInt8
  references : List UInt8
  presentationReceipt : List UInt8
  status : List UInt8
  aliasManifest : List UInt8
deriving DecidableEq

def SealInputV2.products (input : SealInputV2) : List (List UInt8) :=
  [input.logBrief, input.references, input.presentationReceipt, input.status,
    input.aliasManifest]

/-! ## Segments -/

/-- A segment file: its header names the result, its frames are sealed under
one key. -/
structure SegmentV2 (α : Type) where
  resultId : ResultId
  resultDek : ResultDekV1
  content : α
deriving DecidableEq

/-- Read a segment and open its frames. -/
def SegmentV2.opened {α : Type} (segment : SegmentV2 α) (resultId : ResultId)
    (resultDek : ResultDekV1) : Except DurableRepositoryErrorV2 α :=
  if segment.resultId ≠ resultId then .error .commitmentMismatch
  else if segment.resultDek ≠ resultDek then .error .authenticationFailed
  else .ok segment.content

theorem SegmentV2.opened_self {α : Type} (resultId : ResultId) (resultDek : ResultDekV1)
    (content : α) :
    (⟨resultId, resultDek, content⟩ : SegmentV2 α).opened resultId resultDek = .ok content := by
  simp [SegmentV2.opened]

/-- A missing file is a failed read. -/
def openFile {α : Type} (file : Option (SegmentV2 α)) (resultId : ResultId)
    (resultDek : ResultDekV1) : Except DurableRepositoryErrorV2 α :=
  match file with
  | none => .error .readFailed
  | some segment => segment.opened resultId resultDek

structure EventFrameLocatorV2 where
  segmentOrdinal : Nat
  frameSequence : Nat
  plaintextLength : Nat
deriving DecidableEq

structure AuthenticatedEventIndexEntryV2 where
  eventId : EventId
  exactnessBasis : ExactnessBasis
  locator : EventFrameLocatorV2
deriving DecidableEq

structure DurableEventAcknowledgementV2 where
  eventId : EventId
  locator : EventFrameLocatorV2
deriving DecidableEq

structure DataManifestV2 where
  resultId : ResultId
  batchCount : Nat
  eventCount : Nat
  request : LifecycleDigestV1
  questionConfiguration : LifecycleDigestV1
  batchChain : LifecycleDigestV1
  eventIndex : LifecycleDigestV1
  acquisitionReceipt : LifecycleDigestV1
  transformationReceipts : LifecycleDigestV1
  fetchCompletion : LifecycleDigestV1
  sourceIdentity : LifecycleDigestV1
  buildContext : LifecycleDigestV1
  frameChain : FrameCommitmentV1
deriving DecidableEq

structure FinalManifestV2 where
  resultId : ResultId
  dataManifest : LifecycleDigestV1
  eventIndex : LifecycleDigestV1
  frameChain : FrameCommitmentV1
  productDigests : List LifecycleDigestV1
  productFrameCount : Nat
  eventCount : Nat
deriving DecidableEq

/-- `data-commit.seg`: the sorted index, its directory and the manifest. -/
structure DataCommitV2 where
  segmentOrdinal : Nat
  index : List AuthenticatedEventIndexEntryV2
  manifest : DataManifestV2
deriving DecidableEq

/-- `sealed-products.seg`. -/
structure SealedProductsV2 where
  segmentOrdinal : Nat
  products : List (List UInt8)
  manifest : FinalManifestV2
deriving DecidableEq

/-- Batches are numbered from 0 without a gap: the next one is all that
`commit_batch` ever writes. -/
structure ResultDirectoryV2 where
  resultLock : Bool := false
  request : Option (SegmentV2 (List UInt8)) := none
  batches : List (SegmentV2 BatchCommitInputV2) := []
  dataCommit : Option (SegmentV2 DataCommitV2) := none
  sealedProducts : Option (SegmentV2 SealedProductsV2) := none
  repositoryCommitment : Option LifecycleDigestV1 := none
deriving DecidableEq

/-- The commitment of the last acquisition frame, that of the last product frame,
and the digest of the event index directory, which holds the commitments of the
event frames. All three are taken over ciphertext: they depend on the nonces and
the key that a segment was sealed with, and a directory of opened segments does
not determine them. -/
class SnapshotFormatV2 where
  acquisitionChain : List UInt8 → List BatchCommitInputV2 → FrameCommitmentV1
  productChain : SealedProductsV2 → LifecycleDigestV1
  eventIndexDigest : List AuthenticatedEventIndexEntryV2 → FrameCommitmentV1 → LifecycleDigestV1

/-! ## Digests -/

section Digests

variable [Sha256]

def digestBatch (input : BatchCommitInputV2) : LifecycleDigestV1 :=
  lifecycleDigest (asciiBytes "evidentrail.repository.batch.v2" ++ beBytes 8 input.ordinal
    ++ input.operation.asBytes
    ++ input.events.flatMap (fun event => event.eventId.asBytes
        ++ asciiBytes event.exactnessBasis.code ++ beBytes 8 event.authorizedBytes.length
        ++ event.authorizedBytes)
    ++ input.semanticReceipts.flatMap (fun receipt =>
        asciiBytes "semantic" ++ beBytes 8 receipt.length ++ receipt)
    ++ input.operationalReceipts.flatMap (fun receipt =>
        asciiBytes "operational" ++ beBytes 8 receipt.length ++ receipt))

def digestBegin (resultId : ResultId) (created expires : Int) (request : List UInt8) :
    LifecycleDigestV1 :=
  lifecycleDigest (asciiBytes "evidentrail.repository.begin.v2" ++ resultId.asBytes
    ++ i64Be created ++ i64Be expires ++ beBytes 8 request.length ++ request)

def digestWithDomain (domain : String) (parts : List (List UInt8)) : LifecycleDigestV1 :=
  lifecycleDigest (asciiBytes domain ++ parts.flatMap fun part =>
    beBytes 8 part.length ++ part)

def deriveRepositoryCommitment (commitments : SealCommitmentsV1) : LifecycleDigestV1 :=
  digestWithDomain "evidentrail.repository.commitment.v2"
    [commitments.finalManifest.asBytes, commitments.dataManifest.asBytes,
      commitments.eventIndex.asBytes, commitments.frameChain.asBytes,
      commitments.products.asBytes]

/-- The first half of a digest. -/
def operationOfDigest (digest : LifecycleDigestV1) : OperationIdV1 :=
  ⟨digest.asBytes.take 16, by rw [List.length_take, digest.length_eq]; rfl⟩

def derivedOperation (operation : OperationIdV1) (discriminator : UInt8) : OperationIdV1 :=
  operationOfDigest (lifecycleDigest (asciiBytes "evidentrail.repository.derived-operation.v2"
    ++ operation.asBytes ++ [discriminator]))

/-- The operation under which recovery publishes: taken from the manifest, so
that recoveries agree with each other. -/
def recoveryOperation (digest : LifecycleDigestV1) : OperationIdV1 :=
  if (operationOfDigest digest).isZero then
    ⟨List.replicate 15 0 ++ [1], rfl⟩
  else operationOfDigest digest

def DataManifestV2.encode (m : DataManifestV2) : List UInt8 :=
  asciiBytes "EVRDAT02" ++ beBytes 2 2 ++ beBytes 2 5 ++ beBytes 4 0 ++ m.resultId.asBytes
    ++ beBytes 8 m.batchCount ++ beBytes 8 m.eventCount ++ m.request.asBytes
    ++ m.questionConfiguration.asBytes ++ m.batchChain.asBytes ++ m.eventIndex.asBytes
    ++ m.acquisitionReceipt.asBytes ++ m.transformationReceipts.asBytes
    ++ m.fetchCompletion.asBytes ++ m.sourceIdentity.asBytes ++ m.buildContext.asBytes
    ++ m.frameChain.asBytes ++ List.replicate 64 0

def DataManifestV2.digest (m : DataManifestV2) : LifecycleDigestV1 :=
  lifecycleDigest (asciiBytes "evidentrail.snapshot.data-manifest.v2" ++ m.encode)

def FinalManifestV2.productCommitment (m : FinalManifestV2) : LifecycleDigestV1 :=
  lifecycleDigest (asciiBytes "evidentrail.snapshot.products.v2"
    ++ m.productDigests.flatMap FixedBytes.asBytes)

def FinalManifestV2.encode (m : FinalManifestV2) : List UInt8 :=
  asciiBytes "EVRFIN02" ++ beBytes 2 2 ++ beBytes 2 8 ++ beBytes 4 0 ++ m.resultId.asBytes
    ++ m.dataManifest.asBytes ++ m.eventIndex.asBytes ++ m.frameChain.asBytes
    ++ m.productDigests.flatMap FixedBytes.asBytes ++ beBytes 8 m.productFrameCount
    ++ beBytes 8 m.eventCount ++ List.replicate 64 0

def FinalManifestV2.digest (m : FinalManifestV2) : LifecycleDigestV1 :=
  lifecycleDigest (asciiBytes "evidentrail.snapshot.final-manifest.v2" ++ m.encode)

end Digests

/-! ## Reading a directory -/

/-- Index entries of one batch: event `i` is frame `i + 1`, after the batch
metadata. -/
def batchEntries (segmentOrdinal : Nat) (events : List DurableEventInputV2) :
    List AuthenticatedEventIndexEntryV2 :=
  events.zipIdx.map fun (event, position) =>
    ⟨event.eventId, event.exactnessBasis,
      ⟨segmentOrdinal, position + 1, event.authorizedBytes.length⟩⟩

namespace ResultDirectoryV2

/-- Events of one batch: each decodes and none was seen before. -/
def checkEvents (seen : List EventId) :
    List DurableEventInputV2 → Except DurableRepositoryErrorV2 Unit
  | [] => .ok ()
  | event :: rest =>
      if !event.decodes then .error .decodeFailed
      else if event.eventId ∈ seen then .error .duplicateEvent
      else checkEvents (event.eventId :: seen) rest

/-- The batches, opened and checked in order. -/
def openBatches (resultId : ResultId) (resultDek : ResultDekV1) (seen : List EventId) :
    List (SegmentV2 BatchCommitInputV2) →
      Except DurableRepositoryErrorV2 (List BatchCommitInputV2)
  | [] => .ok []
  | segment :: rest => do
      let batch ← segment.opened resultId resultDek
      checkEvents seen batch.events
      let later ← openBatches resultId resultDek
        (batch.events.map DurableEventInputV2.eventId ++ seen) rest
      .ok (batch :: later)

/-- Index entries of the opened batches. -/
def indexEntries (batches : List BatchCommitInputV2) : List AuthenticatedEventIndexEntryV2 :=
  batches.zipIdx.flatMap fun (batch, ordinal) => batchEntries (ordinal + 1) batch.events

/-- What `commit_data` makes of the acquisition: the request, the batches and
the index entries, every event decoded and none twice. -/
def reconstructEventEntries (d : ResultDirectoryV2) (resultId : ResultId)
    (resultDek : ResultDekV1) : Except DurableRepositoryErrorV2
      (List UInt8 × List BatchCommitInputV2 × List AuthenticatedEventIndexEntryV2) := do
  let request ← openFile d.request resultId resultDek
  let batches ← openBatches resultId resultDek [] d.batches
  .ok (request, batches,
    sortByKey AuthenticatedEventIndexEntryV2.eventId (indexEntries batches))

/-- Ordinals of the segment files; two files with one ordinal break the chain. -/
def segmentOrdinals (d : ResultDirectoryV2) : List Nat :=
  (if d.request.isSome then [0] else []) ++ (List.range d.batches.length).map (· + 1)
    ++ (d.dataCommit.map fun segment => segment.content.segmentOrdinal).toList
    ++ (d.sealedProducts.map fun segment => segment.content.segmentOrdinal).toList

/-- `last_chain_position`, reduced to whether a segment is there to chain to:
the commitments of files that only this repository wrote always chain. -/
def lastChainPosition (d : ResultDirectoryV2) : Except DurableRepositoryErrorV2 Bool :=
  if d.segmentOrdinals.Nodup then .ok (d.segmentOrdinals ≠ [])
  else .error .commitmentMismatch

def nextSegmentOrdinal (d : ResultDirectoryV2) : Except DurableRepositoryErrorV2 Nat :=
  if d.segmentOrdinals.Nodup then .ok (d.segmentOrdinals.foldl max 0 + 1)
  else .error .commitmentMismatch

def readDataManifest (d : ResultDirectoryV2) (resultId : ResultId) (resultDek : ResultDekV1) :
    Except DurableRepositoryErrorV2 DataManifestV2 :=
  (openFile d.dataCommit resultId resultDek).map DataCommitV2.manifest

def readFinalManifest (d : ResultDirectoryV2) (resultId : ResultId) (resultDek : ResultDekV1) :
    Except DurableRepositoryErrorV2 FinalManifestV2 :=
  (openFile d.sealedProducts resultId resultDek).map SealedProductsV2.manifest

/-- The frame an index entry points to, checked against the entry. -/
def readIndexedEvent (d : ResultDirectoryV2) (resultId : ResultId) (resultDek : ResultDekV1)
    (entry : AuthenticatedEventIndexEntryV2) :
    Except DurableRepositoryErrorV2 DurableEventInputV2 := do
  let batch ← openFile d.batches[entry.locator.segmentOrdinal - 1]? resultId resultDek
  let event ← okOr .decodeFailed batch.events[entry.locator.frameSequence - 1]?
  if !event.decodes then .error .decodeFailed
  else if event.eventId ≠ entry.eventId ∨ event.exactnessBasis ≠ entry.exactnessBasis ∨
      event.authorizedBytes.length ≠ entry.locator.plaintextLength then
    .error .commitmentMismatch
  else .ok event

end ResultDirectoryV2

end Evidentrail
