import Evidentrail.Store.Directory

/-!
# The durable result repository

Every call works on the authority, the staging directory and the final
directory of one result. Calls hold the repository's locks, so they run one
after another; a call that stops half way, by an error, a fault or a crash,
leaves what it has already written. `publish` can stop between any two of its
effects.
-/

namespace Evidentrail

open Rust Std Slice Attempt KeyAuthorityV2

inductive DurableRepositoryFaultPointV2 where
  | afterAuthorityBegin
  | afterBeginDurability
  | afterBatchDurabilityBeforeAcknowledgement
  | afterDataDurabilityBeforeAuthority
  | afterSealDurabilityBeforeAuthority
  | afterCommitmentDurabilityBeforeRename
  | afterPublishRenameBeforeAuthority
  | afterAuthorityDestroyBeforeCleanup
deriving DecidableEq

/-- Where a call of `publish` can stop: the two fault points, and around the
reservation of a generation. -/
inductive PublishPointV2 where
  | beforeReservation
  | afterReservation
  | afterCommitmentDurabilityBeforeRename
  | afterPublishRenameBeforeAuthority
deriving DecidableEq

inductive RecoveryDispositionV2 where
  | absent
  | resumeOpen
  | resumeCompilation
  | reissueRequired
  | completedPublication
  | alreadyVisible
  | expired
  | quarantined
  | rollbackOrCorruption
deriving DecidableEq

structure DurableBatchCommitV2 where
  ordinal : Nat
  acknowledgements : List DurableEventAcknowledgementV2
  transition : LifecycleTransitionV1
deriving DecidableEq

structure DurableExpansionV2 where
  events : List DurableEventInputV2
  returnedBytes : Nat
deriving DecidableEq

/-- The authority, and the directories `.open-…`, `r-…` and `.quarantine-…`. -/
structure RepositoryV2 (A : Type) where
  authority : A
  staging : ExtTreeMap ResultId ResultDirectoryV2 := ∅
  finals : ExtTreeMap ResultId ResultDirectoryV2 := ∅
  quarantinedStaging : ExtTreeMap ResultId ResultDirectoryV2 := ∅
  quarantinedFinals : ExtTreeMap ResultId ResultDirectoryV2 := ∅

abbrev RepositoryM (A : Type) := Attempt (RepositoryV2 A) DurableRepositoryErrorV2

namespace RepositoryV2

variable {A : Type} [KeyAuthorityV2 A]

/-! ## Pieces of the calls -/

def ofAuthority {R : Type} (x : Except KeyAuthorityErrorV2 R) :
    Except DurableRepositoryErrorV2 R :=
  x.mapError .ofAuthority

/-- A call of the authority that may change it. -/
def authorityCall {R : Type} (call : A → Except KeyAuthorityErrorV2 (A × R)) :
    RepositoryM A R := fun s =>
  match ofAuthority (call s.authority) with
  | .ok (authority, output) => (.ok output, { s with authority })
  | .error error => (.error error, s)

def snapshotOf (resultId : ResultId) : RepositoryM A ResultAuthorityRecordV2 := fun s =>
  (ofAuthority (snapshot s.authority resultId), s)

def keyOf (resultId : ResultId) : RepositoryM A ResultDekV1 := fun s =>
  (ofAuthority (resultKey s.authority resultId), s)

def checkpoint {P : Type} (faults : P → Bool) (point : P) : RepositoryM A Unit :=
  require (!faults point) .faultInjected

def setStaging (resultId : ResultId) (directory : ResultDirectoryV2) : RepositoryM A Unit :=
  update fun s => { s with staging := s.staging.insert resultId directory }

/-- `FileLockV2::exclusive` of a lock file in this directory. -/
def lockIn (directory : Option ResultDirectoryV2) : RepositoryM A ResultDirectoryV2 :=
  match directory with
  | some d => if d.resultLock then pure d else fail .resultUnavailable
  | none => fail .resultUnavailable

/-- The staging directory if it exists, else the final one. -/
def storageOf (s : RepositoryV2 A) (resultId : ResultId) : Option ResultDirectoryV2 :=
  match s.staging[resultId]? with
  | some d => some d
  | none => s.finals[resultId]?

/-- `ensure_commitment` on a directory. -/
def ensureCommitment (d : ResultDirectoryV2) (commitment : LifecycleDigestV1) :
    Except DurableRepositoryErrorV2 ResultDirectoryV2 :=
  match d.repositoryCommitment with
  | some stored => if stored = commitment then .ok d else .error .operationConflict
  | none => .ok { d with repositoryCommitment := some commitment }

theorem ensureCommitment_ok {d d' : ResultDirectoryV2} {commitment : LifecycleDigestV1}
    (h : ensureCommitment d commitment = .ok d') :
    d' = { d with repositoryCommitment := some commitment } := by
  unfold ensureCommitment at h
  cases hfile : d.repositoryCommitment with
  | none =>
      rw [hfile] at h
      cases h
      rfl
  | some stored =>
      rw [hfile] at h
      dsimp only at h
      split at h
      · rename_i hsame
        cases h
        rw [← hsame, ← hfile]
      · cases h

/-- Rename the staging directory to the final one, which must not exist. -/
def installFinal (resultId : ResultId) (d : ResultDirectoryV2) : RepositoryM A Unit := do
  let s ← read
  require (!s.finals.contains resultId) .publicationFailed
  update fun s => { s with
    staging := s.staging.erase resultId, finals := s.finals.insert resultId d }

/-- Move one directory aside; an older one in quarantine is not replaced. -/
def quarantineOwned (resultId : ResultId) : RepositoryM A Unit := do
  let s ← read
  match s.staging[resultId]? with
  | some d => do
      require (!s.quarantinedStaging.contains resultId) .cleanupFailed
      update fun s => { s with
        staging := s.staging.erase resultId
        quarantinedStaging := s.quarantinedStaging.insert resultId d }
  | none => pure ()
  match s.finals[resultId]? with
  | some d => do
      require (!s.quarantinedFinals.contains resultId) .cleanupFailed
      update fun s => { s with
        finals := s.finals.erase resultId
        quarantinedFinals := s.quarantinedFinals.insert resultId d }
  | none => pure ()

/-- `remove_dir_all` of both directories. -/
def removeDirectories (resultId : ResultId) : RepositoryM A Unit :=
  update fun s => { s with
    staging := s.staging.erase resultId, finals := s.finals.erase resultId }

/-- An existing directory without its lock file. -/
def invalidActiveObject (directory : Option ResultDirectoryV2) : Bool :=
  match directory with
  | some d => !d.resultLock
  | none => false

theorem invalidActiveObject_eq_true {directory : Option ResultDirectoryV2} :
    invalidActiveObject directory = true ↔ ∃ d, directory = some d ∧ d.resultLock = false := by
  cases directory <;> simp [invalidActiveObject]

variable [Sha256]

/-! ## Acquisition -/

def begin (faults : DurableRepositoryFaultPointV2 → Bool) (entropy : EntropyV2)
    (resultId : ResultId) (createdUnixNanos expiresUnixNanos : Int)
    (operation : OperationIdV1) (requestAndQuestion : List UInt8) :
    RepositoryM A LifecycleTransitionV1 := do
  require (requestAndQuestion.length ≤ maxFramePlaintextBytes && !operation.isZero)
    .invalidOperation
  let digest := digestBegin resultId createdUnixNanos expiresUnixNanos requestAndQuestion
  let (_, transition) ← authorityCall fun a =>
    KeyAuthorityV2.begin a entropy resultId createdUnixNanos expiresUnixNanos operation digest
  checkpoint faults .afterAuthorityBegin
  let nonceOperation := derivedOperation operation 0x01
  let s ← read
  match s.staging[resultId]? with
  | some d =>
      require (transition = .alreadyApplied) .operationConflict
      let d := { d with resultLock := true }
      setStaging resultId d
      match d.request with
      | some segment => do
          let key ← keyOf resultId
          let stored ← lift (segment.opened resultId key)
          require (stored = requestAndQuestion) .operationConflict
          let _ ← authorityCall (completeNonceReservation · resultId nonceOperation digest)
          pure transition
      | none => writeRequest d digest nonceOperation transition
  | none =>
      let d : ResultDirectoryV2 := { resultLock := true }
      setStaging resultId d
      writeRequest d digest nonceOperation transition
where
  /-- The request segment of a directory that has none. -/
  writeRequest (d : ResultDirectoryV2) (digest : LifecycleDigestV1)
      (nonceOperation : OperationIdV1) (transition : LifecycleTransitionV1) :
      RepositoryM A LifecycleTransitionV1 := do
    let _ ← authorityCall (reserveNonceRange · resultId nonceOperation digest 1)
    let key ← keyOf resultId
    setStaging resultId { d with request := some ⟨resultId, key, requestAndQuestion⟩ }
    let _ ← authorityCall (completeNonceReservation · resultId nonceOperation digest)
    checkpoint faults .afterBeginDurability
    pure transition

/-- Acknowledgements of a batch in segment `ordinal + 1`. -/
def acknowledgementsOf (input : BatchCommitInputV2) : List DurableEventAcknowledgementV2 :=
  (batchEntries (input.ordinal + 1) input.events).map fun entry =>
    ⟨entry.eventId, entry.locator⟩

def commitBatch (faults : DurableRepositoryFaultPointV2 → Bool) (resultId : ResultId)
    (input : BatchCommitInputV2) : RepositoryM A DurableBatchCommitV2 := do
  let s ← read
  let d ← lockIn s.staging[resultId]?
  let record ← snapshotOf resultId
  require (record.state = .opened) .invalidState
  let digest := digestBatch input
  let _ ← lift (okOr .capacityExceeded (checkedAdd input.ordinal 1))
  match d.batches[input.ordinal]? with
  | some segment => do
      let _ ← authorityCall (completeNonceReservation · resultId input.operation digest)
      let key ← keyOf resultId
      let stored ← lift (segment.opened resultId key)
      require (stored.ordinal = input.ordinal && stored.operation = input.operation &&
        digestBatch stored = digest && stored.events.length = input.events.length)
        .operationConflict
      lift (stored.events.forM fun event =>
        if event.decodes then .ok () else .error .decodeFailed)
      pure ⟨stored.ordinal, acknowledgementsOf stored, .alreadyApplied⟩
  | none => do
      require (input.ordinal = d.batches.length) .batchOrdinalMismatch
      let chained ← lift d.lastChainPosition
      let _ ← authorityCall
        (reserveNonceRange · resultId input.operation digest input.frameCount)
      require chained .decodeFailed
      let key ← keyOf resultId
      -- the journal refuses two acknowledgements of one event
      require (input.events.map DurableEventInputV2.eventId).Nodup .decodeFailed
      setStaging resultId { d with batches := d.batches ++ [⟨resultId, key, input⟩] }
      let _ ← authorityCall (completeNonceReservation · resultId input.operation digest)
      checkpoint faults .afterBatchDurabilityBeforeAcknowledgement
      pure ⟨input.ordinal, acknowledgementsOf input, .applied⟩

variable [SnapshotFormatV2]

/-- The manifest and the index of the acquisition in a directory. -/
def dataCommitOf (d : ResultDirectoryV2) (resultId : ResultId) (key : ResultDekV1)
    (input : DataCommitInputV2) : Except DurableRepositoryErrorV2
      (List AuthenticatedEventIndexEntryV2 × DataManifestV2) := do
  let (request, batches, index) ← d.reconstructEventEntries resultId key
  if index.length > maxAuthenticatedEventIndexEntries then .error .decodeFailed
  else
    let chain := SnapshotFormatV2.acquisitionChain request batches
    .ok (index, {
      resultId, batchCount := batches.length, eventCount := index.length
      request := deriveLifecycleDigest request
      questionConfiguration := input.questionConfiguration
      batchChain := lifecycleDigest (asciiBytes "evidentrail.repository.batch.v2" ++
        batches.flatMap fun batch => (digestBatch batch).asBytes)
      eventIndex := SnapshotFormatV2.eventIndexDigest index chain
      acquisitionReceipt := input.acquisitionReceipt
      transformationReceipts := input.transformationReceipts
      fetchCompletion := input.fetchCompletion
      sourceIdentity := input.sourceIdentity
      buildContext := input.buildContext.aggregate
      frameChain := chain })

def commitData (faults : DurableRepositoryFaultPointV2 → Bool) (resultId : ResultId)
    (input : DataCommitInputV2) : RepositoryM A LifecycleTransitionV1 := do
  require (!input.operation.isZero) .invalidOperation
  let s ← read
  let storage ← lockIn (s.storageOf resultId)
  let record ← snapshotOf resultId
  if record.state.rank ≥ ResultLifecycleStateV1.dataCommitted.rank then
    let key ← keyOf resultId
    let existing ← lift (storage.readDataManifest resultId key)
    require (existing.questionConfiguration = input.questionConfiguration &&
      existing.acquisitionReceipt = input.acquisitionReceipt &&
      existing.transformationReceipts = input.transformationReceipts &&
      existing.fetchCompletion = input.fetchCompletion &&
      existing.sourceIdentity = input.sourceIdentity &&
      existing.buildContext = input.buildContext.aggregate) .operationConflict
    authorityCall
      (KeyAuthorityV2.commitData · resultId input.operation existing.digest input.buildContext)
  else
    match s.staging[resultId]? with
    | none => fail .readFailed
    | some d => do
        let key ← keyOf resultId
        let (index, manifest) ← lift (dataCommitOf d resultId key input)
        let nonceOperation := derivedOperation input.operation 0x02
        let nonceDigest := digestWithDomain "evidentrail.repository.commit-data.v2"
          [manifest.eventIndex.asBytes, manifest.digest.asBytes]
        match d.dataCommit with
        | some segment => do
            let existing ← lift (segment.opened resultId key)
            require (existing.manifest = manifest) .operationConflict
            let _ ← authorityCall
              (completeNonceReservation · resultId nonceOperation nonceDigest)
            authorityCall (KeyAuthorityV2.commitData · resultId input.operation
              manifest.digest input.buildContext)
        | none => do
            let segmentOrdinal ← lift d.nextSegmentOrdinal
            let shards := (index.length + maxAuthenticatedEventIndexShardEntries - 1) /
              maxAuthenticatedEventIndexShardEntries
            let _ ← authorityCall
              (reserveNonceRange · resultId nonceOperation nonceDigest (shards + 2))
            setStaging resultId
              { d with dataCommit := some ⟨resultId, key, segmentOrdinal, index, manifest⟩ }
            let _ ← authorityCall
              (completeNonceReservation · resultId nonceOperation nonceDigest)
            checkpoint faults .afterDataDurabilityBeforeAuthority
            authorityCall (KeyAuthorityV2.commitData · resultId input.operation
              manifest.digest input.buildContext)

/-! ## Sealing -/

def SealInputV2.productDigests (input : SealInputV2) : List LifecycleDigestV1 :=
  input.products.map deriveLifecycleDigest

/-- The final manifest over a data manifest and the products' digests. -/
def finalManifestOf (resultId : ResultId) (data : DataManifestV2)
    (productDigests : List LifecycleDigestV1) : FinalManifestV2 :=
  ⟨resultId, data.digest, data.eventIndex, data.frameChain, productDigests, 5,
    data.eventCount⟩

/-- What the authority is told at sealing, from the sealed segment. -/
def sealCommitmentsOf (sealed : SealedProductsV2) : SealCommitmentsV1 :=
  ⟨sealed.manifest.digest, sealed.manifest.dataManifest, sealed.manifest.eventIndex,
    SnapshotFormatV2.productChain sealed, sealed.manifest.productCommitment⟩

def sealResult (faults : DurableRepositoryFaultPointV2 → Bool) (resultId : ResultId)
    (input : SealInputV2) : RepositoryM A LifecycleTransitionV1 := do
  require (!input.operation.isZero) .invalidOperation
  let s ← read
  let storage ← lockIn (s.storageOf resultId)
  let record ← snapshotOf resultId
  require (input.products.all (·.length ≤ maxFramePlaintextBytes)) .capacityExceeded
  let productDigests := SealInputV2.productDigests input
  if record.state.rank ≥ ResultLifecycleStateV1.sealed.rank then
    let key ← keyOf resultId
    let sealed ← lift (openFile storage.sealedProducts resultId key)
    require (sealed.manifest.productDigests = productDigests) .operationConflict
    authorityCall (KeyAuthorityV2.sealResult · resultId input.operation
      (sealCommitmentsOf sealed))
  else
    require (record.state = .dataCommitted) .invalidState
    match s.staging[resultId]? with
    | none => fail .readFailed
    | some d => do
        let key ← keyOf resultId
        let data ← lift (d.readDataManifest resultId key)
        let finalManifest := finalManifestOf resultId data productDigests
        let digest := digestWithDomain "evidentrail.repository.seal.v2"
          [finalManifest.digest.asBytes, finalManifest.productCommitment.asBytes]
        let nonceOperation := derivedOperation input.operation 0x03
        match d.sealedProducts with
        | some segment => do
            let existing ← lift (segment.opened resultId key)
            require (existing.manifest = finalManifest) .operationConflict
            let _ ← authorityCall (completeNonceReservation · resultId nonceOperation digest)
            authorityCall (KeyAuthorityV2.sealResult · resultId input.operation
              (sealCommitmentsOf existing))
        | none => do
            let segmentOrdinal ← lift d.nextSegmentOrdinal
            let _ ← authorityCall (reserveNonceRange · resultId nonceOperation digest 6)
            let sealed : SealedProductsV2 := ⟨segmentOrdinal, input.products, finalManifest⟩
            setStaging resultId { d with sealedProducts := some ⟨resultId, key, sealed⟩ }
            let _ ← authorityCall (completeNonceReservation · resultId nonceOperation digest)
            checkpoint faults .afterSealDurabilityBeforeAuthority
            authorityCall (KeyAuthorityV2.sealResult · resultId input.operation
              (sealCommitmentsOf sealed))

/-! ## Visibility -/

/-- A published result is visible when only its final directory exists and
carries the commitment and the manifest that the authority knows. -/
def verifyVisible (s : RepositoryV2 A) (resultId : ResultId) (expected : LifecycleDigestV1) :
    Except DurableRepositoryErrorV2 Unit :=
  match s.finals[resultId]? with
  | none => .error .rollbackOrCorruption
  | some d =>
      if resultId ∈ s.staging then .error .rollbackOrCorruption
      else do
        let stored ← okOr .readFailed d.repositoryCommitment
        if stored ≠ expected then .error .rollbackOrCorruption
        else
          let key ← ofAuthority (resultKey s.authority resultId)
          let manifest ← d.readFinalManifest resultId key
          let record ← ofAuthority (snapshot s.authority resultId)
          if manifest.digest ≠ record.sealCommitments.finalManifest ∨
              deriveRepositoryCommitment record.sealCommitments ≠ expected then
            .error .rollbackOrCorruption
          else .ok ()

def publish (stops : PublishPointV2 → Bool) (resultId : ResultId)
    (operation : OperationIdV1) : RepositoryM A LifecycleTransitionV1 := do
  require (!operation.isZero) .invalidOperation
  let s ← read
  let storage ← lockIn (s.storageOf resultId)
  let record ← snapshotOf resultId
  if record.state = .published then
    lift (s.verifyVisible resultId record.repositoryCommitment)
    authorityCall (KeyAuthorityV2.publish · resultId operation record.publicationGeneration
      record.repositoryCommitment)
  else
    require (record.state = .sealed) .invalidState
    let key ← keyOf resultId
    let finalManifest ← lift (storage.readFinalManifest resultId key)
    require (finalManifest.digest = record.sealCommitments.finalManifest) .commitmentMismatch
    let repositoryCommitment := deriveRepositoryCommitment record.sealCommitments
    checkpoint stops .beforeReservation
    let generation ← authorityCall
      (reservePublicationGeneration · resultId operation repositoryCommitment)
    checkpoint stops .afterReservation
    if resultId ∈ s.staging then
      let d ← lift (ensureCommitment storage repositoryCommitment)
      setStaging resultId d
      checkpoint stops .afterCommitmentDurabilityBeforeRename
      installFinal resultId d
      checkpoint stops .afterPublishRenameBeforeAuthority
      authorityCall (KeyAuthorityV2.publish · resultId operation generation
        repositoryCommitment)
    else
      let stored ← lift (okOr .readFailed storage.repositoryCommitment)
      require (stored = repositoryCommitment) .rollbackOrCorruption
      authorityCall (KeyAuthorityV2.publish · resultId operation generation
        repositoryCommitment)

/-! ## Expansion -/

/-- The loop over the requested ids; a repeated id is skipped. -/
def expandLoop (readEvent : EventId → Except DurableRepositoryErrorV2 DurableEventInputV2)
    (maxEvents maxBytes : Nat) (seen : List EventId) (expansion : DurableExpansionV2) :
    List EventId → Except DurableRepositoryErrorV2 DurableExpansionV2
  | [] => .ok expansion
  | eventId :: rest =>
      if eventId ∈ seen then expandLoop readEvent maxEvents maxBytes seen expansion rest
      else if expansion.events.length = maxEvents then .error .capacityExceeded
      else do
        let event ← readEvent eventId
        let next ← okOr .capacityExceeded
          (checkedAdd expansion.returnedBytes event.authorizedBytes.length)
        if next > maxBytes then .error .capacityExceeded
        else
          expandLoop readEvent maxEvents maxBytes (eventId :: seen)
            ⟨expansion.events ++ [event], next⟩ rest

/-- The event an authenticated index leads to. -/
def readEvent (d : ResultDirectoryV2) (resultId : ResultId) (key : ResultDekV1)
    (index : List AuthenticatedEventIndexEntryV2) (eventId : EventId) :
    Except DurableRepositoryErrorV2 DurableEventInputV2 := do
  let entry ← okOr .resultUnavailable (index.find? (·.eventId = eventId))
  d.readIndexedEvent resultId key entry

def expand (s : RepositoryV2 A) (resultId : ResultId) (eventIds : List EventId)
    (maxEvents maxBytes : Nat) (nowUnixNanos : Int) :
    Except DurableRepositoryErrorV2 DurableExpansionV2 :=
  if eventIds = [] ∨ maxEvents = 0 ∨ maxEvents > maxDurableExpansionEvents ∨ maxBytes = 0 ∨
      maxBytes > maxDurableExpansionBytes then .error .invalidOperation
  else do
    let d ← okOr .resultUnavailable s.finals[resultId]?
    if !d.resultLock then .error .resultUnavailable
    else
      let record ← ofAuthority (snapshot s.authority resultId)
      if record.state ≠ .published ∨ nowUnixNanos < record.createdUnixNanos ∨
          nowUnixNanos ≥ record.expiresUnixNanos then .error .resultUnavailable
      else
        s.verifyVisible resultId record.repositoryCommitment
        let key ← ofAuthority (resultKey s.authority resultId)
        let finalManifest ← d.readFinalManifest resultId key
        if finalManifest.digest ≠ record.sealCommitments.finalManifest then
          .error .commitmentMismatch
        else
          let data ← openFile d.dataCommit resultId key
          let indexDigest :=
            SnapshotFormatV2.eventIndexDigest data.index data.manifest.frameChain
          if indexDigest ≠ finalManifest.eventIndex ∨
              indexDigest ≠ record.sealCommitments.eventIndex then .error .commitmentMismatch
          else
            expandLoop (readEvent d resultId key data.index) maxEvents maxBytes [] ⟨[], 0⟩
              eventIds

/-! ## Recovery and destruction -/

/-- Finish a publication that stopped after sealing. -/
def recoverSealed (resultId : ResultId) (record : ResultAuthorityRecordV2) :
    RepositoryM A RecoveryDispositionV2 := do
  let s ← read
  match s.finals[resultId]?.orElse fun _ => s.staging[resultId]? with
  | none => pure .rollbackOrCorruption
  | some path => do
      let key ← keyOf resultId
      let finalManifest ← lift (path.readFinalManifest resultId key)
      if finalManifest.digest ≠ record.sealCommitments.finalManifest then
        pure .rollbackOrCorruption
      else
        let repositoryCommitment := deriveRepositoryCommitment record.sealCommitments
        match s.staging[resultId]? with
        | some staging => do
            let d ← lift (ensureCommitment staging repositoryCommitment)
            setStaging resultId d
            installFinal resultId d
        | none => pure ()
        let operation := recoveryOperation record.sealCommitments.finalManifest
        let generation ← authorityCall
          (reservePublicationGeneration · resultId operation repositoryCommitment)
        let _ ← authorityCall (KeyAuthorityV2.publish · resultId operation generation
          repositoryCommitment)
        pure .completedPublication

def recover (resultId : ResultId) (nowUnixNanos : Int)
    (resumeContext : Option BuildContextDigestsV1) : RepositoryM A RecoveryDispositionV2 := do
  let s ← read
  let staging := s.staging[resultId]?
  let installed := s.finals[resultId]?
  match snapshot s.authority resultId with
  | .error .notFound =>
      if staging.isSome || installed.isSome then
        quarantineOwned resultId
        pure .quarantined
      else pure .absent
  | .error error => fail (.ofAuthority error)
  | .ok record =>
      if invalidActiveObject staging || invalidActiveObject installed ||
          (staging.isSome && installed.isSome) then
        quarantineOwned resultId
        pure .quarantined
      else if nowUnixNanos ≥ record.expiresUnixNanos then
        let _ ← authorityCall (KeyAuthorityV2.destroy · resultId)
        removeDirectories resultId
        pure .expired
      else match record.state with
      | .opened =>
          if staging.isSome then pure .resumeOpen
          else if nowUnixNanos - record.createdUnixNanos ≥ creatingRecoveryGraceNanos then
            let _ ← authorityCall (KeyAuthorityV2.destroy · resultId)
            pure .absent
          else pure .absent
      | .dataCommitted =>
          match staging, resumeContext with
          | none, _ => pure .rollbackOrCorruption
          | some _, none => pure .reissueRequired
          | some d, some context =>
              if (record.validateResumeContext context).isOk then
                let key ← keyOf resultId
                let data ← lift (d.readDataManifest resultId key)
                if data.digest ≠ record.dataDigest then pure .rollbackOrCorruption
                else pure .resumeCompilation
              else pure .reissueRequired
      | .sealed => recoverSealed resultId record
      | .published =>
          if (s.verifyVisible resultId record.repositoryCommitment).isOk then
            pure .alreadyVisible
          else pure .rollbackOrCorruption

/-- Results named by the authority or by a directory, in id order. -/
def activeResults (s : RepositoryV2 A) :
    Except DurableRepositoryErrorV2 (List ResultId) := do
  let records ← ofAuthority (list s.authority)
  .ok (ExtTreeSet.ofList (records.map ResultAuthorityRecordV2.resultId ++ s.staging.keys ++
    s.finals.keys)).toList

def recoverEach (nowUnixNanos : Int)
    (resumeContext : ResultId → Option BuildContextDigestsV1) :
    List ResultId → RepositoryM A (List (ResultId × RecoveryDispositionV2))
  | [] => pure []
  | resultId :: rest => do
      let disposition ← recover resultId nowUnixNanos (resumeContext resultId)
      let later ← recoverEach nowUnixNanos resumeContext rest
      pure ((resultId, disposition) :: later)

def recoverAll (nowUnixNanos : Int)
    (resumeContext : ResultId → Option BuildContextDigestsV1) :
    RepositoryM A (List (ResultId × RecoveryDispositionV2)) := do
  let s ← read
  let resultIds ← lift s.activeResults
  recoverEach nowUnixNanos resumeContext resultIds

def destroy (faults : DurableRepositoryFaultPointV2 → Bool) (resultId : ResultId) :
    RepositoryM A AuthorityDestroyOutcomeV2 := do
  let s ← read
  require (match s.finals[resultId]?, s.staging[resultId]? with
    | some d, _ => d.resultLock
    | none, some d => d.resultLock
    | none, none => true) .resultUnavailable
  let outcome ← authorityCall (KeyAuthorityV2.destroy · resultId)
  checkpoint faults .afterAuthorityDestroyBeforeCleanup
  removeDirectories resultId
  pure outcome

end RepositoryV2

end Evidentrail
