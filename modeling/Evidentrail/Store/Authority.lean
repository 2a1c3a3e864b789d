import Evidentrail.Store.Lifecycle

/-!
# Key authorities

The trusted root of the durable repository keeps, for every result, its
authority record and its key. Two implementations ship: one in process
memory, and one that keeps each result as a single keychain value. They
differ in what they remember of a nonce range or of a publication
generation that was reserved before.
-/

namespace Evidentrail

open Rust Std

inductive AuthorityDestroyOutcomeV2 where
  | destroyed
  | alreadyAbsent
deriving DecidableEq

inductive KeyAuthorityErrorV2 where
  | locked
  | unavailable
  | notFound
  | duplicateResult
  | capacityExceeded
  | entropyUnavailable
  | operationConflict
  | invalidTransition
  | nonceNamespaceExhausted
  | updateFailed
deriving DecidableEq

/-- `From<LifecycleRecordErrorV1>`. -/
def KeyAuthorityErrorV2.ofLifecycle : LifecycleRecordErrorV1 → KeyAuthorityErrorV2
  | .operationConflict => .operationConflict
  | .nonceNamespaceExhausted => .nonceNamespaceExhausted
  | .invalidStateTransition => .invalidTransition
  | .buildContextMismatch => .invalidTransition
  | .publicationGenerationInvalid => .invalidTransition
  | _ => .updateFailed

/-- What `getrandom` gave: a key and a nonce prefix, or a failure. -/
abbrev EntropyV2 := Option (ResultDekV1 × ResultNoncePrefixV1)

/-- The trait, with the authority's state passed along. A call that fails
leaves the authority as it was. -/
class KeyAuthorityV2 (A : Type) where
  begin : A → EntropyV2 → ResultId → Int → Int → OperationIdV1 → LifecycleDigestV1 →
    Except KeyAuthorityErrorV2 (A × ResultAuthorityRecordV2 × LifecycleTransitionV1)
  reserveNonceRange : A → ResultId → OperationIdV1 → LifecycleDigestV1 → Nat →
    Except KeyAuthorityErrorV2 (A × NonceReservationV1)
  completeNonceReservation : A → ResultId → OperationIdV1 → LifecycleDigestV1 →
    Except KeyAuthorityErrorV2 (A × LifecycleTransitionV1)
  commitData [Sha256] : A → ResultId → OperationIdV1 → LifecycleDigestV1 →
    BuildContextDigestsV1 → Except KeyAuthorityErrorV2 (A × LifecycleTransitionV1)
  sealResult : A → ResultId → OperationIdV1 → SealCommitmentsV1 →
    Except KeyAuthorityErrorV2 (A × LifecycleTransitionV1)
  reservePublicationGeneration : A → ResultId → OperationIdV1 → LifecycleDigestV1 →
    Except KeyAuthorityErrorV2 (A × Nat)
  publish : A → ResultId → OperationIdV1 → Nat → LifecycleDigestV1 →
    Except KeyAuthorityErrorV2 (A × LifecycleTransitionV1)
  snapshot : A → ResultId → Except KeyAuthorityErrorV2 ResultAuthorityRecordV2
  resultKey : A → ResultId → Except KeyAuthorityErrorV2 ResultDekV1
  destroy : A → ResultId → Except KeyAuthorityErrorV2 (A × AuthorityDestroyOutcomeV2)
  list : A → Except KeyAuthorityErrorV2 (List ResultAuthorityRecordV2)

/-! ## In process memory -/

structure ProcessAuthorityEntryV2 where
  record : ResultAuthorityRecordV2
  resultDek : ResultDekV1
  nonceOperations : ExtTreeMap OperationIdV1 (LifecycleDigestV1 × Nat × NonceReservationV1) := ∅

/-- Reservations are ordered by result, then by operation. -/
instance : TransCmp (compareLex (compareOn Prod.fst) (compareOn Prod.snd) :
    ResultId × OperationIdV1 → ResultId × OperationIdV1 → Ordering) := inferInstance

structure ProcessKeyAuthorityV2 where
  capacity : Nat
  entries : ExtTreeMap ResultId ProcessAuthorityEntryV2 := ∅
  highWater : Nat := 0
  operations : ExtTreeMap (ResultId × OperationIdV1) (LifecycleDigestV1 × Nat)
    (compareLex (compareOn Prod.fst) (compareOn Prod.snd)) := ∅

namespace ProcessKeyAuthorityV2

def new (capacity : Nat) : Except KeyAuthorityErrorV2 ProcessKeyAuthorityV2 :=
  if capacity = 0 then .error .capacityExceeded else .ok { capacity }

def entry (a : ProcessKeyAuthorityV2) (resultId : ResultId) :
    Except KeyAuthorityErrorV2 ProcessAuthorityEntryV2 :=
  okOr .notFound a.entries[resultId]?

def setEntry (a : ProcessKeyAuthorityV2) (resultId : ResultId)
    (entry : ProcessAuthorityEntryV2) : ProcessKeyAuthorityV2 :=
  { a with entries := a.entries.insert resultId entry }

/-- An update of the record alone. -/
def mutateRecord {R : Type} (a : ProcessKeyAuthorityV2) (resultId : ResultId)
    (mutation : ResultAuthorityRecordV2 →
      Except LifecycleRecordErrorV1 (ResultAuthorityRecordV2 × R)) :
    Except KeyAuthorityErrorV2 (ProcessKeyAuthorityV2 × R) := do
  let entry ← a.entry resultId
  let (record, output) ← (mutation entry.record).mapError .ofLifecycle
  .ok (a.setEntry resultId { entry with record }, output)

/-- An existing record is encoded and decoded again, which fails when it is
not canonical. -/
def begin (a : ProcessKeyAuthorityV2) (entropy : EntropyV2) (resultId : ResultId)
    (createdUnixNanos expiresUnixNanos : Int) (operation : OperationIdV1)
    (canonicalDigest : LifecycleDigestV1) : Except KeyAuthorityErrorV2
      (ProcessKeyAuthorityV2 × ResultAuthorityRecordV2 × LifecycleTransitionV1) :=
  match a.entries[resultId]? with
  | some entry => do
      entry.record.validateCanonical.mapError fun _ => .unavailable
      if entry.record.matchesBegin createdUnixNanos expiresUnixNanos operation
          canonicalDigest then
        .ok (a, entry.record, .alreadyApplied)
      else .error .operationConflict
  | none =>
      if a.entries.size = a.capacity then .error .capacityExceeded
      else do
        let (resultDek, nonceBase) ← okOr .entropyUnavailable entropy
        if resultDek.isZero then .error .entropyUnavailable
        else do
          let record ← (ResultAuthorityRecordV2.newOpen resultId createdUnixNanos
            expiresUnixNanos nonceBase operation canonicalDigest).mapError .ofLifecycle
          .ok (a.setEntry resultId { record, resultDek }, record, .applied)

def reserveNonceRange (a : ProcessKeyAuthorityV2) (resultId : ResultId)
    (operation : OperationIdV1) (canonicalDigest : LifecycleDigestV1) (count : Nat) :
    Except KeyAuthorityErrorV2 (ProcessKeyAuthorityV2 × NonceReservationV1) := do
  let entry ← a.entry resultId
  match entry.nonceOperations[operation]? with
  | some (digest, existingCount, reservation) =>
      if digest = canonicalDigest ∧ existingCount = count then .ok (a, reservation)
      else .error .operationConflict
  | none =>
      let (record, reservation) ← (entry.record.reservePendingNonceRange operation
        canonicalDigest count).mapError .ofLifecycle
      .ok (a.setEntry resultId { entry with
        record
        nonceOperations :=
          entry.nonceOperations.insert operation (canonicalDigest, count, reservation) },
        reservation)

def completeNonceReservation (a : ProcessKeyAuthorityV2) (resultId : ResultId)
    (operation : OperationIdV1) (canonicalDigest : LifecycleDigestV1) :
    Except KeyAuthorityErrorV2 (ProcessKeyAuthorityV2 × LifecycleTransitionV1) := do
  let entry ← a.entry resultId
  match entry.nonceOperations[operation]? with
  | none => .error .operationConflict
  | some (digest, _, _) =>
      if digest ≠ canonicalDigest then .error .operationConflict
      else a.mutateRecord resultId (·.completePendingNonceRange operation canonicalDigest)

def snapshot (a : ProcessKeyAuthorityV2) (resultId : ResultId) :
    Except KeyAuthorityErrorV2 ResultAuthorityRecordV2 :=
  (a.entry resultId).map ProcessAuthorityEntryV2.record

/-- Reservations are kept per result and operation. -/
def reservePublicationGeneration (a : ProcessKeyAuthorityV2) (resultId : ResultId)
    (operation : OperationIdV1) (repositoryCommitment : LifecycleDigestV1) :
    Except KeyAuthorityErrorV2 (ProcessKeyAuthorityV2 × Nat) :=
  if operation.isZero then .error .operationConflict
  else do
    let record ← a.snapshot resultId
    if record.state ≠ .sealed then .error .invalidTransition
    else match a.operations[(resultId, operation)]? with
    | some (digest, generation) =>
        if digest = repositoryCommitment then .ok (a, generation)
        else .error .operationConflict
    | none => do
        let generation ← okOr .invalidTransition (checkedAdd a.highWater 1)
        .ok ({ a with
          highWater := generation
          operations :=
            a.operations.insert (resultId, operation) (repositoryCommitment, generation) },
          generation)

def destroy (a : ProcessKeyAuthorityV2) (resultId : ResultId) :
    Except KeyAuthorityErrorV2 (ProcessKeyAuthorityV2 × AuthorityDestroyOutcomeV2) :=
  if resultId ∈ a.entries then
    .ok ({ a with
      entries := a.entries.erase resultId
      operations := a.operations.filter fun key _ => key.1 ≠ resultId }, .destroyed)
  else .ok (a, .alreadyAbsent)

instance : KeyAuthorityV2 ProcessKeyAuthorityV2 where
  begin := begin
  reserveNonceRange := reserveNonceRange
  completeNonceReservation := completeNonceReservation
  commitData a resultId operation canonicalDigest buildContext :=
    a.mutateRecord resultId (·.commitData operation canonicalDigest buildContext)
  sealResult a resultId operation commitments :=
    a.mutateRecord resultId fun record => record.seal operation commitments
  reservePublicationGeneration := reservePublicationGeneration
  publish a resultId operation generation repositoryCommitment :=
    a.mutateRecord resultId (·.publish operation generation repositoryCommitment)
  snapshot := snapshot
  resultKey a resultId := (a.entry resultId).map ProcessAuthorityEntryV2.resultDek
  destroy := destroy
  list a := .ok (a.entries.toList.map fun pair => pair.2.record)

end ProcessKeyAuthorityV2

/-! ## In the keychain -/

/-- One keychain value. -/
structure KeychainEntryV2 where
  record : ResultAuthorityRecordV2
  resultDek : ResultDekV1
  lastNonceOperation : OperationIdV1 := .zero
  lastNonceDigest : LifecycleDigestV1 := .zero
  lastNonceFirst : Nat := 0
  lastNonceCount : Nat := 0
  publicationOperation : OperationIdV1 := .zero
  publicationDigest : LifecycleDigestV1 := .zero
  publicationGeneration : Nat := 0
deriving DecidableEq

/-- `decode_unbound` of the encoded entry: what is refused is not canonical. -/
def KeychainEntryV2.decodes (e : KeychainEntryV2) : Bool :=
  e.record.validateCanonical.isOk && !e.resultDek.isZero &&
    ((e.lastNonceOperation.isZero && e.lastNonceDigest.isZero && e.lastNonceFirst == 0 &&
        e.lastNonceCount == 0) ||
      (!e.lastNonceOperation.isZero && decide (0 < e.lastNonceCount))) &&
    ((e.publicationOperation.isZero && e.publicationDigest.isZero &&
        e.publicationGeneration == 0) ||
      (!e.publicationOperation.isZero && !e.publicationDigest.isZero &&
        decide (0 < e.publicationGeneration)))

/-- The keychain items of the two services, when its reads and writes
succeed. -/
structure MacOsKeychainAuthorityV2 where
  capacity : Nat
  entries : ExtTreeMap ResultId KeychainEntryV2 := ∅
  publicationHighWater : Option Nat := none

namespace MacOsKeychainAuthorityV2

def new (capacity : Nat) : Except KeyAuthorityErrorV2 MacOsKeychainAuthorityV2 :=
  if capacity = 0 then .error .capacityExceeded else .ok { capacity }

def getEntry (a : MacOsKeychainAuthorityV2) (resultId : ResultId) :
    Except KeyAuthorityErrorV2 KeychainEntryV2 := do
  let entry ← okOr .notFound a.entries[resultId]?
  if entry.decodes ∧ entry.record.resultId = resultId then .ok entry else .error .unavailable

def setEntry (a : MacOsKeychainAuthorityV2) (resultId : ResultId) (entry : KeychainEntryV2) :
    MacOsKeychainAuthorityV2 :=
  { a with entries := a.entries.insert resultId entry }

def mutateEntry {R : Type} (a : MacOsKeychainAuthorityV2) (resultId : ResultId)
    (mutation : KeychainEntryV2 → Except KeyAuthorityErrorV2 (KeychainEntryV2 × R)) :
    Except KeyAuthorityErrorV2 (MacOsKeychainAuthorityV2 × R) := do
  let entry ← a.getEntry resultId
  let (entry, output) ← mutation entry
  .ok (a.setEntry resultId entry, output)

def mutateRecord {R : Type} (a : MacOsKeychainAuthorityV2) (resultId : ResultId)
    (mutation : ResultAuthorityRecordV2 →
      Except LifecycleRecordErrorV1 (ResultAuthorityRecordV2 × R)) :
    Except KeyAuthorityErrorV2 (MacOsKeychainAuthorityV2 × R) :=
  a.mutateEntry resultId fun entry => do
    let (record, output) ← (mutation entry.record).mapError .ofLifecycle
    .ok ({ entry with record }, output)

/-- Every stored value is decoded; one that does not decode fails the search. -/
def searchEntries (a : MacOsKeychainAuthorityV2) :
    Except KeyAuthorityErrorV2 (List KeychainEntryV2) :=
  a.entries.toList.mapM fun pair =>
    if pair.2.decodes then .ok pair.2 else .error .unavailable

def readPublicationHighWater (a : MacOsKeychainAuthorityV2) : Nat :=
  a.publicationHighWater.getD 0

def begin (a : MacOsKeychainAuthorityV2) (entropy : EntropyV2) (resultId : ResultId)
    (createdUnixNanos expiresUnixNanos : Int) (operation : OperationIdV1)
    (canonicalDigest : LifecycleDigestV1) : Except KeyAuthorityErrorV2
      (MacOsKeychainAuthorityV2 × ResultAuthorityRecordV2 × LifecycleTransitionV1) :=
  match a.getEntry resultId with
  | .ok entry =>
      if entry.record.matchesBegin createdUnixNanos expiresUnixNanos operation
          canonicalDigest then
        .ok (a, entry.record, .alreadyApplied)
      else .error .operationConflict
  | .error .notFound => do
      let entries ← a.searchEntries
      if entries.length ≥ a.capacity then .error .capacityExceeded
      else
        let (resultDek, nonceBase) ← okOr .entropyUnavailable entropy
        if resultDek.isZero then .error .entropyUnavailable
        else
          let record ← (ResultAuthorityRecordV2.newOpen resultId createdUnixNanos
            expiresUnixNanos nonceBase operation canonicalDigest).mapError .ofLifecycle
          .ok (a.setEntry resultId { record, resultDek }, record, .applied)
  | .error error => .error error

/-- Only the last nonce operation is remembered. -/
def reserveNonceRange (a : MacOsKeychainAuthorityV2) (resultId : ResultId)
    (operation : OperationIdV1) (canonicalDigest : LifecycleDigestV1) (count : Nat) :
    Except KeyAuthorityErrorV2 (MacOsKeychainAuthorityV2 × NonceReservationV1) :=
  a.mutateEntry resultId fun entry =>
    if !entry.lastNonceOperation.isZero ∧ entry.lastNonceOperation = operation ∧
        entry.lastNonceDigest = canonicalDigest ∧ entry.lastNonceCount = count then
      ((NonceReservationV1.new entry.record.nonceBase entry.lastNonceFirst count).mapError
        .ofLifecycle).map fun reservation => (entry, reservation)
    else if !entry.lastNonceOperation.isZero ∧ entry.record.hasPendingNonceReservation then
      .error .operationConflict
    else do
      let (record, reservation) ← (entry.record.reservePendingNonceRange operation
        canonicalDigest count).mapError .ofLifecycle
      .ok ({ entry with
        record, lastNonceOperation := operation, lastNonceDigest := canonicalDigest
        lastNonceFirst := reservation.firstCounter, lastNonceCount := count }, reservation)

def completeNonceReservation (a : MacOsKeychainAuthorityV2) (resultId : ResultId)
    (operation : OperationIdV1) (canonicalDigest : LifecycleDigestV1) :
    Except KeyAuthorityErrorV2 (MacOsKeychainAuthorityV2 × LifecycleTransitionV1) :=
  a.mutateEntry resultId fun entry =>
    if entry.lastNonceOperation ≠ operation ∨ entry.lastNonceDigest ≠ canonicalDigest then
      .error .operationConflict
    else do
      let (record, output) ← (entry.record.completePendingNonceRange operation
        canonicalDigest).mapError .ofLifecycle
      .ok ({ entry with record }, output)

/-- The entry holds one reservation: another operation conflicts with it. -/
def reservePublicationGeneration (a : MacOsKeychainAuthorityV2) (resultId : ResultId)
    (operation : OperationIdV1) (repositoryCommitment : LifecycleDigestV1) :
    Except KeyAuthorityErrorV2 (MacOsKeychainAuthorityV2 × Nat) :=
  if operation.isZero then .error .operationConflict
  else do
    let entry ← a.getEntry resultId
    if entry.record.state ≠ .sealed then .error .invalidTransition
    else if !entry.publicationOperation.isZero then
      if entry.publicationOperation = operation ∧
          entry.publicationDigest = repositoryCommitment then
        if a.readPublicationHighWater < entry.publicationGeneration then
          .ok ({ a with publicationHighWater := some entry.publicationGeneration },
            entry.publicationGeneration)
        else .ok (a, entry.publicationGeneration)
      else .error .operationConflict
    else
      let entries ← a.searchEntries
      let observed := entries.foldl (fun highWater candidate =>
        max (max highWater candidate.record.publicationGeneration)
          candidate.publicationGeneration) a.readPublicationHighWater
      let generation ← okOr .invalidTransition (checkedAdd observed 1)
      .ok ({ a.setEntry resultId { entry with
        publicationOperation := operation
        publicationDigest := repositoryCommitment
        publicationGeneration := generation } with
        publicationHighWater := some generation }, generation)

def publish (a : MacOsKeychainAuthorityV2) (resultId : ResultId) (operation : OperationIdV1)
    (generation : Nat) (repositoryCommitment : LifecycleDigestV1) :
    Except KeyAuthorityErrorV2 (MacOsKeychainAuthorityV2 × LifecycleTransitionV1) :=
  a.mutateEntry resultId fun entry =>
    if entry.publicationOperation ≠ operation ∨
        entry.publicationDigest ≠ repositoryCommitment ∨
        entry.publicationGeneration ≠ generation then .error .operationConflict
    else do
      let (record, output) ← (entry.record.publish operation generation
        repositoryCommitment).mapError .ofLifecycle
      .ok ({ entry with record }, output)

def destroy (a : MacOsKeychainAuthorityV2) (resultId : ResultId) :
    Except KeyAuthorityErrorV2 (MacOsKeychainAuthorityV2 × AuthorityDestroyOutcomeV2) :=
  if resultId ∈ a.entries then
    .ok ({ a with entries := a.entries.erase resultId }, .destroyed)
  else .ok (a, .alreadyAbsent)

instance : KeyAuthorityV2 MacOsKeychainAuthorityV2 where
  begin := begin
  reserveNonceRange := reserveNonceRange
  completeNonceReservation := completeNonceReservation
  commitData a resultId operation canonicalDigest buildContext :=
    a.mutateRecord resultId (·.commitData operation canonicalDigest buildContext)
  sealResult a resultId operation commitments :=
    a.mutateRecord resultId fun record => record.seal operation commitments
  reservePublicationGeneration := reservePublicationGeneration
  publish := publish
  snapshot a resultId := (a.getEntry resultId).map KeychainEntryV2.record
  resultKey a resultId := (a.getEntry resultId).map KeychainEntryV2.resultDek
  destroy := destroy
  list a := a.searchEntries.map fun entries => entries.map KeychainEntryV2.record

end MacOsKeychainAuthorityV2

end Evidentrail
