import Evidentrail.Core.Expansion

/-!
# The memory store

Results kept in memory for a fixed time, with the references that may be
expanded in them and the aliases that were published for them. Packet
references are prepared against one state of the store and committed in a
later one: the commit compares the result id and the two timestamps, and
nothing of the ledger.
-/

namespace Evidentrail

open Rust Std

def defaultResultTtlNanos : Int := 1800 * 1000000000

def EventLedger.contains (ledger : EventLedger) (id : EventId) : Bool :=
  ledger.positions.contains id

/-- `checked_add` of the fixed lifetime, in an `i128`. -/
def fixedExpiry (createdAt : UnixTimestampNanos) :
    Except ResultStoreError UnixTimestampNanos :=
  if h : createdAt.get + defaultResultTtlNanos < 2 ^ 127 then
    .ok ⟨createdAt.get + defaultResultTtlNanos, by
      have := createdAt.lower
      unfold defaultResultTtlNanos
      omega, h⟩
  else .error .timestampOverflow

structure MemoryResult where
  ledger : EventLedger
  createdAt : UnixTimestampNanos
  expiresAt : UnixTimestampNanos
  references : ExtTreeMap EvidenceReferenceId EvidenceReferenceV1
  /-- `none` until short aliases have been made public. -/
  evidenceAliasManifest : Option (List EvidenceReferenceId)
  /-- Aliases of all events, to be published if the artifact fits. -/
  pendingEventAliasManifest : List EvidenceReferenceId

namespace MemoryResult

/-- Created, and not expired. -/
def isLive (result : MemoryResult) (now : UnixTimestampNanos) : Bool :=
  !(decide (now.get < result.createdAt.get) || decide (now.get ≥ result.expiresAt.get))

end MemoryResult

/-- What `prepare_packet_references` returns and `commit_packet_references`
takes. -/
structure PreparedPacketReferencesV1 where
  resultId : ResultId
  resultCreatedAt : UnixTimestampNanos
  expiresAt : UnixTimestampNanos
  references : List EvidenceReferenceV1

/-- A reference id can be given once. -/
def registerOnce (registered : ExtTreeMap EvidenceReferenceId EvidenceReferenceV1)
    (reference : EvidenceReferenceV1) :
    Except ResultStoreError (ExtTreeMap EvidenceReferenceId EvidenceReferenceV1) :=
  if reference.id ∈ registered then .error .invalidReferenceMaterial
  else .ok (registered.insert reference.id reference)

def referenceMap (references : List EvidenceReferenceV1) :
    Except ResultStoreError (ExtTreeMap EvidenceReferenceId EvidenceReferenceV1) :=
  references.foldlM registerOnce ∅

section Building

variable [Sha256]

def issueFor (resultId : ResultId) (targets : List EvidenceTargetRef)
    (relations : List ExpansionRelationV1) (issuedAt expiresAt : UnixTimestampNanos) :
    Except ResultStoreError EvidenceReferenceV1 :=
  (EvidenceReferenceV1.issue resultId targets relations issuedAt expiresAt).mapError
    fun _ => .invalidReferenceMaterial

/-- The packets of one result: no event twice, all of them events of the
ledger, their references in ledger order. -/
def buildPackets (ledger : EventLedger) (resultId : ResultId)
    (issuedAt expiresAt : UnixTimestampNanos) :
    ExtTreeSet EventId → List (List EventId) →
      Except ResultStoreError (List EvidenceReferenceV1)
  | _, [] => .ok []
  | assigned, packet :: packets =>
      let packetSet := ExtTreeSet.ofList packet
      if packet.isEmpty then .error .invalidReferenceMaterial
      else if packetSet.size ≠ packet.length ∨
          packetSet.toList.any (fun id => !ledger.contains id) ∨
          packetSet.toList.any (fun id => assigned.contains id) then
        .error .invalidReferenceMaterial
      else
        let targets := (ledger.events.filter fun event => packetSet.contains event.id).map
          fun event => EvidenceTargetRef.event event.id
        if targets.length ≠ packetSet.size then .error .invalidReferenceMaterial
        else do
          let reference ← issueFor resultId targets [.exact] issuedAt expiresAt
          let rest ← buildPackets ledger resultId issuedAt expiresAt
            (packet.foldl (fun assigned id => assigned.insert id) assigned) packets
          .ok (reference :: rest)

def buildPacketReferences (ledger : EventLedger) (resultId : ResultId)
    (packets : List (List EventId)) (issuedAt expiresAt : UnixTimestampNanos) :
    Except ResultStoreError (List EvidenceReferenceV1) :=
  if packets.length > maxLogBriefEvidencePackets then .error .invalidReferenceMaterial
  else do
    let references ← buildPackets ledger resultId issuedAt expiresAt ∅ packets
    let _ ← referenceMap references
    .ok references

end Building

structure MemoryResultStore where
  results : ExtTreeMap ResultId MemoryResult := ∅

namespace MemoryResultStore

def setResult (store : MemoryResultStore) (resultId : ResultId) (result : MemoryResult) :
    MemoryResultStore :=
  ⟨store.results.insert resultId result⟩

def insert (store : MemoryResultStore) (resultId : ResultId) (ledger : EventLedger)
    (createdAt : UnixTimestampNanos) :
    Except ResultStoreError (MemoryResultStore × UnixTimestampNanos) :=
  if resultId ∈ store.results then .error .duplicateResultId
  else do
    let expiresAt ← fixedExpiry createdAt
    .ok (store.setResult resultId {
      ledger, createdAt, expiresAt, references := ∅
      evidenceAliasManifest := none, pendingEventAliasManifest := [] }, expiresAt)

section Issuing

variable [Sha256]

/-- One reference for every event, in ledger order. -/
def insertWithEventReferences (store : MemoryResultStore) (resultId : ResultId)
    (ledger : EventLedger) (createdAt : UnixTimestampNanos) :
    Except ResultStoreError
      (MemoryResultStore × UnixTimestampNanos × List EvidenceReferenceV1) :=
  if resultId ∈ store.results then .error .duplicateResultId
  else do
    let expiresAt ← fixedExpiry createdAt
    let references ← ledger.events.mapM fun event => issueFor resultId [.event event.id]
      [.exact, .sameLaneBeforeAfter, .globalBeforeAfter] createdAt expiresAt
    let registered ← referenceMap references
    .ok (store.setResult resultId {
      ledger, createdAt, expiresAt, references := registered
      evidenceAliasManifest := none
      pendingEventAliasManifest := references.map EvidenceReferenceV1.id },
      expiresAt, references)

def preparePacketReferences (store : MemoryResultStore) (resultId : ResultId)
    (packets : List (List EventId)) (now : UnixTimestampNanos) :
    Except ResultStoreError PreparedPacketReferencesV1 := do
  let result ← okOr .referenceUnavailable store.results[resultId]?
  if !result.isLive now then .error .referenceUnavailable
  else do
    let references ← buildPacketReferences result.ledger resultId packets now result.expiresAt
    .ok ⟨resultId, result.createdAt, result.expiresAt, references⟩

/-- Relations other than these have no trusted index, and a reference to
several events is exact. -/
def issueEventReference (store : MemoryResultStore) (resultId : ResultId)
    (eventIds : List EventId) (relations : List ExpansionRelationV1)
    (now : UnixTimestampNanos) :
    Except ResultStoreError (MemoryResultStore × EvidenceReferenceV1) := do
  let result ← okOr .referenceUnavailable store.results[resultId]?
  if !result.isLive now then .error .referenceUnavailable
  else if eventIds.isEmpty || eventIds.any (fun id => !result.ledger.contains id) then
    .error .invalidReferenceMaterial
  else if relations.any (fun relation => relation ≠ .exact ∧ relation ≠ .sameLaneBeforeAfter ∧
        relation ≠ .globalBeforeAfter) ||
      (eventIds.length != 1 && relations.any (fun relation => relation ≠ .exact)) then
    .error .invalidReferenceMaterial
  else do
    let reference ← issueFor resultId (eventIds.map .event) relations now result.expiresAt
    if reference.id ∈ result.references then .error .invalidReferenceMaterial
    else .ok (store.setResult resultId { result with
      references := result.references.insert reference.id reference }, reference)

end Issuing

/-- The aliases of all events are published once, if nothing else was. -/
def publishEventAliases (store : MemoryResultStore) (resultId : ResultId)
    (now : UnixTimestampNanos) : Except ResultStoreError MemoryResultStore := do
  let result ← okOr .referenceUnavailable store.results[resultId]?
  if !result.isLive now then .error .referenceUnavailable
  else if result.evidenceAliasManifest.isSome then .error .aliasManifestAlreadyPublished
  else .ok (store.setResult resultId { result with
    evidenceAliasManifest := some result.pendingEventAliasManifest
    pendingEventAliasManifest := [] })

/-- Everything is checked before anything is changed. -/
def commitPacketReferences (store : MemoryResultStore) (prepared : PreparedPacketReferencesV1)
    (now : UnixTimestampNanos) :
    Except ResultStoreError (MemoryResultStore × UnixTimestampNanos) := do
  let registered ← referenceMap prepared.references
  let result ← okOr .referenceUnavailable store.results[prepared.resultId]?
  if result.createdAt ≠ prepared.resultCreatedAt ∨ result.expiresAt ≠ prepared.expiresAt ∨
      !result.isLive now then .error .referenceUnavailable
  else if result.evidenceAliasManifest.isSome then .error .aliasManifestAlreadyPublished
  else if registered.keys.any (fun referenceId => result.references.contains referenceId) then
    .error .invalidReferenceMaterial
  else .ok (store.setResult prepared.resultId { result with
    evidenceAliasManifest := some (prepared.references.map EvidenceReferenceV1.id)
    pendingEventAliasManifest := []
    references := registered.toList.foldl (fun merged pair => merged.insert pair.1 pair.2)
      result.references }, prepared.expiresAt)

def delete (store : MemoryResultStore) (resultId : ResultId) : MemoryResultStore :=
  ⟨store.results.erase resultId⟩

def cleanupExpired (store : MemoryResultStore) (now : UnixTimestampNanos) : MemoryResultStore :=
  ⟨store.results.filter fun _ result => now.get < result.expiresAt.get⟩

end MemoryResultStore

end Evidentrail
