import Evidentrail.Core.Transformation
import Evidentrail.Ingest.Session
import Evidentrail.Select.Types
import Mathlib.Data.Prod.Lex

/-!
# The Kubernetes adapter

A frozen set of container instances is read one after the other. The
records that fit the caps are held back until every instance was read,
then put into one canonical order and offered to the sink in batches. An
instance is counted as completed when it is looked at again after its
records were read and is still the same one.
-/

namespace Evidentrail

open Rust Encoding Std

/-! ## The plan -/

inductive KubernetesContainerInstanceKindV1 where
  | current
  | previous
deriving DecidableEq

def KubernetesContainerInstanceKindV1.code : KubernetesContainerInstanceKindV1 → String
  | .current => "current"
  | .previous => "previous"

structure KubernetesContainerInstanceV1 where
  clusterIdentity : Vec UInt8
  namespaceName : Vec UInt8
  podUid : Vec UInt8
  container : Vec UInt8
  containerId : Vec UInt8
  restartCount : UInt32
  instanceKind : KubernetesContainerInstanceKindV1
  nonempty : clusterIdentity.toList ≠ [] ∧ namespaceName.toList ≠ [] ∧ podUid.toList ≠ [] ∧
    container.toList ≠ [] ∧ containerId.toList ≠ []
deriving DecidableEq

structure KubernetesCapsV1 where
  maxRecords : Nat
  maxSourceBytes : Nat
  maxMembers : Nat
  maxRecordBytes : Nat
  positive : 0 < maxRecords ∧ 0 < maxSourceBytes ∧ 0 < maxMembers ∧ 0 < maxRecordBytes
  safe : maxRecords ≤ jsonSafeIntegerMax ∧ maxSourceBytes ≤ jsonSafeIntegerMax ∧
    maxMembers ≤ jsonSafeIntegerMax ∧ maxRecordBytes ≤ jsonSafeIntegerMax
  record_le_authorized : maxRecordBytes ≤ maxAuthorizedRecordBytes
  record_le_source : maxRecordBytes ≤ maxSourceBytes
deriving DecidableEq

/-- Frozen pod and container set. -/
structure KubernetesPlanV1 where
  members : Vec KubernetesContainerInstanceV1
  caps : KubernetesCapsV1
  nonempty : members.toList ≠ []
  length_le : members.length ≤ caps.maxMembers
  nodup : members.toList.Nodup
deriving DecidableEq

/-! ## The transport -/

inductive KubernetesLogStreamV1 where
  | stdout
  | stderr
deriving DecidableEq

def KubernetesLogStreamV1.code : KubernetesLogStreamV1 → String
  | .stdout => "stdout"
  | .stderr => "stderr"

def KubernetesLogStreamV1.sourceStream : KubernetesLogStreamV1 → SourceStream
  | .stdout => .stdout
  | .stderr => .stderr

structure KubernetesLogRecordV1 where
  stream : KubernetesLogStreamV1
  providerTimestamp : Option (Vec UInt8)
  parsedTimestampNanos : Option UnixTimestampNanos
  payload : Vec UInt8
  terminator : Vec UInt8
deriving DecidableEq

namespace KubernetesLogRecordV1

def sourceLen (record : KubernetesLogRecordV1) : Nat :=
  saturatingAdd record.payload.length record.terminator.length

def exactBytes (record : KubernetesLogRecordV1) : List UInt8 :=
  record.payload.toList ++ record.terminator.toList

end KubernetesLogRecordV1

structure KubernetesLogResponseV1 where
  records : Vec KubernetesLogRecordV1
  limitBytesWasApproximate : Bool := false
  incompleteFinalLine : Bool := false
  rotationObserved : Bool := false
  providerTruncated : Bool := false
deriving DecidableEq

structure KubernetesLogRequestV1 where
  timestamps : Bool
  limitBytes : Nat
  insecureSkipTlsVerifyBackend : Bool
deriving DecidableEq

structure KubernetesContainerObservationV1 where
  podUid : Vec UInt8
  containerId : Vec UInt8
  restartCount : UInt32
deriving DecidableEq

inductive KubernetesTransportErrorV1 where
  | permissionDenied
  | previousInstanceUnavailable
  | sourceUnavailable
  | networkFailure
  | providerFailure
  | tlsVerificationBypassed
deriving DecidableEq

/-- A run asks for the logs of a member once and looks at it again once,
so what the transport does in a run is a function of member and request. -/
structure KubernetesTransportV1 where
  readLogs : KubernetesContainerInstanceV1 → KubernetesLogRequestV1 →
    Except KubernetesTransportErrorV1 KubernetesLogResponseV1
  revalidate : KubernetesContainerInstanceV1 →
    Except KubernetesTransportErrorV1 KubernetesContainerObservationV1

/-- The member is still the container instance that was planned. -/
def KubernetesTransportV1.unchanged (transport : KubernetesTransportV1)
    (member : KubernetesContainerInstanceV1) : Bool :=
  match transport.revalidate member with
  | .ok observation =>
      observation.podUid = member.podUid ∧ observation.containerId = member.containerId ∧
        observation.restartCount = member.restartCount
  | .error _ => false

/-- What the adapter is given: the transport and the answers to the polls
of the cancellation signal, of which there is one before each member. -/
structure KubernetesEnvironment where
  caps : KubernetesCapsV1
  transport : KubernetesTransportV1
  isCancelled : Nat → Bool

/-! ## Identities -/

/-- Each field behind its length. -/
def encodeFields (fields : List (List UInt8)) : List UInt8 :=
  fields.flatMap field

def memberFields (member : KubernetesContainerInstanceV1) : List (List UInt8) :=
  [member.clusterIdentity.toList, member.namespaceName.toList, member.podUid.toList,
    member.container.toList, member.containerId.toList,
    leBytes 4 member.restartCount.toNat, asciiBytes member.instanceKind.code]

def kubernetesNativeIdentity (member : KubernetesContainerInstanceV1)
    (record : KubernetesLogRecordV1) (responseOrdinal : Nat) : List UInt8 :=
  encodeFields (memberFields member ++
    [asciiBytes record.stream.code, record.providerTimestamp.elim [] Vec.toList,
      leBytes 8 responseOrdinal])

/-! ## Reading the members -/

structure PendingKubernetesRecord where
  member : KubernetesContainerInstanceV1
  record : KubernetesLogRecordV1
  responseOrdinal : Nat
  nativeIdentity : List UInt8
  providerAcquisitionOrdinal : Nat
deriving DecidableEq

structure KubernetesState where
  pending : List PendingKubernetesRecord := []
  seenNative : ExtTreeMap (List UInt8) (List UInt8) := ∅
  partialReasons : List FetchPartialReason := []
  errors : List FetchErrorCode := []
  attemptedMembers : Nat := 0
  completedMembers : Nat := 0
  providerAcquisitionOrdinal : Nat := 0
  totalPendingBytes : Nat := 0
  outcome : AdapterOutcome := .finished

def kubernetesIdentityConflictCodeV1 : UInt16 := 201

/-- The cap that keeps a record of this length out, checked in this order. -/
def KubernetesCapsV1.reached (caps : KubernetesCapsV1) (records bytes sourceLen : Nat) :
    Option FetchPartialReason :=
  if sourceLen > caps.maxRecordBytes then some .recordTruncated
  else if records ≥ caps.maxRecords then some .recordCountCap
  else if (checkedAdd bytes sourceLen).all (· > caps.maxSourceBytes) then some .sourceByteCap
  else none

def KubernetesLogRecordV1.malformed (record : KubernetesLogRecordV1) : Bool :=
  record.providerTimestamp.isSome != record.parsedTimestampNanos.isSome

namespace KubernetesState

/-- The ordinal of the record is taken and its framing is judged before any
cap is looked at. -/
def observe (s : KubernetesState) (record : KubernetesLogRecordV1) (ordinal : Nat) :
    KubernetesState :=
  { s with
    providerAcquisitionOrdinal := ordinal
    partialReasons := if record.malformed then s.partialReasons ++ [.malformedProviderFraming]
      else s.partialReasons
    errors := if record.malformed then s.errors ++ [.malformedProviderFraming] else s.errors }

def stop (s : KubernetesState) (reason : FetchPartialReason) : KubernetesState :=
  { s with partialReasons := s.partialReasons ++ [reason], outcome := .providerStopped }

def conflict (s : KubernetesState) : KubernetesState :=
  { s with
    partialReasons := s.partialReasons ++ [.otherVersioned 1 kubernetesIdentityConflictCodeV1]
    errors := s.errors ++ [.adapterInvariantViolation]
    outcome := .adapterStopped }

def hold (s : KubernetesState) (entry : PendingKubernetesRecord) : KubernetesState :=
  { s with
    pending := s.pending ++ [entry]
    seenNative := s.seenNative.insert entry.nativeIdentity entry.record.exactBytes
    totalPendingBytes := s.totalPendingBytes + entry.record.sourceLen }

/-- The loop over the records of one response. A cap or a conflict leaves it. -/
def readRecords (caps : KubernetesCapsV1) (member : KubernetesContainerInstanceV1) :
    Nat → List KubernetesLogRecordV1 → KubernetesState →
      Except (Fault IngestError) KubernetesState
  | _, [], s => .ok s
  | position, record :: rest, s => do
      let next ← okOr (.err .providerInvariantViolation)
        (checkedAdd s.providerAcquisitionOrdinal 1)
      let observedOrdinal := s.providerAcquisitionOrdinal
      let s := s.observe record next
      match caps.reached s.pending.length s.totalPendingBytes record.sourceLen with
      | some reason => .ok (s.stop reason)
      | none =>
          let responseOrdinal ← okOr (.err .providerInvariantViolation) (u64TryFrom position)
          let nativeIdentity := kubernetesNativeIdentity member record responseOrdinal
          let entry : PendingKubernetesRecord :=
            ⟨member, record, responseOrdinal, nativeIdentity, observedOrdinal⟩
          match s.seenNative[nativeIdentity]? with
          | some bytes =>
              if bytes = record.exactBytes then readRecords caps member (position + 1) rest s
              else .ok s.conflict
          | none => readRecords caps member (position + 1) rest (s.hold entry)

def observeTransportError (s : KubernetesState) (error : KubernetesTransportErrorV1) :
    KubernetesState :=
  let (reason, code) : FetchPartialReason × FetchErrorCode := match error with
    | .permissionDenied => (.permissionLimited, .permissionDenied)
    | .previousInstanceUnavailable | .sourceUnavailable =>
        (.sourceDisappeared, .sourceUnavailable)
    | .networkFailure => (.networkFailure, .networkFailure)
    | .providerFailure => (.sourceReadError, .providerFailure)
    | .tlsVerificationBypassed => (.permissionLimited, .adapterInvariantViolation)
  { s with
    partialReasons := s.partialReasons ++ [reason]
    errors := s.errors ++ [code]
    outcome := .providerStopped }

def observeResponse (s : KubernetesState) (response : KubernetesLogResponseV1) :
    KubernetesState :=
  { s with partialReasons := s.partialReasons
      ++ (if response.limitBytesWasApproximate then [.providerCap] else [])
      ++ (if response.incompleteFinalLine then [.recordTruncated] else [])
      ++ (if response.rotationObserved then [.sourceChanged] else [])
      ++ (if response.providerTruncated then [.providerTruncation] else []) }

/-- The second look, made whether or not every record was taken. -/
def observeRevalidation (s : KubernetesState) (transport : KubernetesTransportV1)
    (member : KubernetesContainerInstanceV1) : KubernetesState :=
  match transport.revalidate member with
  | .ok _ =>
      if transport.unchanged member then { s with completedMembers := s.completedMembers + 1 }
      else
        { s with
          partialReasons := s.partialReasons ++ [.sourceChanged]
          errors := s.errors ++ [.sourceChanged]
          outcome := .sourceStopped }
  | .error error => s.observeTransportError error

/-- Why the loop ends before it asks for another member. -/
def blocked (env : KubernetesEnvironment) (s : KubernetesState) : Option KubernetesState :=
  if env.isCancelled s.attemptedMembers then
    some { s with partialReasons := s.partialReasons ++ [.cancelled], outcome := .cancelled }
  else if s.totalPendingBytes = env.caps.maxSourceBytes then some (s.stop .sourceByteCap)
  else none

def request (env : KubernetesEnvironment) (s : KubernetesState) : KubernetesLogRequestV1 where
  timestamps := true
  limitBytes := env.caps.maxSourceBytes - s.totalPendingBytes
  insecureSkipTlsVerifyBackend := false

def attempt (s : KubernetesState) : KubernetesState :=
  { s with attemptedMembers := s.attemptedMembers + 1 }

/-- All of one response. -/
def readResponse (env : KubernetesEnvironment) (member : KubernetesContainerInstanceV1)
    (response : KubernetesLogResponseV1) (s : KubernetesState) :
    Except (Fault IngestError) KubernetesState := do
  let s ← readRecords env.caps member 0 response.records.toList (s.observeResponse response)
  .ok (s.observeRevalidation env.transport member)

def halted (s : KubernetesState) : Bool :=
  s.outcome = .adapterStopped ∨ s.outcome = .cancelled

/-- The loop over the members. -/
def readMembers (env : KubernetesEnvironment) :
    List KubernetesContainerInstanceV1 → KubernetesState →
      Except (Fault IngestError) KubernetesState
  | [], s => .ok s
  | member :: rest, s =>
      match s.blocked env with
      | some stopped => .ok stopped
      | none =>
          match env.transport.readLogs member (s.request env) with
          | .error error =>
              readMembers env rest (s.attempt.observeTransportError error)
          | .ok response => do
              let s ← readResponse env member response s.attempt
              if s.halted then .ok s else readMembers env rest s

end KubernetesState

end Evidentrail
