import Evidentrail.Core.Hash

/-!
# The authority record of a durable result

A result goes through four states. The record that says which one is kept
by the key authority, never by the filesystem, and every transition accepts
an exact retry of the call that made it.
-/

namespace Evidentrail

open Rust Std Encoding

/-! ## Fixed bytes -/

/-- One `opaque_fixed_bytes!` type. -/
structure FixedBytes (n : Nat) where
  asBytes : List UInt8
  length_eq : asBytes.length = n
deriving DecidableEq

namespace FixedBytes

variable {n : Nat}

def isZero (b : FixedBytes n) : Bool := b.asBytes.all (· == 0)

/-- `[byte; n]`. -/
def repeated (byte : UInt8) : FixedBytes n :=
  ⟨List.replicate n byte, List.length_replicate⟩

def zero : FixedBytes n := repeated 0

theorem ext {a b : FixedBytes n} (h : a.asBytes = b.asBytes) : a = b := by
  cases a; cases b; cases h; rfl

theorem isZero_zero : (zero : FixedBytes n).isZero = true := by
  simp [isZero, zero, repeated]

instance : Ord (FixedBytes n) := ⟨compareOn asBytes⟩

instance : TransOrd (FixedBytes n) := inferInstanceAs (TransCmp (compareOn asBytes))

instance : LawfulEqOrd (FixedBytes n) := lawfulEqCmp_compareOn fun _ _ h => ext h

end FixedBytes

abbrev OperationIdV1 := FixedBytes 16

instance : TransOrd OperationIdV1 := inferInstance
abbrev LifecycleDigestV1 := FixedBytes 32
abbrev ResultNoncePrefixV1 := FixedBytes 16
abbrev ResultDekV1 := FixedBytes 32
abbrev FrameCommitmentV1 := FixedBytes 32

def lifecycleDigest [Sha256] (bytes : List UInt8) : LifecycleDigestV1 :=
  ⟨(Sha256.digest bytes).bytes, (Sha256.digest bytes).length_eq⟩

/-- `derive_lifecycle_digest_v1`. -/
def deriveLifecycleDigest [Sha256] (bytes : List UInt8) : LifecycleDigestV1 :=
  lifecycleDigest bytes

structure BuildContextDigestsV1 where
  compiler : LifecycleDigestV1
  renderer : LifecycleDigestV1
  tokenizer : LifecycleDigestV1
  policy : LifecycleDigestV1
  contract : LifecycleDigestV1
deriving DecidableEq

def BuildContextDigestsV1.aggregate [Sha256] (c : BuildContextDigestsV1) : LifecycleDigestV1 :=
  lifecycleDigest (asciiBytes "evidentrail.build-context.v1" ++ c.compiler.asBytes
    ++ c.renderer.asBytes ++ c.tokenizer.asBytes ++ c.policy.asBytes ++ c.contract.asBytes)

/-- Installed by `DATA_COMMITTED -> SEALED`. -/
structure SealCommitmentsV1 where
  finalManifest : LifecycleDigestV1
  dataManifest : LifecycleDigestV1
  eventIndex : LifecycleDigestV1
  frameChain : LifecycleDigestV1
  products : LifecycleDigestV1
deriving DecidableEq

def zeroSealCommitments : SealCommitmentsV1 := ⟨.zero, .zero, .zero, .zero, .zero⟩

/-! ## States, transitions and errors -/

inductive ResultLifecycleStateV1 where
  | opened
  | dataCommitted
  | sealed
  | published
deriving DecidableEq

/-- The derived order. -/
def ResultLifecycleStateV1.rank : ResultLifecycleStateV1 → Nat
  | .opened => 0
  | .dataCommitted => 1
  | .sealed => 2
  | .published => 3

inductive LifecycleTransitionV1 where
  | applied
  | alreadyApplied
deriving DecidableEq

inductive LifecycleRecordErrorV1 where
  | invalidOperationId
  | invalidNoncePrefix
  | invalidNonceReservation
  | nonceNamespaceExhausted
  | invalidTimeRange
  | invalidStateTransition
  | operationConflict
  | buildContextMismatch
  | publicationGenerationInvalid
  | invalidEncodedLength
  | invalidMagic
  | unsupportedVersion
  | unknownState
  | nonzeroFlags
  | nonzeroReserved
  | noncanonicalState
deriving DecidableEq

structure NonceReservationV1 where
  nonceBase : ResultNoncePrefixV1
  firstCounter : Nat
  count : Nat
deriving DecidableEq

def NonceReservationV1.new (nonceBase : ResultNoncePrefixV1) (firstCounter count : Nat) :
    Except LifecycleRecordErrorV1 NonceReservationV1 :=
  if nonceBase.isZero ∨ count = 0 ∨ checkedAdd firstCounter count = none then
    .error .invalidNonceReservation
  else .ok ⟨nonceBase, firstCounter, count⟩

structure ResultAuthorityRecordV2 where
  resultId : ResultId
  createdUnixNanos : Int
  expiresUnixNanos : Int
  state : ResultLifecycleStateV1
  nonceBase : ResultNoncePrefixV1
  nonceHighWater : Nat
  publicationGeneration : Nat
  beginOperation : OperationIdV1
  beginDigest : LifecycleDigestV1
  dataOperation : OperationIdV1
  dataDigest : LifecycleDigestV1
  buildContext : LifecycleDigestV1
  sealOperation : OperationIdV1
  sealCommitments : SealCommitmentsV1
  publishOperation : OperationIdV1
  repositoryCommitment : LifecycleDigestV1
  pendingNonceOperation : OperationIdV1
  pendingNonceDigest : LifecycleDigestV1
  pendingNonceFirst : Nat
  pendingNonceCount : Nat
deriving DecidableEq

namespace ResultAuthorityRecordV2

def newOpen (resultId : ResultId) (createdUnixNanos expiresUnixNanos : Int)
    (nonceBase : ResultNoncePrefixV1) (operation : OperationIdV1)
    (canonicalDigest : LifecycleDigestV1) :
    Except LifecycleRecordErrorV1 ResultAuthorityRecordV2 :=
  if resultId.asBytes.all (· == 0) ∨ expiresUnixNanos ≤ createdUnixNanos then
    .error .invalidTimeRange
  else if nonceBase.isZero then .error .invalidNoncePrefix
  else if operation.isZero then .error .invalidOperationId
  else .ok {
    resultId, createdUnixNanos, expiresUnixNanos, state := .opened, nonceBase
    nonceHighWater := 0, publicationGeneration := 0
    beginOperation := operation, beginDigest := canonicalDigest
    dataOperation := .zero, dataDigest := .zero, buildContext := .zero
    sealOperation := .zero, sealCommitments := zeroSealCommitments
    publishOperation := .zero, repositoryCommitment := .zero
    pendingNonceOperation := .zero, pendingNonceDigest := .zero
    pendingNonceFirst := 0, pendingNonceCount := 0 }

def matchesBegin (r : ResultAuthorityRecordV2) (createdUnixNanos expiresUnixNanos : Int)
    (operation : OperationIdV1) (canonicalDigest : LifecycleDigestV1) : Bool :=
  r.createdUnixNanos = createdUnixNanos && r.expiresUnixNanos = expiresUnixNanos &&
    r.beginOperation = operation && r.beginDigest = canonicalDigest

/-! ## Nonces -/

def reserveNonceRange (r : ResultAuthorityRecordV2) (count : Nat) :
    Except LifecycleRecordErrorV1 (ResultAuthorityRecordV2 × NonceReservationV1) :=
  if count = 0 then .error .invalidNonceReservation
  else do
    let next ← okOr .nonceNamespaceExhausted (checkedAdd r.nonceHighWater count)
    let reservation ← NonceReservationV1.new r.nonceBase r.nonceHighWater count
    .ok ({ r with nonceHighWater := next }, reservation)

/-- An exact retry gets the same counters; another operation waits until the
writer has cleared this one. -/
def reservePendingNonceRange (r : ResultAuthorityRecordV2) (operation : OperationIdV1)
    (canonicalDigest : LifecycleDigestV1) (count : Nat) :
    Except LifecycleRecordErrorV1 (ResultAuthorityRecordV2 × NonceReservationV1) :=
  if operation.isZero ∨ count = 0 then .error .invalidNonceReservation
  else if !r.pendingNonceOperation.isZero then
    if r.pendingNonceOperation = operation ∧ r.pendingNonceDigest = canonicalDigest ∧
        r.pendingNonceCount = count then
      (NonceReservationV1.new r.nonceBase r.pendingNonceFirst count).map fun reservation =>
        (r, reservation)
    else .error .operationConflict
  else do
    let (r, reservation) ← r.reserveNonceRange count
    .ok ({ r with
      pendingNonceOperation := operation, pendingNonceDigest := canonicalDigest
      pendingNonceFirst := reservation.firstCounter, pendingNonceCount := count }, reservation)

def completePendingNonceRange (r : ResultAuthorityRecordV2) (operation : OperationIdV1)
    (canonicalDigest : LifecycleDigestV1) :
    Except LifecycleRecordErrorV1 (ResultAuthorityRecordV2 × LifecycleTransitionV1) :=
  if r.pendingNonceOperation.isZero then .ok (r, .alreadyApplied)
  else if r.pendingNonceOperation ≠ operation ∨ r.pendingNonceDigest ≠ canonicalDigest then
    .error .operationConflict
  else .ok ({ r with
    pendingNonceOperation := .zero, pendingNonceDigest := .zero
    pendingNonceFirst := 0, pendingNonceCount := 0 }, .applied)

def hasPendingNonceReservation (r : ResultAuthorityRecordV2) : Bool :=
  !r.pendingNonceOperation.isZero

/-! ## Transitions -/

def commitData [Sha256] (r : ResultAuthorityRecordV2) (operation : OperationIdV1)
    (canonicalDigest : LifecycleDigestV1) (buildContext : BuildContextDigestsV1) :
    Except LifecycleRecordErrorV1 (ResultAuthorityRecordV2 × LifecycleTransitionV1) :=
  if operation.isZero then .error .invalidOperationId
  else if r.state.rank ≥ ResultLifecycleStateV1.dataCommitted.rank then
    if r.dataOperation = operation ∧ r.dataDigest = canonicalDigest ∧
        r.buildContext = buildContext.aggregate then .ok (r, .alreadyApplied)
    else .error .operationConflict
  else if r.state ≠ .opened ∨ r.hasPendingNonceReservation then .error .invalidStateTransition
  else .ok ({ r with
    dataOperation := operation, dataDigest := canonicalDigest
    buildContext := buildContext.aggregate, state := .dataCommitted }, .applied)

def validateResumeContext [Sha256] (r : ResultAuthorityRecordV2)
    (buildContext : BuildContextDigestsV1) : Except LifecycleRecordErrorV1 Unit :=
  if r.state ≠ .dataCommitted ∨ r.hasPendingNonceReservation then
    .error .invalidStateTransition
  else if r.buildContext ≠ buildContext.aggregate then .error .buildContextMismatch
  else .ok ()

def «seal» (r : ResultAuthorityRecordV2) (operation : OperationIdV1)
    (commitments : SealCommitmentsV1) :
    Except LifecycleRecordErrorV1 (ResultAuthorityRecordV2 × LifecycleTransitionV1) :=
  if operation.isZero then .error .invalidOperationId
  else if r.state.rank ≥ ResultLifecycleStateV1.sealed.rank then
    if r.sealOperation = operation ∧ r.sealCommitments = commitments then
      .ok (r, .alreadyApplied)
    else .error .operationConflict
  else if r.state ≠ .dataCommitted then .error .invalidStateTransition
  else .ok ({ r with
    sealOperation := operation, sealCommitments := commitments, state := .sealed }, .applied)

def publish (r : ResultAuthorityRecordV2) (operation : OperationIdV1) (generation : Nat)
    (repositoryCommitment : LifecycleDigestV1) :
    Except LifecycleRecordErrorV1 (ResultAuthorityRecordV2 × LifecycleTransitionV1) :=
  if operation.isZero then .error .invalidOperationId
  else if r.state = .published then
    if r.publishOperation = operation ∧ r.publicationGeneration = generation ∧
        r.repositoryCommitment = repositoryCommitment then .ok (r, .alreadyApplied)
    else .error .operationConflict
  else if r.state ≠ .sealed ∨ generation = 0 ∨ r.hasPendingNonceReservation then
    .error .publicationGenerationInvalid
  else .ok ({ r with
    publishOperation := operation, publicationGeneration := generation
    repositoryCommitment := repositoryCommitment, state := .published }, .applied)

/-- `validate_canonical`, which `decode` ends with. -/
def validateCanonical (r : ResultAuthorityRecordV2) : Except LifecycleRecordErrorV1 Unit :=
  if r.resultId.asBytes.all (· == 0) ∨ r.expiresUnixNanos ≤ r.createdUnixNanos ∨
      r.nonceBase.isZero ∨ r.beginOperation.isZero then .error .noncanonicalState
  else
    let dataZero := r.dataOperation.isZero && r.dataDigest.isZero && r.buildContext.isZero
    let sealZero := r.sealOperation.isZero && decide (r.sealCommitments = zeroSealCommitments)
    let publishZero := r.publishOperation.isZero && r.publicationGeneration == 0 &&
      r.repositoryCommitment.isZero
    let pendingZero := r.pendingNonceOperation.isZero && r.pendingNonceDigest.isZero &&
      r.pendingNonceFirst == 0 && r.pendingNonceCount == 0
    let pendingValid := !r.pendingNonceOperation.isZero && decide (0 < r.pendingNonceCount) &&
      decide (checkedAdd r.pendingNonceFirst r.pendingNonceCount = some r.nonceHighWater)
    let canonical := match r.state with
      | .opened => dataZero && sealZero && publishZero
      | .dataCommitted => !r.dataOperation.isZero && sealZero && publishZero
      | .sealed => !r.dataOperation.isZero && !r.sealOperation.isZero && publishZero
      | .published => !r.dataOperation.isZero && !r.sealOperation.isZero &&
          !r.publishOperation.isZero && decide (0 < r.publicationGeneration)
    if !canonical || !(pendingZero || pendingValid) then .error .noncanonicalState else .ok ()

end ResultAuthorityRecordV2

end Evidentrail
