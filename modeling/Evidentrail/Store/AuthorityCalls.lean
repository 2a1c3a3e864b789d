import Evidentrail.Store.Accounts
import Evidentrail.Store.RecordRun

/-!
# Calls of an authority

One type for all calls of the trait, with arguments of any value, so that
whole runs of an authority can be spoken of. The process authority is also
given as the code writes it, changing its maps in place: a call that fails
could leave a part of its change behind, and none does.
-/

namespace Evidentrail

open Rust Std Attempt

/-- A call of `KeyAuthorityV2` with its arguments. What `begin` draws from
`getrandom` is an argument too. -/
inductive AuthorityCallV2 where
  | begin (entropy : EntropyV2) (resultId : ResultId) (created expires : Int64)
      (operation : OperationIdV1) (canonicalDigest : LifecycleDigestV1)
  | reserveNonceRange (resultId : ResultId) (operation : OperationIdV1)
      (canonicalDigest : LifecycleDigestV1) (count : UInt64)
  | completeNonceReservation (resultId : ResultId) (operation : OperationIdV1)
      (canonicalDigest : LifecycleDigestV1)
  | commitData (resultId : ResultId) (operation : OperationIdV1)
      (canonicalDigest : LifecycleDigestV1) (buildContext : BuildContextDigestsV1)
  | sealResult (resultId : ResultId) (operation : OperationIdV1)
      (commitments : SealCommitmentsV1)
  | reservePublicationGeneration (resultId : ResultId) (operation : OperationIdV1)
      (repositoryCommitment : LifecycleDigestV1)
  | publish (resultId : ResultId) (operation : OperationIdV1) (generation : UInt64)
      (repositoryCommitment : LifecycleDigestV1)
  | snapshot (resultId : ResultId)
  | withResultKey (resultId : ResultId)
  | destroy (resultId : ResultId)
  | list

/-- What a call returns. -/
inductive AuthorityOutputV2 where
  | begun (record : ResultAuthorityRecordV2) (transition : LifecycleTransitionV1)
  | range (reservation : NonceReservationV1)
  | moved (transition : LifecycleTransitionV1)
  | generation (value : Nat)
  | record (value : ResultAuthorityRecordV2)
  | key (value : ResultDekV1)
  | destroyed (outcome : AuthorityDestroyOutcomeV2)
  | records (values : List ResultAuthorityRecordV2)
deriving DecidableEq

namespace AuthorityCallV2

variable {A : Type} [KeyAuthorityV2 A] [Sha256]

/-- The call, of any authority. -/
def apply (a : A) : AuthorityCallV2 → Except KeyAuthorityErrorV2 (A × AuthorityOutputV2)
  | .begin entropy resultId created expires operation digest =>
      (KeyAuthorityV2.begin a entropy resultId created.toInt expires.toInt operation digest).map
        fun p => (p.1, .begun p.2.1 p.2.2)
  | .reserveNonceRange resultId operation digest count =>
      (KeyAuthorityV2.reserveNonceRange a resultId operation digest count.toNat).map
        fun p => (p.1, .range p.2)
  | .completeNonceReservation resultId operation digest =>
      (KeyAuthorityV2.completeNonceReservation a resultId operation digest).map
        fun p => (p.1, .moved p.2)
  | .commitData resultId operation digest buildContext =>
      (KeyAuthorityV2.commitData a resultId operation digest buildContext).map
        fun p => (p.1, .moved p.2)
  | .sealResult resultId operation commitments =>
      (KeyAuthorityV2.sealResult a resultId operation commitments).map
        fun p => (p.1, .moved p.2)
  | .reservePublicationGeneration resultId operation digest =>
      (KeyAuthorityV2.reservePublicationGeneration a resultId operation digest).map
        fun p => (p.1, .generation p.2)
  | .publish resultId operation generation digest =>
      (KeyAuthorityV2.publish a resultId operation generation.toNat digest).map
        fun p => (p.1, .moved p.2)
  | .snapshot resultId => (KeyAuthorityV2.snapshot a resultId).map fun record => (a, .record record)
  | .withResultKey resultId => (KeyAuthorityV2.resultKey a resultId).map fun key => (a, .key key)
  | .destroy resultId =>
      (KeyAuthorityV2.destroy a resultId).map fun p => (p.1, .destroyed p.2)
  | .list => (KeyAuthorityV2.list a).map fun records => (a, .records records)

end AuthorityCallV2

/-! ## The process authority in place -/

abbrev ProcessM (α : Type) := Attempt ProcessKeyAuthorityV2 KeyAuthorityErrorV2 α

namespace ProcessM

/-- `entries.get_mut`. -/
def entryOf (resultId : ResultId) : ProcessM ProcessAuthorityEntryV2 := do
  let a ← read
  lift (a.entry resultId)

/-- A mutator of the record inside its entry: whatever it changes stays. -/
def onRecord {α : Type} (resultId : ResultId) (m : RecordM α) : ProcessM α := do
  let entry ← entryOf resultId
  update fun a => a.setEntry resultId { entry with record := (m entry.record).2 }
  lift ((m entry.record).1.mapError .ofLifecycle)

def begin (entropy : EntropyV2) (resultId : ResultId) (created expires : Int)
    (operation : OperationIdV1) (digest : LifecycleDigestV1) :
    ProcessM (ResultAuthorityRecordV2 × LifecycleTransitionV1) := do
  let a ← read
  match a.entries[resultId]? with
  | some entry => do
      lift (entry.record.validateCanonical.mapError fun _ => .unavailable)
      if entry.record.matchesBegin created expires operation digest then
        pure (entry.record, .alreadyApplied)
      else fail .operationConflict
  | none =>
      if a.entries.size = a.capacity then fail .capacityExceeded
      else do
        let (resultDek, nonceBase) ← lift (okOr .entropyUnavailable entropy)
        if resultDek.isZero then fail .entropyUnavailable
        else do
          let record ← lift ((ResultAuthorityRecordV2.newOpen resultId created expires nonceBase
            operation digest).mapError .ofLifecycle)
          update fun a => a.setEntry resultId { record, resultDek }
          pure (record, .applied)

def reserveNonceRange (resultId : ResultId) (operation : OperationIdV1)
    (digest : LifecycleDigestV1) (count : UInt64) : ProcessM NonceReservationV1 := do
  let entry ← entryOf resultId
  match entry.nonceOperations[operation]? with
  | some (existing, existingCount, reservation) =>
      if existing = digest ∧ existingCount = count.toNat then pure reservation
      else fail .operationConflict
  | none => do
      let reservation ← onRecord resultId
        (RecordM.reservePendingNonceRange operation digest count)
      let entry ← entryOf resultId
      update fun a => a.setEntry resultId { entry with
        nonceOperations :=
          entry.nonceOperations.insert operation (digest, count.toNat, reservation) }
      pure reservation

def completeNonceReservation (resultId : ResultId) (operation : OperationIdV1)
    (digest : LifecycleDigestV1) : ProcessM LifecycleTransitionV1 := do
  let entry ← entryOf resultId
  match entry.nonceOperations[operation]? with
  | none => fail .operationConflict
  | some (existing, _, _) =>
      if existing ≠ digest then fail .operationConflict
      else onRecord resultId (RecordM.completePendingNonceRange operation digest)

def reservePublicationGeneration (resultId : ResultId) (operation : OperationIdV1)
    (digest : LifecycleDigestV1) : ProcessM Nat := do
  if operation.isZero then fail .operationConflict
  else do
    let entry ← entryOf resultId
    if entry.record.state ≠ .sealed then fail .invalidTransition
    else do
      let a ← read
      match a.operations[(resultId, operation)]? with
      | some (existing, generation) =>
          if existing = digest then pure generation else fail .operationConflict
      | none => do
          let generation ← lift (okOr .invalidTransition (checkedAdd a.highWater 1))
          update fun a => { a with highWater := generation }
          update fun a => { a with
            operations := a.operations.insert (resultId, operation) (digest, generation) }
          pure generation

/-- The entry goes first, its reservations after it. -/
def destroy (resultId : ResultId) : ProcessM AuthorityDestroyOutcomeV2 := do
  let a ← read
  let removed := decide (resultId ∈ a.entries)
  update fun a => { a with entries := a.entries.erase resultId }
  runIf removed (update fun a => { a with
    operations := a.operations.filter fun key _ => key.1 ≠ resultId })
  pure (if removed then .destroyed else .alreadyAbsent)

/-- A change that happens as a whole or not at all. -/
def settle {α β : Type} (f : α → β) (a : ProcessKeyAuthorityV2) :
    Except KeyAuthorityErrorV2 (ProcessKeyAuthorityV2 × α) →
      Except KeyAuthorityErrorV2 β × ProcessKeyAuthorityV2
  | .ok (a', output) => (.ok (f output), a')
  | .error error => (.error error, a)

end ProcessM

namespace AuthorityCallV2

variable [Sha256]

/-- The call, of the process authority, as the code makes it. -/
def runInPlace : AuthorityCallV2 → ProcessM AuthorityOutputV2
  | .begin entropy resultId created expires operation digest => do
      let (record, transition) ← ProcessM.begin entropy resultId created.toInt expires.toInt
        operation digest
      pure (.begun record transition)
  | .reserveNonceRange resultId operation digest count => do
      let reservation ← ProcessM.reserveNonceRange resultId operation digest count
      pure (.range reservation)
  | .completeNonceReservation resultId operation digest => do
      let transition ← ProcessM.completeNonceReservation resultId operation digest
      pure (.moved transition)
  | .commitData resultId operation digest buildContext => do
      let transition ← ProcessM.onRecord resultId
        (RecordM.commitData operation digest buildContext)
      pure (.moved transition)
  | .sealResult resultId operation commitments => do
      let transition ← ProcessM.onRecord resultId (RecordM.seal operation commitments)
      pure (.moved transition)
  | .reservePublicationGeneration resultId operation digest => do
      let value ← ProcessM.reservePublicationGeneration resultId operation digest
      pure (.generation value)
  | .publish resultId operation value digest => do
      let transition ← ProcessM.onRecord resultId (RecordM.publish operation value digest)
      pure (.moved transition)
  | .snapshot resultId => do
      let entry ← ProcessM.entryOf resultId
      pure (.record entry.record)
  | .withResultKey resultId => do
      let entry ← ProcessM.entryOf resultId
      pure (.key entry.resultDek)
  | .destroy resultId => do
      let outcome ← ProcessM.destroy resultId
      pure (.destroyed outcome)
  | .list => do
      let a ← read
      pure (.records (a.entries.toList.map fun pair => pair.2.record))

end AuthorityCallV2

/-! ## The same, as functions -/

namespace ProcessM

variable {a : ProcessKeyAuthorityV2} {r : ResultId} {operation : OperationIdV1}
  {digest : LifecycleDigestV1}

theorem entryOf_none (h : a.entries[r]? = none) : entryOf r a = (.error .notFound, a) := by
  simp only [entryOf, bind_apply, read_apply, lift_apply, ProcessKeyAuthorityV2.entry, h]
  rfl

theorem entryOf_some {entry : ProcessAuthorityEntryV2} (h : a.entries[r]? = some entry) :
    entryOf r a = (.ok entry, a) := by
  simp only [entryOf, bind_apply, read_apply, lift_apply, ProcessKeyAuthorityV2.entry, h]
  rfl

/-- A mutator that settles its record settles the authority. -/
theorem onRecord_eq {α : Type} {m : RecordM α} {mutation : ResultAuthorityRecordV2 →
      Except LifecycleRecordErrorV1 (ResultAuthorityRecordV2 × α)}
    (hm : ∀ record, m record = RecordM.settle record (mutation record)) :
    onRecord r m a = settle id a (a.mutateRecord r mutation) := by
  cases hentry : a.entries[r]? with
  | none =>
      rw [onRecord, bind_error (entryOf_none hentry), ProcessKeyAuthorityV2.mutateRecord,
        ProcessKeyAuthorityV2.entry, hentry]
      rfl
  | some entry =>
      rw [onRecord, bind_ok (entryOf_some hentry), bind_apply, update_apply,
        ProcessKeyAuthorityV2.mutateRecord, ProcessKeyAuthorityV2.entry, hentry, okOr_some,
        except_bind_ok, hm]
      cases mutation entry.record with
      | error e =>
          simp only [RecordM.settle, lift_apply, ProcessKeyAuthorityV2.setEntry_same hentry]
          rfl
      | ok p => rfl

theorem reserveNonceRange_eq {count : UInt64} :
    reserveNonceRange r operation digest count a =
      settle id a (a.reserveNonceRange r operation digest count.toNat) := by
  rw [reserveNonceRange, ProcessKeyAuthorityV2.reserveNonceRange, ProcessKeyAuthorityV2.entry]
  cases hentry : a.entries[r]? with
  | none =>
      rw [bind_error (entryOf_none hentry)]
      rfl
  | some entry =>
      rw [bind_ok (entryOf_some hentry), okOr_some, except_bind_ok]
      cases hknown : entry.nonceOperations[operation]? with
      | some known =>
          obtain ⟨existing, existingCount, reservation⟩ := known
          dsimp only
          split
          · rfl
          · rfl
      | none =>
          dsimp only
          rw [bind_apply, onRecord_eq (fun _ => RecordM.reservePendingNonceRange_eq),
            ProcessKeyAuthorityV2.mutateRecord, ProcessKeyAuthorityV2.entry, hentry, okOr_some,
            except_bind_ok]
          cases entry.record.reservePendingNonceRange operation digest count.toNat with
          | error e => rfl
          | ok p =>
              obtain ⟨record, reservation⟩ := p
              have hset : (a.setEntry r { entry with record }).entries[r]? =
                  some { entry with record } := by
                simp [ProcessKeyAuthorityV2.setEntry]
              show (entryOf r >>= _) (a.setEntry r { entry with record }) = _
              rw [bind_ok (entryOf_some hset)]
              show (Except.ok reservation, (a.setEntry r { entry with record }).setEntry r _) = _
              rw [ProcessKeyAuthorityV2.setEntry_setEntry]
              rfl

theorem completeNonceReservation_eq :
    completeNonceReservation r operation digest a =
      settle id a (a.completeNonceReservation r operation digest) := by
  rw [completeNonceReservation, ProcessKeyAuthorityV2.completeNonceReservation,
    ProcessKeyAuthorityV2.entry]
  cases hentry : a.entries[r]? with
  | none =>
      rw [bind_error (entryOf_none hentry)]
      rfl
  | some entry =>
      rw [bind_ok (entryOf_some hentry), okOr_some, except_bind_ok]
      cases entry.nonceOperations[operation]? with
      | none => rfl
      | some known =>
          obtain ⟨existing, existingCount, reservation⟩ := known
          dsimp only
          split
          · rfl
          · exact onRecord_eq fun _ => RecordM.completePendingNonceRange_eq

theorem begin_eq {entropy : EntropyV2} {created expires : Int} :
    begin entropy r created expires operation digest a =
      settle id a (a.begin entropy r created expires operation digest) := by
  rw [begin, ProcessKeyAuthorityV2.begin, bind_apply, read_apply]
  cases hentry : a.entries[r]? with
  | some entry =>
      simp only [bind_apply, lift_apply, hentry]
      cases entry.record.validateCanonical with
      | error e => rfl
      | ok u =>
          simp only [Except.mapError, except_bind_ok]
          split
          · rfl
          · rfl
  | none =>
      simp only [hentry]
      split
      · rfl
      · rw [bind_apply, lift_apply]
        cases okOr KeyAuthorityErrorV2.entropyUnavailable entropy with
        | error e => rfl
        | ok p =>
            simp only [except_bind_ok]
            split
            · rfl
            · rw [bind_apply, lift_apply]
              cases ResultAuthorityRecordV2.newOpen r created expires p.2 operation digest with
              | error e => rfl
              | ok record => rfl

theorem reservePublicationGeneration_eq :
    reservePublicationGeneration r operation digest a =
      settle id a (a.reservePublicationGeneration r operation digest) := by
  rw [reservePublicationGeneration, ProcessKeyAuthorityV2.reservePublicationGeneration]
  split
  · rfl
  · rw [ProcessKeyAuthorityV2.snapshot, ProcessKeyAuthorityV2.entry]
    cases hentry : a.entries[r]? with
    | none =>
        rw [bind_error (entryOf_none hentry)]
        rfl
    | some entry =>
        rw [bind_ok (entryOf_some hentry), okOr_some]
        simp only [Except.map, except_bind_ok]
        split
        · rfl
        · rw [bind_ok (read_apply a)]
          cases a.operations[(r, operation)]? with
          | some known =>
              obtain ⟨existing, generation⟩ := known
              dsimp only
              split
              · rfl
              · rfl
          | none =>
              dsimp only
              rw [bind_apply, lift_apply]
              cases okOr KeyAuthorityErrorV2.invalidTransition (checkedAdd a.highWater 1) with
              | error e => rfl
              | ok generation => rfl

theorem destroy_eq : destroy r a = settle id a (a.destroy r) := by
  rw [destroy, ProcessKeyAuthorityV2.destroy, bind_apply, read_apply]
  by_cases hmem : r ∈ a.entries
  · simp only [hmem, decide_true, if_true]
    rfl
  · simp only [hmem, decide_false, if_false, bind_apply, update_apply, erase_eq_self hmem]
    rfl

end ProcessM

/-- No call of the process authority leaves a part of its change behind. -/
theorem AuthorityCallV2.runInPlace_eq [Sha256] (call : AuthorityCallV2)
    (a : ProcessKeyAuthorityV2) : call.runInPlace a = ProcessM.settle id a (call.apply a) := by
  have hsettle : ∀ {α : Type} {m : ProcessM α}
      {x : Except KeyAuthorityErrorV2 (ProcessKeyAuthorityV2 × α)} (f : α → AuthorityOutputV2),
      m a = ProcessM.settle id a x → (m >>= fun v => pure (f v) : ProcessM AuthorityOutputV2) a =
        ProcessM.settle id a (x.map fun p => (p.1, f p.2)) := by
    intro α m x f h
    rw [bind_apply, h]
    cases x with
    | error e => rfl
    | ok p => rfl
  cases call with
  | begin entropy r created expires operation digest =>
      exact hsettle (fun p => .begun p.1 p.2) ProcessM.begin_eq
  | reserveNonceRange r operation digest count =>
      exact hsettle .range ProcessM.reserveNonceRange_eq
  | completeNonceReservation r operation digest =>
      exact hsettle .moved ProcessM.completeNonceReservation_eq
  | commitData r operation digest buildContext =>
      exact hsettle .moved (ProcessM.onRecord_eq fun _ => RecordM.commitData_eq)
  | sealResult r operation commitments =>
      exact hsettle .moved (ProcessM.onRecord_eq fun _ => RecordM.seal_eq)
  | reservePublicationGeneration r operation digest =>
      exact hsettle .generation ProcessM.reservePublicationGeneration_eq
  | publish r operation generation digest =>
      exact hsettle .moved (ProcessM.onRecord_eq fun _ => RecordM.publish_eq)
  | snapshot r =>
      cases hentry : a.entries[r]? with
      | none =>
          rw [runInPlace, bind_error (ProcessM.entryOf_none hentry)]
          show _ = ProcessM.settle id a ((ProcessKeyAuthorityV2.snapshot a r).map _)
          rw [ProcessKeyAuthorityV2.snapshot, ProcessKeyAuthorityV2.entry, hentry]
          rfl
      | some entry =>
          rw [runInPlace, bind_ok (ProcessM.entryOf_some hentry)]
          show _ = ProcessM.settle id a ((ProcessKeyAuthorityV2.snapshot a r).map _)
          rw [ProcessKeyAuthorityV2.snapshot, ProcessKeyAuthorityV2.entry, hentry]
          rfl
  | withResultKey r =>
      cases hentry : a.entries[r]? with
      | none =>
          rw [runInPlace, bind_error (ProcessM.entryOf_none hentry)]
          show _ = ProcessM.settle id a (((a.entry r).map ProcessAuthorityEntryV2.resultDek).map _)
          rw [ProcessKeyAuthorityV2.entry, hentry]
          rfl
      | some entry =>
          rw [runInPlace, bind_ok (ProcessM.entryOf_some hentry)]
          show _ = ProcessM.settle id a (((a.entry r).map ProcessAuthorityEntryV2.resultDek).map _)
          rw [ProcessKeyAuthorityV2.entry, hentry]
          rfl
  | destroy r => exact hsettle .destroyed ProcessM.destroy_eq
  | list => rfl

end Evidentrail
