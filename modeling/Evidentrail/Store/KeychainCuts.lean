import Evidentrail.Store.AuthorityCalls
import Evidentrail.Store.KeychainCodec

/-!
# The keychain authority, one keychain call at a time

The keychain takes one call after another, and the process can stop between
two of them. Every operation of the authority writes one item at most, except
`reserve_publication_generation`, which writes the entry and then the high
water.
-/

namespace Evidentrail

open Rust Std Attempt

/-- The keychain, and how many of its calls are made before the process
stops. -/
structure KeychainRunV2 where
  keychain : MacOsKeychainAuthorityV2
  left : Nat

inductive KeychainStopV2 where
  | cut
  | refused (error : KeyAuthorityErrorV2)
deriving DecidableEq

abbrev KeychainM (α : Type) := Attempt KeychainRunV2 KeychainStopV2 α

namespace KeychainM

/-- One call of the keychain. -/
def call {α : Type} (f : MacOsKeychainAuthorityV2 → α × MacOsKeychainAuthorityV2) :
    KeychainM α := fun s =>
  match s.left with
  | 0 => (.error .cut, s)
  | left + 1 => (.ok (f s.keychain).1, ⟨(f s.keychain).2, left⟩)

def refuse {α : Type} (x : Except KeyAuthorityErrorV2 α) : KeychainM α := lift (x.mapError .refused)

/-! ## Items -/

def getEntry (resultId : ResultId) : KeychainM (Except KeyAuthorityErrorV2 KeychainEntryV2) :=
  call fun keychain => (keychain.getEntry resultId, keychain)

def setEntry (resultId : ResultId) (entry : KeychainEntryV2) : KeychainM Unit :=
  call fun keychain => ((), keychain.setEntry resultId entry)

def searchEntries : KeychainM (Except KeyAuthorityErrorV2 (List KeychainEntryV2)) :=
  call fun keychain => (keychain.searchEntries, keychain)

def readPublicationHighWater : KeychainM Nat :=
  call fun keychain => (keychain.readPublicationHighWater, keychain)

def writePublicationHighWater (highWater : Nat) : KeychainM Unit :=
  call fun keychain => ((), { keychain with publicationHighWater := some highWater })

/-- Whether there was an item to delete. -/
def delete (resultId : ResultId) : KeychainM Bool :=
  call fun keychain => (decide (resultId ∈ keychain.entries),
    { keychain with entries := keychain.entries.erase resultId })

/-! ## Operations -/

def mutateEntry {R : Type} (resultId : ResultId)
    (mutation : KeychainEntryV2 → Except KeyAuthorityErrorV2 (KeychainEntryV2 × R)) :
    KeychainM R := do
  let found ← getEntry resultId
  let entry ← refuse found
  let (entry, output) ← refuse (mutation entry)
  setEntry resultId entry
  pure output

def begin (entropy : EntropyV2) (resultId : ResultId) (created expires : Int)
    (operation : OperationIdV1) (digest : LifecycleDigestV1) :
    KeychainM (ResultAuthorityRecordV2 × LifecycleTransitionV1) := do
  let found ← getEntry resultId
  match found with
  | .ok entry =>
      if entry.record.matchesBegin created expires operation digest then
        pure (entry.record, .alreadyApplied)
      else refuse (.error .operationConflict)
  | .error .notFound => do
      let entries ← searchEntries
      let entries ← refuse entries
      let keychain ← read
      if entries.length ≥ keychain.keychain.capacity then refuse (.error .capacityExceeded)
      else do
        let (resultDek, nonceBase) ← refuse (okOr .entropyUnavailable entropy)
        if resultDek.isZero then refuse (.error .entropyUnavailable)
        else do
          let record ← refuse ((ResultAuthorityRecordV2.newOpen resultId created expires nonceBase
            operation digest).mapError .ofLifecycle)
          setEntry resultId { record, resultDek }
          pure (record, .applied)
  | .error error => refuse (.error error)

/-- The entry is written first: if the process stops before the high water
is, a repeated reservation finds the entry, and every other one sees it in its
search. -/
def reservePublicationGeneration (resultId : ResultId) (operation : OperationIdV1)
    (digest : LifecycleDigestV1) : KeychainM Nat :=
  if operation.isZero then refuse (.error .operationConflict)
  else do
    let found ← getEntry resultId
    let entry ← refuse found
    if entry.record.state ≠ .sealed then refuse (.error .invalidTransition)
    else if !entry.publicationOperation.isZero then
      if entry.publicationOperation = operation ∧ entry.publicationDigest = digest then do
        let highWater ← readPublicationHighWater
        runIf (highWater < entry.publicationGeneration)
          (writePublicationHighWater entry.publicationGeneration)
        pure entry.publicationGeneration
      else refuse (.error .operationConflict)
    else do
      let oldHighWater ← readPublicationHighWater
      let entries ← searchEntries
      let entries ← refuse entries
      let observed := entries.foldl (fun highWater candidate =>
        max (max highWater candidate.record.publicationGeneration)
          candidate.publicationGeneration) oldHighWater
      let generation ← refuse (okOr .invalidTransition (checkedAdd observed 1))
      setEntry resultId { entry with
        publicationOperation := operation
        publicationDigest := digest
        publicationGeneration := generation }
      writePublicationHighWater generation
      pure generation

def destroy (resultId : ResultId) : KeychainM AuthorityDestroyOutcomeV2 := do
  let removed ← delete resultId
  pure (if removed then .destroyed else .alreadyAbsent)

end KeychainM

namespace KeychainEntryV2

/-! ## Changes of one entry -/

def onRecord {R : Type} (mutation : ResultAuthorityRecordV2 →
      Except LifecycleRecordErrorV1 (ResultAuthorityRecordV2 × R)) (entry : KeychainEntryV2) :
    Except KeyAuthorityErrorV2 (KeychainEntryV2 × R) := do
  let (record, output) ← (mutation entry.record).mapError .ofLifecycle
  .ok ({ entry with record }, output)

def reserveNonceRange (operation : OperationIdV1) (digest : LifecycleDigestV1) (count : Nat)
    (entry : KeychainEntryV2) :
    Except KeyAuthorityErrorV2 (KeychainEntryV2 × NonceReservationV1) :=
  if !entry.lastNonceOperation.isZero ∧ entry.lastNonceOperation = operation ∧
      entry.lastNonceDigest = digest ∧ entry.lastNonceCount = count then
    ((NonceReservationV1.new entry.record.nonceBase entry.lastNonceFirst count).mapError
      .ofLifecycle).map fun reservation => (entry, reservation)
  else if !entry.lastNonceOperation.isZero ∧ entry.record.hasPendingNonceReservation then
    .error .operationConflict
  else do
    let (record, reservation) ← (entry.record.reservePendingNonceRange operation
      digest count).mapError .ofLifecycle
    .ok ({ entry with
      record, lastNonceOperation := operation, lastNonceDigest := digest
      lastNonceFirst := reservation.firstCounter, lastNonceCount := count }, reservation)

def completeNonceReservation (operation : OperationIdV1) (digest : LifecycleDigestV1)
    (entry : KeychainEntryV2) :
    Except KeyAuthorityErrorV2 (KeychainEntryV2 × LifecycleTransitionV1) :=
  if entry.lastNonceOperation ≠ operation ∨ entry.lastNonceDigest ≠ digest then
    .error .operationConflict
  else entry.onRecord (·.completePendingNonceRange operation digest)

def publish (operation : OperationIdV1) (generation : Nat) (digest : LifecycleDigestV1)
    (entry : KeychainEntryV2) :
    Except KeyAuthorityErrorV2 (KeychainEntryV2 × LifecycleTransitionV1) :=
  if entry.publicationOperation ≠ operation ∨ entry.publicationDigest ≠ digest ∨
      entry.publicationGeneration ≠ generation then .error .operationConflict
  else entry.onRecord (·.publish operation generation digest)

end KeychainEntryV2

namespace AuthorityCallV2

variable [Sha256]

/-- The call, of the keychain authority, as the code makes it. -/
def runKeychain : AuthorityCallV2 → KeychainM AuthorityOutputV2
  | .begin entropy resultId created expires operation digest => do
      let (record, transition) ← KeychainM.begin entropy resultId created.toInt expires.toInt
        operation digest
      pure (.begun record transition)
  | .reserveNonceRange resultId operation digest count => do
      let reservation ← KeychainM.mutateEntry resultId
        (KeychainEntryV2.reserveNonceRange operation digest count.toNat)
      pure (.range reservation)
  | .completeNonceReservation resultId operation digest => do
      let transition ← KeychainM.mutateEntry resultId
        (KeychainEntryV2.completeNonceReservation operation digest)
      pure (.moved transition)
  | .commitData resultId operation digest buildContext => do
      let transition ← KeychainM.mutateEntry resultId
        (KeychainEntryV2.onRecord (·.commitData operation digest buildContext))
      pure (.moved transition)
  | .sealResult resultId operation commitments => do
      let transition ← KeychainM.mutateEntry resultId
        (KeychainEntryV2.onRecord fun record => record.seal operation commitments)
      pure (.moved transition)
  | .reservePublicationGeneration resultId operation digest => do
      let value ← KeychainM.reservePublicationGeneration resultId operation digest
      pure (.generation value)
  | .publish resultId operation generation digest => do
      let transition ← KeychainM.mutateEntry resultId
        (KeychainEntryV2.publish operation generation.toNat digest)
      pure (.moved transition)
  | .snapshot resultId => do
      let found ← KeychainM.getEntry resultId
      let entry ← KeychainM.refuse found
      pure (.record entry.record)
  | .withResultKey resultId => do
      let found ← KeychainM.getEntry resultId
      let entry ← KeychainM.refuse found
      pure (.key entry.resultDek)
  | .destroy resultId => do
      let outcome ← KeychainM.destroy resultId
      pure (.destroyed outcome)
  | .list => do
      let found ← KeychainM.searchEntries
      let entries ← KeychainM.refuse found
      pure (.records (entries.map KeychainEntryV2.record))

end AuthorityCallV2

/-! ## What a call leaves behind -/

namespace KeychainM

variable {α β : Type} {k : MacOsKeychainAuthorityV2} {left : Nat}

/-- The call ended as the whole operation `x` says, or was cut: then the
keychain is as before, or everything is written but the high water. Five calls
of the keychain are enough for any operation. -/
def Ends (k : MacOsKeychainAuthorityV2) (left : Nat)
    (x : Except KeyAuthorityErrorV2 (MacOsKeychainAuthorityV2 × α)) :
    Except KeychainStopV2 α → KeychainRunV2 → Prop
  | .ok output, s => x = .ok (s.keychain, output)
  | .error (.refused error), s => x = .error error ∧ s.keychain = k
  | .error .cut, s => left < 5 ∧ (s.keychain = k ∨ ∃ k' output, x = .ok (k', output) ∧
      s.keychain = { k' with publicationHighWater := k.publicationHighWater })

theorem returns_call {R : Except KeychainStopV2 β → KeychainRunV2 → Prop}
    {f : MacOsKeychainAuthorityV2 → α × MacOsKeychainAuthorityV2} {g : α → KeychainM β}
    (hcut : left = 0 → R (.error .cut) ⟨k, 0⟩)
    (h : ∀ rest, left = rest + 1 → Returns R (g (f k).1) ⟨(f k).2, rest⟩) :
    Returns R (call f >>= g) ⟨k, left⟩ := by
  cases left with
  | zero => exact hcut rfl
  | succ rest => exact h rest rfl

theorem returns_refuse {R : Except KeychainStopV2 β → KeychainRunV2 → Prop} {s : KeychainRunV2}
    {x : Except KeyAuthorityErrorV2 α} {g : α → KeychainM β}
    (herror : ∀ e, x = .error e → R (.error (.refused e)) s)
    (hok : ∀ a, x = .ok a → Returns R (g a) s) : Returns R (refuse x >>= g) s := by
  cases x with
  | error e => exact herror e rfl
  | ok a => exact hok a rfl

theorem ends_map {m : KeychainM α} {f : α → β}
    {x : Except KeyAuthorityErrorV2 (MacOsKeychainAuthorityV2 × α)}
    (h : Returns (Ends k left x) m ⟨k, left⟩) :
    Returns (Ends k left (x.map fun p => (p.1, f p.2)))
      (m >>= fun a => pure (f a) : KeychainM β) ⟨k, left⟩ := by
  refine returns_then h (fun e s hs => ?_) (fun a s hs => ?_)
  · cases e with
    | cut =>
        obtain ⟨hleft, hsame | ⟨k', output, rfl, hhalf⟩⟩ := hs
        · exact ⟨hleft, .inl hsame⟩
        · exact ⟨hleft, .inr ⟨k', f output, rfl, hhalf⟩⟩
    | refused error =>
        obtain ⟨rfl, hsame⟩ := hs
        exact ⟨rfl, hsame⟩
  · replace hs : x = .ok (s.keychain, a) := hs
    subst hs
    exact rfl

theorem ends_mutateEntry {R : Type} {r : ResultId}
    {mutation : KeychainEntryV2 → Except KeyAuthorityErrorV2 (KeychainEntryV2 × R)} :
    Returns (Ends k left (k.mutateEntry r mutation)) (mutateEntry r mutation) ⟨k, left⟩ := by
  unfold mutateEntry MacOsKeychainAuthorityV2.mutateEntry
  refine returns_call (fun hleft => ⟨by omega, .inl rfl⟩) fun rest hleft => ?_
  refine returns_refuse (fun e he => ?_) fun entry hentry => ?_
  · dsimp only at he
    rw [he]
    exact ⟨rfl, rfl⟩
  · dsimp only at hentry
    rw [hentry, except_bind_ok]
    refine returns_refuse (fun e he => ?_) fun p hp => ?_
    · rw [he]
      exact ⟨rfl, rfl⟩
    · obtain ⟨entry', output⟩ := p
      rw [hp, except_bind_ok]
      refine returns_call (fun hrest => ⟨by omega, .inl rfl⟩) fun rest' hrest => ?_
      exact rfl

theorem ends_begin {entropy : EntropyV2} {r : ResultId} {created expires : Int}
    {operation : OperationIdV1} {digest : LifecycleDigestV1} :
    Returns (Ends k left (k.begin entropy r created expires operation digest))
      (begin entropy r created expires operation digest) ⟨k, left⟩ := by
  unfold begin MacOsKeychainAuthorityV2.begin
  refine returns_call (fun hleft => ⟨by omega, .inl rfl⟩) fun rest hleft => ?_
  dsimp only
  cases hfound : k.getEntry r with
  | ok entry =>
      dsimp only
      split
      · exact rfl
      · exact ⟨rfl, rfl⟩
  | error e =>
      cases e with
      | notFound =>
          refine returns_call (fun hrest => ⟨by omega, .inl rfl⟩) fun rest' hrest => ?_
          refine returns_refuse (fun e he => ?_) fun entries hentries => ?_
          · dsimp only at he ⊢
            rw [he]
            exact ⟨rfl, rfl⟩
          · dsimp only at hentries ⊢
            rw [hentries, except_bind_ok]
            refine returns_read ?_
            dsimp only
            split
            · exact ⟨rfl, rfl⟩
            · refine returns_refuse (fun e he => ?_) fun drawn hdrawn => ?_
              · rw [he]
                exact ⟨rfl, rfl⟩
              · rw [hdrawn, except_bind_ok]
                split
                · exact ⟨rfl, rfl⟩
                · refine returns_refuse (fun e he => ?_) fun record hrecord => ?_
                  · rw [he]
                    exact ⟨rfl, rfl⟩
                  · rw [hrecord, except_bind_ok]
                    refine returns_call (fun hrest => ⟨by omega, .inl rfl⟩) fun _ _ => ?_
                    exact rfl
      | _ => exact ⟨rfl, rfl⟩

theorem ends_reserve {r : ResultId} {operation : OperationIdV1} {digest : LifecycleDigestV1} :
    Returns (Ends k left (k.reservePublicationGeneration r operation digest))
      (reservePublicationGeneration r operation digest) ⟨k, left⟩ := by
  unfold reservePublicationGeneration MacOsKeychainAuthorityV2.reservePublicationGeneration
  split
  · exact ⟨rfl, rfl⟩
  · refine returns_call (fun hleft => ⟨by omega, .inl rfl⟩) fun rest hleft => ?_
    refine returns_refuse (fun e he => ?_) fun entry hentry => ?_
    · dsimp only at he
      rw [he]
      exact ⟨rfl, rfl⟩
    · dsimp only at hentry
      rw [hentry, except_bind_ok]
      dsimp only
      split
      · exact ⟨rfl, rfl⟩
      · split
        · split
          · refine returns_call (fun hrest => ⟨by omega, .inl rfl⟩) fun rest' hrest => ?_
            dsimp only
            by_cases hbehind : k.readPublicationHighWater < entry.publicationGeneration
            · rw [runIf_true (by simp [hbehind]), if_pos hbehind]
              refine returns_call (fun hrest => ⟨by omega, .inl rfl⟩) fun _ _ => ?_
              exact rfl
            · rw [runIf_false (by simp [hbehind]), if_neg hbehind]
              exact rfl
          · exact ⟨rfl, rfl⟩
        · refine returns_call (fun hrest => ⟨by omega, .inl rfl⟩) fun rest' hrest => ?_
          refine returns_call (fun hrest => ⟨by omega, .inl rfl⟩) fun rest'' hrest' => ?_
          refine returns_refuse (fun e he => ?_) fun entries hentries => ?_
          · dsimp only at he
            rw [he]
            exact ⟨rfl, rfl⟩
          · dsimp only at hentries ⊢
            rw [hentries, except_bind_ok]
            refine returns_refuse (fun e he => ?_) fun generation hgeneration => ?_
            · rw [he]
              exact ⟨rfl, rfl⟩
            · rw [hgeneration, except_bind_ok]
              refine returns_call (fun hrest => ⟨by omega, .inl rfl⟩) fun _ _ => ?_
              refine returns_call (fun hrest => ⟨by omega, .inr ⟨_, _, rfl, rfl⟩⟩) fun _ _ => ?_
              exact rfl

theorem ends_destroy {r : ResultId} :
    Returns (Ends k left (k.destroy r)) (destroy r) ⟨k, left⟩ := by
  unfold destroy MacOsKeychainAuthorityV2.destroy
  refine returns_call (fun hleft => ⟨by omega, .inl rfl⟩) fun rest hleft => ?_
  by_cases hmem : r ∈ k.entries
  · simp only [hmem, decide_true, if_true]
    exact rfl
  · simp only [hmem, decide_false, if_false, erase_eq_self hmem]
    exact rfl

end KeychainM

/-- How every call ends, wherever it is cut. -/
theorem AuthorityCallV2.ends [Sha256] (call : AuthorityCallV2) (k : MacOsKeychainAuthorityV2)
    (left : Nat) :
    Returns (KeychainM.Ends k left (call.apply k)) call.runKeychain ⟨k, left⟩ := by
  have hread : ∀ {α β : Type} {f : MacOsKeychainAuthorityV2 → Except KeyAuthorityErrorV2 α}
      {h : α → β} {g : β → AuthorityOutputV2},
      Returns (KeychainM.Ends k left (((f k).map h).map fun b => (k, g b)))
        (do
          let found ← KeychainM.call fun keychain => (f keychain, keychain)
          let a ← KeychainM.refuse found
          pure (g (h a))) ⟨k, left⟩ := by
    intro α β f h g
    refine KeychainM.returns_call (fun hleft => ⟨by omega, .inl rfl⟩) fun rest hleft => ?_
    refine KeychainM.returns_refuse (fun e he => ?_) fun a ha => ?_
    · dsimp only at he
      rw [he]
      exact ⟨rfl, rfl⟩
    · dsimp only at ha
      rw [ha]
      exact rfl
  cases call with
  | begin entropy r created expires operation digest =>
      exact KeychainM.ends_map (f := fun p => AuthorityOutputV2.begun p.1 p.2)
        KeychainM.ends_begin
  | reserveNonceRange r operation digest count =>
      exact KeychainM.ends_map KeychainM.ends_mutateEntry
  | completeNonceReservation r operation digest =>
      exact KeychainM.ends_map KeychainM.ends_mutateEntry
  | commitData r operation digest buildContext =>
      exact KeychainM.ends_map KeychainM.ends_mutateEntry
  | sealResult r operation commitments => exact KeychainM.ends_map KeychainM.ends_mutateEntry
  | reservePublicationGeneration r operation digest =>
      exact KeychainM.ends_map KeychainM.ends_reserve
  | publish r operation generation digest => exact KeychainM.ends_map KeychainM.ends_mutateEntry
  | snapshot r => exact hread
  | withResultKey r => exact hread
  | destroy r => exact KeychainM.ends_map KeychainM.ends_destroy
  | list => exact hread

end Evidentrail
