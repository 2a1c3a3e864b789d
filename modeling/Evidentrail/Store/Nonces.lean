import Evidentrail.Store.Accounts
import Evidentrail.Store.Run

/-!
# Accounts along a run

Every call of the repository changes the authority by calls of the authority
only. What each of those keeps holds after any run: in particular, all
accounts stay regular.
-/

namespace Evidentrail

open Rust Std Attempt KeyAuthorityV2 AccountableV2

namespace RepositoryV2

/-! ## Properties of the authority -/

variable {A α : Type} {P : A → Prop} {r : ResultId} {d : ResultDirectoryV2}

theorem keeps_setStaging :
    Keeps (fun s : RepositoryV2 A => P s.authority) (setStaging r d) := fun _ h => h

theorem keeps_checkpoint {Q : Type} {faults : Q → Bool} {point : Q} :
    Keeps (fun s : RepositoryV2 A => P s.authority) (checkpoint faults point) := fun _ h => h

theorem keeps_lockIn {directory : Option ResultDirectoryV2} :
    Keeps (fun s : RepositoryV2 A => P s.authority) (lockIn directory) := by
  unfold lockIn
  split
  · split
    · exact keeps_pure
    · exact keeps_fail
  · exact keeps_fail

theorem keeps_installFinal :
    Keeps (fun s : RepositoryV2 A => P s.authority) (installFinal r d) :=
  keeps_bind keeps_read fun _ => keeps_bind keeps_require fun _ => fun _ h => h

theorem keeps_quarantineOwned :
    Keeps (fun s : RepositoryV2 A => P s.authority) (quarantineOwned r) := by
  intro s hs
  show P _
  rw [(quarantineOwned_movedAside (q := r) (s := s)).1]
  exact hs

theorem keeps_removeDirectories :
    Keeps (fun s : RepositoryV2 A => P s.authority) (removeDirectories r) := fun _ h => h

variable [KeyAuthorityV2 A]

theorem keeps_snapshotOf :
    Keeps (fun s : RepositoryV2 A => P s.authority) (snapshotOf r) := fun _ h => h

theorem keeps_keyOf :
    Keeps (fun s : RepositoryV2 A => P s.authority) (keyOf r) := fun _ h => h

section Returns

variable {β : Type} {R : Except DurableRepositoryErrorV2 β → RepositoryV2 A → Prop}
  {s : RepositoryV2 A}

theorem returns_snapshotOf {f : ResultAuthorityRecordV2 → RepositoryM A β}
    (herror : ∀ e, snapshot s.authority r = .error e → R (.error (.ofAuthority e)) s)
    (hok : ∀ record, snapshot s.authority r = .ok record → Returns R (f record) s) :
    Returns R (snapshotOf r >>= f) s := by
  unfold Returns
  rw [bind_apply, snapshotOf, ofAuthority]
  cases hcall : snapshot s.authority r with
  | error e => exact herror e hcall
  | ok record => exact hok record hcall

section Accounts

variable [Sha256] [AccountableV2 A] {acc : AccountV2}

theorem snapshotOf_ok (h : account s.authority r = some acc) :
    (snapshotOf r : RepositoryM A ResultAuthorityRecordV2) s = (.ok acc.record, s) := by
  unfold snapshotOf ofAuthority
  rw [snapshot_eq_ok.mpr ⟨acc, h, rfl⟩]
  rfl

theorem keyOf_ok (h : account s.authority r = some acc) :
    (keyOf r : RepositoryM A ResultDekV1) s = (.ok acc.resultDek, s) := by
  unfold keyOf ofAuthority
  rw [resultKey_account h]
  rfl

theorem returns_keyOf {f : ResultDekV1 → RepositoryM A β}
    (hacc : account s.authority r = some acc) (h : Returns R (f acc.resultDek) s) :
    Returns R (keyOf r >>= f) s :=
  returns_of_ok (keyOf_ok hacc) h

end Accounts

end Returns

/-- A property that survives the end of the result `r`. -/
def Survives (P : A → Prop) (r : ResultId) : Prop :=
  ∀ {a a' : A} {outcome : AuthorityDestroyOutcomeV2},
    KeyAuthorityV2.destroy a r = .ok (a', outcome) → P a → P a'

theorem leaves_authorityDestroy {f : AuthorityDestroyOutcomeV2 → RepositoryM A α}
    {s : RepositoryV2 A} (hP : Survives P r) (hs : P s.authority)
    (hf : ∀ outcome, Keeps (fun s : RepositoryV2 A => P s.authority) (f outcome)) :
    Leaves (fun s : RepositoryV2 A => P s.authority)
      (authorityCall (KeyAuthorityV2.destroy · r) >>= f) s :=
  leaves_authorityCall_bind hs fun _ outcome h => hf outcome _ (hP h hs)

theorem keeps_destroy (r : ResultId) (hP : Survives P r)
    (faults : DurableRepositoryFaultPointV2 → Bool) :
    Keeps (fun s : RepositoryV2 A => P s.authority) (RepositoryV2.destroy faults r) := by
  unfold RepositoryV2.destroy
  refine keeps_bind keeps_read fun s => ?_
  refine keeps_bind keeps_require fun _ => fun s hs => ?_
  refine leaves_authorityDestroy hP hs fun _ => ?_
  refine keeps_bind keeps_checkpoint fun _ => ?_
  exact keeps_bind keeps_removeDirectories fun _ => keeps_pure

variable [Sha256]

/-- A property that every call of the authority keeps, other than `destroy`. -/
def Stable (P : A → Prop) : Prop :=
  ∀ {r : ResultId} {a a' : A}, AuthorityOpV2 r a a' → P a → P a'

theorem keeps_authorityCall (hP : Stable P)
    {call : A → Except KeyAuthorityErrorV2 (A × α)}
    (hcall : ∀ {a a' : A} {output : α}, call a = .ok (a', output) → AuthorityOpV2 r a a') :
    Keeps (fun s : RepositoryV2 A => P s.authority) (authorityCall call) :=
  fun _ hs => leaves_authorityCall hs fun _ _ h => hP (hcall h) hs

section Regular

variable [AccountableV2 A]

def AllRegular (a : A) : Prop :=
  ∀ (r : ResultId) (acc : AccountV2), account a r = some acc → acc.Regular

theorem allRegular_stable : Stable (AllRegular (A := A)) := by
  intro r a a' hop hregular q acc hacc
  by_cases hq : q = r
  · subst hq
    exact (AccountableV2.step hop (hregular q)).regular (hregular q) acc hacc
  · rw [step_other hop hq] at hacc
    exact hregular q acc hacc

theorem allRegular_survives (r : ResultId) : Survives (AllRegular (A := A)) r := by
  intro a a' outcome h hregular q acc hacc
  by_cases hq : q = r
  · subst hq
    cases (AccountableV2.destroy_account h).1.symm.trans hacc
  · rw [(AccountableV2.destroy_account h).2 q hq] at hacc
    exact hregular q acc hacc

end Regular

/-! ## Calls of the repository -/

theorem keeps_begin (hP : Stable P) (faults : DurableRepositoryFaultPointV2 → Bool)
    (entropy : EntropyV2) (r : ResultId) (created expires : Int) (operation : OperationIdV1)
    (bytes : List UInt8) : Keeps (fun s : RepositoryV2 A => P s.authority)
      (RepositoryV2.begin faults entropy r created expires operation bytes) := by
  have hwrite : ∀ d digest nonceOperation transition,
      Keeps (fun s : RepositoryV2 A => P s.authority)
        (begin.writeRequest faults r bytes d digest nonceOperation transition) := by
    intro d digest nonceOperation transition
    refine keeps_bind (keeps_authorityCall hP .reserveNonceRange) fun _ => ?_
    refine keeps_bind keeps_keyOf fun key => ?_
    refine keeps_bind keeps_setStaging fun _ => ?_
    refine keeps_bind (keeps_authorityCall hP .completeNonceReservation) fun _ => ?_
    exact keeps_bind keeps_checkpoint fun _ => keeps_pure
  unfold RepositoryV2.begin
  refine keeps_bind keeps_require fun _ => ?_
  refine keeps_bind (keeps_authorityCall hP fun h => .begin h) fun output => ?_
  refine keeps_bind keeps_checkpoint fun _ => ?_
  refine keeps_bind keeps_read fun s => ?_
  split
  · refine keeps_bind keeps_require fun _ => ?_
    refine keeps_bind keeps_setStaging fun _ => ?_
    split
    · refine keeps_bind keeps_keyOf fun key => ?_
      refine keeps_bind keeps_lift fun stored => ?_
      refine keeps_bind keeps_require fun _ => ?_
      exact keeps_bind (keeps_authorityCall hP .completeNonceReservation) fun _ => keeps_pure
    · exact hwrite _ _ _ _
  · exact keeps_bind keeps_setStaging fun _ => hwrite _ _ _ _

theorem keeps_commitBatch (hP : Stable P) (faults : DurableRepositoryFaultPointV2 → Bool)
    (r : ResultId) (input : BatchCommitInputV2) :
    Keeps (fun s : RepositoryV2 A => P s.authority)
      (RepositoryV2.commitBatch faults r input) := by
  unfold RepositoryV2.commitBatch
  refine keeps_bind keeps_read fun s => ?_
  refine keeps_bind keeps_lockIn fun d => ?_
  refine keeps_bind keeps_snapshotOf fun record => ?_
  refine keeps_bind keeps_require fun _ => ?_
  refine keeps_bind keeps_lift fun _ => ?_
  split
  · refine keeps_bind (keeps_authorityCall hP .completeNonceReservation) fun _ => ?_
    refine keeps_bind keeps_keyOf fun key => ?_
    refine keeps_bind keeps_lift fun stored => ?_
    refine keeps_bind keeps_require fun _ => ?_
    exact keeps_bind keeps_lift fun _ => keeps_pure
  · refine keeps_bind keeps_require fun _ => ?_
    refine keeps_bind keeps_lift fun chained => ?_
    refine keeps_bind (keeps_authorityCall hP .reserveNonceRange) fun _ => ?_
    refine keeps_bind keeps_require fun _ => ?_
    refine keeps_bind keeps_keyOf fun key => ?_
    refine keeps_bind keeps_require fun _ => ?_
    refine keeps_bind keeps_setStaging fun _ => ?_
    refine keeps_bind (keeps_authorityCall hP .completeNonceReservation) fun _ => ?_
    exact keeps_bind keeps_checkpoint fun _ => keeps_pure

theorem keeps_publish (hP : Stable P) (stops : PublishPointV2 → Bool) (r : ResultId)
    (operation : OperationIdV1) : Keeps (fun s : RepositoryV2 A => P s.authority)
      (RepositoryV2.publish stops r operation) := by
  unfold RepositoryV2.publish
  refine keeps_bind keeps_require fun _ => ?_
  refine keeps_bind keeps_read fun s => ?_
  refine keeps_bind keeps_lockIn fun storage => ?_
  refine keeps_bind keeps_snapshotOf fun record => ?_
  split
  · refine keeps_bind keeps_lift fun _ => ?_
    exact keeps_authorityCall hP .publish
  · refine keeps_bind keeps_require fun _ => ?_
    refine keeps_bind keeps_keyOf fun key => ?_
    refine keeps_bind keeps_lift fun finalManifest => ?_
    refine keeps_bind keeps_require fun _ => ?_
    refine keeps_bind keeps_checkpoint fun _ => ?_
    refine keeps_bind (keeps_authorityCall hP .reserveGeneration) fun generation => ?_
    refine keeps_bind keeps_checkpoint fun _ => ?_
    split
    · refine keeps_bind keeps_lift fun d => ?_
      refine keeps_bind keeps_setStaging fun _ => ?_
      refine keeps_bind keeps_checkpoint fun _ => ?_
      refine keeps_bind keeps_installFinal fun _ => ?_
      refine keeps_bind keeps_checkpoint fun _ => ?_
      exact keeps_authorityCall hP .publish
    · refine keeps_bind keeps_lift fun stored => ?_
      refine keeps_bind keeps_require fun _ => ?_
      exact keeps_authorityCall hP .publish

theorem keeps_recoverSealed (hP : Stable P) (r : ResultId) (record : ResultAuthorityRecordV2) :
    Keeps (fun s : RepositoryV2 A => P s.authority) (recoverSealed r record) := by
  unfold recoverSealed
  refine keeps_bind keeps_read fun s => ?_
  split
  · exact keeps_pure
  · refine keeps_bind keeps_keyOf fun key => ?_
    refine keeps_bind keeps_lift fun finalManifest => ?_
    split
    · exact keeps_pure
    · have hpublish : Keeps (fun s : RepositoryV2 A => P s.authority) (do
          let generation ← authorityCall (reservePublicationGeneration · r
            (recoveryOperation record.sealCommitments.finalManifest)
            (deriveRepositoryCommitment record.sealCommitments))
          let _ ← authorityCall (KeyAuthorityV2.publish · r
            (recoveryOperation record.sealCommitments.finalManifest) generation
            (deriveRepositoryCommitment record.sealCommitments))
          pure RecoveryDispositionV2.completedPublication) := by
        refine keeps_bind (keeps_authorityCall hP .reserveGeneration) fun _ => ?_
        exact keeps_bind (keeps_authorityCall hP .publish) fun _ => keeps_pure
      dsimp only
      split
      · refine keeps_bind keeps_lift fun d => ?_
        refine keeps_bind keeps_setStaging fun _ => ?_
        exact keeps_bind keeps_installFinal fun _ => hpublish
      · exact hpublish

/-- Recovery destroys a result that has expired, and an open one without a
directory. -/
theorem leaves_recover {s : RepositoryV2 A} (r : ResultId) (now : Int)
    (context : Option BuildContextDigestsV1) (hs : P s.authority)
    (hsealed : ∀ record, snapshot s.authority r = .ok record → record.state = .sealed →
      Keeps (fun s : RepositoryV2 A => P s.authority) (recoverSealed r record))
    (hdestroy : ∀ record, snapshot s.authority r = .ok record →
      (record.expiresUnixNanos ≤ now ∨ (record.state = .opened ∧ s.staging[r]? = none)) →
      Survives P r) :
    Leaves (fun s : RepositoryV2 A => P s.authority) (RepositoryV2.recover r now context) s := by
  have hquarantine : ∀ disposition : RecoveryDispositionV2,
      Keeps (fun s : RepositoryV2 A => P s.authority)
        (quarantineOwned r >>= fun _ => pure disposition) :=
    fun _ => keeps_bind keeps_quarantineOwned fun _ => keeps_pure
  unfold RepositoryV2.recover
  refine leaves_read ?_
  dsimp only
  split
  · split
    · exact hquarantine _ s hs
    · exact hs
  · exact hs
  · rename_i record hrecord
    split
    · exact hquarantine _ s hs
    · split
      · rename_i hnow
        refine leaves_authorityDestroy (hdestroy record hrecord (.inl hnow)) hs fun _ => ?_
        exact keeps_bind keeps_removeDirectories fun _ => keeps_pure
      · cases hstate : record.state with
        | opened =>
            dsimp only
            split
            · exact hs
            · rename_i hstaging
              split
              · exact leaves_authorityDestroy (hdestroy record hrecord
                  (.inr ⟨hstate, by simpa using hstaging⟩)) hs fun _ => keeps_pure
              · exact hs
        | dataCommitted =>
            dsimp only
            split
            · exact hs
            · exact hs
            · split
              · refine keeps_bind keeps_keyOf (fun key => ?_) s hs
                refine keeps_bind keeps_lift fun data => ?_
                split
                · exact keeps_pure
                · exact keeps_pure
              · exact hs
        | «sealed» => exact hsealed record hrecord hstate s hs
        | published =>
            dsimp only
            split
            · exact hs
            · exact hs

theorem keeps_recoverEach (hP : Stable P) (hd : ∀ r, Survives P r) (now : Int)
    (context : ResultId → Option BuildContextDigestsV1) : ∀ resultIds : List ResultId,
    Keeps (fun s : RepositoryV2 A => P s.authority) (recoverEach now context resultIds)
  | [] => keeps_pure
  | q :: rest =>
      keeps_bind (fun _ hs => leaves_recover q now (context q) hs
        (fun record _ _ => keeps_recoverSealed hP q record) fun _ _ _ => hd q) fun _ =>
        keeps_bind (keeps_recoverEach hP hd now context rest) fun _ => keeps_pure

variable [SnapshotFormatV2]

theorem keeps_commitData (hP : Stable P) (faults : DurableRepositoryFaultPointV2 → Bool)
    (r : ResultId) (input : DataCommitInputV2) :
    Keeps (fun s : RepositoryV2 A => P s.authority)
      (RepositoryV2.commitData faults r input) := by
  unfold RepositoryV2.commitData
  refine keeps_bind keeps_require fun _ => ?_
  refine keeps_bind keeps_read fun s => ?_
  refine keeps_bind keeps_lockIn fun storage => ?_
  refine keeps_bind keeps_snapshotOf fun record => ?_
  split
  · refine keeps_bind keeps_keyOf fun key => ?_
    refine keeps_bind keeps_lift fun existing => ?_
    refine keeps_bind keeps_require fun _ => ?_
    exact keeps_authorityCall hP .commitData
  · split
    · exact keeps_fail
    · refine keeps_bind keeps_keyOf fun key => ?_
      refine keeps_bind keeps_lift fun data => ?_
      obtain ⟨index, manifest⟩ := data
      dsimp only
      split
      · refine keeps_bind keeps_lift fun existing => ?_
        refine keeps_bind keeps_require fun _ => ?_
        refine keeps_bind (keeps_authorityCall hP .completeNonceReservation) fun _ => ?_
        exact keeps_authorityCall hP .commitData
      · refine keeps_bind keeps_lift fun segmentOrdinal => ?_
        refine keeps_bind (keeps_authorityCall hP .reserveNonceRange) fun _ => ?_
        refine keeps_bind keeps_setStaging fun _ => ?_
        refine keeps_bind (keeps_authorityCall hP .completeNonceReservation) fun _ => ?_
        refine keeps_bind keeps_checkpoint fun _ => ?_
        exact keeps_authorityCall hP .commitData

theorem keeps_sealResult (hP : Stable P) (faults : DurableRepositoryFaultPointV2 → Bool)
    (r : ResultId) (input : SealInputV2) :
    Keeps (fun s : RepositoryV2 A => P s.authority)
      (RepositoryV2.sealResult faults r input) := by
  unfold RepositoryV2.sealResult
  refine keeps_bind keeps_require fun _ => ?_
  refine keeps_bind keeps_read fun s => ?_
  refine keeps_bind keeps_lockIn fun storage => ?_
  refine keeps_bind keeps_snapshotOf fun record => ?_
  refine keeps_bind keeps_require fun _ => ?_
  split
  · refine keeps_bind keeps_keyOf fun key => ?_
    refine keeps_bind keeps_lift fun existing => ?_
    refine keeps_bind keeps_require fun _ => ?_
    exact keeps_authorityCall hP .sealResult
  · refine keeps_bind keeps_require fun _ => ?_
    split
    · exact keeps_fail
    · refine keeps_bind keeps_keyOf fun key => ?_
      refine keeps_bind keeps_lift fun data => ?_
      split
      · refine keeps_bind keeps_lift fun existing => ?_
        refine keeps_bind keeps_require fun _ => ?_
        refine keeps_bind (keeps_authorityCall hP .completeNonceReservation) fun _ => ?_
        exact keeps_authorityCall hP .sealResult
      · refine keeps_bind keeps_lift fun segmentOrdinal => ?_
        refine keeps_bind (keeps_authorityCall hP .reserveNonceRange) fun _ => ?_
        refine keeps_bind keeps_setStaging fun _ => ?_
        refine keeps_bind (keeps_authorityCall hP .completeNonceReservation) fun _ => ?_
        refine keeps_bind keeps_checkpoint fun _ => ?_
        exact keeps_authorityCall hP .sealResult

theorem step_stable (hP : Stable P) (hd : ∀ r, Survives P r) {s : RepositoryV2 A}
    (hs : P s.authority) (command : CommandV2) : P (s.step command).authority := by
  cases command with
  | begin faults entropy q created expires operation request =>
      exact keeps_begin hP faults entropy q created expires operation request s hs
  | commitBatch faults q input => exact keeps_commitBatch hP faults q input s hs
  | commitData faults q input => exact keeps_commitData hP faults q input s hs
  | sealResult faults q input => exact keeps_sealResult hP faults q input s hs
  | publish stops q operation => exact keeps_publish hP stops q operation s hs
  | expand _ _ _ _ _ => exact hs
  | recover q now context =>
      exact leaves_recover q now context hs
        (fun record _ _ => keeps_recoverSealed hP q record) fun _ _ _ => hd q
  | recoverAll now context =>
      exact keeps_bind keeps_read (fun _ => keeps_bind keeps_lift fun _ =>
        keeps_recoverEach hP hd now context _) s hs
  | destroy faults q => exact keeps_destroy q (hd q) faults s hs

theorem run_stable (hP : Stable P) (hd : ∀ r, Survives P r) :
    ∀ (commands : List CommandV2) {s : RepositoryV2 A}, P s.authority →
      P (s.run commands).authority
  | [], _, hs => hs
  | command :: rest, s, hs =>
      run_stable hP hd rest (s := s.step command) (step_stable hP hd hs command)

end RepositoryV2

end Evidentrail
