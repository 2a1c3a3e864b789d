import Evidentrail.Store.Growth
import Evidentrail.Store.Recovery
import Evidentrail.Store.Nonces

/-!
# What a successful call leaves

`AppliedAs` says of a record and a directory that a call has been applied to
them. Every call that returns a success establishes it, and it stays true as
the result grows.
-/

namespace Evidentrail

open Rust Std Slice Attempt KeyAuthorityV2 LawfulKeyAuthorityV2

/-! ## The calls of a writer -/

inductive WriterCallV2 where
  | begin (created expires : Int) (operation : OperationIdV1) (request : List UInt8)
  | commitBatch (input : BatchCommitInputV2)
  | commitData (input : DataCommitInputV2)
  | sealResult (input : SealInputV2)
  | publish (operation : OperationIdV1)

/-- The transition, and the acknowledgements of a batch. -/
structure WriterOutcomeV2 where
  transition : LifecycleTransitionV1
  acknowledgements : List DurableEventAcknowledgementV2 := []
deriving DecidableEq

namespace WriterCallV2

variable {A : Type} [KeyAuthorityV2 A] [Sha256] [SnapshotFormatV2]

/-- Issue the call, stopping at the given points. -/
def perform (faults : DurableRepositoryFaultPointV2 → Bool) (stops : PublishPointV2 → Bool)
    (entropy : EntropyV2) (r : ResultId) : WriterCallV2 → RepositoryM A WriterOutcomeV2
  | .begin created expires operation request => do
      let transition ←
        RepositoryV2.begin faults entropy r created expires operation request
      pure { transition }
  | .commitBatch input => do
      let commit ← RepositoryV2.commitBatch faults r input
      pure ⟨commit.transition, commit.acknowledgements⟩
  | .commitData input => do
      let transition ← RepositoryV2.commitData faults r input
      pure { transition }
  | .sealResult input => do
      let transition ← RepositoryV2.sealResult faults r input
      pure { transition }
  | .publish operation => do
      let transition ← RepositoryV2.publish stops r operation
      pure { transition }

def command (faults : DurableRepositoryFaultPointV2 → Bool) (stops : PublishPointV2 → Bool)
    (entropy : EntropyV2) (r : ResultId) : WriterCallV2 → CommandV2
  | .begin created expires operation request =>
      .begin faults entropy r created expires operation request
  | .commitBatch input => .commitBatch faults r input
  | .commitData input => .commitData faults r input
  | .sealResult input => .sealResult faults r input
  | .publish operation => .publish stops r operation

theorem perform_step (faults : DurableRepositoryFaultPointV2 → Bool)
    (stops : PublishPointV2 → Bool) (entropy : EntropyV2) (r : ResultId) (s : RepositoryV2 A)
    (call : WriterCallV2) :
    (call.perform faults stops entropy r s).2 = s.step (call.command faults stops entropy r) := by
  cases call with
  | _ => exact bind_pure_snd

end WriterCallV2

namespace RepositoryV2

/-! ## Statements of a call that succeeds -/

section Statements

variable {A α β : Type} {Q : β → RepositoryV2 A → Prop} {s : RepositoryV2 A} {r : ResultId}

theorem ensures_lockIn {directory : Option ResultDirectoryV2}
    {f : ResultDirectoryV2 → RepositoryM A β}
    (h : ∀ d, directory = some d → d.resultLock = true → Ensures Q (f d) s) :
    Ensures Q (lockIn directory >>= f) s := by
  cases directory with
  | none => exact ensures_fail
  | some d =>
      unfold lockIn
      dsimp only
      split
      · rename_i hlock
        exact h d rfl hlock
      · exact ensures_fail

theorem ensures_installFinal {d : ResultDirectoryV2} {f : Unit → RepositoryM A β}
    (h : Ensures Q (f ()) { s with
      staging := s.staging.erase r, finals := s.finals.insert r d }) :
    Ensures Q (installFinal r d >>= f) s := by
  refine ensures_bind (ensures_read (ensures_require fun _ => ?_))
  intro _ s' hrun
  cases hrun
  exact h

theorem ensures_authorityCall {call : A → Except KeyAuthorityErrorV2 (A × β)}
    (h : ∀ authority output, call s.authority = .ok (authority, output) →
      Q output { s with authority }) : Ensures Q (authorityCall call) s := by
  intro b s' hrun
  unfold authorityCall ofAuthority at hrun
  cases hcall : call s.authority with
  | error e => rw [hcall] at hrun; cases hrun
  | ok pair => rw [hcall] at hrun; cases hrun; exact h pair.1 pair.2 hcall

theorem ensures_authorityCall_bind {call : A → Except KeyAuthorityErrorV2 (A × α)}
    {f : α → RepositoryM A β}
    (h : ∀ authority output, call s.authority = .ok (authority, output) →
      Ensures Q (f output) { s with authority }) : Ensures Q (authorityCall call >>= f) s :=
  ensures_bind (ensures_authorityCall h)

theorem storageOf_insert {authority : A} {d : ResultDirectoryV2}
    {staging finals quarantinedStaging quarantinedFinals : ExtTreeMap ResultId ResultDirectoryV2} :
    storageOf (⟨authority, staging.insert r d, finals, quarantinedStaging, quarantinedFinals⟩ :
      RepositoryV2 A) r = some d :=
  storageOf_of_staging (by simp)

variable [KeyAuthorityV2 A]

theorem ensures_snapshotOf {f : ResultAuthorityRecordV2 → RepositoryM A β}
    (h : ∀ record, snapshot s.authority r = .ok record → Ensures Q (f record) s) :
    Ensures Q (snapshotOf r >>= f) s := by
  refine ensures_bind fun record s' hrun => ?_
  obtain ⟨hrecord, rfl⟩ := Prod.mk.inj hrun
  exact h record (mapError_eq_ok.mp hrecord)

theorem ensures_keyOf {f : ResultDekV1 → RepositoryM A β}
    (h : ∀ key, resultKey s.authority r = .ok key → Ensures Q (f key) s) :
    Ensures Q (keyOf r >>= f) s := by
  refine ensures_bind fun key s' hrun => ?_
  obtain ⟨hkey, rfl⟩ := Prod.mk.inj hrun
  exact h key (mapError_eq_ok.mp hkey)

end Statements

/-! ## Calls that have been applied -/

theorem eq_published_of_rank {state : ResultLifecycleStateV1} (h : 3 ≤ state.rank) :
    state = .published := by
  cases state with
  | published => rfl
  | opened => exact absurd h (by decide)
  | dataCommitted => exact absurd h (by decide)
  | «sealed» => exact absurd h (by decide)

theorem matchesBegin_of_withoutNonces {record record' : ResultAuthorityRecordV2}
    {created expires : Int} {operation : OperationIdV1} {digest : LifecycleDigestV1}
    (hsame : record'.withoutNonces = record.withoutNonces)
    (h : record.matchesBegin created expires operation digest = true) :
    record'.matchesBegin created expires operation digest = true := by
  obtain ⟨hcreated, hexpires, hoperation, hdigest⟩ :=
    (ResultAuthorityRecordV2.advances_of_withoutNonces hsame).begun
  rw [← h]
  unfold ResultAuthorityRecordV2.matchesBegin
  rw [hcreated, hexpires, hoperation, hdigest]

section Applied

variable [Sha256]

/-- The data manifest was made for this input. -/
def ManifestOf (input : DataCommitInputV2) (manifest : DataManifestV2) : Prop :=
  manifest.questionConfiguration = input.questionConfiguration ∧
    manifest.acquisitionReceipt = input.acquisitionReceipt ∧
    manifest.transformationReceipts = input.transformationReceipts ∧
    manifest.fetchCompletion = input.fetchCompletion ∧
    manifest.sourceIdentity = input.sourceIdentity ∧
    manifest.buildContext = input.buildContext.aggregate

/-- The batch file that a batch is taken for. -/
structure SameBatch (input batch : BatchCommitInputV2) : Prop where
  ordinal : batch.ordinal = input.ordinal
  operation : batch.operation = input.operation
  digest : digestBatch batch = digestBatch input
  length : batch.events.length = input.events.length

variable [SnapshotFormatV2]

/-- The record and the directory of a result to which the call has been
applied, with these acknowledgements. -/
def AppliedAs (r : ResultId) (acknowledgements : List DurableEventAcknowledgementV2)
    (record : ResultAuthorityRecordV2) (key : ResultDekV1) (d : ResultDirectoryV2) :
    WriterCallV2 → Prop
  | .begin created expires operation request =>
      acknowledgements = [] ∧ request.length ≤ maxFramePlaintextBytes ∧
        operation.isZero = false ∧
        record.matchesBegin created expires operation
          (digestBegin r created expires request) = true ∧
        d.request = some ⟨r, key, request⟩
  | .commitBatch input => input.ordinal + 1 < u64Bound ∧ ∃ batch,
      d.batches[input.ordinal]? = some ⟨r, key, batch⟩ ∧ SameBatch input batch ∧
        (∀ event ∈ batch.events, event.decodes = true) ∧
        acknowledgements = acknowledgementsOf batch
  | .commitData input => acknowledgements = [] ∧ input.operation.isZero = false ∧
      1 ≤ record.state.rank ∧ record.dataOperation = input.operation ∧
      record.buildContext = input.buildContext.aggregate ∧ ∃ data,
        d.dataCommit = some ⟨r, key, data⟩ ∧ ManifestOf input data.manifest ∧
          record.dataDigest = data.manifest.digest
  | .sealResult input => acknowledgements = [] ∧ input.operation.isZero = false ∧
      input.products.all (·.length ≤ maxFramePlaintextBytes) = true ∧
      2 ≤ record.state.rank ∧ record.sealOperation = input.operation ∧ ∃ sealed,
        d.sealedProducts = some ⟨r, key, sealed⟩ ∧
          sealed.manifest.productDigests = SealInputV2.productDigests input ∧
          record.sealCommitments = sealCommitmentsOf sealed
  | .publish operation => acknowledgements = [] ∧ operation.isZero = false ∧
      record.state = .published ∧ record.publishOperation = operation

/-- What has been applied stays applied as the result grows. -/
theorem AppliedAs.grows {r : ResultId} {acknowledgements : List DurableEventAcknowledgementV2}
    {record record' : ResultAuthorityRecordV2} {key : ResultDekV1} {d d' : ResultDirectoryV2}
    {call : WriterCallV2} (h : AppliedAs r acknowledgements record key d call)
    (hrecord : record.Advances record') (hd : d.Extends d') :
    AppliedAs r acknowledgements record' key d' call := by
  cases call with
  | begin created expires operation request =>
      obtain ⟨hnone, hlength, hoperation, hmatches, hrequest⟩ := h
      refine ⟨hnone, hlength, hoperation, ?_, hd.request _ hrequest⟩
      obtain ⟨hcreated, hexpires, hbegin, hdigest⟩ := hrecord.begun
      rw [← hmatches]
      unfold ResultAuthorityRecordV2.matchesBegin
      rw [hcreated, hexpires, hbegin, hdigest]
  | commitBatch input =>
      obtain ⟨hordinal, batch, hbatch, hrest⟩ := h
      obtain ⟨later, hlater⟩ := hd.batches
      refine ⟨hordinal, batch, ?_, hrest⟩
      rw [← hlater, List.getElem?_append_left (List.getElem?_eq_some_iff.mp hbatch).1]
      exact hbatch
  | commitData input =>
      obtain ⟨hnone, hoperation, hrank, hdata, hcontext, data, hfile, hmanifest, hdigest⟩ := h
      obtain ⟨hdata', hdigest', hcontext'⟩ := hrecord.data hrank
      exact ⟨hnone, hoperation, hrank.trans hrecord.rank, hdata'.trans hdata,
        hcontext'.trans hcontext, data, hd.dataCommit _ hfile, hmanifest, hdigest'.trans hdigest⟩
  | sealResult input =>
      obtain ⟨hnone, hoperation, hsizes, hrank, hseal, sealed, hfile, hproducts, hcommitments⟩ := h
      obtain ⟨hseal', hcommitments'⟩ := hrecord.sealed hrank
      exact ⟨hnone, hoperation, hsizes, hrank.trans hrecord.rank, hseal'.trans hseal, sealed,
        hd.sealedProducts _ hfile, hproducts, hcommitments'.trans hcommitments⟩
  | publish operation =>
      obtain ⟨hnone, hoperation, hstate, hpublish⟩ := h
      have hrank : 3 ≤ record.state.rank := by rw [hstate]; decide
      exact ⟨hnone, hoperation, eq_published_of_rank (hrank.trans hrecord.rank),
        (hrecord.published hrank).1.trans hpublish⟩

end Applied

/-! ## Successes -/

section Successes

variable {A : Type} [KeyAuthorityV2 A] [Sha256] [LawfulKeyAuthorityV2 A] {r : ResultId}
  {s : RepositoryV2 A}

theorem key_of_stored {record : ResultAuthorityRecordV2} {key key' : ResultDekV1}
    (hs : Sound s.authority) (hstored : stored s.authority r = some (record, key))
    (h : resultKey s.authority r = .ok key') : key' = key := by
  rw [resultKey_eq hs, hstored] at h
  cases h
  rfl

theorem stored_of_snapshot {record : ResultAuthorityRecordV2} (hs : Sound s.authority)
    (h : snapshot s.authority r = .ok record) :
    ∃ key, stored s.authority r = some (record, key) := by
  rw [snapshot_eq hs] at h
  obtain ⟨⟨record', key⟩, hstored, rfl⟩ := Option.map_eq_some_iff.mp (okOr_eq_ok.mp h)
  exact ⟨key, hstored⟩

/-- The nonce reservation of this operation was completed last. -/
def Completed (r : ResultId) (operation : OperationIdV1) (digest : LifecycleDigestV1)
    (authority : A) : Prop :=
  ∃ before transition, Sound before ∧
    completeNonceReservation before r operation digest = .ok (authority, transition)

theorem Completed.not_pending {operation : OperationIdV1} {digest : LifecycleDigestV1}
    {authority : A} (h : Completed r operation digest authority)
    {record : ResultAuthorityRecordV2} {key : ResultDekV1}
    (hstored : stored authority r = some (record, key)) :
    record.hasPendingNonceReservation = false := by
  obtain ⟨before, transition, hs, hcall⟩ := h
  obtain ⟨_, _, record', _, _, hpending, hstep⟩ := completeNonceReservation_ok hs hcall
  rw [hstep.stored_eq, Function.update_self] at hstored
  cases hstored
  exact hpending

/-- A completed reservation of a result with a known record. -/
theorem completed_stored {record : ResultAuthorityRecordV2} {key : ResultDekV1}
    {operation : OperationIdV1} {digest : LifecycleDigestV1} {authority : A}
    {transition : LifecycleTransitionV1} (hs : Sound s.authority)
    (hstored : stored s.authority r = some (record, key))
    (h : completeNonceReservation s.authority r operation digest = .ok (authority, transition)) :
    Sound authority ∧ Completed r operation digest authority ∧ ∃ record',
      stored authority r = some (record', key) ∧
        record'.withoutNonces = record.withoutNonces := by
  obtain ⟨_, _, record', hbefore, hsame, _, hstep⟩ := completeNonceReservation_ok hs h
  cases hbefore.symm.trans hstored
  exact ⟨hstep.sound, ⟨_, _, hs, h⟩, record', by rw [hstep.stored_eq, Function.update_self], hsame⟩

theorem reserved_stored {record : ResultAuthorityRecordV2} {key : ResultDekV1}
    {operation : OperationIdV1} {digest : LifecycleDigestV1} {count : Nat} {authority : A}
    {reservation : NonceReservationV1} (hs : Sound s.authority)
    (hstored : stored s.authority r = some (record, key))
    (h : reserveNonceRange s.authority r operation digest count = .ok (authority, reservation)) :
    Sound authority ∧ ∃ record', stored authority r = some (record', key) ∧
      record'.withoutNonces = record.withoutNonces := by
  obtain ⟨_, _, record', hbefore, hsame, hstep⟩ := reserveNonceRange_ok hs h
  cases hbefore.symm.trans hstored
  exact ⟨hstep.sound, record', by rw [hstep.stored_eq, Function.update_self], hsame⟩

theorem commitData_stored {record : ResultAuthorityRecordV2} {key : ResultDekV1}
    {operation : OperationIdV1} {digest : LifecycleDigestV1}
    {buildContext : BuildContextDigestsV1} {authority : A} {transition : LifecycleTransitionV1}
    (hs : Sound s.authority) (hstored : stored s.authority r = some (record, key))
    (h : KeyAuthorityV2.commitData s.authority r operation digest buildContext =
      .ok (authority, transition)) :
    ∃ record', stored authority r = some (record', key) ∧
      record.commitData operation digest buildContext = .ok (record', transition) := by
  obtain ⟨_, _, record', hbefore, hcommit, hstep⟩ := commitData_ok hs h
  cases hbefore.symm.trans hstored
  exact ⟨record', by rw [hstep.stored_eq, Function.update_self], hcommit⟩

theorem sealed_stored {record : ResultAuthorityRecordV2} {key : ResultDekV1}
    {operation : OperationIdV1} {commitments : SealCommitmentsV1} {authority : A}
    {transition : LifecycleTransitionV1}
    (hs : Sound s.authority) (hstored : stored s.authority r = some (record, key))
    (h : KeyAuthorityV2.sealResult s.authority r operation commitments =
      .ok (authority, transition)) :
    ∃ record', stored authority r = some (record', key) ∧
      record.seal operation commitments = .ok (record', transition) := by
  obtain ⟨_, _, record', hbefore, hseal, hstep⟩ := sealResult_ok hs h
  cases hbefore.symm.trans hstored
  exact ⟨record', by rw [hstep.stored_eq, Function.update_self], hseal⟩

theorem published_stored {record : ResultAuthorityRecordV2} {key : ResultDekV1}
    {operation : OperationIdV1} {generation : Nat} {digest : LifecycleDigestV1} {authority : A}
    {transition : LifecycleTransitionV1}
    (hs : Sound s.authority) (hstored : stored s.authority r = some (record, key))
    (h : KeyAuthorityV2.publish s.authority r operation generation digest =
      .ok (authority, transition)) :
    ∃ record', stored authority r = some (record', key) ∧
      record.publish operation generation digest = .ok (record', transition) := by
  obtain ⟨_, _, record', hbefore, hpublish, hstep⟩ := publish_ok hs h
  cases hbefore.symm.trans hstored
  exact ⟨record', by rw [hstep.stored_eq, Function.update_self], hpublish⟩

variable [SnapshotFormatV2]

/-- The nonce operation under which a call writes an open directory, if it
completes one on every retry. -/
def nonceOf (r : ResultId) : WriterCallV2 → Option (OperationIdV1 × LifecycleDigestV1)
  | .begin created expires operation request =>
      some (derivedOperation operation 0x01, digestBegin r created expires request)
  | .commitBatch input => some (input.operation, digestBatch input)
  | _ => none

/-- Only an open result takes batches. -/
def OpenFor (record : ResultAuthorityRecordV2) : WriterCallV2 → Prop
  | .commitBatch _ => record.state = .opened
  | _ => True

/-- What a success of the call means for the state it leaves. -/
def Succeeded (r : ResultId) (call : WriterCallV2)
    (acknowledgements : List DurableEventAcknowledgementV2) (s : RepositoryV2 A) : Prop :=
  (∃ record key d, Holds r record key d s ∧ OpenFor record call ∧
      AppliedAs r acknowledgements record key d call) ∧
    ∀ operation digest, nonceOf r call = some (operation, digest) →
      Completed r operation digest s.authority

theorem writeRequest_succeeded {faults : DurableRepositoryFaultPointV2 → Bool}
    {created expires : Int} {operation : OperationIdV1} {request : List UInt8}
    {d : ResultDirectoryV2} {transition : LifecycleTransitionV1}
    {record : ResultAuthorityRecordV2} {key : ResultDekV1} (hs : Sound s.authority)
    (hlength : request.length ≤ maxFramePlaintextBytes) (hoperation : operation.isZero = false)
    (hstored : stored s.authority r = some (record, key))
    (hmatches : record.matchesBegin created expires operation
      (digestBegin r created expires request) = true) :
    Ensures (fun _ => Succeeded r (.begin created expires operation request) [])
      (begin.writeRequest faults r request d (digestBegin r created expires request)
        (derivedOperation operation 0x01) transition) s := by
  unfold begin.writeRequest
  refine ensures_authorityCall_bind fun authority _ hreserve => ?_
  obtain ⟨hsound, record₁, hstored₁, hsame₁⟩ := reserved_stored hs hstored hreserve
  refine ensures_keyOf fun key' hkey => ?_
  cases key_of_stored hsound hstored₁ hkey
  refine ensures_update ?_
  refine ensures_authorityCall_bind fun authority' _ hcomplete => ?_
  obtain ⟨_, hcompleted, record₂, hstored₂, hsame₂⟩ := completed_stored hsound hstored₁ hcomplete
  refine ensures_require fun _ => ensures_pure ⟨⟨record₂, key, _, ⟨hstored₂, storageOf_insert⟩,
    trivial, rfl, hlength, hoperation, ?_, rfl⟩, fun _ _ h => by cases h; exact hcompleted⟩
  exact matchesBegin_of_withoutNonces (hsame₂.trans hsame₁) hmatches

theorem begin_succeeded [AccountableV2 A] (faults : DurableRepositoryFaultPointV2 → Bool)
    (entropy : EntropyV2) {created expires : Int} {operation : OperationIdV1}
    {request : List UInt8} (hs : Sound s.authority) :
    Ensures (fun _ => Succeeded r (.begin created expires operation request) [])
      (RepositoryV2.begin faults entropy r created expires operation request) s := by
  unfold RepositoryV2.begin
  refine ensures_require fun hvalid => ?_
  simp only [Bool.and_eq_true, decide_eq_true_eq, Bool.not_eq_true'] at hvalid
  obtain ⟨hlength, hoperation⟩ := hvalid
  refine ensures_authorityCall_bind fun authority output hbegin => ?_
  obtain ⟨record, transition⟩ := output
  have hmatches : record.matchesBegin created expires operation
      (digestBegin r created expires request) = true := by
    rcases AccountableV2.begin_ok hbegin with ⟨_, _, _, _, _, h⟩ | ⟨_, _, _, _, h, _⟩
    · exact h
    · exact ResultAuthorityRecordV2.newOpen_matches h
  obtain ⟨key, hsound, hstored⟩ : ∃ key, Sound authority ∧
      stored authority r = some (record, key) := by
    rcases LawfulKeyAuthorityV2.begin_ok hs hbegin with ⟨key, h, rfl, _⟩ | ⟨key, _, _, _, hstep⟩
    · exact ⟨key, hs, h⟩
    · exact ⟨key, hstep.sound, by rw [hstep.stored_eq, Function.update_self]⟩
  refine ensures_require fun _ => ?_
  refine ensures_read ?_
  dsimp only
  split
  · refine ensures_require fun _ => ?_
    refine ensures_update ?_
    split
    · rename_i segment hsegment
      refine ensures_keyOf fun key' hkey => ?_
      cases key_of_stored hsound hstored hkey
      refine ensures_lift fun stored hopened => ?_
      refine ensures_require fun hsame => ?_
      refine ensures_authorityCall_bind fun authority' _ hcomplete => ?_
      obtain ⟨_, hcompleted, record', hstored', hsame'⟩ :=
        completed_stored hsound hstored hcomplete
      refine ensures_pure ⟨⟨record', key, _, ⟨hstored', storageOf_insert⟩, trivial, rfl,
        hlength, hoperation, matchesBegin_of_withoutNonces hsame' hmatches, ?_⟩,
        fun _ _ h => by cases h; exact hcompleted⟩
      rw [hsegment, SegmentV2.opened_ok hopened, of_decide_eq_true hsame]
    · exact writeRequest_succeeded hsound hlength hoperation hstored hmatches
  · refine ensures_update ?_
    exact writeRequest_succeeded hsound hlength hoperation hstored hmatches

/-- A batch that was written now was not read back. -/
theorem commitBatch_succeeded (faults : DurableRepositoryFaultPointV2 → Bool)
    {input : BatchCommitInputV2} (hs : Sound s.authority) :
    Ensures (fun commit s' => Completed r input.operation (digestBatch input) s'.authority ∧
        ((∀ event ∈ input.events, event.decodes = true) →
          Succeeded r (.commitBatch input) commit.acknowledgements s'))
      (RepositoryV2.commitBatch faults r input) s := by
  unfold RepositoryV2.commitBatch
  refine ensures_read ?_
  refine ensures_lockIn fun d hstaging _ => ?_
  refine ensures_snapshotOf fun record hrecord => ?_
  obtain ⟨key, hstored⟩ := stored_of_snapshot hs hrecord
  refine ensures_require fun hopen => ?_
  refine ensures_lift fun next hnext => ?_
  have hordinal := (checkedAdd_eq_some.mp (okOr_eq_ok.mp hnext)).1
  split
  · rename_i segment hsegment
    refine ensures_authorityCall_bind fun authority _ hcomplete => ?_
    obtain ⟨hsound, hcompleted, record', hstored', hsame'⟩ := completed_stored hs hstored hcomplete
    have hstate' := (ResultAuthorityRecordV2.state_of_withoutNonces hsame').trans
      (of_decide_eq_true hopen)
    refine ensures_keyOf fun key' hkey => ?_
    cases key_of_stored hsound hstored' hkey
    refine ensures_lift fun batch hopened => ?_
    refine ensures_require fun hsame => ?_
    simp only [Bool.and_eq_true, decide_eq_true_eq] at hsame
    obtain ⟨⟨⟨hsame₁, hsame₂⟩, hsame₃⟩, hsame₄⟩ := hsame
    refine ensures_lift fun _ hevents => ensures_pure ⟨hcompleted, fun _ => ⟨⟨record', key, d,
      ⟨hstored', storageOf_of_staging hstaging⟩, hstate', hordinal, batch, ?_,
      ⟨hsame₁, hsame₂, hsame₃, hsame₄⟩, ?_, rfl⟩, fun _ _ h => by cases h; exact hcompleted⟩⟩
    · rw [hsegment, SegmentV2.opened_ok hopened]
    · intro event hevent
      have hchecked := forM_eq_ok.mp hevents event hevent
      by_contra hnot
      rw [if_neg hnot] at hchecked
      cases hchecked
  · refine ensures_require fun hnext => ?_
    refine ensures_lift fun chained _ => ?_
    refine ensures_authorityCall_bind fun authority _ hreserve => ?_
    obtain ⟨hsound, record₁, hstored₁, hsame₁⟩ := reserved_stored hs hstored hreserve
    refine ensures_require fun _ => ?_
    refine ensures_keyOf fun key' hkey => ?_
    cases key_of_stored hsound hstored₁ hkey
    refine ensures_require fun _ => ?_
    refine ensures_update ?_
    refine ensures_authorityCall_bind fun authority' _ hcomplete => ?_
    obtain ⟨_, hcompleted, record₂, hstored₂, hsame₂⟩ := completed_stored hsound hstored₁ hcomplete
    have hstate₂ := (ResultAuthorityRecordV2.state_of_withoutNonces (hsame₂.trans hsame₁)).trans
      (of_decide_eq_true hopen)
    refine ensures_require fun _ => ensures_pure ⟨hcompleted, fun hdecodes => ⟨⟨record₂, key, _,
      ⟨hstored₂, storageOf_insert⟩, hstate₂, hordinal, input, ?_, ⟨rfl, rfl, rfl, rfl⟩, hdecodes,
      rfl⟩, fun _ _ h => by cases h; exact hcompleted⟩⟩
    rw [of_decide_eq_true hnext]
    simp

/-- The record has no nonces pending, or none that it did not have before. -/
def NothingPends (r : ResultId) (s s' : RepositoryV2 A) : Prop :=
  ∀ record key, stored s'.authority r = some (record, key) →
    record.hasPendingNonceReservation = false ∨ stored s.authority r = some (record, key)

theorem manifestOf_dataCommitOf {d : ResultDirectoryV2} {key : ResultDekV1}
    {input : DataCommitInputV2} {index : List AuthenticatedEventIndexEntryV2}
    {manifest : DataManifestV2} (h : dataCommitOf d r key input = .ok (index, manifest)) :
    ManifestOf input manifest := by
  obtain ⟨⟨request, batches, entries⟩, _, h⟩ := except_bind_eq_ok.mp h
  dsimp only at h
  split at h
  · cases h
  · cases h
    exact ⟨rfl, rfl, rfl, rfl, rfl, rfl⟩

/-- The last call of a commit, of a record that is still open or that was
committed before. -/
theorem commitData_ends {t : RepositoryV2 A} {input : DataCommitInputV2}
    {record : ResultAuthorityRecordV2} {key : ResultDekV1} {d : ResultDirectoryV2}
    (data : DataCommitV2) (hs : Sound t.authority)
    (hstored : stored t.authority r = some (record, key)) (hstorage : t.storageOf r = some d)
    (hfile : d.dataCommit = some ⟨r, key, data⟩) (hmanifest : ManifestOf input data.manifest)
    (hbefore : record.state = .opened ∨ stored s.authority r = some (record, key)) :
    Ensures (fun _ s' => Succeeded r (.commitData input) [] s' ∧ NothingPends r s s')
      (authorityCall (KeyAuthorityV2.commitData · r input.operation data.manifest.digest
        input.buildContext)) t := by
  refine ensures_authorityCall fun authority _ hcall => ?_
  obtain ⟨record', hstored', hcommit⟩ := commitData_stored hs hstored hcall
  obtain ⟨hoperation, hrank, hdata, hdigest, hcontext⟩ :=
    ResultAuthorityRecordV2.commitData_fields hcommit
  refine ⟨⟨⟨record', key, d, ⟨hstored', hstorage⟩, trivial, rfl, hoperation, hrank, hdata, hcontext,
    data, hfile, hmanifest, hdigest⟩, fun _ _ h => by cases h⟩, fun record₂ key₂ hstored₂ => ?_⟩
  cases hstored₂.symm.trans hstored'
  rcases (ResultAuthorityRecordV2.commitData_ok hcommit).2 with ⟨hrank, rfl⟩ | ⟨_, hfree, rfl⟩
  · rcases hbefore with hopen | hbefore
    · rw [hopen] at hrank
      exact absurd hrank (by decide)
    · exact .inr hbefore
  · exact .inl hfree

theorem commitData_succeeded (faults : DurableRepositoryFaultPointV2 → Bool)
    {input : DataCommitInputV2} (hs : Sound s.authority) :
    Ensures (fun _ s' => Succeeded r (.commitData input) [] s' ∧ NothingPends r s s')
      (RepositoryV2.commitData faults r input) s := by
  unfold RepositoryV2.commitData
  refine ensures_require fun _ => ?_
  refine ensures_read ?_
  refine ensures_lockIn fun storage hstorage _ => ?_
  refine ensures_snapshotOf fun record hrecord => ?_
  obtain ⟨key, hstored⟩ := stored_of_snapshot hs hrecord
  split
  · refine ensures_keyOf fun key' hkey => ?_
    cases key_of_stored hs hstored hkey
    refine ensures_lift fun existing hexisting => ?_
    obtain ⟨data, hdata, rfl⟩ := except_map_eq_ok.mp hexisting
    refine ensures_require fun hsame => ?_
    simp only [Bool.and_eq_true, decide_eq_true_eq, and_assoc] at hsame
    exact commitData_ends data hs hstored hstorage (openFile_ok hdata) hsame (.inr hstored)
  · rename_i hrank
    have hopen : record.state = .opened := by
      cases hstate : record.state with
      | opened => rfl
      | _ => rw [hstate] at hrank; exact absurd (by decide) hrank
    split
    · exact ensures_fail
    · rename_i d hstaging
      refine ensures_keyOf fun key' hkey => ?_
      cases key_of_stored hs hstored hkey
      refine ensures_lift fun pair hpair => ?_
      obtain ⟨index, manifest⟩ := pair
      have hmanifest := manifestOf_dataCommitOf hpair
      dsimp only
      split
      · rename_i segment hsegment
        refine ensures_lift fun existing hopened => ?_
        refine ensures_require fun hsame => ?_
        refine ensures_authorityCall_bind fun authority _ hcomplete => ?_
        obtain ⟨hsound, _, record', hstored', hsame'⟩ := completed_stored hs hstored hcomplete
        have hstate := ResultAuthorityRecordV2.state_of_withoutNonces hsame'
        have hexisting := of_decide_eq_true hsame
        rw [← hexisting] at hmanifest ⊢
        refine commitData_ends existing hsound hstored' (storageOf_of_staging hstaging) ?_ hmanifest
          (.inl (hstate.trans hopen))
        rw [hsegment, SegmentV2.opened_ok hopened]
      · refine ensures_lift fun segmentOrdinal _ => ?_
        refine ensures_authorityCall_bind fun authority _ hreserve => ?_
        obtain ⟨hsound, record₁, hstored₁, hsame₁⟩ := reserved_stored hs hstored hreserve
        refine ensures_update ?_
        refine ensures_authorityCall_bind fun authority' _ hcomplete => ?_
        obtain ⟨hsound₂, _, record₂, hstored₂, hsame₂⟩ :=
          completed_stored hsound hstored₁ hcomplete
        have hstate := ResultAuthorityRecordV2.state_of_withoutNonces (hsame₂.trans hsame₁)
        refine ensures_require fun _ => ?_
        exact commitData_ends ⟨segmentOrdinal, index, manifest⟩ hsound₂ hstored₂ storageOf_insert
          rfl hmanifest (.inl (hstate.trans hopen))

/-- The last call of sealing. -/
theorem sealResult_ends {input : SealInputV2} {record : ResultAuthorityRecordV2}
    {key : ResultDekV1} {d : ResultDirectoryV2} {sealed : SealedProductsV2}
    (hs : Sound s.authority) (hstored : stored s.authority r = some (record, key))
    (hstorage : s.storageOf r = some d) (hfile : d.sealedProducts = some ⟨r, key, sealed⟩)
    (hsizes : input.products.all (·.length ≤ maxFramePlaintextBytes) = true)
    (hproducts : sealed.manifest.productDigests = SealInputV2.productDigests input) :
    Ensures (fun _ => Succeeded r (.sealResult input) [])
      (authorityCall (KeyAuthorityV2.sealResult · r input.operation
        (sealCommitmentsOf sealed))) s := by
  refine ensures_authorityCall fun authority _ hcall => ?_
  obtain ⟨record', hstored', hseal⟩ := sealed_stored hs hstored hcall
  obtain ⟨hoperation, hrank, hsealed, hcommitments⟩ := ResultAuthorityRecordV2.seal_fields hseal
  exact ⟨⟨record', key, d, ⟨hstored', hstorage⟩, trivial, rfl, hoperation, hsizes, hrank, hsealed,
    sealed, hfile, hproducts, hcommitments⟩, fun _ _ h => by cases h⟩

theorem sealResult_succeeded (faults : DurableRepositoryFaultPointV2 → Bool)
    {input : SealInputV2} (hs : Sound s.authority) :
    Ensures (fun _ => Succeeded r (.sealResult input) [])
      (RepositoryV2.sealResult faults r input) s := by
  unfold RepositoryV2.sealResult
  refine ensures_require fun _ => ?_
  refine ensures_read ?_
  refine ensures_lockIn fun storage hstorage _ => ?_
  refine ensures_snapshotOf fun record hrecord => ?_
  obtain ⟨key, hstored⟩ := stored_of_snapshot hs hrecord
  refine ensures_require fun hsizes => ?_
  split
  · refine ensures_keyOf fun key' hkey => ?_
    cases key_of_stored hs hstored hkey
    refine ensures_lift fun sealed hopened => ?_
    refine ensures_require fun hsame => ?_
    exact sealResult_ends hs hstored hstorage (openFile_ok hopened) hsizes
      (of_decide_eq_true hsame)
  · refine ensures_require fun _ => ?_
    split
    · exact ensures_fail
    · rename_i d hstaging
      refine ensures_keyOf fun key' hkey => ?_
      cases key_of_stored hs hstored hkey
      refine ensures_lift fun data _ => ?_
      split
      · rename_i segment hsegment
        refine ensures_lift fun existing hopened => ?_
        refine ensures_require fun hsame => ?_
        refine ensures_authorityCall_bind fun authority _ hcomplete => ?_
        obtain ⟨hsound, _, record', hstored', _⟩ := completed_stored hs hstored hcomplete
        refine sealResult_ends hsound hstored' (storageOf_of_staging hstaging) ?_ hsizes ?_
        · rw [hsegment, SegmentV2.opened_ok hopened]
        · rw [of_decide_eq_true hsame]
          rfl
      · refine ensures_lift fun segmentOrdinal _ => ?_
        refine ensures_authorityCall_bind fun authority _ hreserve => ?_
        obtain ⟨hsound, record₁, hstored₁, _⟩ := reserved_stored hs hstored hreserve
        refine ensures_update ?_
        refine ensures_authorityCall_bind fun authority' _ hcomplete => ?_
        obtain ⟨hsound₂, _, record₂, hstored₂, _⟩ := completed_stored hsound hstored₁ hcomplete
        refine ensures_require fun _ => ?_
        exact sealResult_ends hsound₂ hstored₂ storageOf_insert rfl hsizes rfl

/-- The last call of a publication. -/
theorem publish_ends {operation : OperationIdV1} {generation : Nat} {digest : LifecycleDigestV1}
    {record : ResultAuthorityRecordV2} {key : ResultDekV1} {d : ResultDirectoryV2}
    (hs : Sound s.authority) (hstored : stored s.authority r = some (record, key))
    (hstorage : s.storageOf r = some d) :
    Ensures (fun _ => Succeeded r (.publish operation) [])
      (authorityCall (KeyAuthorityV2.publish · r operation generation digest)) s := by
  refine ensures_authorityCall fun authority _ hcall => ?_
  obtain ⟨record', hstored', hpublish⟩ := published_stored hs hstored hcall
  obtain ⟨hoperation, hstate, hpublished, _⟩ := ResultAuthorityRecordV2.publish_fields hpublish
  exact ⟨⟨record', key, d, ⟨hstored', hstorage⟩, trivial, rfl, hoperation, hstate, hpublished⟩,
    fun _ _ h => by cases h⟩

theorem publish_succeeded (stops : PublishPointV2 → Bool) {operation : OperationIdV1}
    (hs : Sound s.authority) (hadmitted : AllAdmitted s) :
    Ensures (fun _ => Succeeded r (.publish operation) [])
      (RepositoryV2.publish stops r operation) s := by
  unfold RepositoryV2.publish
  refine ensures_require fun _ => ?_
  refine ensures_read ?_
  refine ensures_lockIn fun storage hstorage _ => ?_
  refine ensures_snapshotOf fun record hrecord => ?_
  obtain ⟨key, hstored⟩ := stored_of_snapshot hs hrecord
  split
  · refine ensures_lift fun _ _ => ?_
    exact publish_ends hs hstored hstorage
  · refine ensures_require fun hsealed => ?_
    refine ensures_keyOf fun key' _ => ?_
    refine ensures_lift fun finalManifest _ => ?_
    refine ensures_require fun _ => ?_
    refine ensures_require fun _ => ?_
    refine ensures_authorityCall_bind fun authority generation hreserve => ?_
    obtain ⟨hsound, hsame, _⟩ := reserveGeneration_ok hs
      (fun record' key' h => by cases h.symm.trans hstored; rfl)
      (hadmitted r record key hstored (of_decide_eq_true hsealed)) hreserve
    rw [← hsame] at hstored
    refine ensures_require fun _ => ?_
    split
    · refine ensures_lift fun d _ => ?_
      refine ensures_update ?_
      refine ensures_require fun _ => ?_
      refine ensures_installFinal ?_
      refine ensures_require fun _ => ?_
      exact publish_ends (d := d) hsound hstored (by simp [storageOf])
    · refine ensures_lift fun _ _ => ?_
      refine ensures_require fun _ => ?_
      exact publish_ends hsound hstored hstorage

/-- The events of a batch can be read back. -/
def Decodes : WriterCallV2 → Prop
  | .commitBatch input => ∀ event ∈ input.events, event.decodes = true
  | _ => True

/-- Every success leaves the call applied. -/
theorem perform_succeeded [AccountableV2 A] (faults : DurableRepositoryFaultPointV2 → Bool)
    (stops : PublishPointV2 → Bool) (entropy : EntropyV2) (call : WriterCallV2)
    (hs : Sound s.authority) (hadmitted : AllAdmitted s) (hdecodes : Decodes call) :
    Ensures (fun outcome => Succeeded r call outcome.acknowledgements)
      (call.perform faults stops entropy r) s := by
  cases call with
  | begin created expires operation request =>
      exact ensures_bind fun _ _ hrun => ensures_pure (begin_succeeded faults entropy hs _ _ hrun)
  | commitBatch input =>
      exact ensures_bind fun _ _ hrun =>
        ensures_pure ((commitBatch_succeeded faults hs _ _ hrun).2 hdecodes)
  | commitData input =>
      exact ensures_bind fun _ _ hrun => ensures_pure (commitData_succeeded faults hs _ _ hrun).1
  | sealResult input =>
      exact ensures_bind fun _ _ hrun => ensures_pure (sealResult_succeeded faults hs _ _ hrun)
  | publish operation =>
      exact ensures_bind fun _ _ hrun =>
        ensures_pure (publish_succeeded stops hs hadmitted _ _ hrun)

end Successes

end RepositoryV2

end Evidentrail
