import Mathlib.Logic.Relation
import Evidentrail.Store.Laws
import Evidentrail.Store.Repository

/-!
# What a call can do

Every call of the repository is a chain of single effects on one result: a
change of its authority record, of its staging directory, or the move of a
directory. An effect carries what the call has checked before it, so that an
invariant of the repository needs one case for each effect, and a call that
stops half way needs none of its own.
-/

namespace Evidentrail

open Rust Std Slice Attempt KeyAuthorityV2 LawfulKeyAuthorityV2

namespace RepositoryV2

variable {A : Type}

/-! ## Statements of a call -/

section Statements

variable {R : RepositoryV2 A → Prop} {s : RepositoryV2 A} {q : ResultId} {α β : Type}

theorem leaves_authorityCall {call : A → Except KeyAuthorityErrorV2 (A × α)} (h : R s)
    (hok : ∀ authority output, call s.authority = .ok (authority, output) →
      R { s with authority }) : Leaves R (authorityCall call) s := by
  unfold Leaves authorityCall ofAuthority
  cases hcall : call s.authority with
  | error e => exact h
  | ok pair => exact hok pair.1 pair.2 hcall

theorem leaves_authorityCall_bind {call : A → Except KeyAuthorityErrorV2 (A × α)}
    {f : α → RepositoryM A β} (h : R s)
    (hok : ∀ authority output, call s.authority = .ok (authority, output) →
      Leaves R (f output) { s with authority }) : Leaves R (authorityCall call >>= f) s := by
  refine leaves_bind (fun e s' hrun => ?_) (fun a s' hrun => ?_)
  · unfold authorityCall ofAuthority at hrun
    cases hcall : call s.authority with
    | error e => rw [hcall] at hrun; cases hrun; exact h
    | ok pair => rw [hcall] at hrun; cases hrun
  · unfold authorityCall ofAuthority at hrun
    cases hcall : call s.authority with
    | error e => rw [hcall] at hrun; cases hrun
    | ok pair => rw [hcall] at hrun; cases hrun; exact hok pair.1 pair.2 hcall

theorem leaves_lockIn {directory : Option ResultDirectoryV2}
    {f : ResultDirectoryV2 → RepositoryM A β} (h : R s)
    (hok : ∀ d, directory = some d → d.resultLock = true → Leaves R (f d) s) :
    Leaves R (lockIn directory >>= f) s := by
  cases directory with
  | none => exact h
  | some d =>
      unfold lockIn
      dsimp only
      split
      · rename_i hlock
        exact hok d rfl hlock
      · exact h

theorem lockIn_ok {d : ResultDirectoryV2} (h : d.resultLock = true) :
    (lockIn (some d) : RepositoryM A ResultDirectoryV2) s = (.ok d, s) := by
  unfold lockIn
  dsimp only
  rw [if_pos h]
  rfl

theorem authorityCall_ok {call : A → Except KeyAuthorityErrorV2 (A × α)} {authority : A}
    {output : α} (h : call s.authority = .ok (authority, output)) :
    (authorityCall call : RepositoryM A α) s = (.ok output, { s with authority }) := by
  unfold authorityCall ofAuthority
  rw [h]
  rfl

section Returns

variable {R : Except DurableRepositoryErrorV2 β → RepositoryV2 A → Prop}

theorem returns_lockIn {directory : Option ResultDirectoryV2}
    {f : ResultDirectoryV2 → RepositoryM A β} (herror : R (.error .resultUnavailable) s)
    (hok : ∀ d, directory = some d → d.resultLock = true → Returns R (f d) s) :
    Returns R (lockIn directory >>= f) s := by
  cases directory with
  | none => exact herror
  | some d =>
      unfold lockIn
      dsimp only
      split
      · rename_i hlock
        exact hok d rfl hlock
      · exact herror

theorem returns_authorityCall_bind {call : A → Except KeyAuthorityErrorV2 (A × α)}
    {f : α → RepositoryM A β}
    (herror : ∀ e, call s.authority = .error e → R (.error (.ofAuthority e)) s)
    (hok : ∀ authority output, call s.authority = .ok (authority, output) →
      Returns R (f output) { s with authority }) : Returns R (authorityCall call >>= f) s := by
  unfold Returns
  rw [bind_apply, authorityCall, ofAuthority]
  cases hcall : call s.authority with
  | error e => exact herror e hcall
  | ok pair => exact hok pair.1 pair.2 hcall

end Returns

/-- Directories of `q` that were there may be gone, and nothing else changed. -/
def MovedAside (q : ResultId) (s s' : RepositoryV2 A) : Prop :=
  s'.authority = s.authority ∧
    (∀ r : ResultId, s'.staging[r]? = s.staging[r]? ∨ (r = q ∧ s'.staging[r]? = none)) ∧
    (∀ r : ResultId, s'.finals[r]? = s.finals[r]? ∨ (r = q ∧ s'.finals[r]? = none))

theorem erased_or_same (m : ExtTreeMap ResultId ResultDirectoryV2) (q r : ResultId) :
    (m.erase q)[r]? = m[r]? ∨ (r = q ∧ (m.erase q)[r]? = none) := by
  rw [getElem?_erase]
  by_cases hr : q = r
  · exact .inr ⟨hr.symm, if_pos hr⟩
  · exact .inl (if_neg hr)

theorem quarantineOwned_movedAside : Leaves (MovedAside q s) (quarantineOwned q) s := by
  have hrefl : MovedAside q s s := ⟨rfl, fun _ => .inl rfl, fun _ => .inl rfl⟩
  unfold quarantineOwned
  refine leaves_read ?_
  cases s.staging[q]? with
  | none =>
      cases s.finals[q]? with
      | none => exact hrefl
      | some d =>
          refine leaves_require hrefl fun _ => ?_
          exact ⟨rfl, fun _ => .inl rfl, erased_or_same s.finals q⟩
  | some d =>
      refine leaves_require hrefl fun _ => ?_
      refine leaves_update ?_
      have hmoved : MovedAside q s { s with
          staging := s.staging.erase q
          quarantinedStaging := s.quarantinedStaging.insert q d } :=
        ⟨rfl, erased_or_same s.staging q, fun _ => .inl rfl⟩
      cases s.finals[q]? with
      | none => exact hmoved
      | some d' =>
          refine leaves_require hmoved fun _ => ?_
          exact ⟨rfl, erased_or_same s.staging q, erased_or_same s.finals q⟩

variable [KeyAuthorityV2 A] [Sha256] [LawfulKeyAuthorityV2 A]

theorem leaves_snapshotOf {f : ResultAuthorityRecordV2 → RepositoryM A β}
    (hs : Sound s.authority) (h : R s)
    (hok : ∀ record key, stored s.authority q = some (record, key) → Leaves R (f record) s) :
    Leaves R (snapshotOf q >>= f) s := by
  refine leaves_bind (fun e s' hrun => ?_) (fun record s' hrun => ?_)
  · rw [← (Prod.mk.inj hrun).2]
    exact h
  · unfold snapshotOf ofAuthority at hrun
    rw [snapshot_eq hs, Prod.mk.injEq, mapError_eq_ok, okOr_eq_ok,
      Option.map_eq_some_iff] at hrun
    obtain ⟨⟨⟨_, key⟩, hstored, rfl⟩, rfl⟩ := hrun
    exact hok _ key hstored

theorem leaves_keyOf {record : ResultAuthorityRecordV2} {key : ResultDekV1}
    {f : ResultDekV1 → RepositoryM A β} (hs : Sound s.authority)
    (hstored : stored s.authority q = some (record, key)) (h : Leaves R (f key) s) :
    Leaves R (keyOf q >>= f) s := by
  have hrun : (keyOf q : RepositoryM A ResultDekV1) s = (.ok key, s) := by
    unfold keyOf ofAuthority
    rw [resultKey_eq hs, hstored]
    rfl
  unfold Leaves
  rw [bind_ok hrun]
  exact h

end Statements

variable [KeyAuthorityV2 A] [Sha256] [LawfulKeyAuthorityV2 A] [SnapshotFormatV2]

/-! ## Effects

`C` says for which states of the record before the effect no final directory
stands in the way of a new one, `D` that the call may destroy the result, `S`
that it may seal it. -/

/-- New values of the authority record. -/
inductive RecordEffect (C : Option ResultLifecycleStateV1 → Prop) (D S : Prop)
    (q : ResultId) (s : RepositoryV2 A) :
    Option (ResultAuthorityRecordV2 × ResultDekV1) → Prop
  | fresh {record : ResultAuthorityRecordV2} {key : ResultDekV1}
      (hstored : stored s.authority q = none) (hstate : record.state = .opened)
      (hclear : C none → s.finals[q]? = none) : RecordEffect C D S q s (some (record, key))
  | nonces {record record' : ResultAuthorityRecordV2} {key : ResultDekV1}
      {d : ResultDirectoryV2} (hstored : stored s.authority q = some (record, key))
      (hstaging : s.staging[q]? = some d)
      (hsame : record'.withoutNonces = record.withoutNonces)
      (hpending : record.state.rank < 2 ∨ d.request = none ∨
        record'.hasPendingNonceReservation = false) :
      RecordEffect C D S q s (some (record', key))
  | commitData {record record' : ResultAuthorityRecordV2} {key : ResultDekV1}
      {operation : OperationIdV1} {digest : LifecycleDigestV1}
      {buildContext : BuildContextDigestsV1} {transition : LifecycleTransitionV1}
      (hstored : stored s.authority q = some (record, key))
      (hcommit : record.commitData operation digest buildContext = .ok (record', transition))
      (hdata : record.state = .opened → ∃ d segment data input index,
        s.staging[q]? = some d ∧ d.dataCommit = some segment ∧
          segment.opened q key = .ok data ∧
          dataCommitOf d q key input = .ok (index, data.manifest)) :
      RecordEffect C D S q s (some (record', key))
  | sealResult {record record' : ResultAuthorityRecordV2} {key : ResultDekV1}
      {operation : OperationIdV1} {commitments : SealCommitmentsV1}
      {transition : LifecycleTransitionV1}
      (hstored : stored s.authority q = some (record, key))
      (hseal : record.seal operation commitments = .ok (record', transition))
      (hsealed : record.state = .dataCommitted →
        S ∧ record.hasPendingNonceReservation = false ∧ ∃ d segment sealed,
          s.staging[q]? = some d ∧ d.sealedProducts = some segment ∧
            segment.opened q key = .ok sealed ∧ commitments = sealCommitmentsOf sealed) :
      RecordEffect C D S q s (some (record', key))
  | publish {record record' : ResultAuthorityRecordV2} {key : ResultDekV1}
      {operation : OperationIdV1} {generation : Nat} {digest : LifecycleDigestV1}
      {transition : LifecycleTransitionV1}
      (hstored : stored s.authority q = some (record, key))
      (hpublish : record.publish operation generation digest = .ok (record', transition))
      (hinstalled : record.state = .sealed → s.staging[q]? = none ∧
        digest = deriveRepositoryCommitment record.sealCommitments) :
      RecordEffect C D S q s (some (record', key))
  | destroyed
      (hallowed : ∀ record key, stored s.authority q = some (record, key) →
        (record.state = .opened ∧ s.staging[q]? = none) ∨ D) : RecordEffect C D S q s none

/-- New contents of the staging directory. -/
inductive DirectoryEffect (C : Option ResultLifecycleStateV1 → Prop) (q : ResultId)
    (s : RepositoryV2 A) (record : ResultAuthorityRecordV2) (key : ResultDekV1) :
    ResultDirectoryV2 → Prop
  | make (hstaging : s.staging[q]? = none)
      (hclear : C (some record.state) → s.finals[q]? = none) :
      DirectoryEffect C q s record key { resultLock := true }
  | lock {d : ResultDirectoryV2} (hstaging : s.staging[q]? = some d) :
      DirectoryEffect C q s record key { d with resultLock := true }
  | request {d : ResultDirectoryV2} {bytes : List UInt8} (hstaging : s.staging[q]? = some d)
      (hnone : d.request = none) :
      DirectoryEffect C q s record key { d with request := some ⟨q, key, bytes⟩ }
  | batch {d : ResultDirectoryV2} {input : BatchCommitInputV2}
      (hstate : record.state = .opened) (hstaging : s.staging[q]? = some d) :
      DirectoryEffect C q s record key { d with batches := d.batches ++ [⟨q, key, input⟩] }
  | dataCommit {d : ResultDirectoryV2} {input : DataCommitInputV2} {segmentOrdinal : Nat}
      {index : List AuthenticatedEventIndexEntryV2} {manifest : DataManifestV2}
      (hstate : record.state = .opened) (hstaging : s.staging[q]? = some d)
      (hnone : d.dataCommit = none)
      (hdata : dataCommitOf d q key input = .ok (index, manifest)) :
      DirectoryEffect C q s record key
        { d with dataCommit := some ⟨q, key, segmentOrdinal, index, manifest⟩ }
  | sealedProducts {d : ResultDirectoryV2} {data : DataManifestV2} {segmentOrdinal : Nat}
      {products : List (List UInt8)} {digests : List LifecycleDigestV1}
      (hstate : record.state = .dataCommitted) (hstaging : s.staging[q]? = some d)
      (hnone : d.sealedProducts = none) (hdata : d.readDataManifest q key = .ok data) :
      DirectoryEffect C q s record key
        { d with
          sealedProducts :=
            some ⟨q, key, segmentOrdinal, products, finalManifestOf q data digests⟩ }
  | commitment {d d' : ResultDirectoryV2} (hstate : record.state = .sealed)
      (hstaging : s.staging[q]? = some d)
      (hcommitment : ensureCommitment d (deriveRepositoryCommitment record.sealCommitments) =
        .ok d') :
      DirectoryEffect C q s record key d'

/-- A directory that recovery moves aside: the authority does not know the
result, both directories exist, or one has no lock file. -/
def Misplaced (q : ResultId) (s : RepositoryV2 A) : Prop :=
  stored s.authority q = none ∨
    (s.staging[q]?.isSome ∧ s.finals[q]?.isSome) ∨
    (∃ d, (s.staging[q]? = some d ∨ s.finals[q]? = some d) ∧ d.resultLock = false)

/-- One effect on the result `q`. -/
inductive Effect (C : Option ResultLifecycleStateV1 → Prop) (D S : Prop) (q : ResultId)
    (s : RepositoryV2 A) : RepositoryV2 A → Prop
  | record {authority : A} {value : Option (ResultAuthorityRecordV2 × ResultDekV1)}
      (hstep : AuthorityStepV2 stored Sound s.authority authority q value)
      (heffect : RecordEffect C D S q s value) : Effect C D S q s { s with authority }
  | reserve {authority : A} {record : ResultAuthorityRecordV2} {key : ResultDekV1}
      (hstored : stored s.authority q = some (record, key)) (hstate : record.state = .sealed)
      (hsound : Sound authority) (hsame : stored authority = stored s.authority) :
      Effect C D S q s { s with authority }
  | staging {record : ResultAuthorityRecordV2} {key : ResultDekV1} {d : ResultDirectoryV2}
      (hstored : stored s.authority q = some (record, key))
      (heffect : DirectoryEffect C q s record key d) :
      Effect C D S q s { s with staging := s.staging.insert q d }
  | install {record : ResultAuthorityRecordV2} {key : ResultDekV1} {d : ResultDirectoryV2}
      (hstored : stored s.authority q = some (record, key)) (hstate : record.state = .sealed)
      (hstaging : s.staging[q]? = some d) (hfinal : s.finals[q]? = none)
      (hlock : d.resultLock = true)
      (hcommitment : d.repositoryCommitment =
        some (deriveRepositoryCommitment record.sealCommitments)) :
      Effect C D S q s { s with
        staging := s.staging.erase q, finals := s.finals.insert q d }
  | quarantine {s' : RepositoryV2 A} (hmisplaced : Misplaced q s)
      (hauthority : s'.authority = s.authority)
      (hstaging : ∀ r : ResultId, s'.staging[r]? = s.staging[r]? ∨
        (r = q ∧ s'.staging[r]? = none))
      (hfinals : ∀ r : ResultId, s'.finals[r]? = s.finals[r]? ∨
        (r = q ∧ s'.finals[r]? = none)) : Effect C D S q s s'
  | remove (hstored : stored s.authority q = none) :
      Effect C D S q s { s with
        staging := s.staging.erase q, finals := s.finals.erase q }

/-- A chain of effects. -/
def Chain (C : Option ResultLifecycleStateV1 → Prop) (D S : Prop) (q : ResultId) :
    RepositoryV2 A → RepositoryV2 A → Prop :=
  Relation.ReflTransGen (Effect C D S q)

variable {C : Option ResultLifecycleStateV1 → Prop} {D S : Prop} {q : ResultId}
  {s₀ s : RepositoryV2 A}

theorem Chain.refl (s : RepositoryV2 A) : Chain C D S q s s := Relation.ReflTransGen.refl

theorem Chain.tail {s' : RepositoryV2 A} (h : Chain C D S q s₀ s) (heffect : Effect C D S q s s') :
    Chain C D S q s₀ s' :=
  Relation.ReflTransGen.tail h heffect

/-- Where a call stands that has reached `s` from `s₀`: the record and the
directories of its result. -/
structure At (C : Option ResultLifecycleStateV1 → Prop) (D S : Prop) (q : ResultId)
    (s₀ s : RepositoryV2 A) (record : ResultAuthorityRecordV2) (key : ResultDekV1)
    (staging final : Option ResultDirectoryV2) : Prop where
  chain : Chain C D S q s₀ s
  sound : Sound s.authority
  stored : stored s.authority q = some (record, key)
  staging : s.staging[q]? = staging
  final : s.finals[q]? = final

section At

variable {record record' : ResultAuthorityRecordV2} {key : ResultDekV1} {α : Type}
  {staging final : Option ResultDirectoryV2} {d d' : ResultDirectoryV2}

/-- A call of the authority that changes the record. -/
theorem At.withRecord {authority : A} (h : At C D S q s₀ s record key staging final)
    (hstep : AuthorityStepV2 LawfulKeyAuthorityV2.stored Sound s.authority authority q
      (some (record', key)))
    (heffect : RecordEffect C D S q s (some (record', key))) :
    At C D S q s₀ { s with authority } record' key staging final :=
  ⟨h.chain.tail (.record hstep heffect), hstep.sound,
    by rw [hstep.stored_eq, Function.update_self], h.staging, h.final⟩

theorem leaves_reserveNonceRange {operation : OperationIdV1} {digest : LifecycleDigestV1}
    {count : Nat} {f : NonceReservationV1 → RepositoryM A α}
    (h : At C D S q s₀ s record key (some d) final)
    (hguard : record.state.rank < 2 ∨ d.request = none)
    (hok : ∀ s' record' reservation, At C D S q s₀ s' record' key (some d) final →
      record'.state = record.state → Leaves (Chain C D S q s₀) (f reservation) s') :
    Leaves (Chain C D S q s₀)
      (authorityCall (reserveNonceRange · q operation digest count) >>= f) s := by
  refine leaves_authorityCall_bind h.chain fun authority reservation hcall => ?_
  obtain ⟨record₁, key₁, record', hstored, hsame, hstep⟩ := reserveNonceRange_ok h.sound hcall
  rw [h.stored] at hstored
  cases hstored
  refine hok _ record' reservation (h.withRecord hstep (.nonces h.stored h.staging hsame ?_))
    (ResultAuthorityRecordV2.state_of_withoutNonces hsame)
  rcases hguard with hrank | hnone
  · exact .inl hrank
  · exact .inr (.inl hnone)

theorem leaves_completeNonceReservation {operation : OperationIdV1}
    {digest : LifecycleDigestV1} {f : LifecycleTransitionV1 → RepositoryM A α}
    (h : At C D S q s₀ s record key (some d) final)
    (hok : ∀ s' record' transition, At C D S q s₀ s' record' key (some d) final →
      record'.state = record.state → record'.hasPendingNonceReservation = false →
      Leaves (Chain C D S q s₀) (f transition) s') :
    Leaves (Chain C D S q s₀)
      (authorityCall (completeNonceReservation · q operation digest) >>= f) s := by
  refine leaves_authorityCall_bind h.chain fun authority transition hcall => ?_
  obtain ⟨record₁, key₁, record', hstored, hsame, hpending, hstep⟩ :=
    completeNonceReservation_ok h.sound hcall
  rw [h.stored] at hstored
  cases hstored
  exact hok _ record' transition
    (h.withRecord hstep (.nonces h.stored h.staging hsame (.inr (.inr hpending))))
    (ResultAuthorityRecordV2.state_of_withoutNonces hsame) hpending

theorem At.setStaging (h : At C D S q s₀ s record key staging final)
    (heffect : DirectoryEffect C q s record key d') :
    At C D S q s₀ { s with staging := s.staging.insert q d' } record key (some d') final :=
  ⟨h.chain.tail (.staging h.stored heffect), h.sound, h.stored, by simp, h.final⟩

theorem leaves_setStaging {f : Unit → RepositoryM A α}
    (h : At C D S q s₀ s record key staging final)
    (heffect : DirectoryEffect C q s record key d')
    (hok : ∀ s', At C D S q s₀ s' record key (some d') final →
      Leaves (Chain C D S q s₀) (f ()) s') :
    Leaves (Chain C D S q s₀) (RepositoryV2.setStaging q d' >>= f) s :=
  leaves_update (hok _ (h.setStaging heffect))

theorem leaves_key {f : ResultDekV1 → RepositoryM A α}
    (h : At C D S q s₀ s record key staging final) (hok : Leaves (Chain C D S q s₀) (f key) s) :
    Leaves (Chain C D S q s₀) (keyOf q >>= f) s :=
  leaves_keyOf h.sound h.stored hok

/-! ## Acquisition -/

/-- `writeRequest` on a staging directory without a request. -/
theorem writeRequest_chain {faults : DurableRepositoryFaultPointV2 → Bool}
    {bytes : List UInt8} {digest : LifecycleDigestV1} {operation : OperationIdV1}
    {transition : LifecycleTransitionV1} (h : At C D S q s₀ s record key (some d) final)
    (hnone : d.request = none) :
    Leaves (Chain C D S q s₀)
      (begin.writeRequest faults q bytes d digest operation transition) s := by
  unfold begin.writeRequest
  refine leaves_reserveNonceRange h (.inr hnone) fun s₁ record₁ _ h₁ _ => ?_
  refine leaves_key h₁ ?_
  refine leaves_setStaging h₁ (.request h₁.staging hnone) fun s₂ h₂ => ?_
  refine leaves_completeNonceReservation h₂ fun s₃ record₃ _ h₃ _ _ => ?_
  exact leaves_require h₃.chain fun _ => h₃.chain

/-- A begin of a result whose final directory is not there, as far as `C`
asks for it. -/
theorem begin_chain (faults : DurableRepositoryFaultPointV2 → Bool) (entropy : EntropyV2)
    (created expires : Int) (operation : OperationIdV1) (bytes : List UInt8)
    (hs : Sound s.authority)
    (hclear : ∀ authority record transition,
      KeyAuthorityV2.begin s.authority entropy q created expires operation
        (digestBegin q created expires bytes) = .ok (authority, record, transition) →
      (transition = .applied ∧ C none) ∨
        (faults .afterAuthorityBegin = false ∧ C (some record.state)) →
      s.finals[q]? = none) :
    Leaves (Chain C D S q s)
      (RepositoryV2.begin faults entropy q created expires operation bytes) s := by
  unfold RepositoryV2.begin
  refine leaves_require (Chain.refl s) fun _ => ?_
  refine leaves_authorityCall_bind (Chain.refl s) fun authority output hcall => ?_
  obtain ⟨record, transition⟩ := output
  have hclear' := hclear _ _ _ hcall
  have hat : ∃ key, At C D S q s { s with authority } record key s.staging[q]? s.finals[q]? := by
    rcases begin_ok hs hcall with ⟨key, hstored, rfl, _⟩ | ⟨key, hstored, hnew, hopen, hstep⟩
    · exact ⟨key, Chain.refl s, hs, hstored, rfl, rfl⟩
    · exact ⟨key,
        (Chain.refl s).tail
          (.record hstep (.fresh hstored hopen fun hc => hclear' (.inl ⟨hnew, hc⟩))),
        hstep.sound, by rw [hstep.stored_eq, Function.update_self], rfl, rfl⟩
  obtain ⟨key, h⟩ := hat
  dsimp only
  refine leaves_require h.chain fun hgoes => ?_
  replace hgoes : faults .afterAuthorityBegin = false := by simpa using hgoes
  refine leaves_read ?_
  cases hstaging : s.staging[q]? with
  | some d =>
      dsimp only
      rw [hstaging] at h
      refine leaves_require h.chain fun _ => ?_
      refine leaves_setStaging h (.lock hstaging) fun s₁ h₁ => ?_
      cases hrequest : d.request with
      | some segment =>
          refine leaves_key h₁ ?_
          refine leaves_lift_bind h₁.chain fun stored _ => ?_
          refine leaves_require h₁.chain fun _ => ?_
          refine leaves_completeNonceReservation h₁ fun s₂ record₂ _ h₂ _ _ => ?_
          exact h₂.chain
      | none =>
          rw [hrequest] at h₁
          exact writeRequest_chain h₁ rfl
  | none =>
      dsimp only
      refine leaves_setStaging h (.make hstaging fun hc => hclear' (.inr ⟨hgoes, hc⟩))
        fun s₁ h₁ => ?_
      exact writeRequest_chain h₁ rfl

theorem commitBatch_chain (faults : DurableRepositoryFaultPointV2 → Bool)
    (input : BatchCommitInputV2) (hs : Sound s.authority) :
    Leaves (Chain C D S q s) (commitBatch faults q input) s := by
  unfold commitBatch
  refine leaves_read ?_
  refine leaves_lockIn (Chain.refl s) fun d hstaging _ => ?_
  refine leaves_snapshotOf hs (Chain.refl s) fun record key hstored => ?_
  have h : At C D S q s s record key (some d) s.finals[q]? :=
    ⟨Chain.refl s, hs, hstored, hstaging, rfl⟩
  refine leaves_require h.chain fun hstate => ?_
  replace hstate : record.state = .opened := by simpa using hstate
  refine leaves_lift_bind h.chain fun _ _ => ?_
  cases hbatch : d.batches[input.ordinal]? with
  | some segment =>
      refine leaves_completeNonceReservation h fun s₁ record₁ _ h₁ _ _ => ?_
      refine leaves_key h₁ ?_
      refine leaves_lift_bind h₁.chain fun stored _ => ?_
      refine leaves_require h₁.chain fun _ => ?_
      exact leaves_lift_bind h₁.chain fun _ _ => h₁.chain
  | none =>
      refine leaves_require h.chain fun _ => ?_
      refine leaves_lift_bind h.chain fun chained _ => ?_
      refine leaves_reserveNonceRange h (.inl (by rw [hstate]; decide))
        fun s₁ record₁ _ h₁ hstate₁ => ?_
      refine leaves_require h₁.chain fun _ => ?_
      refine leaves_key h₁ ?_
      refine leaves_require h₁.chain fun _ => ?_
      refine leaves_setStaging h₁ (.batch (hstate₁.trans hstate) h₁.staging) fun s₂ h₂ => ?_
      refine leaves_completeNonceReservation h₂ fun s₃ record₃ _ h₃ _ _ => ?_
      exact leaves_require h₃.chain fun _ => h₃.chain

/-- The authority's `commit_data`, once the staging directory holds the data
commit, or as a retry. -/
theorem leaves_commitData {operation : OperationIdV1} {digest : LifecycleDigestV1}
    {buildContext : BuildContextDigestsV1} (h : At C D S q s₀ s record key staging final)
    (hdata : record.state = .opened → ∃ d segment data input index,
      s.staging[q]? = some d ∧ d.dataCommit = some segment ∧ segment.opened q key = .ok data ∧
        dataCommitOf d q key input = .ok (index, data.manifest)) :
    Leaves (Chain C D S q s₀)
      (authorityCall (KeyAuthorityV2.commitData · q operation digest buildContext)) s := by
  refine leaves_authorityCall h.chain fun authority transition hcall => ?_
  obtain ⟨record₁, key₁, record', hstored, hcommit, hstep⟩ := commitData_ok h.sound hcall
  rw [h.stored] at hstored
  cases hstored
  exact (h.withRecord hstep (.commitData h.stored hcommit hdata)).chain

theorem commitData_chain (faults : DurableRepositoryFaultPointV2 → Bool)
    (input : DataCommitInputV2) (hs : Sound s.authority) :
    Leaves (Chain C D S q s) (RepositoryV2.commitData faults q input) s := by
  unfold RepositoryV2.commitData
  refine leaves_require (Chain.refl s) fun _ => ?_
  refine leaves_read ?_
  refine leaves_lockIn (Chain.refl s) fun storage _ _ => ?_
  refine leaves_snapshotOf hs (Chain.refl s) fun record key hstored => ?_
  have h : At C D S q s s record key s.staging[q]? s.finals[q]? :=
    ⟨Chain.refl s, hs, hstored, rfl, rfl⟩
  split
  · rename_i hrank
    refine leaves_key h ?_
    refine leaves_lift_bind h.chain fun existing _ => ?_
    refine leaves_require h.chain fun _ => ?_
    refine leaves_commitData h fun hopen => ?_
    rw [hopen] at hrank
    exact absurd hrank (by decide)
  · rename_i hrank
    have hopen : record.state = .opened := by
      cases hstate : record.state <;> rw [hstate] at hrank <;>
        first | rfl | exact absurd (by decide) hrank
    cases hstaging : s.staging[q]? with
    | none => exact leaves_fail h.chain
    | some d =>
        rw [hstaging] at h
        refine leaves_key h ?_
        refine leaves_lift_bind h.chain fun pair hdata => ?_
        obtain ⟨index, manifest⟩ := pair
        dsimp only
        cases hcommit : d.dataCommit with
        | some segment =>
            refine leaves_lift_bind h.chain fun existing hopened => ?_
            refine leaves_require h.chain fun hsame => ?_
            replace hsame : existing.manifest = manifest := by simpa using hsame
            refine leaves_completeNonceReservation h fun s₁ record₁ _ h₁ _ _ => ?_
            exact leaves_commitData h₁ fun _ => ⟨d, segment, existing, input, index, h₁.staging,
              hcommit, hopened, by rw [hsame]; exact hdata⟩
        | none =>
            refine leaves_lift_bind h.chain fun segmentOrdinal _ => ?_
            refine leaves_reserveNonceRange h (.inl (by rw [hopen]; decide))
              fun s₁ record₁ _ h₁ hstate₁ => ?_
            refine leaves_setStaging h₁ (.dataCommit (hstate₁.trans hopen) h₁.staging hcommit
              hdata) fun s₂ h₂ => ?_
            refine leaves_completeNonceReservation h₂ fun s₃ record₃ _ h₃ _ _ => ?_
            refine leaves_require h₃.chain fun _ => ?_
            exact leaves_commitData h₃ fun _ => ⟨_, _, ⟨segmentOrdinal, index, manifest⟩, input,
              index, h₃.staging, rfl, SegmentV2.opened_self .., hdata⟩

/-! ## Sealing -/

theorem leaves_sealResult {operation : OperationIdV1} {commitments : SealCommitmentsV1}
    (h : At C D S q s₀ s record key staging final)
    (hsealed : record.state = .dataCommitted →
      S ∧ record.hasPendingNonceReservation = false ∧ ∃ d segment sealed,
        s.staging[q]? = some d ∧ d.sealedProducts = some segment ∧
          segment.opened q key = .ok sealed ∧ commitments = sealCommitmentsOf sealed) :
    Leaves (Chain C D S q s₀)
      (authorityCall (KeyAuthorityV2.sealResult · q operation commitments)) s := by
  refine leaves_authorityCall h.chain fun authority transition hcall => ?_
  obtain ⟨record₁, key₁, record', hstored, hseal, hstep⟩ := sealResult_ok h.sound hcall
  rw [h.stored] at hstored
  cases hstored
  exact (h.withRecord hstep (.sealResult h.stored hseal hsealed)).chain

theorem sealResult_chain (faults : DurableRepositoryFaultPointV2 → Bool) (input : SealInputV2)
    (hs : Sound s.authority) (hallowed : S) :
    Leaves (Chain C D S q s) (RepositoryV2.sealResult faults q input) s := by
  unfold RepositoryV2.sealResult
  refine leaves_require (Chain.refl s) fun _ => ?_
  refine leaves_read ?_
  refine leaves_lockIn (Chain.refl s) fun storage _ _ => ?_
  refine leaves_snapshotOf hs (Chain.refl s) fun record key hstored => ?_
  have h : At C D S q s s record key s.staging[q]? s.finals[q]? :=
    ⟨Chain.refl s, hs, hstored, rfl, rfl⟩
  refine leaves_require h.chain fun _ => ?_
  dsimp only
  split
  · rename_i hrank
    refine leaves_key h ?_
    refine leaves_lift_bind h.chain fun sealed _ => ?_
    refine leaves_require h.chain fun _ => ?_
    refine leaves_sealResult h fun hcommitted => ?_
    rw [hcommitted] at hrank
    exact absurd hrank (by decide)
  · refine leaves_require h.chain fun hcommitted => ?_
    replace hcommitted : record.state = .dataCommitted := by simpa using hcommitted
    cases hstaging : s.staging[q]? with
    | none => exact leaves_fail h.chain
    | some d =>
        rw [hstaging] at h
        refine leaves_key h ?_
        refine leaves_lift_bind h.chain fun data hdata => ?_
        cases hproducts : d.sealedProducts with
        | some segment =>
            refine leaves_lift_bind h.chain fun existing hopened => ?_
            refine leaves_require h.chain fun _ => ?_
            refine leaves_completeNonceReservation h fun s₁ record₁ _ h₁ _ hpending => ?_
            exact leaves_sealResult h₁ fun _ =>
              ⟨hallowed, hpending, d, segment, existing, h₁.staging, hproducts, hopened, rfl⟩
        | none =>
            refine leaves_lift_bind h.chain fun segmentOrdinal _ => ?_
            refine leaves_reserveNonceRange h (.inl (by rw [hcommitted]; decide))
              fun s₁ record₁ _ h₁ hstate₁ => ?_
            refine leaves_setStaging h₁ (.sealedProducts (hstate₁.trans hcommitted) h₁.staging
              hproducts hdata) fun s₂ h₂ => ?_
            refine leaves_completeNonceReservation h₂ fun s₃ record₃ _ h₃ _ hpending => ?_
            refine leaves_require h₃.chain fun _ => ?_
            exact leaves_sealResult h₃ fun _ =>
              ⟨hallowed, hpending, _, _, _, h₃.staging, rfl, SegmentV2.opened_self .., rfl⟩

/-! ## Publication -/

theorem leaves_reserveGeneration {operation : OperationIdV1} {f : Nat → RepositoryM A α}
    (h : At C D S q s₀ s record key staging final) (hstate : record.state = .sealed)
    (hadmits : Admits A (deriveRepositoryCommitment record.sealCommitments))
    (hok : ∀ s' generation, At C D S q s₀ s' record key staging final →
      Leaves (Chain C D S q s₀) (f generation) s') :
    Leaves (Chain C D S q s₀)
      (authorityCall (reservePublicationGeneration · q operation
        (deriveRepositoryCommitment record.sealCommitments)) >>= f) s := by
  refine leaves_authorityCall_bind h.chain fun authority generation hcall => ?_
  obtain ⟨hsound, hsame, _⟩ := reserveGeneration_ok h.sound
    (fun record' key' hstored => by rw [h.stored] at hstored; cases hstored; rfl) hadmits hcall
  exact hok _ generation ⟨h.chain.tail (.reserve h.stored hstate hsound hsame), hsound,
    by rw [hsame]; exact h.stored, h.staging, h.final⟩

theorem At.publish {authority : A} {operation : OperationIdV1} {generation : Nat}
    {digest : LifecycleDigestV1} {transition : LifecycleTransitionV1}
    (h : At C D S q s₀ s record key staging final)
    (hinstalled : record.state = .sealed → s.staging[q]? = none ∧
      digest = deriveRepositoryCommitment record.sealCommitments)
    (hcall : KeyAuthorityV2.publish s.authority q operation generation digest =
      .ok (authority, transition)) : Chain C D S q s₀ { s with authority } := by
  obtain ⟨record₁, key₁, record', hstored, hpublish, hstep⟩ := publish_ok h.sound hcall
  rw [h.stored] at hstored
  cases hstored
  exact (h.withRecord hstep (.publish h.stored hpublish hinstalled)).chain

theorem leaves_installFinal {f : Unit → RepositoryM A α}
    (h : At C D S q s₀ s record key (some d) final) (hstate : record.state = .sealed)
    (hlock : d.resultLock = true)
    (hcommitment : d.repositoryCommitment =
      some (deriveRepositoryCommitment record.sealCommitments))
    (hok : ∀ s', At C D S q s₀ s' record key none (some d) →
      Leaves (Chain C D S q s₀) (f ()) s') :
    Leaves (Chain C D S q s₀) (installFinal q d >>= f) s := by
  by_cases hfinal : s.finals.contains q = true
  · have hrun : (installFinal q d : RepositoryM A Unit) s = (.error .publicationFailed, s) := by
      simp [installFinal, bind_apply, hfinal]
    unfold Leaves
    rw [bind_error hrun]
    exact h.chain
  · have hrun : (installFinal q d : RepositoryM A Unit) s = (.ok (), { s with
        staging := s.staging.erase q, finals := s.finals.insert q d }) := by
      simp [installFinal, bind_apply, hfinal]
    have hnone : s.finals[q]? = none := by
      rw [← Option.not_isSome_iff_eq_none, ← ExtTreeMap.contains_eq_isSome_getElem?]
      exact hfinal
    unfold Leaves
    rw [bind_ok hrun]
    exact hok _ ⟨h.chain.tail (.install h.stored hstate h.staging hnone hlock hcommitment),
      h.sound, h.stored, by simp, by simp⟩

theorem publish_chain (stops : PublishPointV2 → Bool) (operation : OperationIdV1)
    (hs : Sound s.authority)
    (hadmits : ∀ record key, stored s.authority q = some (record, key) →
      record.state = .sealed → Admits A (deriveRepositoryCommitment record.sealCommitments)) :
    Leaves (Chain C D S q s) (RepositoryV2.publish stops q operation) s := by
  unfold RepositoryV2.publish
  refine leaves_require (Chain.refl s) fun _ => ?_
  refine leaves_read ?_
  refine leaves_lockIn (Chain.refl s) fun storage hstorage hlock => ?_
  refine leaves_snapshotOf hs (Chain.refl s) fun record key hstored => ?_
  have h : At C D S q s s record key s.staging[q]? s.finals[q]? :=
    ⟨Chain.refl s, hs, hstored, rfl, rfl⟩
  split
  · rename_i hpublished
    refine leaves_lift_bind h.chain fun _ _ => ?_
    refine leaves_authorityCall h.chain fun authority transition hcall => h.publish ?_ hcall
    intro hstate
    rw [hpublished] at hstate
    cases hstate
  · refine leaves_require h.chain fun hstate => ?_
    replace hstate : record.state = .sealed := by simpa using hstate
    refine leaves_key h ?_
    refine leaves_lift_bind h.chain fun finalManifest _ => ?_
    refine leaves_require h.chain fun _ => ?_
    dsimp only
    refine leaves_require h.chain fun _ => ?_
    refine leaves_reserveGeneration h hstate (hadmits record key hstored hstate)
      fun s₁ generation h₁ => ?_
    refine leaves_require h₁.chain fun _ => ?_
    cases hstaging : s.staging[q]? with
    | some d =>
        have hmem : q ∈ s.staging := ExtTreeMap.mem_iff_isSome_getElem?.mpr (by simp [hstaging])
        have hsame : storage = d := by simpa [storageOf, hstaging] using hstorage.symm
        subst hsame
        rw [if_pos hmem]
        rw [hstaging] at h₁
        refine leaves_lift_bind h₁.chain fun d' hensure => ?_
        refine leaves_setStaging h₁ (.commitment hstate h₁.staging hensure) fun s₂ h₂ => ?_
        refine leaves_require h₂.chain fun _ => ?_
        have hd' := ensureCommitment_ok hensure
        refine leaves_installFinal h₂ hstate (by rw [hd']; exact hlock) (by rw [hd'])
          fun s₃ h₃ => ?_
        refine leaves_require h₃.chain fun _ => ?_
        exact leaves_authorityCall h₃.chain fun authority transition hcall =>
          h₃.publish (fun _ => ⟨h₃.staging, rfl⟩) hcall
    | none =>
        have hmem : q ∉ s.staging := fun hmem => by
          have := ExtTreeMap.mem_iff_isSome_getElem?.mp hmem
          simp [hstaging] at this
        rw [if_neg hmem]
        rw [hstaging] at h₁
        refine leaves_lift_bind h₁.chain fun stored _ => ?_
        refine leaves_require h₁.chain fun _ => ?_
        exact leaves_authorityCall h₁.chain fun authority transition hcall =>
          h₁.publish (fun _ => ⟨h₁.staging, rfl⟩) hcall

/-! ## Recovery and destruction -/

theorem quarantineOwned_chain {disposition : RecoveryDispositionV2}
    (hmisplaced : Misplaced q s) :
    Leaves (Chain C D S q s) (quarantineOwned q >>= fun _ => pure disposition) s := by
  refine leaves_then ?_ fun _ _ h => h
  obtain ⟨hauthority, hstaging, hfinals⟩ := quarantineOwned_movedAside (q := q) (s := s)
  exact (Chain.refl s).tail (.quarantine hmisplaced hauthority hstaging hfinals)

/-- The end of a result: its record, and its directories with it. -/
theorem leaves_destroy {f : AuthorityDestroyOutcomeV2 → RepositoryM A α}
    (hchain : Chain C D S q s₀ s) (hs : Sound s.authority)
    (hallowed : ∀ record key, stored s.authority q = some (record, key) →
      (record.state = .opened ∧ s.staging[q]? = none) ∨ D)
    (hok : ∀ s' outcome, Chain C D S q s₀ s' → stored s'.authority q = none →
      Leaves (Chain C D S q s₀) (f outcome) s') :
    Leaves (Chain C D S q s₀) (authorityCall (KeyAuthorityV2.destroy · q) >>= f) s := by
  obtain ⟨authority, outcome, hdestroy, hstep⟩ := destroy_ok q hs
  refine leaves_authorityCall_bind hchain fun authority' outcome' hcall => ?_
  rw [hdestroy] at hcall
  cases hcall
  exact hok _ outcome (hchain.tail (.record hstep (.destroyed hallowed)))
    (by rw [hstep.stored_eq, Function.update_self])

theorem leaves_removeDirectories {f : Unit → RepositoryM A α} (hchain : Chain C D S q s₀ s)
    (hnone : stored s.authority q = none)
    (hok : ∀ s', Chain C D S q s₀ s' → Leaves (Chain C D S q s₀) (f ()) s') :
    Leaves (Chain C D S q s₀) (removeDirectories q >>= f) s :=
  leaves_update (hok _ (hchain.tail (.remove hnone)))

theorem destroy_chain (faults : DurableRepositoryFaultPointV2 → Bool) (hs : Sound s.authority)
    (hd : D) : Leaves (Chain C D S q s) (RepositoryV2.destroy faults q) s := by
  unfold RepositoryV2.destroy
  refine leaves_read ?_
  refine leaves_require (Chain.refl s) fun _ => ?_
  refine leaves_destroy (Chain.refl s) hs (fun _ _ _ => .inr hd) fun s₁ outcome h₁ hnone => ?_
  refine leaves_require h₁ fun _ => ?_
  exact leaves_removeDirectories h₁ hnone fun s₂ h₂ => h₂

theorem recoverSealed_chain (hs : Sound s.authority)
    (hstored : stored s.authority q = some (record, key)) (hstate : record.state = .sealed)
    (hlock : ∀ d, s.staging[q]? = some d → d.resultLock = true)
    (hadmits : Admits A (deriveRepositoryCommitment record.sealCommitments)) :
    Leaves (Chain C D S q s) (recoverSealed q record) s := by
  have h : At C D S q s s record key s.staging[q]? s.finals[q]? :=
    ⟨Chain.refl s, hs, hstored, rfl, rfl⟩
  have hfinish : ∀ s', (∃ final, At C D S q s s' record key none final) →
      Leaves (Chain C D S q s) (do
        let generation ← authorityCall (reservePublicationGeneration · q
          (recoveryOperation record.sealCommitments.finalManifest)
          (deriveRepositoryCommitment record.sealCommitments))
        let _ ← authorityCall (KeyAuthorityV2.publish · q
          (recoveryOperation record.sealCommitments.finalManifest) generation
          (deriveRepositoryCommitment record.sealCommitments))
        pure RecoveryDispositionV2.completedPublication) s' := by
    rintro s' ⟨final, h'⟩
    refine leaves_reserveGeneration h' hstate hadmits fun s₁ generation h₁ => ?_
    exact leaves_authorityCall_bind h₁.chain fun authority transition hcall =>
      h₁.publish (fun _ => ⟨h₁.staging, rfl⟩) hcall
  unfold recoverSealed
  refine leaves_read ?_
  cases hpath : s.finals[q]?.orElse fun _ => s.staging[q]? with
  | none => exact h.chain
  | some path =>
      refine leaves_key h ?_
      refine leaves_lift_bind h.chain fun finalManifest _ => ?_
      dsimp only
      split
      · exact h.chain
      · cases hstaging : s.staging[q]? with
        | none =>
            rw [hstaging] at h
            exact hfinish s ⟨_, h⟩
        | some d =>
            rw [hstaging] at h
            refine leaves_lift_bind h.chain fun d' hensure => ?_
            refine leaves_setStaging h (.commitment hstate h.staging hensure) fun s₁ h₁ => ?_
            have hd' := ensureCommitment_ok hensure
            refine leaves_installFinal h₁ hstate (by rw [hd']; exact hlock d hstaging)
              (by rw [hd']) fun s₂ h₂ => ?_
            exact hfinish s₂ ⟨_, h₂⟩

theorem recover_chain (now : Int) (context : Option BuildContextDigestsV1)
    (hs : Sound s.authority)
    (hadmits : ∀ record key, stored s.authority q = some (record, key) →
      record.state = .sealed → Admits A (deriveRepositoryCommitment record.sealCommitments))
    (hexpired : ∀ record key, stored s.authority q = some (record, key) →
      record.expiresUnixNanos ≤ now → D) :
    Leaves (Chain C D S q s) (recover q now context) s := by
  unfold recover
  refine leaves_read ?_
  dsimp only
  rw [snapshot_eq hs]
  cases hstored : stored s.authority q with
  | none =>
      dsimp only [Option.map_none, okOr]
      split
      · exact quarantineOwned_chain (.inl hstored)
      · exact Chain.refl s
  | some pair =>
      obtain ⟨record, key⟩ := pair
      have h : At C D S q s s record key s.staging[q]? s.finals[q]? :=
        ⟨Chain.refl s, hs, hstored, rfl, rfl⟩
      dsimp only [Option.map_some, okOr]
      split
      · rename_i hmisplaced
        refine quarantineOwned_chain (.inr ?_)
        simp only [Bool.or_eq_true, Bool.and_eq_true, invalidActiveObject_eq_true]
          at hmisplaced
        rcases hmisplaced with (⟨d, hd, hlock⟩ | ⟨d, hd, hlock⟩) | hboth
        · exact .inr ⟨d, .inl hd, hlock⟩
        · exact .inr ⟨d, .inr hd, hlock⟩
        · exact .inl hboth
      · rename_i hplaced
        split
        · rename_i hnow
          refine leaves_destroy h.chain hs (fun record' key' hstored' => .inr ?_)
            fun s₁ outcome h₁ hnone => ?_
          · exact hexpired record key hstored hnow
          · exact leaves_removeDirectories h₁ hnone fun s₂ h₂ => h₂
        · cases hstate : record.state with
          | opened =>
              dsimp only
              split
              · exact h.chain
              · rename_i hstaging
                split
                · exact leaves_destroy h.chain hs (fun record' key' hstored' => by
                    rw [hstored] at hstored'
                    cases hstored'
                    exact .inl ⟨hstate, by simpa using hstaging⟩) fun s₁ outcome h₁ _ => h₁
                · exact h.chain
          | dataCommitted =>
              dsimp only
              split
              · exact h.chain
              · exact h.chain
              · split
                · refine leaves_key h ?_
                  refine leaves_lift_bind h.chain fun data _ => ?_
                  split
                  · exact h.chain
                  · exact h.chain
                · exact h.chain
          | «sealed» =>
              refine recoverSealed_chain hs hstored hstate (fun d hd => ?_)
                (hadmits record key hstored hstate)
              by_contra hlock
              refine hplaced ?_
              rw [Bool.or_eq_true, Bool.or_eq_true]
              exact .inl (.inl (invalidActiveObject_eq_true.mpr ⟨d, hd, by simpa using hlock⟩))
          | published =>
              dsimp only
              split
              · exact h.chain
              · exact h.chain

end At

end RepositoryV2

end Evidentrail
