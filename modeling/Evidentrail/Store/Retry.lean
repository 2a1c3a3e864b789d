import Evidentrail.Store.Applied
import Evidentrail.Store.Rejected

/-!
# Exact retries

A call that has succeeded once is recognised when it is issued again: the
files are compared, the authority says that it has been applied, and nothing
changes. Both authorities do so for `commit_data`, `seal` and `publish`. A
retried `begin` or `commit_batch` first completes its own nonce reservation
again, and there the keychain, which remembers one operation, differs from the
process, which remembers all.
-/

namespace Evidentrail

open Rust Std Slice Attempt KeyAuthorityV2 LawfulKeyAuthorityV2 AccountableV2

namespace RepositoryV2

/-! ## One retry -/

theorem insert_same {m : ExtTreeMap ResultId ResultDirectoryV2} {r : ResultId}
    {d : ResultDirectoryV2} (h : m[r]? = some d) : m.insert r d = m := by
  refine ExtTreeMap.ext_getElem? fun q => ?_
  rw [ExtTreeMap.getElem?_insert]
  split
  · rename_i hq
    rw [← LawfulEqOrd.eq_of_compare hq, h]
  · rfl

theorem staging_of_storage {A : Type} {r : ResultId} {d : ResultDirectoryV2}
    {s : RepositoryV2 A} (hstorage : s.storageOf r = some d) (hfinal : s.finals[r]? = none) :
    s.staging[r]? = some d := by
  unfold storageOf at hstorage
  split at hstorage
  · rename_i hd
    rw [hd, hstorage]
  · cases hfinal.symm.trans hstorage

section Retried

variable {A : Type} [KeyAuthorityV2 A] [Sha256] [AccountableV2 A] {r : ResultId}
  {s : RepositoryV2 A} {acc : AccountV2} {d : ResultDirectoryV2}

theorem begin_retried (entropy : EntropyV2) {created expires : Int} {operation : OperationIdV1}
    {request : List UInt8} (hacc : account s.authority r = some acc) (hregular : acc.Regular)
    (hmatches : acc.record.matchesBegin created expires operation
      (digestBegin r created expires request) = true)
    (hfree : acc.record.hasPendingNonceReservation = false)
    (hrecalls : acc.Recalls (derivedOperation operation 0x01)
      (digestBegin r created expires request))
    (hstaging : s.staging[r]? = some d) (hlock : d.resultLock = true)
    (hrequest : d.request = some ⟨r, acc.resultDek, request⟩)
    (hlength : request.length ≤ maxFramePlaintextBytes) (hoperation : operation.isZero = false) :
    RepositoryV2.begin noFaults entropy r created expires operation request s =
      (.ok .alreadyApplied, s) := by
  suffices h : Returns (fun result s' => result = .ok .alreadyApplied ∧ s' = s)
      (RepositoryV2.begin noFaults entropy r created expires operation request) s from
    Prod.ext h.1 h.2
  have hlocked : ({ d with resultLock := true } : ResultDirectoryV2) = d := by rw [← hlock]
  unfold RepositoryV2.begin
  refine returns_of_ok (require_true (by simp [hlength, hoperation])) ?_
  refine returns_of_ok (authorityCall_ok (begin_again entropy hacc hregular hmatches)) ?_
  refine returns_of_ok (require_true rfl) ?_
  refine returns_read ?_
  rw [hstaging]
  refine returns_of_ok (require_true rfl) ?_
  rw [hlocked]
  refine returns_update ?_
  rw [insert_same hstaging, hrequest]
  refine returns_keyOf hacc ?_
  refine returns_of_ok (lift_ok (SegmentV2.opened_self ..)) ?_
  refine returns_of_ok (require_true (by simp)) ?_
  refine returns_of_ok (authorityCall_ok (complete_idle hacc hrecalls hfree)) ?_
  exact returns_pure ⟨rfl, rfl⟩

theorem commitBatch_retried {input batch : BatchCommitInputV2}
    (hacc : account s.authority r = some acc) (hstate : acc.record.state = .opened)
    (hfree : acc.record.hasPendingNonceReservation = false)
    (hrecalls : acc.Recalls input.operation (digestBatch input))
    (hstaging : s.staging[r]? = some d) (hlock : d.resultLock = true)
    (hordinal : input.ordinal + 1 < u64Bound)
    (hbatch : d.batches[input.ordinal]? = some ⟨r, acc.resultDek, batch⟩)
    (hsame : SameBatch input batch) (hdecodes : ∀ event ∈ batch.events, event.decodes = true) :
    RepositoryV2.commitBatch noFaults r input s =
      (.ok ⟨batch.ordinal, acknowledgementsOf batch, .alreadyApplied⟩, s) := by
  suffices h : Returns (fun result s' =>
      result = .ok ⟨batch.ordinal, acknowledgementsOf batch, .alreadyApplied⟩ ∧ s' = s)
      (RepositoryV2.commitBatch noFaults r input) s from Prod.ext h.1 h.2
  unfold RepositoryV2.commitBatch
  refine returns_read ?_
  rw [hstaging]
  refine returns_of_ok (lockIn_ok hlock) ?_
  refine returns_of_ok (snapshotOf_ok hacc) ?_
  refine returns_of_ok (require_true (by simp [hstate])) ?_
  refine returns_of_ok (lift_ok (by rw [checkedAdd_of_lt hordinal]; rfl)) ?_
  rw [hbatch]
  refine returns_of_ok (authorityCall_ok (complete_idle hacc hrecalls hfree)) ?_
  refine returns_keyOf hacc ?_
  refine returns_of_ok (lift_ok (SegmentV2.opened_self ..)) ?_
  refine returns_of_ok (require_true ?_) ?_
  · simp [hsame.ordinal, hsame.operation, hsame.digest, hsame.length]
  refine returns_of_ok (lift_ok (forM_eq_ok.mpr fun event hevent => ?_)) ?_
  · rw [if_pos (hdecodes event hevent)]
  exact returns_pure ⟨rfl, rfl⟩

/-- What a retry leaves when it ends with one call of the authority. -/
structure Unchanged (r : ResultId) (s s' : RepositoryV2 A) : Prop where
  record : snapshot s'.authority r = snapshot s.authority r
  staging : s'.staging = s.staging
  finals : s'.finals = s.finals

theorem unchanged_of_account {authority : A} (hacc : account s.authority r = some acc)
    (h : account authority r = some acc) : Unchanged r s { s with authority } :=
  ⟨(snapshot_eq_ok.mpr ⟨acc, h, rfl⟩).trans (snapshot_eq_ok.mpr ⟨acc, hacc, rfl⟩).symm, rfl, rfl⟩

/-- The authority takes the publication of a published result for a retry. -/
def Republishes (r : ResultId) (a : A) : Prop :=
  ∀ acc, account a r = some acc → acc.record.state = .published →
    acc.record.publishOperation.isZero = false →
    ∃ a', KeyAuthorityV2.publish a r acc.record.publishOperation acc.record.publicationGeneration
      acc.record.repositoryCommitment = .ok (a', .alreadyApplied) ∧ account a' r = some acc

theorem publish_retried (hacc : account s.authority r = some acc)
    (hstorage : s.storageOf r = some d) (hlock : d.resultLock = true)
    (hstate : acc.record.state = .published)
    (hoperation : acc.record.publishOperation.isZero = false)
    (hvisible : s.verifyVisible r acc.record.repositoryCommitment = .ok ())
    (hagain : Republishes r s.authority) :
    ∃ s', RepositoryV2.publish (fun _ => false) r acc.record.publishOperation s =
      (.ok .alreadyApplied, s') ∧ Unchanged r s s' := by
  obtain ⟨authority, hcall, hafter⟩ := hagain acc hacc hstate hoperation
  refine ⟨{ s with authority }, ?_, unchanged_of_account hacc hafter⟩
  suffices h : Returns (fun result s' => result = .ok .alreadyApplied ∧
      s' = { s with authority })
      (RepositoryV2.publish (fun _ => false) r acc.record.publishOperation) s from
    Prod.ext h.1 h.2
  unfold RepositoryV2.publish
  refine returns_of_ok (require_true (by simp [hoperation])) ?_
  refine returns_read ?_
  rw [hstorage]
  refine returns_of_ok (lockIn_ok hlock) ?_
  refine returns_of_ok (snapshotOf_ok hacc) ?_
  rw [if_pos hstate]
  refine returns_of_ok (lift_ok hvisible) ?_
  exact returns_of_run (authorityCall_ok hcall) ⟨rfl, rfl⟩

variable [SnapshotFormatV2]

theorem commitData_retried {input : DataCommitInputV2} {data : DataCommitV2}
    (hacc : account s.authority r = some acc) (hstorage : s.storageOf r = some d)
    (hlock : d.resultLock = true) (hoperation : input.operation.isZero = false)
    (hrank : 1 ≤ acc.record.state.rank) (hdata : acc.record.dataOperation = input.operation)
    (hcontext : acc.record.buildContext = input.buildContext.aggregate)
    (hfile : d.dataCommit = some ⟨r, acc.resultDek, data⟩)
    (hmanifest : ManifestOf input data.manifest)
    (hdigest : acc.record.dataDigest = data.manifest.digest) :
    ∃ s', RepositoryV2.commitData noFaults r input s = (.ok .alreadyApplied, s') ∧
      Unchanged r s s' := by
  have hmutates := commitData_account input.operation data.manifest.digest input.buildContext hacc
  rw [ResultAuthorityRecordV2.commitData_again hoperation hrank ⟨hdata, hdigest, hcontext⟩]
    at hmutates
  obtain ⟨authority, hcall, hafter⟩ := hmutates
  refine ⟨{ s with authority }, ?_, unchanged_of_account hacc hafter⟩
  suffices h : Returns (fun result s' => result = .ok .alreadyApplied ∧
      s' = { s with authority }) (RepositoryV2.commitData noFaults r input) s from
    Prod.ext h.1 h.2
  obtain ⟨h₁, h₂, h₃, h₄, h₅, h₆⟩ := hmanifest
  unfold RepositoryV2.commitData
  refine returns_of_ok (require_true (by simp [hoperation])) ?_
  refine returns_read ?_
  rw [hstorage]
  refine returns_of_ok (lockIn_ok hlock) ?_
  refine returns_of_ok (snapshotOf_ok hacc) ?_
  rw [if_pos (show acc.record.state.rank ≥ ResultLifecycleStateV1.dataCommitted.rank from hrank)]
  refine returns_keyOf hacc ?_
  refine returns_of_ok (lift_ok (a := data.manifest) ?_) ?_
  · rw [ResultDirectoryV2.readDataManifest, hfile, openFile, SegmentV2.opened_self]
    rfl
  refine returns_of_ok (require_true (by simp [h₁, h₂, h₃, h₄, h₅, h₆])) ?_
  exact returns_of_run (authorityCall_ok hcall) ⟨rfl, rfl⟩

theorem sealResult_retried {input : SealInputV2} {sealed : SealedProductsV2}
    (hacc : account s.authority r = some acc) (hstorage : s.storageOf r = some d)
    (hlock : d.resultLock = true) (hoperation : input.operation.isZero = false)
    (hsizes : input.products.all (·.length ≤ maxFramePlaintextBytes) = true)
    (hrank : 2 ≤ acc.record.state.rank) (hseal : acc.record.sealOperation = input.operation)
    (hfile : d.sealedProducts = some ⟨r, acc.resultDek, sealed⟩)
    (hproducts : sealed.manifest.productDigests = SealInputV2.productDigests input)
    (hcommitments : acc.record.sealCommitments = sealCommitmentsOf sealed) :
    ∃ s', RepositoryV2.sealResult noFaults r input s = (.ok .alreadyApplied, s') ∧
      Unchanged r s s' := by
  have hmutates := seal_account input.operation (sealCommitmentsOf sealed) hacc
  rw [ResultAuthorityRecordV2.seal_again hoperation hrank ⟨hseal, hcommitments⟩] at hmutates
  obtain ⟨authority, hcall, hafter⟩ := hmutates
  refine ⟨{ s with authority }, ?_, unchanged_of_account hacc hafter⟩
  suffices h : Returns (fun result s' => result = .ok .alreadyApplied ∧
      s' = { s with authority }) (RepositoryV2.sealResult noFaults r input) s from
    Prod.ext h.1 h.2
  unfold RepositoryV2.sealResult
  refine returns_of_ok (require_true (by simp [hoperation])) ?_
  refine returns_read ?_
  rw [hstorage]
  refine returns_of_ok (lockIn_ok hlock) ?_
  refine returns_of_ok (snapshotOf_ok hacc) ?_
  refine returns_of_ok (require_true hsizes) ?_
  rw [if_pos (show acc.record.state.rank ≥ ResultLifecycleStateV1.sealed.rank from hrank)]
  refine returns_keyOf hacc ?_
  refine returns_of_ok (lift_ok (a := sealed) ?_) ?_
  · rw [hfile, openFile, SegmentV2.opened_self]
  refine returns_of_ok (require_true (by simp [hproducts])) ?_
  exact returns_of_run (authorityCall_ok hcall) ⟨rfl, rfl⟩

end Retried

/-! ## Between a call and its retry -/

section Between

variable {A : Type} [KeyAuthorityV2 A] [Sha256]

section Quiet

variable [LawfulKeyAuthorityV2 A] {r : ResultId} {record : ResultAuthorityRecordV2}
  {key : ResultDekV1} {s s' : RepositoryV2 A}

/-- Before sealing, no nonces of the result are pending. -/
def QuietEarly (r : ResultId) (s : RepositoryV2 A) : Prop :=
  ∀ record key, stored s.authority r = some (record, key) → record.state.rank ≤ 1 →
    record.hasPendingNonceReservation = false

theorem QuietEarly.of_stored (h : QuietEarly r s)
    (hsame : stored s'.authority r = stored s.authority r) : QuietEarly r s' := by
  intro record key hstored
  exact h record key (hsame.symm.trans hstored)

theorem quietEarly_of_rank (hstored : stored s.authority r = some (record, key))
    (hrank : 2 ≤ record.state.rank) : QuietEarly r s := by
  intro record' key' hstored' hearly
  cases hstored.symm.trans hstored'
  omega

theorem account_of_stored [AccountableV2 A] {a : A} (hs : Sound a)
    (h : stored a r = some (record, key)) :
    ∃ acc, account a r = some acc ∧ acc.record = record ∧ acc.resultDek = key := by
  have hsnapshot : snapshot a r = .ok record := by rw [snapshot_eq hs, h]; rfl
  have hkey : resultKey a r = .ok key := by rw [resultKey_eq hs, h]; rfl
  obtain ⟨acc, hacc, hrecord⟩ := snapshot_eq_ok.mp hsnapshot
  exact ⟨acc, hacc, hrecord, Except.ok.inj ((resultKey_account hacc).symm.trans hkey)⟩

end Quiet

variable [SnapshotFormatV2]

/-- The call returns without an error. -/
def succeeds (s : RepositoryV2 A) : CommandV2 → Bool
  | .begin faults entropy q created expires operation request =>
      (RepositoryV2.begin faults entropy q created expires operation request s).1.isOk
  | .commitBatch faults q input => (RepositoryV2.commitBatch faults q input s).1.isOk
  | .commitData faults q input => (RepositoryV2.commitData faults q input s).1.isOk
  | .sealResult faults q input => (RepositoryV2.sealResult faults q input s).1.isOk
  | .publish stops q operation => (RepositoryV2.publish stops q operation s).1.isOk
  | .expand q eventIds maxEvents maxBytes now => (s.expand q eventIds maxEvents maxBytes now).isOk
  | .recover q now context => (RepositoryV2.recover q now context s).1.isOk
  | .recoverAll now context => (RepositoryV2.recoverAll now context s).1.isOk
  | .destroy faults q => (RepositoryV2.destroy faults q s).1.isOk

variable [LawfulKeyAuthorityV2 A] {r : ResultId} {record : ResultAuthorityRecordV2}
  {key : ResultDekV1} {d : ResultDirectoryV2} {s s' : RepositoryV2 A} {P : A → Prop} {N : Prop}

theorem Succeeded.quiet {call : WriterCallV2} {operation : OperationIdV1}
    {digest : LifecycleDigestV1} {acknowledgements : List DurableEventAcknowledgementV2}
    (h : Succeeded r call acknowledgements s) (hnonce : nonceOf r call = some (operation, digest)) :
    QuietEarly r s :=
  fun _ _ hstored _ => (h.2 operation digest hnonce).not_pending hstored

/-- The result has grown from a record and a directory, and the authority has
kept `P`. Nonces that were pending at the start may still be, unless `N`. -/
structure Steady (r : ResultId) (record : ResultAuthorityRecordV2) (key : ResultDekV1)
    (d : ResultDirectoryV2) (N : Prop) (P : A → Prop) (s : RepositoryV2 A) : Prop where
  sound : Sound s.authority
  intact : Intact r s
  grown : GrownFrom r record key d s
  quiet : N → QuietEarly r s
  kept : P s.authority

/-- Before its end, nothing that recovery sees lets it destroy the result. -/
theorem Steady.not_destroyed (h : Steady r record key d N P s) {now : Int}
    (hnow : now < record.expiresUnixNanos) {seen : ResultAuthorityRecordV2}
    (hseen : snapshot s.authority r = .ok seen) :
    ¬(seen.expiresUnixNanos ≤ now ∨ (seen.state = .opened ∧ s.staging[r]? = none)) := by
  obtain ⟨record', d', ⟨hstored, hstorage⟩, hadvances, _⟩ := h.grown
  obtain ⟨key', hstored'⟩ := stored_of_snapshot h.sound hseen
  cases hstored.symm.trans hstored'
  rintro (hexpired | ⟨hopen, hstaging⟩)
  · rw [hadvances.begun.2.1] at hexpired
    omega
  · have hfinal := (Stage.opened hopen).mp (h.intact.stage _ _ hstored)
    rw [storageOf, hstaging, hfinal] at hstorage
    cases hstorage

/-- Recovery of any result before the end of this one. -/
theorem Steady.recover (h : Steady r record key d N P s) (hadmitted : AllAdmitted s)
    (hP : Stable P) (hsurvives : ∀ q, q ≠ r → Survives P q) {now : Int}
    (hnow : now < record.expiresUnixNanos) (q : ResultId)
    (context : Option BuildContextDigestsV1) :
    Leaves (fun s' => Steady r record key d N P s' ∧ AllAdmitted s')
      (RepositoryV2.recover q now context) s := by
  have hadmits : ∀ record key, stored s.authority q = some (record, key) →
      record.state = .sealed → Admits A (deriveRepositoryCommitment record.sealCommitments) :=
    fun record key => hadmitted q record key
  have hmoves : Moves always False r s (RepositoryV2.recover q now context s).2 := by
    refine moves_of_chain (q := q) (fun hq => ?_)
      (recover_chain now context h.sound hadmits fun _ _ _ _ => trivial)
    subst hq
    refine recover_chain now context h.sound hadmits fun seen key' hstored hexpired => ?_
    have hseen : snapshot s.authority q = .ok seen := by rw [snapshot_eq h.sound, hstored]; rfl
    exact h.not_destroyed hnow hseen (.inl hexpired)
  have hchain : Chain (fun _ => False) True False q s (RepositoryV2.recover q now context s).2 :=
    recover_chain now context h.sound hadmits fun _ _ _ _ => trivial
  obtain ⟨hintact, hgrown⟩ := hmoves.grows h.intact h.grown
  refine ⟨⟨hmoves.sound h.sound, hintact, hgrown, ?_, ?_⟩, hchain.allAdmitted hadmitted⟩
  · intro hn
    by_cases hq : r = q
    · subst hq
      obtain ⟨record', d', hd', _, _⟩ := h.grown
      by_cases hrank : record'.state.rank ≤ 1
      · -- before sealing, recovery has nothing to tell the authority
        have hsame : (RepositoryV2.recover r now context s).2.authority = s.authority := by
          refine leaves_recover (P := (· = s.authority)) r now context rfl
            (fun seen hseen hsealed => ?_) fun seen hseen hend => ?_
          · obtain ⟨_, hstored⟩ := stored_of_snapshot h.sound hseen
            cases hstored.symm.trans hd'.stored
            rw [hsealed] at hrank
            exact absurd hrank (by decide)
          · exact absurd hend (h.not_destroyed hnow hseen)
        exact (h.quiet hn).of_stored (by rw [hsame])
      · obtain ⟨record₂, _, hd₂, hadvances, _⟩ := (hmoves.grows h.intact hd'.grown).2
        exact quietEarly_of_rank hd₂.stored (by have := hadvances.rank; omega)
    · exact (h.quiet hn).of_stored (hchain.frame hq).stored
  · refine leaves_recover q now context h.kept
      (fun record _ _ => keeps_recoverSealed hP q record) fun seen hseen hend => ?_
    by_cases hq : q = r
    · subst hq
      exact absurd hend (h.not_destroyed hnow hseen)
    · exact hsurvives q hq

theorem Steady.recoverEach (hP : Stable P) (hsurvives : ∀ q, q ≠ r → Survives P q) {now : Int}
    (hnow : now < record.expiresUnixNanos) (context : ResultId → Option BuildContextDigestsV1) :
    ∀ resultIds : List ResultId,
      Keeps (fun s' => Steady r record key d N P s' ∧ AllAdmitted s')
        (RepositoryV2.recoverEach now context resultIds)
  | [] => keeps_pure
  | q :: rest =>
      keeps_bind (fun _ hs => hs.1.recover hs.2 hP hsurvives hnow q (context q)) fun _ =>
        keeps_bind (Steady.recoverEach hP hsurvives hnow context rest) fun _ => keeps_pure

theorem Steady.not_expired (h : Steady r record key d N P s) {now : Int}
    (hnow : ¬Expired r now s) : now < record.expiresUnixNanos := by
  obtain ⟨record', _, hd, hadvances, _⟩ := h.grown
  by_contra hlate
  refine hnow ⟨record', key, hd.stored, ?_⟩
  rw [hadvances.begun.2.1]
  omega

/-- A call that succeeds keeps the result steady, unless it may destroy it: in
particular it leaves no nonces pending. -/
theorem Steady.step [AccountableV2 A] (h : Steady r record key d N P s) (hP : Stable P)
    (hsurvives : ∀ q, q ≠ r → Survives P q) (hadmitted : AllAdmitted s) {command : CommandV2}
    (hbegin : ¬BeginsOver r s command) (hdestroy : ¬MayDestroy r s command)
    (hok : succeeds s command = true) : Steady r record key d N P (s.step command) := by
  have hmoves := step_moves (D := False) command h.sound hadmitted
    (clearBegin_of_not_beginsOver hbegin) hdestroy
  obtain ⟨hintact, hgrown⟩ := hmoves.grows h.intact h.grown
  suffices hrest : (N → QuietEarly r (s.step command)) ∧ P (s.step command).authority from
    ⟨hmoves.sound h.sound, hintact, hgrown, hrest.1, hrest.2⟩
  -- a call on another result leaves this one alone
  have hother : ∀ {q : ResultId} {t : RepositoryV2 A}, r ≠ q →
      Chain (fun _ => False) True True q s t → N → QuietEarly r t :=
    fun hq hchain hn => (h.quiet hn).of_stored (hchain.frame hq).stored
  cases command with
  | begin faults entropy q created expires operation request =>
      refine ⟨?_, keeps_begin hP faults entropy q created expires operation request s h.kept⟩
      by_cases hq : r = q
      · subst hq
        exact fun _ => ((begin_succeeded faults entropy h.sound).of_isOk hok).quiet rfl
      · exact hother hq (begin_chain faults entropy created expires operation request h.sound
          fun _ _ _ _ h => h.elim (·.2.elim) (·.2.elim))
  | commitBatch faults q input =>
      refine ⟨?_, keeps_commitBatch hP faults q input s h.kept⟩
      by_cases hq : r = q
      · subst hq
        have hcompleted := Ensures.of_isOk (P := fun s' => Completed r input.operation
          (digestBatch input) s'.authority)
          (fun a s' hrun => (commitBatch_succeeded faults h.sound a s' hrun).1) hok
        exact fun _ _ _ hstored _ => hcompleted.not_pending hstored
      · exact hother hq (commitBatch_chain faults input h.sound)
  | commitData faults q input =>
      refine ⟨?_, keeps_commitData hP faults q input s h.kept⟩
      by_cases hq : r = q
      · subst hq
        have hpends := ((commitData_succeeded faults h.sound).of_isOk hok).2
        intro hn record' key' hstored hrank
        rcases hpends record' key' hstored with hfree | hbefore
        · exact hfree
        · exact h.quiet hn record' key' hbefore hrank
      · exact hother hq (commitData_chain faults input h.sound)
  | sealResult faults q input =>
      refine ⟨?_, keeps_sealResult hP faults q input s h.kept⟩
      by_cases hq : r = q
      · subst hq
        obtain ⟨⟨record', key', d', hd', _, _, _, _, hrank, _⟩, _⟩ :=
          (sealResult_succeeded faults h.sound).of_isOk hok
        exact fun _ => quietEarly_of_rank hd'.stored hrank
      · exact hother hq (sealResult_chain faults input h.sound trivial)
  | publish stops q operation =>
      refine ⟨?_, keeps_publish hP stops q operation s h.kept⟩
      by_cases hq : r = q
      · subst hq
        obtain ⟨⟨record', key', d', hd', _, _, _, hstate, _⟩, _⟩ :=
          (publish_succeeded stops h.sound hadmitted).of_isOk hok
        exact fun _ => quietEarly_of_rank hd'.stored (by rw [hstate]; decide)
      · exact hother hq (publish_chain stops operation h.sound
          fun record key => hadmitted q record key)
  | expand _ _ _ _ _ => exact ⟨h.quiet, h.kept⟩
  | recover q now context =>
      by_cases hq : r = q
      · subst hq
        have hnow := h.not_expired fun hexpired => hdestroy ⟨rfl, hexpired⟩
        have hsteady := (h.recover hadmitted hP hsurvives hnow r context).1
        exact ⟨hsteady.quiet, hsteady.kept⟩
      · refine ⟨hother hq (recover_chain now context h.sound
          (fun record key => hadmitted q record key) fun _ _ _ _ => trivial), ?_⟩
        exact leaves_recover q now context h.kept
          (fun record _ _ => keeps_recoverSealed hP q record) fun _ _ _ => hsurvives q (Ne.symm hq)
  | recoverAll now context =>
      have hnow := h.not_expired fun hexpired => hdestroy hexpired
      have hleaves : Leaves (fun s' => Steady r record key d N P s' ∧ AllAdmitted s')
          (RepositoryV2.recoverAll now context) s :=
        leaves_read (leaves_lift_bind ⟨h, hadmitted⟩ fun resultIds _ =>
          Steady.recoverEach hP hsurvives hnow context resultIds s ⟨h, hadmitted⟩)
      exact ⟨hleaves.1.quiet, hleaves.1.kept⟩
  | destroy faults q =>
      have hq : q ≠ r := hdestroy
      exact ⟨hother (Ne.symm hq) (destroy_chain faults h.sound trivial),
        keeps_destroy q (hsurvives q hq) faults s h.kept⟩

theorem Intact.locked (h : Intact r s) (hstorage : s.storageOf r = some d) :
    d.resultLock = true := by
  unfold storageOf at hstorage
  split at hstorage
  · rename_i hd
    cases hstorage
    exact (h.staging _ hd).lock
  · exact (h.final d hstorage).lock

/-- A result without a final directory is not published, and nothing of it
is pending. -/
theorem Steady.free (h : Steady r record key d N P s) (hn : N)
    {record' : ResultAuthorityRecordV2}
    (hstored : stored s.authority r = some (record', key)) (hfinal : s.finals[r]? = none) :
    record'.hasPendingNonceReservation = false := by
  have hstage := h.intact.stage _ _ hstored
  cases hstate : record'.state with
  | opened => exact h.quiet hn _ _ hstored (by rw [hstate]; decide)
  | dataCommitted => exact h.quiet hn _ _ hstored (by rw [hstate]; decide)
  | «sealed» => exact ((Stage.sealed hstate).mp hstage).1
  | published =>
      obtain ⟨_, _, d', hd', _⟩ := (Stage.published hstate).mp hstage
      cases hfinal.symm.trans hd'

/-! ## Retries after a run -/

variable [AccountableV2 A]

/-- The call returns as already applied, with the same acknowledgements, and
leaves the record and the directories of the result. -/
def RetriesExactly (r : ResultId) (call : WriterCallV2)
    (acknowledgements : List DurableEventAcknowledgementV2) (s : RepositoryV2 A) : Prop :=
  ∀ entropy, ∃ s', call.perform noFaults (fun _ => false) entropy r s =
    (.ok ⟨.alreadyApplied, acknowledgements⟩, s') ∧ Unchanged r s s'

/-- The authority remembers the nonce operation that the call completes. -/
def Remembers (r : ResultId) (call : WriterCallV2) (a : A) : Prop :=
  ∀ operation digest, nonceOf r call = some (operation, digest) →
    ∃ acc, account a r = some acc ∧ acc.Recalls operation digest

/-- A call that has been applied is retried exactly while the result stays in
its state, if the authority remembers the nonces. -/
theorem Steady.retries {call : WriterCallV2}
    {acknowledgements : List DurableEventAcknowledgementV2}
    (h : Steady r record key d (nonceOf r call ≠ none) P s) (hregular : AllRegular s.authority)
    (hrepublishes : Republishes r s.authority)
    (happlied : AppliedAs r acknowledgements record key d call) (hopen : OpenFor record call)
    (hstate : ∀ record', snapshot s.authority r = .ok record' → record'.state = record.state)
    (hover : ∀ entropy, ¬BeginsOver r s (call.command noFaults (fun _ => false) entropy r))
    (hremembers : Remembers r call s.authority) : RetriesExactly r call acknowledgements s := by
  obtain ⟨record', d', ⟨hstored, hstorage⟩, hadvances, hextends⟩ := h.grown
  obtain ⟨acc, hacc, rfl, rfl⟩ := account_of_stored h.sound hstored
  replace happlied := happlied.grows hadvances hextends
  have hlock := h.intact.locked hstorage
  intro entropy
  cases call with
  | begin created expires operation request =>
      obtain ⟨rfl, hlength, hoperation, hmatches, hrequest⟩ := happlied
      obtain ⟨acc', hacc', hrecalls⟩ := hremembers _ _ rfl
      cases hacc.symm.trans hacc'
      have hfinal : s.finals[r]? = none := by
        by_contra hfinal
        exact hover entropy ⟨rfl, Option.isSome_iff_ne_none.mpr hfinal, s.authority, acc.record,
          .alreadyApplied, begin_again entropy hacc (hregular r acc hacc) hmatches, .inr rfl⟩
      have hstaging := staging_of_storage hstorage hfinal
      exact ⟨s, bind_ok (begin_retried entropy hacc (hregular r acc hacc) hmatches
        (h.free (by simp [nonceOf]) hstored hfinal) hrecalls hstaging hlock hrequest hlength
          hoperation), rfl, rfl, rfl⟩
  | commitBatch input =>
      obtain ⟨hordinal, batch, hbatch, hsame, hdecodes, rfl⟩ := happlied
      obtain ⟨acc', hacc', hrecalls⟩ := hremembers _ _ rfl
      cases hacc.symm.trans hacc'
      have hopen' : acc.record.state = .opened :=
        (hstate acc.record (snapshot_eq_ok.mpr ⟨acc, hacc, rfl⟩)).trans hopen
      have hfinal := (Stage.opened hopen').mp (h.intact.stage _ _ hstored)
      have hstaging := staging_of_storage hstorage hfinal
      exact ⟨s, bind_ok (commitBatch_retried hacc hopen'
        (h.free (by simp [nonceOf]) hstored hfinal) hrecalls hstaging hlock hordinal hbatch hsame
        hdecodes), rfl, rfl, rfl⟩
  | commitData input =>
      obtain ⟨rfl, hoperation, hrank, hdata, hcontext, data, hfile, hmanifest, hdigest⟩ := happlied
      obtain ⟨s', hrun, hunchanged⟩ := commitData_retried hacc hstorage hlock hoperation hrank hdata
        hcontext hfile hmanifest hdigest
      exact ⟨s', bind_ok hrun, hunchanged⟩
  | sealResult input =>
      obtain ⟨rfl, hoperation, hsizes, hrank, hseal, sealed, hfile, hproducts, hcommitments⟩ :=
        happlied
      obtain ⟨s', hrun, hunchanged⟩ := sealResult_retried hacc hstorage hlock hoperation hsizes
        hrank hseal hfile hproducts hcommitments
      exact ⟨s', bind_ok hrun, hunchanged⟩
  | publish operation =>
      obtain ⟨rfl, hoperation, hpublished, rfl⟩ := happlied
      have hvisible := verifyVisible_ok h.sound h.intact hstored hpublished
      obtain ⟨s', hrun, hunchanged⟩ := publish_retried hacc hstorage hlock hpublished hoperation
        hvisible hrepublishes
      exact ⟨s', bind_ok hrun, hunchanged⟩

/-- No `begin` over a final directory. -/
def Undisturbed (r : ResultId) (s : RepositoryV2 A) (command : CommandV2) : Prop :=
  AllAdmitted s ∧ ¬BeginsOver r s command

/-- And a call that succeeds and does not destroy the result. -/
def Continues (r : ResultId) (s : RepositoryV2 A) (command : CommandV2) : Prop :=
  Undisturbed r s command ∧ ¬MayDestroy r s command ∧ succeeds s command = true

/-- The state of the result before the retry of a call that succeeded. -/
theorem steady_after_run {authority : A} (hs : Sound authority)
    (hnone : stored authority r = none) {before between : List CommandV2} {call : WriterCallV2}
    {faults : DurableRepositoryFaultPointV2 → Bool} {stops : PublishPointV2 → Bool}
    {entropy : EntropyV2} {outcome : WriterOutcomeV2} {s₁ : RepositoryV2 A}
    (hbefore : Follows (Undisturbed r) { authority } before)
    (hundisturbed : Undisturbed r (run { authority } before)
      (call.command faults stops entropy r))
    (hcall : call.perform faults stops entropy r (run { authority } before) =
      (.ok outcome, s₁)) (hdecodes : Decodes call) (hbetween : Follows (Continues r) s₁ between)
    (hP : Stable P) (hsurvives : ∀ q, q ≠ r → Survives P q)
    (hkept : (∀ operation digest, nonceOf r call = some (operation, digest) →
      Completed r operation digest s₁.authority) → P s₁.authority) :
    ∃ record key d, snapshot s₁.authority r = .ok record ∧
      Steady r record key d (nonceOf r call ≠ none) P (s₁.run between) ∧ OpenFor record call ∧
      AppliedAs r outcome.acknowledgements record key d call := by
  obtain ⟨hsound, hintact⟩ := intact_run hs hnone hbefore
  obtain ⟨⟨record, key, d, hd, hopen, happlied⟩, hcompleted⟩ :=
    perform_succeeded faults stops entropy call hsound hundisturbed.1 hdecodes _ _ hcall
  have hstep : s₁ = (run { authority } before).step (call.command faults stops entropy r) := by
    rw [← WriterCallV2.perform_step, hcall]
  have hmoves := step_moves (D := True) (call.command faults stops entropy r) hsound
    hundisturbed.1 (clearBegin_of_not_beginsOver hundisturbed.2) fun _ => trivial
  rw [← hstep] at hmoves
  have hquiet : nonceOf r call ≠ none → QuietEarly r s₁ := by
    intro hnonce
    obtain ⟨⟨operation, digest⟩, hnonce⟩ := Option.ne_none_iff_exists'.mp hnonce
    exact fun _ _ hstored _ => (hcompleted operation digest hnonce).not_pending hstored
  have hstart : Steady r record key d (nonceOf r call ≠ none) P s₁ :=
    ⟨hmoves.sound hsound, hmoves.intact hintact, hd.grown, hquiet, hkept hcompleted⟩
  refine ⟨record, key, d, by rw [snapshot_eq hstart.sound, hd.stored]; rfl, ?_, hopen, happlied⟩
  exact Follows.invariant (fun s command h hcontinues => h.step hP hsurvives hcontinues.1.1
    hcontinues.1.2 hcontinues.2.1 hcontinues.2.2) hstart hbetween

/-- The result is in the same lifecycle state. -/
def SameState (r : ResultId) (s s' : RepositoryV2 A) : Prop :=
  ∃ record record', snapshot s.authority r = .ok record ∧
    snapshot s'.authority r = .ok record' ∧ record'.state = record.state

theorem retries_after_run {authority : A} (hs : Sound authority)
    (hnew : ∀ q, account authority q = none)
    (hnone : stored authority r = none) {before between : List CommandV2} {call : WriterCallV2}
    {faults : DurableRepositoryFaultPointV2 → Bool} {stops : PublishPointV2 → Bool}
    {entropy : EntropyV2} {outcome : WriterOutcomeV2} {s₁ s₂ : RepositoryV2 A}
    (hbefore : Follows (Undisturbed r) { authority } before)
    (hundisturbed : Undisturbed r (run { authority } before)
      (call.command faults stops entropy r))
    (hcall : call.perform faults stops entropy r (run { authority } before) =
      (.ok outcome, s₁)) (hdecodes : Decodes call) (hbetween : Follows (Continues r) s₁ between)
    (hs₂ : s₂ = s₁.run between) (hstate : SameState r s₁ s₂)
    (hover : ∀ entropy, ¬BeginsOver r s₂ (call.command noFaults (fun _ => false) entropy r))
    (hP : Stable P) (hsurvives : ∀ q, q ≠ r → Survives P q)
    (hkept : (∀ operation digest, nonceOf r call = some (operation, digest) →
      Completed r operation digest s₁.authority) → P s₁.authority)
    (hremembers : P s₂.authority → Remembers r call s₂.authority)
    (hrepublishes : Republishes r s₂.authority) :
    RetriesExactly r call outcome.acknowledgements s₂ := by
  obtain ⟨record, key, d, hrecord, hsteady, hopen, happlied⟩ := steady_after_run hs hnone hbefore
    hundisturbed hcall hdecodes hbetween hP hsurvives hkept
  have hregular : AllRegular s₂.authority := by
    rw [hs₂]
    refine run_stable allRegular_stable allRegular_survives between ?_
    have hstep : s₁ = (run { authority } before).step (call.command faults stops entropy r) := by
      rw [← WriterCallV2.perform_step, hcall]
    rw [hstep]
    exact step_stable allRegular_stable allRegular_survives (allRegular_run hnew before) _
  rw [← hs₂] at hsteady
  refine hsteady.retries hregular hrepublishes happlied hopen (fun record' hrecord' => ?_) hover
    (hremembers hsteady.kept)
  obtain ⟨_, _, hbefore, hafter, hsame⟩ := hstate
  cases hbefore.symm.trans hrecord
  cases hafter.symm.trans hrecord'
  exact hsame

end Between

/-! ## In process memory -/

section Process

variable [Sha256] {r : ResultId} {operation : OperationIdV1} {digest : LifecycleDigestV1}
  {call : WriterCallV2}

/-- An entry that keeps the operations of another. -/
theorem remembers_setEntry {a : ProcessKeyAuthorityV2} {entry entry' : ProcessAuthorityEntryV2}
    (hentry : a.entries[r]? = some entry)
    (hkept : ∀ (operation : OperationIdV1) known,
      entry.nonceOperations[operation]? = some known →
      entry'.nonceOperations[operation]? = some known)
    (h : Remembers r call a) : Remembers r call (a.setEntry r entry') := by
  intro operation digest hnonce
  obtain ⟨acc, hacc, count, reservation, hrecalled⟩ := h operation digest hnonce
  obtain ⟨_, hsame, rfl⟩ := ProcessKeyAuthorityV2.entry_of_account hacc
  cases hsame.symm.trans hentry
  exact ⟨_, ProcessKeyAuthorityV2.account_setEntry_self a r entry', count, reservation,
    hkept _ _ hrecalled⟩

theorem remembers_mutateRecord {R : Type} {a a' : ProcessKeyAuthorityV2}
    {mutation : ResultAuthorityRecordV2 →
      Except LifecycleRecordErrorV1 (ResultAuthorityRecordV2 × R)} {output : R}
    (hcall : a.mutateRecord r mutation = .ok (a', output)) (h : Remembers r call a) :
    Remembers r call a' := by
  obtain ⟨entry, record, hentry, _, rfl⟩ := ProcessKeyAuthorityV2.mutateRecord_ok hcall
  exact remembers_setEntry hentry (fun _ _ => id) h

/-- The process forgets no nonce operation. -/
theorem remembers_stable : Stable (Remembers (A := ProcessKeyAuthorityV2) r call) := by
  intro q a a' hop h
  by_cases hq : r = q
  · subst hq
    cases hop with
    | begin hcall =>
        rcases AccountableV2.begin_ok hcall with ⟨_, _, _, rfl, _⟩ | ⟨hnone, _⟩
        · exact h
        · intro operation digest hnonce
          obtain ⟨acc, hacc, _⟩ := h operation digest hnonce
          cases hnone.symm.trans hacc
    | reserveNonceRange hcall =>
        obtain ⟨entry, hentry, hcall⟩ := except_bind_eq_ok.mp hcall
        split at hcall
        · split at hcall
          · cases hcall
            exact h
          · cases hcall
        · rename_i hnone
          obtain ⟨_, _, hcall⟩ := except_bind_eq_ok.mp hcall
          cases hcall
          refine remembers_setEntry (okOr_eq_ok.mp hentry) (fun other known hknown => ?_) h
          -- the new operation was unknown
          rw [getElem?_insert, if_neg]
          · exact hknown
          · rintro rfl
            cases hnone.symm.trans hknown
    | completeNonceReservation hcall =>
        obtain ⟨entry, _, hcall⟩ := except_bind_eq_ok.mp hcall
        split at hcall
        · cases hcall
        · split at hcall
          · cases hcall
          · exact remembers_mutateRecord hcall h
    | commitData hcall => exact remembers_mutateRecord hcall h
    | sealResult hcall => exact remembers_mutateRecord hcall h
    | reserveGeneration hcall =>
        intro operation digest hnonce
        rw [show account a' r = account a r from
          ProcessKeyAuthorityV2.reserveGeneration_account hcall r]
        exact h operation digest hnonce
    | publish hcall => exact remembers_mutateRecord hcall h
  · intro operation digest hnonce
    rw [step_other hop hq]
    exact h operation digest hnonce

theorem remembers_survives {A : Type} [KeyAuthorityV2 A] [AccountableV2 A] {q : ResultId}
    (hq : q ≠ r) : Survives (Remembers (A := A) r call) q := by
  intro a a' outcome hdestroy h operation digest hnonce
  rw [(AccountableV2.destroy_account hdestroy).2 r (Ne.symm hq)]
  exact h operation digest hnonce

theorem remembers_completed {a : ProcessKeyAuthorityV2} (h : Completed r operation digest a) :
    ∃ acc, account a r = some acc ∧ acc.Recalls operation digest := by
  obtain ⟨before, transition, _, hcall⟩ := h
  obtain ⟨entry, hentry, hcall⟩ := except_bind_eq_ok.mp hcall
  split at hcall
  · cases hcall
  · rename_i known count reservation hknown
    split at hcall
    · cases hcall
    · rename_i hdigest
      cases not_not.mp hdigest
      obtain ⟨entry', record, hentry', _, rfl⟩ := ProcessKeyAuthorityV2.mutateRecord_ok hcall
      cases hentry'.symm.trans (okOr_eq_ok.mp hentry)
      exact ⟨_, ProcessKeyAuthorityV2.account_setEntry_self before r _, count, reservation,
        hknown⟩

theorem republishes_process (a : ProcessKeyAuthorityV2) : Republishes r a := by
  intro acc hacc hstate hoperation
  have hmutates := ProcessKeyAuthorityV2.mutates_mutateRecord hacc
    (·.publish acc.record.publishOperation acc.record.publicationGeneration
      acc.record.repositoryCommitment)
  rw [ResultAuthorityRecordV2.publish_again hoperation hstate] at hmutates
  exact hmutates

end Process

/-! ## With the keychain -/

section Keychain

variable {r : ResultId}

/-- A published record carries the reservation under which it was published. -/
def PublicationKept (entry : KeychainEntryV2) : Prop :=
  entry.record.state = .published →
    entry.publicationOperation = entry.record.publishOperation ∧
      entry.publicationDigest = entry.record.repositoryCommitment ∧
      entry.publicationGeneration = entry.record.publicationGeneration

def PublicationsKept (a : MacOsKeychainAuthorityV2) : Prop :=
  ∀ (r : ResultId) (entry : KeychainEntryV2), a.entries[r]? = some entry → PublicationKept entry

theorem PublicationKept.withoutNonces {entry entry' : KeychainEntryV2} (h : PublicationKept entry)
    (hsame : entry'.record.withoutNonces = entry.record.withoutNonces)
    (hpublication : entry'.publicationOperation = entry.publicationOperation ∧
      entry'.publicationDigest = entry.publicationDigest ∧
      entry'.publicationGeneration = entry.publicationGeneration) : PublicationKept entry' := by
  intro hstate
  rw [ResultAuthorityRecordV2.state_of_withoutNonces hsame] at hstate
  obtain ⟨hoperation, hdigest, hgeneration⟩ := h hstate
  obtain ⟨hadvance, hgeneration', hcommitment⟩ :=
    (ResultAuthorityRecordV2.advances_of_withoutNonces hsame).published (by rw [hstate]; decide)
  exact ⟨by rw [hpublication.1, hoperation, hadvance],
    by rw [hpublication.2.1, hdigest, hcommitment],
    by rw [hpublication.2.2, hgeneration, hgeneration']⟩

theorem PublicationsKept.setEntry {a : MacOsKeychainAuthorityV2} (h : PublicationsKept a)
    {entry : KeychainEntryV2} (hentry : PublicationKept entry) :
    PublicationsKept (a.setEntry r entry) := by
  intro q found hfound
  rw [MacOsKeychainAuthorityV2.setEntry, getElem?_insert] at hfound
  split at hfound
  · cases hfound
    exact hentry
  · exact h q found hfound

/-- A transition that keeps published records keeps the entry. -/
theorem PublicationsKept.mutateRecord {R : Type} {a a' : MacOsKeychainAuthorityV2}
    {mutation : ResultAuthorityRecordV2 →
      Except LifecycleRecordErrorV1 (ResultAuthorityRecordV2 × R)} {output : R}
    (h : PublicationsKept a)
    (hmutation : ∀ record record' output, mutation record = .ok (record', output) →
      record' = record ∨ record'.state ≠ .published)
    (hcall : a.mutateRecord r mutation = .ok (a', output)) : PublicationsKept a' := by
  obtain ⟨entry, entry', hentry, hrun, rfl⟩ := MacOsKeychainAuthorityV2.mutateEntry_ok hcall
  obtain ⟨⟨record, _⟩, hrecord, hrun⟩ := except_bind_eq_ok.mp hrun
  cases hrun
  refine h.setEntry ?_
  rcases hmutation _ _ _ (mapError_eq_ok.mp hrecord) with rfl | hstate
  · exact h r entry hentry
  · exact fun hpublished => absurd hpublished hstate

theorem publicationsKept_reserve {a a' : MacOsKeychainAuthorityV2} {operation : OperationIdV1}
    {digest : LifecycleDigestV1} {count : Nat} {reservation : NonceReservationV1}
    (h : PublicationsKept a)
    (hcall : a.reserveNonceRange r operation digest count = .ok (a', reservation)) :
    PublicationsKept a' := by
  obtain ⟨entry, entry', hentry, hrun, rfl⟩ := MacOsKeychainAuthorityV2.mutateEntry_ok hcall
  split at hrun
  · obtain ⟨_, _, hpair⟩ := except_map_eq_ok.mp hrun
    cases hpair
    exact h.setEntry (h r entry hentry)
  · split at hrun
    · cases hrun
    · obtain ⟨⟨record, _⟩, hrecord, hrun⟩ := except_bind_eq_ok.mp hrun
      cases hrun
      exact h.setEntry ((h r entry hentry).withoutNonces
        (ResultAuthorityRecordV2.reservePendingNonceRange_withoutNonces
          (mapError_eq_ok.mp hrecord)) ⟨rfl, rfl, rfl⟩)

theorem publicationsKept_complete {a a' : MacOsKeychainAuthorityV2} {operation : OperationIdV1}
    {digest : LifecycleDigestV1} {transition : LifecycleTransitionV1} (h : PublicationsKept a)
    (hcall : a.completeNonceReservation r operation digest = .ok (a', transition)) :
    PublicationsKept a' := by
  obtain ⟨entry, entry', hentry, hrun, rfl⟩ := MacOsKeychainAuthorityV2.mutateEntry_ok hcall
  split at hrun
  · cases hrun
  · obtain ⟨⟨record, _⟩, hrecord, hrun⟩ := except_bind_eq_ok.mp hrun
    cases hrun
    exact h.setEntry ((h r entry hentry).withoutNonces
      (ResultAuthorityRecordV2.completePendingNonceRange_withoutNonces
        (mapError_eq_ok.mp hrecord)) ⟨rfl, rfl, rfl⟩)

theorem publicationsKept_publish {a a' : MacOsKeychainAuthorityV2} {operation : OperationIdV1}
    {generation : Nat} {digest : LifecycleDigestV1} {transition : LifecycleTransitionV1}
    (h : PublicationsKept a)
    (hcall : a.publish r operation generation digest = .ok (a', transition)) :
    PublicationsKept a' := by
  obtain ⟨entry, entry', hentry, hrun, rfl⟩ := MacOsKeychainAuthorityV2.mutateEntry_ok hcall
  split at hrun
  · cases hrun
  · rename_i hreserved
    push Not at hreserved
    obtain ⟨⟨record, _⟩, hrecord, hrun⟩ := except_bind_eq_ok.mp hrun
    cases hrun
    obtain ⟨_, _, hoperation, hgeneration, hdigest⟩ :=
      ResultAuthorityRecordV2.publish_fields (mapError_eq_ok.mp hrecord)
    exact h.setEntry fun _ => ⟨hreserved.1.trans hoperation.symm, hreserved.2.1.trans hdigest.symm,
      hreserved.2.2.trans hgeneration.symm⟩

theorem publicationsKept_begin {a a' : MacOsKeychainAuthorityV2} {entropy : EntropyV2}
    {created expires : Int} {operation : OperationIdV1} {digest : LifecycleDigestV1}
    {record : ResultAuthorityRecordV2} {transition : LifecycleTransitionV1}
    (h : PublicationsKept a)
    (hcall : a.begin entropy r created expires operation digest =
      .ok (a', record, transition)) : PublicationsKept a' := by
  unfold MacOsKeychainAuthorityV2.begin at hcall
  split at hcall
  · split at hcall
    · cases hcall
      exact h
    · cases hcall
  · obtain ⟨_, _, hcall⟩ := except_bind_eq_ok.mp hcall
    split at hcall
    · cases hcall
    · obtain ⟨_, _, hcall⟩ := except_bind_eq_ok.mp hcall
      dsimp only at hcall
      split at hcall
      · cases hcall
      · obtain ⟨_, hopened, hcall⟩ := except_bind_eq_ok.mp hcall
        cases hcall
        have hstate := (ResultAuthorityRecordV2.newOpen_ok (mapError_eq_ok.mp hopened)).1
        refine h.setEntry fun hpublished => ?_
        cases hstate.symm.trans hpublished
  · cases hcall

theorem publicationsKept_generation {a a' : MacOsKeychainAuthorityV2} {operation : OperationIdV1}
    {digest : LifecycleDigestV1} {generation : Nat} (h : PublicationsKept a)
    (hcall : a.reservePublicationGeneration r operation digest = .ok (a', generation)) :
    PublicationsKept a' := by
  unfold MacOsKeychainAuthorityV2.reservePublicationGeneration at hcall
  split at hcall
  · cases hcall
  · obtain ⟨entry, hentry, hcall⟩ := except_bind_eq_ok.mp hcall
    split at hcall
    · cases hcall
    · rename_i hsealed
      split at hcall
      · split at hcall
        · split at hcall <;> cases hcall <;> exact h
        · cases hcall
      · obtain ⟨_, _, hcall⟩ := except_bind_eq_ok.mp hcall
        obtain ⟨_, _, hcall⟩ := except_bind_eq_ok.mp hcall
        cases hcall
        refine h.setEntry (r := r) fun hpublished => ?_
        exact absurd (hpublished.symm.trans (not_not.mp hsealed)) (by decide)

theorem publicationsKept_survives (q : ResultId) : Survives PublicationsKept q := by
  intro a a' outcome hdestroy h r entry hentry
  replace hdestroy : a.destroy q = .ok (a', outcome) := hdestroy
  unfold MacOsKeychainAuthorityV2.destroy at hdestroy
  split at hdestroy
  · cases hdestroy
    rw [getElem?_erase] at hentry
    split at hentry
    · cases hentry
    · exact h r entry hentry
  · cases hdestroy
    exact h r entry hentry

variable [Sha256]

theorem publicationsKept_stable : Stable PublicationsKept := by
  intro q a a' hop h
  cases hop with
  | begin hcall => exact publicationsKept_begin h hcall
  | reserveNonceRange hcall => exact publicationsKept_reserve h hcall
  | completeNonceReservation hcall => exact publicationsKept_complete h hcall
  | commitData hcall =>
      refine h.mutateRecord (fun record record' _ hcommit => ?_) hcall
      obtain ⟨_, ⟨_, rfl⟩ | ⟨_, _, rfl⟩⟩ := ResultAuthorityRecordV2.commitData_ok hcommit
      · exact .inl rfl
      · exact .inr (by simp)
  | sealResult hcall =>
      refine h.mutateRecord (fun record record' _ hseal => ?_) hcall
      obtain ⟨_, ⟨_, rfl⟩ | ⟨_, rfl⟩⟩ := ResultAuthorityRecordV2.seal_ok hseal
      · exact .inl rfl
      · exact .inr (by simp)
  | reserveGeneration hcall => exact publicationsKept_generation h hcall
  | publish hcall => exact publicationsKept_publish h hcall

theorem republishes_keychain {a : MacOsKeychainAuthorityV2} (h : PublicationsKept a) :
    Republishes r a := by
  intro acc hacc hstate hoperation
  obtain ⟨entry, hentry, hreadable, rfl⟩ := MacOsKeychainAuthorityV2.account_eq_some.mp hacc
  obtain ⟨hpublication, hdigest, hgeneration⟩ := h r entry hentry hstate
  refine ⟨a, ?_, hacc⟩
  show a.publish r entry.record.publishOperation entry.record.publicationGeneration
    entry.record.repositoryCommitment = _
  unfold MacOsKeychainAuthorityV2.publish MacOsKeychainAuthorityV2.mutateEntry
  rw [MacOsKeychainAuthorityV2.getEntry_eq_ok.mpr ⟨hentry, hreadable⟩, except_bind_ok]
  beta_reduce
  rw [if_neg (by simp [hpublication, hdigest, hgeneration]),
    show entry.record.publish entry.record.publishOperation entry.record.publicationGeneration
      entry.record.repositoryCommitment = _ from
      ResultAuthorityRecordV2.publish_again hoperation hstate]
  show Except.ok (a.setEntry r entry, _) = _
  rw [MacOsKeychainAuthorityV2.setEntry_same hentry]

end Keychain

/-! ## Both authorities -/

section Authorities

variable [Sha256] [SnapshotFormatV2]

/-- With either authority, a call of the writer that succeeded is retried
exactly while the result is in the state it was left in, after any further
calls that succeed, unless an event of its batch cannot be read back or a
`begin` finds a final directory. With the keychain, the nonce operation of a
retried `begin` or batch must also be the last one. -/
theorem exact_retry_is_idempotent (capacity : Nat) (r : ResultId)
    (before between : List CommandV2) (call : WriterCallV2)
    (faults : DurableRepositoryFaultPointV2 → Bool) (stops : PublishPointV2 → Bool)
    (entropy : EntropyV2) (outcome : WriterOutcomeV2) (hdecodes : Decodes call) :
    (∀ (authority : ProcessKeyAuthorityV2) (s₁ s₂ : RepositoryV2 ProcessKeyAuthorityV2),
      ProcessKeyAuthorityV2.new capacity = .ok authority →
      Follows (fun s command => ¬BeginsOver r s command) { authority } before →
      ¬BeginsOver r (run { authority } before) (call.command faults stops entropy r) →
      call.perform faults stops entropy r (run { authority } before) = (.ok outcome, s₁) →
      Follows (fun s command => ¬BeginsOver r s command ∧ ¬MayDestroy r s command ∧
        succeeds s command = true) s₁ between →
      s₂ = s₁.run between → SameState r s₁ s₂ →
      (∀ entropy, ¬BeginsOver r s₂ (call.command noFaults (fun _ => false) entropy r)) →
      RetriesExactly r call outcome.acknowledgements s₂) ∧
    (∀ (authority : MacOsKeychainAuthorityV2) (s₁ s₂ : RepositoryV2 MacOsKeychainAuthorityV2),
      MacOsKeychainAuthorityV2.new capacity = .ok authority →
      Follows (Undisturbed r) { authority } before →
      Undisturbed r (run { authority } before) (call.command faults stops entropy r) →
      call.perform faults stops entropy r (run { authority } before) = (.ok outcome, s₁) →
      Follows (Continues r) s₁ between → s₂ = s₁.run between → SameState r s₁ s₂ →
      (∀ entropy, ¬BeginsOver r s₂ (call.command noFaults (fun _ => false) entropy r)) →
      Remembers r call s₂.authority → RetriesExactly r call outcome.acknowledgements s₂) := by
  refine ⟨?_, ?_⟩
  · intro authority s₁ s₂ hnew hbefore hover₀ hcall hbetween hs₂ hstate hover
    have hempty : ∀ q, account authority q = none ∧ stored authority q = none := by
      unfold ProcessKeyAuthorityV2.new at hnew
      split at hnew
      · cases hnew
      · cases hnew
        exact fun q => ⟨rfl, rfl⟩
    refine retries_after_run (P := Remembers r call) (sound_new hnew) (fun q => (hempty q).1)
      (hempty r).2 (hbefore.mono fun s _ h => ⟨allAdmitted_process s, h⟩)
      ⟨allAdmitted_process _, hover₀⟩ hcall hdecodes
      (hbetween.mono fun s _ h => ⟨⟨allAdmitted_process s, h.1⟩, h.2⟩) hs₂ hstate hover
      remembers_stable (fun q hq => remembers_survives hq)
      (fun hcompleted operation digest hnonce => ?_) id (republishes_process _)
    exact remembers_completed (hcompleted operation digest hnonce)
  · intro authority s₁ s₂ hnew hbefore hundisturbed hcall hbetween hs₂ hstate hover hremembers
    obtain ⟨hsound, hempty, hkept⟩ : Sound authority ∧
        (∀ q, account authority q = none ∧ stored authority q = none) ∧
        PublicationsKept authority := by
      unfold MacOsKeychainAuthorityV2.new at hnew
      split at hnew
      · cases hnew
      · cases hnew
        refine ⟨?_, fun q => ⟨rfl, rfl⟩, ?_⟩
        · intro q entry hentry
          simp at hentry
        · intro q entry hentry
          simp at hentry
    refine retries_after_run (P := fun _ => True) hsound (fun q => (hempty q).1) (hempty r).2
      hbefore hundisturbed hcall hdecodes hbetween hs₂ hstate hover (fun _ _ => trivial)
      (fun _ _ => fun _ _ => trivial) (fun _ => trivial) (fun _ => hremembers)
      (republishes_keychain ?_)
    rw [hs₂]
    refine run_stable publicationsKept_stable publicationsKept_survives between ?_
    have hstep : s₁ = (run { authority } before).step (call.command faults stops entropy r) := by
      rw [← WriterCallV2.perform_step, hcall]
    rw [hstep]
    exact step_stable publicationsKept_stable publicationsKept_survives
      (run_stable publicationsKept_stable publicationsKept_survives before hkept) _

end Authorities

/-! ## One retry after a batch -/

def sampleBeginCall : WriterCallV2 := .begin 0 1000 (.repeated 1) [1]

/-- The call with no fault and a fixed key. -/
def attempt {A : Type} [KeyAuthorityV2 A] [Sha256] [SnapshotFormatV2] (call : WriterCallV2)
    (s : RepositoryV2 A) : Except DurableRepositoryErrorV2 WriterOutcomeV2 × RepositoryV2 A :=
  call.perform noFaults (fun _ => false) (some (.repeated 1, .repeated 2)) sampleResult s

def sampleBatchCommand : CommandV2 := .commitBatch noFaults sampleResult sampleBatch

/-- The last nonce operation of the keychain entry. -/
def lastNonce (a : MacOsKeychainAuthorityV2) (r : ResultId) (operation : OperationIdV1)
    (digest : LifecycleDigestV1) : Bool :=
  match a.getEntry r with
  | .ok entry => entry.lastNonceOperation.isZero = false &&
      entry.lastNonceOperation = operation && entry.lastNonceDigest = digest
  | .error _ => false

theorem recalls_of_lastNonce [Sha256] {a : MacOsKeychainAuthorityV2} {r : ResultId}
    {operation : OperationIdV1} {digest : LifecycleDigestV1}
    (h : lastNonce a r operation digest = true) :
    ∃ acc, account a r = some acc ∧ acc.Recalls operation digest := by
  unfold lastNonce at h
  split at h
  · rename_i entry hentry
    simp only [Bool.and_eq_true, decide_eq_true_eq] at h
    obtain ⟨⟨hzero, rfl⟩, rfl⟩ := h
    obtain ⟨hfound, hreadable⟩ := MacOsKeychainAuthorityV2.getEntry_eq_ok.mp hentry
    exact ⟨_, MacOsKeychainAuthorityV2.account_eq_some.mpr ⟨entry, hfound, hreadable, rfl⟩, _, _,
      if_pos ⟨hzero, rfl⟩⟩
  · cases h

theorem retryRun_outcome :
    letI := fips180
    letI := plainFormat
    ((attempt sampleBeginCall emptyRoot).1 = .ok ⟨.applied, []⟩ ∧
      succeeds (attempt sampleBeginCall emptyRoot).2 sampleBatchCommand = true ∧
      life (attempt sampleBeginCall emptyRoot).2 sampleResult = some (.opened, 0, 1000) ∧
      life ((attempt sampleBeginCall emptyRoot).2.run [sampleBatchCommand]) sampleResult =
        some (.opened, 0, 1000) ∧
      ((attempt sampleBeginCall emptyRoot).2.run [sampleBatchCommand]).finals[sampleResult]? =
        none) ∧
    ((attempt sampleBeginCall emptyKeychain).1 = .ok ⟨.applied, []⟩ ∧
      succeeds (attempt sampleBeginCall emptyKeychain).2 sampleBatchCommand = true ∧
      life (attempt sampleBeginCall emptyKeychain).2 sampleResult = some (.opened, 0, 1000) ∧
      life ((attempt sampleBeginCall emptyKeychain).2.run [sampleBatchCommand]) sampleResult =
        some (.opened, 0, 1000) ∧
      (attempt sampleBeginCall ((attempt sampleBeginCall emptyKeychain).2.run
        [sampleBatchCommand])).1 = .error .operationConflict) ∧
    ((attempt (.commitBatch sampleBatch) (emptyKeychain.run [sampleBegin])).1 =
        .ok ⟨.applied, acknowledgementsOf sampleBatch⟩ ∧
      life (attempt (.commitBatch sampleBatch) (emptyKeychain.run [sampleBegin])).2 sampleResult =
        some (.opened, 0, 1000) ∧
      lastNonce (attempt (.commitBatch sampleBatch) (emptyKeychain.run [sampleBegin])).2.authority
        sampleResult sampleBatch.operation (digestBatch sampleBatch) = true ∧
      emptyKeychain.keychainAdmitted = true ∧
      (emptyKeychain.run [sampleBegin]).keychainAdmitted = true) := by
  rw [fips180_eq]
  decide +kernel

/-- With the keychain, the retry of a `begin` after the first batch is refused:
the batch's nonces have taken the place of its own. -/
theorem keychain_forgets_begin :
    letI := fips180
    letI := plainFormat
    let s₁ := (attempt sampleBeginCall emptyKeychain).2
    let s₂ := s₁.run [sampleBatchCommand]
    (attempt sampleBeginCall emptyKeychain).1 = .ok ⟨.applied, []⟩ ∧
      succeeds s₁ sampleBatchCommand = true ∧
      life s₁ sampleResult = some (.opened, 0, 1000) ∧
      life s₂ sampleResult = some (.opened, 0, 1000) ∧
      (attempt sampleBeginCall s₂).1 = .error .operationConflict :=
  retryRun_outcome.2.1

theorem sameState_of_life {A : Type} [KeyAuthorityV2 A] {s s' : RepositoryV2 A} {r : ResultId}
    {state : ResultLifecycleStateV1} {created expires : Int}
    (h : s.life r = some (state, created, expires))
    (h' : s'.life r = some (state, created, expires)) : SameState r s s' := by
  obtain ⟨record, hrecord, hstate, _⟩ := life_eq_some h
  obtain ⟨record', hrecord', hstate', _⟩ := life_eq_some h'
  exact ⟨record, record', hrecord, hrecord', hstate'.trans hstate.symm⟩

/-- In process memory the same retry is exact, and with the keychain that of
the last batch. -/
theorem exact_retry_is_idempotent_sample :
    letI := fips180
    letI := plainFormat
    RetriesExactly sampleResult sampleBeginCall []
        ((attempt sampleBeginCall emptyRoot).2.run [sampleBatchCommand]) ∧
      RetriesExactly sampleResult (.commitBatch sampleBatch) (acknowledgementsOf sampleBatch)
        (attempt (.commitBatch sampleBatch) (emptyKeychain.run [sampleBegin])).2 := by
  let := fips180
  let := plainFormat
  obtain ⟨⟨hbegun, hbatch, hlife₁, hlife₂, hfinal⟩, _, hcommitted, hlife, hlast, hadmitted₀,
    hadmitted⟩ := retryRun_outcome
  have hbegin : attempt sampleBeginCall emptyRoot =
      (.ok ⟨.applied, []⟩, (attempt sampleBeginCall emptyRoot).2) := by rw [← hbegun]
  have hcommit : attempt (.commitBatch sampleBatch) (emptyKeychain.run [sampleBegin]) =
      (.ok ⟨.applied, acknowledgementsOf sampleBatch⟩,
        (attempt (.commitBatch sampleBatch) (emptyKeychain.run [sampleBegin])).2) := by
    rw [← hcommitted]
  have hdecodes : Decodes (.commitBatch sampleBatch) := by
    intro event hevent
    rw [List.mem_singleton.mp hevent]
    rfl
  refine ⟨?_, ?_⟩
  · refine (exact_retry_is_idempotent 1 sampleResult [] [sampleBatchCommand] sampleBeginCall
      noFaults (fun _ => false) (some (.repeated 1, .repeated 2)) ⟨.applied, []⟩ trivial).1
      emptyRoot.authority _ _ rfl trivial ?_ hbegin
      ⟨⟨id, id, hbatch⟩, trivial⟩ rfl (sameState_of_life hlife₁ hlife₂) ?_
    · rintro ⟨_, hsome, _⟩
      simp [run] at hsome
    · rintro _ ⟨_, hsome, _⟩
      rw [hfinal] at hsome
      cases hsome
  · refine (exact_retry_is_idempotent 1 sampleResult [sampleBegin] [] (.commitBatch sampleBatch)
      noFaults (fun _ => false) (some (.repeated 1, .repeated 2))
      ⟨.applied, acknowledgementsOf sampleBatch⟩ hdecodes).2
      emptyKeychain.authority _ _ rfl ⟨⟨allAdmitted_keychain hadmitted₀, ?_⟩, trivial⟩
      ⟨allAdmitted_keychain hadmitted, id⟩ hcommit trivial rfl
      (sameState_of_life hlife hlife) (fun _ => id) ?_
    · rintro ⟨_, hsome, _⟩
      simp at hsome
    · intro operation digest hnonce
      cases hnonce
      exact recalls_of_lastNonce hlast

end RepositoryV2

end Evidentrail
