import Mathlib.Data.List.Infix
import Evidentrail.Store.Intact

/-!
# Results only grow

As long as a result is not destroyed, its record only goes forward and its
files stay: what a call has checked or written once is found again by every
later call, in whichever directory the result is then.
-/

namespace Evidentrail

open Rust Std Slice Attempt KeyAuthorityV2 LawfulKeyAuthorityV2

/-! ## Records and directories -/

namespace ResultAuthorityRecordV2

/-- The fields of every state that was reached are final. -/
structure Advances (r r' : ResultAuthorityRecordV2) : Prop where
  begun : r'.createdUnixNanos = r.createdUnixNanos ∧ r'.expiresUnixNanos = r.expiresUnixNanos ∧
    r'.beginOperation = r.beginOperation ∧ r'.beginDigest = r.beginDigest
  rank : r.state.rank ≤ r'.state.rank
  data : 1 ≤ r.state.rank → r'.dataOperation = r.dataOperation ∧
    r'.dataDigest = r.dataDigest ∧ r'.buildContext = r.buildContext
  sealed : 2 ≤ r.state.rank →
    r'.sealOperation = r.sealOperation ∧ r'.sealCommitments = r.sealCommitments
  published : 3 ≤ r.state.rank → r'.publishOperation = r.publishOperation ∧
    r'.publicationGeneration = r.publicationGeneration ∧
    r'.repositoryCommitment = r.repositoryCommitment

variable {r r' r'' : ResultAuthorityRecordV2}

theorem Advances.refl (r : ResultAuthorityRecordV2) : r.Advances r :=
  ⟨⟨rfl, rfl, rfl, rfl⟩, Nat.le_refl _, fun _ => ⟨rfl, rfl, rfl⟩, fun _ => ⟨rfl, rfl⟩,
    fun _ => ⟨rfl, rfl, rfl⟩⟩

theorem Advances.trans (h : r.Advances r') (h' : r'.Advances r'') : r.Advances r'' := by
  refine ⟨?_, h.rank.trans h'.rank, fun hr => ?_, fun hr => ?_, fun hr => ?_⟩
  · obtain ⟨h₁, h₂, h₃, h₄⟩ := h.begun
    obtain ⟨h₁', h₂', h₃', h₄'⟩ := h'.begun
    exact ⟨h₁'.trans h₁, h₂'.trans h₂, h₃'.trans h₃, h₄'.trans h₄⟩
  · obtain ⟨h₁, h₂, h₃⟩ := h.data hr
    obtain ⟨h₁', h₂', h₃'⟩ := h'.data (hr.trans h.rank)
    exact ⟨h₁'.trans h₁, h₂'.trans h₂, h₃'.trans h₃⟩
  · obtain ⟨h₁, h₂⟩ := h.sealed hr
    obtain ⟨h₁', h₂'⟩ := h'.sealed (hr.trans h.rank)
    exact ⟨h₁'.trans h₁, h₂'.trans h₂⟩
  · obtain ⟨h₁, h₂, h₃⟩ := h.published hr
    obtain ⟨h₁', h₂', h₃'⟩ := h'.published (hr.trans h.rank)
    exact ⟨h₁'.trans h₁, h₂'.trans h₂, h₃'.trans h₃⟩

theorem advances_of_withoutNonces (h : r'.withoutNonces = r.withoutNonces) : r.Advances r' := by
  have hfield : ∀ {α : Type} (f : ResultAuthorityRecordV2 → α),
      (∀ x : ResultAuthorityRecordV2, f x.withoutNonces = f x) → f r' = f r := by
    intro α f hf
    rw [← hf r', h, hf r]
  refine ⟨⟨hfield _ fun _ => rfl, hfield _ fun _ => rfl, hfield _ fun _ => rfl,
    hfield _ fun _ => rfl⟩, Nat.le_of_eq ?_, fun _ => ⟨hfield _ fun _ => rfl,
    hfield _ fun _ => rfl, hfield _ fun _ => rfl⟩, fun _ => ⟨hfield _ fun _ => rfl,
    hfield _ fun _ => rfl⟩, fun _ => ⟨hfield _ fun _ => rfl, hfield _ fun _ => rfl,
    hfield _ fun _ => rfl⟩⟩
  rw [state_of_withoutNonces h]

theorem advances_commitData [Sha256] {operation : OperationIdV1} {digest : LifecycleDigestV1}
    {buildContext : BuildContextDigestsV1} {transition : LifecycleTransitionV1}
    (h : r.commitData operation digest buildContext = .ok (r', transition)) :
    r.Advances r' := by
  obtain ⟨_, ⟨_, rfl⟩ | ⟨hstate, _, rfl⟩⟩ := commitData_ok h
  · exact .refl _
  · refine ⟨⟨rfl, rfl, rfl, rfl⟩, ?_, fun hr => ?_, fun hr => ?_, fun hr => ?_⟩
    · rw [hstate]
      exact Nat.zero_le _
    all_goals rw [hstate] at hr; exact absurd hr (by decide)

theorem advances_seal {operation : OperationIdV1} {commitments : SealCommitmentsV1}
    {transition : LifecycleTransitionV1}
    (h : r.seal operation commitments = .ok (r', transition)) : r.Advances r' := by
  obtain ⟨_, ⟨_, rfl⟩ | ⟨hstate, rfl⟩⟩ := seal_ok h
  · exact .refl _
  · refine ⟨⟨rfl, rfl, rfl, rfl⟩, ?_, fun _ => ⟨rfl, rfl, rfl⟩, fun hr => ?_, fun hr => ?_⟩
    · rw [hstate]
      exact Nat.le_succ 1
    all_goals rw [hstate] at hr; exact absurd hr (by decide)

theorem advances_publish {operation : OperationIdV1} {generation : Nat}
    {digest : LifecycleDigestV1} {transition : LifecycleTransitionV1}
    (h : r.publish operation generation digest = .ok (r', transition)) : r.Advances r' := by
  obtain ⟨_, ⟨_, rfl⟩ | ⟨hstate, _, _, rfl⟩⟩ := publish_ok h
  · exact .refl _
  · refine ⟨⟨rfl, rfl, rfl, rfl⟩, ?_, fun _ => ⟨rfl, rfl, rfl⟩, fun _ => ⟨rfl, rfl⟩,
      fun hr => ?_⟩
    · rw [hstate]
      exact Nat.le_succ 2
    · rw [hstate] at hr
      exact absurd hr (by decide)

end ResultAuthorityRecordV2

namespace ResultDirectoryV2

/-- Files that were there are still there, and batches come after batches. -/
structure Extends (d d' : ResultDirectoryV2) : Prop where
  lock : d.resultLock = true → d'.resultLock = true
  request : ∀ segment, d.request = some segment → d'.request = some segment
  batches : d.batches <+: d'.batches
  dataCommit : ∀ segment, d.dataCommit = some segment → d'.dataCommit = some segment
  sealedProducts : ∀ segment, d.sealedProducts = some segment →
    d'.sealedProducts = some segment

variable {d d' d'' : ResultDirectoryV2}

theorem Extends.refl (d : ResultDirectoryV2) : d.Extends d :=
  ⟨id, fun _ => id, List.prefix_refl _, fun _ => id, fun _ => id⟩

theorem Extends.trans (h : d.Extends d') (h' : d'.Extends d'') : d.Extends d'' :=
  ⟨h'.lock ∘ h.lock, fun x hx => h'.request x (h.request x hx), h.batches.trans h'.batches,
    fun x hx => h'.dataCommit x (h.dataCommit x hx),
    fun x hx => h'.sealedProducts x (h.sealedProducts x hx)⟩

end ResultDirectoryV2

/-! ## Results -/

namespace RepositoryV2

theorem storageOf_of_staging {A : Type} {r : ResultId} {d : ResultDirectoryV2}
    {s : RepositoryV2 A} (h : s.staging[r]? = some d) : s.storageOf r = some d := by
  rw [storageOf, h]

section Growth

variable {A : Type} [KeyAuthorityV2 A] [Sha256] [LawfulKeyAuthorityV2 A]
  {r : ResultId} {record : ResultAuthorityRecordV2} {key : ResultDekV1}
  {d : ResultDirectoryV2} {s s' s'' : RepositoryV2 A}

/-- A result with its record, its key and its directory. -/
structure Holds (r : ResultId) (record : ResultAuthorityRecordV2) (key : ResultDekV1)
    (d : ResultDirectoryV2) (s : RepositoryV2 A) : Prop where
  stored : LawfulKeyAuthorityV2.stored s.authority r = some (record, key)
  storage : s.storageOf r = some d

/-- The result has gone forward from this record and this directory. -/
def GrownFrom (r : ResultId) (record : ResultAuthorityRecordV2) (key : ResultDekV1)
    (d : ResultDirectoryV2) (s : RepositoryV2 A) : Prop :=
  ∃ record' d', Holds r record' key d' s ∧ record.Advances record' ∧ d.Extends d'

theorem Holds.grown (h : Holds r record key d s) : GrownFrom r record key d s :=
  ⟨record, d, h, .refl _, .refl _⟩

theorem GrownFrom.of_frame (hframe : Frame r s s') (h : GrownFrom r record key d s) :
    GrownFrom r record key d s' := by
  obtain ⟨record', d', ⟨hstored, hstorage⟩, hgrown⟩ := h
  refine ⟨record', d', ⟨hframe.stored.trans hstored, ?_⟩, hgrown⟩
  rw [storageOf, hframe.staging, hframe.final]
  exact hstorage

variable [SnapshotFormatV2] {S : Prop}

theorem RecordEffect.advances {value : Option (ResultAuthorityRecordV2 × ResultDekV1)}
    (heffect : RecordEffect always False S r s value) (h : Intact r s)
    (hd : Holds r record key d s) :
    ∃ record', value = some (record', key) ∧ record.Advances record' := by
  have hsame : ∀ {before key'}, stored s.authority r = some (before, key') →
      before = record ∧ key' = key := by
    intro before key' hbefore
    cases hbefore.symm.trans hd.stored
    exact ⟨rfl, rfl⟩
  cases heffect with
  | fresh hnone _ _ => cases hnone.symm.trans hd.stored
  | nonces hbefore _ hnonces _ =>
      obtain ⟨rfl, rfl⟩ := hsame hbefore
      exact ⟨_, rfl, ResultAuthorityRecordV2.advances_of_withoutNonces hnonces⟩
  | commitData hbefore hcommit _ =>
      obtain ⟨rfl, rfl⟩ := hsame hbefore
      exact ⟨_, rfl, ResultAuthorityRecordV2.advances_commitData hcommit⟩
  | sealResult hbefore hseal _ =>
      obtain ⟨rfl, rfl⟩ := hsame hbefore
      exact ⟨_, rfl, ResultAuthorityRecordV2.advances_seal hseal⟩
  | publish hbefore hpublish _ =>
      obtain ⟨rfl, rfl⟩ := hsame hbefore
      exact ⟨_, rfl, ResultAuthorityRecordV2.advances_publish hpublish⟩
  | destroyed hallowed =>
      rcases hallowed _ _ hd.stored with ⟨hopen, hstaging⟩ | hnever
      · -- an open result without a staging directory has none at all
        have hfinal := (Stage.opened hopen).mp (h.stage _ _ hd.stored)
        have hstorage := hd.storage
        rw [storageOf, hstaging, hfinal] at hstorage
        cases hstorage
      · exact hnever.elim

theorem DirectoryEffect.extends {d' : ResultDirectoryV2}
    (heffect : DirectoryEffect always r s record key d') (hd : Holds r record key d s) :
    d.Extends d' := by
  have hsame : ∀ {d₀}, s.staging[r]? = some d₀ → d₀ = d := by
    intro d₀ hd₀
    exact Option.some.inj ((storageOf_of_staging hd₀).symm.trans hd.storage)
  cases heffect with
  | make hstaging hclear =>
      have hstorage := hd.storage
      rw [storageOf, hstaging, hclear trivial] at hstorage
      cases hstorage
  | lock hstaging =>
      cases hsame hstaging
      exact ⟨fun _ => rfl, fun _ => id, List.prefix_refl _, fun _ => id, fun _ => id⟩
  | request hstaging hnone =>
      cases hsame hstaging
      exact ⟨id, fun _ h => (by cases hnone.symm.trans h), List.prefix_refl _, fun _ => id,
        fun _ => id⟩
  | batch _ hstaging =>
      cases hsame hstaging
      exact ⟨id, fun _ => id, List.prefix_append _ _, fun _ => id, fun _ => id⟩
  | dataCommit _ hstaging hnone _ =>
      cases hsame hstaging
      exact ⟨id, fun _ => id, List.prefix_refl _, fun _ h => (by cases hnone.symm.trans h),
        fun _ => id⟩
  | sealedProducts _ hstaging hnone _ =>
      cases hsame hstaging
      exact ⟨id, fun _ => id, List.prefix_refl _, fun _ => id,
        fun _ h => by cases hnone.symm.trans h⟩
  | commitment _ hstaging hcommitment =>
      cases hsame hstaging
      rw [ensureCommitment_ok hcommitment]
      exact ⟨id, fun _ => id, List.prefix_refl _, fun _ => id, fun _ => id⟩

theorem Effect.grows (heffect : Effect always False S r s s') (h : Intact r s)
    (hd : Holds r record key d s) : GrownFrom r record key d s' := by
  cases heffect with
  | record hstep heffect =>
      obtain ⟨record', rfl, hadvances⟩ := heffect.advances h hd
      exact ⟨record', d, ⟨by rw [hstep.stored_eq, Function.update_self], hd.storage⟩,
        hadvances, .refl _⟩
  | reserve _ _ _ hsame => exact Holds.grown ⟨(congrFun hsame r).trans hd.stored, hd.storage⟩
  | @staging _ _ d' hstored heffect =>
      cases hstored.symm.trans hd.stored
      exact ⟨record, d', ⟨hd.stored, by simp [storageOf]⟩, .refl _, heffect.extends hd⟩
  | @install _ _ d' _ _ hstaging _ _ _ =>
      have hsame : d' = d := Option.some.inj ((storageOf_of_staging hstaging).symm.trans hd.storage)
      exact Holds.grown ⟨hd.stored, by simp [storageOf, hsame]⟩
  | quarantine hmisplaced _ _ _ => exact absurd hmisplaced (h.not_misplaced hd.stored)
  | remove hnone => cases hnone.symm.trans hd.stored

/-- Moves that do not destroy the result let it grow. -/
theorem Moves.grows (hmoves : Moves always False r s s') (h : Intact r s)
    (hd : GrownFrom r record key d s) : Intact r s' ∧ GrownFrom r record key d s' := by
  refine hmoves.invariant (I := fun s => Intact r s ∧ GrownFrom r record key d s)
    (fun hframe hs => ⟨hs.1.of_frame hframe, hs.2.of_frame hframe⟩) (fun heffect hs => ?_) ⟨h, hd⟩
  obtain ⟨hintact, record₁, d₁, hd₁, hadvances, hextends⟩ := hs
  obtain ⟨record₂, d₂, hd₂, hadvances', hextends'⟩ := heffect.grows hintact hd₁
  exact ⟨heffect.intact hintact, record₂, d₂, hd₂, hadvances.trans hadvances',
    hextends.trans hextends'⟩

end Growth

end RepositoryV2

end Evidentrail
