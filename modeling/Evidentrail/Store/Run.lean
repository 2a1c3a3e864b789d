import Evidentrail.Store.Effects

/-!
# Runs of the repository

A run is any sequence of calls, with any arguments, on any results, each of
which may stop half way. Seen from one result, a call is a sequence of moves:
effects on that result, or effects on another one, which leave it alone.
-/

namespace Evidentrail

open Rust Std Slice Attempt KeyAuthorityV2 LawfulKeyAuthorityV2

inductive CommandV2 where
  | begin (faults : DurableRepositoryFaultPointV2 → Bool) (entropy : EntropyV2)
      (resultId : ResultId) (created expires : Int) (operation : OperationIdV1)
      (request : List UInt8)
  | commitBatch (faults : DurableRepositoryFaultPointV2 → Bool) (resultId : ResultId)
      (input : BatchCommitInputV2)
  | commitData (faults : DurableRepositoryFaultPointV2 → Bool) (resultId : ResultId)
      (input : DataCommitInputV2)
  | sealResult (faults : DurableRepositoryFaultPointV2 → Bool) (resultId : ResultId)
      (input : SealInputV2)
  | publish (stops : PublishPointV2 → Bool) (resultId : ResultId) (operation : OperationIdV1)
  | expand (resultId : ResultId) (eventIds : List EventId) (maxEvents maxBytes : Nat)
      (now : Int)
  | recover (resultId : ResultId) (now : Int) (context : Option BuildContextDigestsV1)
  | recoverAll (now : Int) (context : ResultId → Option BuildContextDigestsV1)
  | destroy (faults : DurableRepositoryFaultPointV2 → Bool) (resultId : ResultId)

namespace RepositoryV2

variable {A : Type} [KeyAuthorityV2 A]

theorem activeResults_nodup {s : RepositoryV2 A} {resultIds : List ResultId}
    (h : s.activeResults = .ok resultIds) : resultIds.Nodup := by
  obtain ⟨records, _, h⟩ := except_bind_eq_ok.mp h
  cases h
  exact ExtTreeSet.distinct_toList.imp fun hne heq => hne (by rw [heq]; exact ReflCmp.compare_self)

variable [Sha256]

section Frame

variable [LawfulKeyAuthorityV2 A]

/-- Nothing of the result `r` changed. -/
structure Frame (r : ResultId) (s s' : RepositoryV2 A) : Prop where
  stored : stored s'.authority r = stored s.authority r
  staging : s'.staging[r]? = s.staging[r]?
  final : s'.finals[r]? = s.finals[r]?

theorem Frame.refl (r : ResultId) (s : RepositoryV2 A) : Frame r s s := ⟨rfl, rfl, rfl⟩

theorem Frame.trans {r : ResultId} {s₁ s₂ s₃ : RepositoryV2 A} (h : Frame r s₁ s₂)
    (h' : Frame r s₂ s₃) : Frame r s₁ s₃ :=
  ⟨h'.stored.trans h.stored, h'.staging.trans h.staging, h'.final.trans h.final⟩

end Frame

variable [SnapshotFormatV2]

/-! ## Calls one after another -/

/-- The state after a call, however it ended. -/
def step (s : RepositoryV2 A) : CommandV2 → RepositoryV2 A
  | .begin faults entropy q created expires operation request =>
      (RepositoryV2.begin faults entropy q created expires operation request s).2
  | .commitBatch faults q input => (RepositoryV2.commitBatch faults q input s).2
  | .commitData faults q input => (RepositoryV2.commitData faults q input s).2
  | .sealResult faults q input => (RepositoryV2.sealResult faults q input s).2
  | .publish stops q operation => (RepositoryV2.publish stops q operation s).2
  | .expand _ _ _ _ _ => s
  | .recover q now context => (RepositoryV2.recover q now context s).2
  | .recoverAll now context => (RepositoryV2.recoverAll now context s).2
  | .destroy faults q => (RepositoryV2.destroy faults q s).2

def run (s : RepositoryV2 A) (commands : List CommandV2) : RepositoryV2 A :=
  commands.foldl step s

/-- Every call of the run meets a condition on the state before it. -/
def Follows (condition : RepositoryV2 A → CommandV2 → Prop) (s : RepositoryV2 A) :
    List CommandV2 → Prop
  | [] => True
  | command :: rest => condition s command ∧ Follows condition (s.step command) rest

/-- An invariant of every call that meets the condition holds in every state
of the run. -/
theorem Follows.invariant {condition : RepositoryV2 A → CommandV2 → Prop}
    {I : RepositoryV2 A → Prop}
    (hstep : ∀ s command, I s → condition s command → I (s.step command)) :
    ∀ {commands : List CommandV2} {s : RepositoryV2 A}, I s →
      Follows condition s commands → I (s.run commands)
  | [], _, hs, _ => hs
  | command :: rest, s, hs, hfollows => by
      show I ((s.step command).run rest)
      exact Follows.invariant hstep (hstep s command hs hfollows.1) hfollows.2

theorem Follows.mono {condition condition' : RepositoryV2 A → CommandV2 → Prop}
    (h : ∀ s command, condition s command → condition' s command) :
    ∀ {commands : List CommandV2} {s : RepositoryV2 A}, Follows condition s commands →
      Follows condition' s commands
  | [], _, _ => trivial
  | _ :: _, s, hfollows => ⟨h s _ hfollows.1, hfollows.2.mono h⟩

variable [LawfulKeyAuthorityV2 A]

/-! ## Frames -/

variable {C : Option ResultLifecycleStateV1 → Prop} {D S : Prop} {q r : ResultId}
  {s s' : RepositoryV2 A}

theorem Effect.sound (h : Effect C D S q s s') (hs : Sound s.authority) :
    Sound s'.authority := by
  cases h with
  | record hstep _ => exact hstep.sound
  | reserve _ _ hsound _ => exact hsound
  | staging _ _ => exact hs
  | install _ _ _ _ _ _ => exact hs
  | quarantine _ hauthority _ _ => rw [hauthority]; exact hs
  | remove _ => exact hs

/-- An effect on one result leaves every other alone. -/
theorem Effect.frame (h : Effect C D S q s s') (hr : r ≠ q) : Frame r s s' := by
  cases h with
  | record hstep _ =>
      exact ⟨by rw [hstep.stored_eq, Function.update_of_ne hr], rfl, rfl⟩
  | reserve _ _ _ hsame => exact ⟨by rw [hsame], rfl, rfl⟩
  | staging _ _ => exact ⟨rfl, by simp [getElem?_insert, Ne.symm hr], rfl⟩
  | install _ _ _ _ _ _ =>
      exact ⟨rfl, by simp [getElem?_erase, Ne.symm hr], by simp [getElem?_insert, Ne.symm hr]⟩
  | quarantine _ hauthority hstaging hfinals =>
      refine ⟨by rw [hauthority], ?_, ?_⟩
      · exact (hstaging r).resolve_right fun h => hr h.1
      · exact (hfinals r).resolve_right fun h => hr h.1
  | remove _ =>
      exact ⟨rfl, by simp [getElem?_erase, Ne.symm hr], by simp [getElem?_erase, Ne.symm hr]⟩

/-! ## Moves seen from one result -/

/-- An effect on `r` within its limits, or any effect on another result. -/
def Move (C : Option ResultLifecycleStateV1 → Prop) (D : Prop) (r : ResultId)
    (s s' : RepositoryV2 A) : Prop :=
  Effect C D True r s s' ∨ ∃ q, r ≠ q ∧ Effect (fun _ => False) True True q s s'

def Moves (C : Option ResultLifecycleStateV1 → Prop) (D : Prop) (r : ResultId) :
    RepositoryV2 A → RepositoryV2 A → Prop :=
  Relation.ReflTransGen (Move C D r)

theorem Moves.refl (s : RepositoryV2 A) : Moves C D r s s := Relation.ReflTransGen.refl

theorem Moves.trans {s₁ s₂ s₃ : RepositoryV2 A} (h : Moves C D r s₁ s₂)
    (h' : Moves C D r s₂ s₃) : Moves C D r s₁ s₃ :=
  Relation.ReflTransGen.trans h h'

theorem Move.sound (h : Move C D r s s') (hs : Sound s.authority) : Sound s'.authority := by
  rcases h with h | ⟨q, _, h⟩
  · exact h.sound hs
  · exact h.sound hs

theorem Moves.sound (h : Moves C D r s s') (hs : Sound s.authority) :
    Sound s'.authority := by
  induction h with
  | refl => exact hs
  | tail _ hmove ih => exact hmove.sound ih

/-- An invariant that depends on nothing but `r`, and that effects on `r`
within the limits keep. -/
theorem Moves.invariant {I : RepositoryV2 A → Prop}
    (hframe : ∀ {s s'}, Frame r s s' → I s → I s')
    (heffect : ∀ {s s'}, Effect C D True r s s' → I s → I s') (h : Moves C D r s s')
    (hs : I s) : I s' := by
  induction h with
  | refl => exact hs
  | tail _ hmove ih =>
      rcases hmove with h | ⟨q, hr, h⟩
      · exact heffect h ih
      · exact hframe (h.frame hr) ih

theorem Chain.moves (h : Chain C D True r s s') : Moves C D r s s' :=
  Relation.ReflTransGen.mono (fun _ _ h => Or.inl h) _ _ h

theorem Chain.moves_of_ne (hr : r ≠ q) (h : Chain (fun _ => False) True True q s s') :
    Moves C D r s s' :=
  Relation.ReflTransGen.mono (fun _ _ h => Or.inr ⟨q, hr, h⟩) _ _ h

theorem Chain.frame (hr : r ≠ q) (h : Chain C D S q s s') : Frame r s s' := by
  induction h with
  | refl => exact Frame.refl r s
  | tail _ heffect ih => exact ih.trans (heffect.frame hr)

/-! ## Every call is a sequence of moves -/

/-- The commitment of every sealed result can be kept with a reservation. -/
def AllAdmitted (s : RepositoryV2 A) : Prop :=
  ∀ q record key, stored s.authority q = some (record, key) → record.state = .sealed →
    Admits A (deriveRepositoryCommitment record.sealCommitments)

/-- A call that seals nothing keeps it. -/
theorem Effect.allAdmitted (h : Effect C D False q s s') (hs : AllAdmitted s) :
    AllAdmitted s' := by
  intro r record key hstored hstate
  by_cases hr : r = q
  · subst hr
    cases h with
    | record hstep heffect =>
        rw [hstep.stored_eq, Function.update_self] at hstored
        cases heffect with
        | fresh _ hopened _ => cases hstored; rw [hopened] at hstate; cases hstate
        | @nonces record' _ _ _ hbefore _ hsame _ =>
            cases hstored
            have hkept := congrArg ResultAuthorityRecordV2.sealCommitments hsame
            replace hkept : record.sealCommitments = record'.sealCommitments := hkept
            rw [hkept]
            exact hs _ _ _ hbefore
              ((ResultAuthorityRecordV2.state_of_withoutNonces hsame).symm.trans hstate)
        | commitData hbefore hcommit _ =>
            cases hstored
            rcases (ResultAuthorityRecordV2.commitData_ok hcommit).2 with ⟨_, rfl⟩ | ⟨_, _, rfl⟩
            · exact hs _ _ _ hbefore hstate
            · cases hstate
        | sealResult hbefore hseal hsealed =>
            cases hstored
            rcases (ResultAuthorityRecordV2.seal_ok hseal).2 with ⟨_, rfl⟩ | ⟨hcommitted, _⟩
            · exact hs _ _ _ hbefore hstate
            · exact (hsealed hcommitted).1.elim
        | publish hbefore hpublish _ =>
            cases hstored
            rcases (ResultAuthorityRecordV2.publish_ok hpublish).2 with
              ⟨_, rfl⟩ | ⟨_, _, _, rfl⟩
            · exact hs _ _ _ hbefore hstate
            · cases hstate
        | destroyed _ => cases hstored
    | reserve _ _ _ hsame => rw [hsame] at hstored; exact hs _ _ _ hstored hstate
    | staging _ _ => exact hs _ _ _ hstored hstate
    | install _ _ _ _ _ _ => exact hs _ _ _ hstored hstate
    | quarantine _ hauthority _ _ =>
        rw [hauthority] at hstored
        exact hs _ _ _ hstored hstate
    | remove _ => exact hs _ _ _ hstored hstate
  · rw [(h.frame hr).stored] at hstored
    exact hs _ _ _ hstored hstate

theorem Chain.allAdmitted (h : Chain C D False q s s') (hs : AllAdmitted s) :
    AllAdmitted s' := by
  induction h with
  | refl => exact hs
  | tail _ heffect ih => exact heffect.allAdmitted ih

theorem Chain.sound (h : Chain C D S q s s') (hs : Sound s.authority) :
    Sound s'.authority := by
  induction h with
  | refl => exact hs
  | tail _ heffect ih => exact heffect.sound ih

def Expired (r : ResultId) (now : Int) (s : RepositoryV2 A) : Prop :=
  ∃ record key, stored s.authority r = some (record, key) ∧ record.expiresUnixNanos ≤ now

/-- Calls after which the result may be gone. -/
def MayDestroy (r : ResultId) (s : RepositoryV2 A) : CommandV2 → Prop
  | .destroy _ q => q = r
  | .recover q now _ => q = r ∧ Expired r now s
  | .recoverAll now _ => Expired r now s
  | _ => False

/-- A begin that the authority accepts, with a record in one of the states
`C`, finds no final directory. -/
def ClearBegin (C : Option ResultLifecycleStateV1 → Prop) (r : ResultId)
    (s : RepositoryV2 A) : CommandV2 → Prop
  | .begin faults entropy q created expires operation request => q = r →
      ∀ authority record transition,
        KeyAuthorityV2.begin s.authority entropy q created expires operation
          (digestBegin q created expires request) = .ok (authority, record, transition) →
        (transition = .applied ∧ C none) ∨
          (faults .afterAuthorityBegin = false ∧ C (some record.state)) →
        s.finals[q]? = none
  | _ => True

/-- A call on one result `q`, within the limits when that is `r`. -/
theorem moves_of_chain (hsame : q = r → Chain C D True q s s')
    (hother : Chain (fun _ => False) True True q s s') : Moves C D r s s' := by
  by_cases hr : q = r
  · subst hr
    exact (hsame rfl).moves
  · exact hother.moves_of_ne (Ne.symm hr)

theorem recoverEach_moves (now : Int) (context : ResultId → Option BuildContextDigestsV1) :
    ∀ (resultIds : List ResultId) (s : RepositoryV2 A), resultIds.Nodup →
      Sound s.authority → AllAdmitted s → (r ∈ resultIds → Expired r now s → D) →
      Leaves (Moves C D r s) (recoverEach now context resultIds) s
  | [], s, _, _, _, _ => Moves.refl s
  | q :: rest, s, hnodup, hs, hadmitted, hexpired => by
      have hchain : ∀ {C' : Option ResultLifecycleStateV1 → Prop} {D' S' : Prop},
          (Expired q now s → D') →
          Chain C' D' S' q s (recover q now (context q) s).2 := fun hd =>
        recover_chain now (context q) hs (fun _ _ h h' => hadmitted q _ _ h h')
          fun record key hstored hnow => hd ⟨record, key, hstored, hnow⟩
      have hmoves : Moves C D r s (recover q now (context q) s).2 :=
        moves_of_chain (fun hq => hchain fun he => hexpired (by simp [hq]) (hq ▸ he))
          (hchain fun _ => trivial)
      refine leaves_bind (fun e s' hrun => ?_) (fun disposition s' hrun => ?_)
      · rw [hrun] at hmoves
        exact hmoves
      · rw [hrun] at hmoves hchain
        obtain ⟨hq, hrest⟩ := List.nodup_cons.mp hnodup
        have hkept : Chain (fun _ => False) True False q s s' := hchain fun _ => trivial
        have hlater := recoverEach_moves now context rest s' hrest
          (hkept.sound hs) (hkept.allAdmitted hadmitted) fun hr he => by
            have hne : r ≠ q := fun h => hq (h ▸ hr)
            obtain ⟨record, key, hstored, hnow⟩ := he
            rw [(hkept.frame hne).stored] at hstored
            exact hexpired (List.mem_cons_of_mem _ hr) ⟨record, key, hstored, hnow⟩
        refine leaves_then (R := Moves C D r s) ?_ fun _ _ h => h
        exact hmoves.trans hlater

theorem step_moves (command : CommandV2) (hs : Sound s.authority) (hadmitted : AllAdmitted s)
    (hclear : ClearBegin C r s command) (hdestroy : MayDestroy r s command → D) :
    Moves C D r s (s.step command) := by
  cases command with
  | begin faults entropy q created expires operation request =>
      refine moves_of_chain (q := q) (fun hq => ?_) ?_
      · exact begin_chain faults entropy created expires operation request hs (hclear hq)
      · exact begin_chain faults entropy created expires operation request hs
          fun _ _ _ _ h => h.elim (·.2.elim) (·.2.elim)
  | commitBatch faults q input =>
      exact moves_of_chain (q := q) (fun _ => commitBatch_chain faults input hs)
        (commitBatch_chain faults input hs)
  | commitData faults q input =>
      exact moves_of_chain (q := q) (fun _ => commitData_chain faults input hs)
        (commitData_chain faults input hs)
  | sealResult faults q input =>
      exact moves_of_chain (q := q) (fun _ => sealResult_chain faults input hs trivial)
        (sealResult_chain faults input hs trivial)
  | publish stops q operation =>
      exact moves_of_chain (q := q)
        (fun _ => publish_chain stops operation hs fun _ _ h h' => hadmitted q _ _ h h')
        (publish_chain stops operation hs fun _ _ h h' => hadmitted q _ _ h h')
  | expand _ _ _ _ _ => exact Moves.refl s
  | recover q now context =>
      refine moves_of_chain (q := q) (fun hq => ?_) ?_
      · exact recover_chain now context hs (fun _ _ h h' => hadmitted q _ _ h h')
          fun record key hstored hnow => hdestroy ⟨hq, record, key, hq ▸ hstored, hnow⟩
      · exact recover_chain now context hs (fun _ _ h h' => hadmitted q _ _ h h')
          fun _ _ _ _ => trivial
  | recoverAll now context =>
      show Leaves (Moves C D r s) (RepositoryV2.recoverAll now context) s
      refine leaves_read (leaves_lift_bind (Moves.refl s) fun resultIds hresults => ?_)
      exact recoverEach_moves now context resultIds s (activeResults_nodup hresults) hs
        hadmitted fun _ => hdestroy
  | destroy faults q =>
      exact moves_of_chain (q := q) (fun hq => destroy_chain faults hs (hdestroy hq))
        (destroy_chain faults hs trivial)

end RepositoryV2

end Evidentrail
