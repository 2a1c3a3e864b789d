import Evidentrail.Store.Run

/-!
# A published result

Once a result is published and its final directory installed, nothing but
its end changes what a reader sees, with one exception: the exact retry of
the `begin` that created it makes a new staging directory, and a result with
two directories is corrupt.
-/

namespace Evidentrail

open Rust Std Slice Attempt KeyAuthorityV2 LawfulKeyAuthorityV2

namespace RepositoryV2

section Published

variable {A : Type} [KeyAuthorityV2 A] [Sha256] [LawfulKeyAuthorityV2 A]

/-- Published, in its final directory and nowhere else. -/
structure Settled (r : ResultId) (record : ResultAuthorityRecordV2) (key : ResultDekV1)
    (d : ResultDirectoryV2) (s : RepositoryV2 A) : Prop where
  stored : stored s.authority r = some (record, key)
  published : record.state = .published
  staging : s.staging[r]? = none
  final : s.finals[r]? = some d
  lock : d.resultLock = true

/-- What holds of the directories of a result in every run without such a
retry. -/
structure Placed (r : ResultId) (s : RepositoryV2 A) : Prop where
  lock : ∀ d, s.finals[r]? = some d → d.resultLock = true
  single : ∀ record key d, stored s.authority r = some (record, key) →
    record.state = .published → s.finals[r]? = some d → s.staging[r]? = none

variable {r : ResultId} {record : ResultAuthorityRecordV2} {key : ResultDekV1}
  {d : ResultDirectoryV2} {s s' : RepositoryV2 A}

theorem Settled.of_frame (h : Settled r record key d s) (hframe : Frame r s s') :
    Settled r record key d s' :=
  ⟨hframe.stored.trans h.stored, h.published, hframe.staging.trans h.staging,
    hframe.final.trans h.final, h.lock⟩

theorem Placed.of_frame (hframe : Frame r s s') (h : Placed r s) : Placed r s' := by
  refine ⟨fun d hd => h.lock d (hframe.final.symm.trans hd), ?_⟩
  intro record key d hstored hstate hfinal
  exact hframe.staging.trans (h.single record key d (hframe.stored.symm.trans hstored) hstate
    (hframe.final.symm.trans hfinal))

theorem verifyVisible_of_frame (hs : Sound s.authority) (hs' : Sound s'.authority)
    (hframe : Frame r s s') (expected : LifecycleDigestV1) :
    s'.verifyVisible r expected = s.verifyVisible r expected := by
  unfold verifyVisible
  rw [hframe.final]
  cases s.finals[r]? with
  | none => rfl
  | some d =>
      have hmem : r ∈ s'.staging ↔ r ∈ s.staging := by
        rw [ExtTreeMap.mem_iff_isSome_getElem?, ExtTreeMap.mem_iff_isSome_getElem?,
          hframe.staging]
      simp only [hmem, resultKey_eq hs, resultKey_eq hs', snapshot_eq hs, snapshot_eq hs',
        hframe.stored]

theorem recover_settled (hs : Sound s.authority) (h : Settled r record key d s) {now : Int}
    (hnow : now < record.expiresUnixNanos) (context : Option BuildContextDigestsV1) :
    (recover r now context s).1 ≠ .ok .quarantined := by
  have hplaced : ¬(invalidActiveObject s.staging[r]? || invalidActiveObject s.finals[r]? ||
      (s.staging[r]?.isSome && s.finals[r]?.isSome)) = true := by
    simp [h.staging, h.final, invalidActiveObject, h.lock]
  unfold recover
  simp only [bind_apply, read_apply, snapshot_eq hs, h.stored, Option.map_some, okOr_some]
  rw [if_neg hplaced, if_neg (Int.not_le.mpr hnow), h.published]
  dsimp only
  split
  · simp
  · simp

/-! ## Calls that matter -/

/-- The state in which a `begin` must not find a final directory. -/
def isPublished (state : Option ResultLifecycleStateV1) : Prop := state = some .published

/-- The exact retry of the `begin` that created the result, after it was
published. -/
def RepeatsBegin (r : ResultId) (s : RepositoryV2 A) : CommandV2 → Prop
  | .begin faults _ q created expires operation request =>
      q = r ∧ faults .afterAuthorityBegin = false ∧ s.finals[r]?.isSome ∧
        ∃ record, snapshot s.authority r = .ok record ∧ record.state = .published ∧
          record.matchesBegin created expires operation (digestBegin r created expires request)
  | _ => False

theorem clearBegin_of_not_repeats {command : CommandV2} (hs : Sound s.authority)
    (h : ¬RepeatsBegin r s command) : ClearBegin isPublished r s command := by
  cases command with
  | begin faults entropy q created expires operation request =>
      rintro rfl authority record transition hbegin hstate
      obtain ⟨_, hnever⟩ | ⟨hgoes, hpublished⟩ := hstate
      · cases hnever
      · replace hpublished : record.state = .published := Option.some.inj hpublished
        rcases begin_ok hs hbegin with ⟨key, hstored, _, _, hmatches⟩ | ⟨_, _, _, hopened, _⟩
        · by_contra hfinal
          refine h ⟨rfl, hgoes, Option.isSome_iff_ne_none.mpr hfinal, record, ?_, hpublished,
            hmatches⟩
          rw [snapshot_eq hs, hstored]
          rfl
        · cases hopened.symm.trans hpublished
  | _ => trivial

/-- Calls that end the life of the result: its destruction, or a recovery at
its expiry or later. -/
def Ends (r : ResultId) (record : ResultAuthorityRecordV2) : CommandV2 → Prop
  | .destroy _ q => q = r
  | .recover q now _ => q = r ∧ record.expiresUnixNanos ≤ now
  | .recoverAll now _ => record.expiresUnixNanos ≤ now
  | _ => False

theorem Settled.mayDestroy (h : Settled r record key d s) {command : CommandV2}
    (hends : ¬Ends r record command) : ¬MayDestroy r s command := by
  have hexpired : ∀ {now}, Expired r now s → record.expiresUnixNanos ≤ now := by
    rintro now ⟨record', key', hstored, hnow⟩
    rw [h.stored] at hstored
    cases hstored
    exact hnow
  cases command with
  | destroy _ q => exact hends
  | recover q now _ => exact fun hd => hends ⟨hd.1, hexpired hd.2⟩
  | recoverAll now _ => exact fun hd => hends (hexpired hd)
  | _ => exact id

variable [SnapshotFormatV2]

/-! ## Effects on a settled result -/

/-- Within the limits, an effect on a settled result changes nothing. -/
theorem Effect.frame_of_settled {S : Prop} (h : Effect isPublished False S r s s')
    (hs : Settled r record key d s) : Frame r s s' := by
  have hsame : ∀ {record' key'}, LawfulKeyAuthorityV2.stored s.authority r = some (record', key') →
      record' = record ∧ key' = key := by
    intro record' key' hstored
    rw [hs.stored] at hstored
    cases hstored
    exact ⟨rfl, rfl⟩
  have hstate : ∀ {record' key' state},
      LawfulKeyAuthorityV2.stored s.authority r = some (record', key') →
      record'.state = state → state = .published := by
    intro record' key' state hstored hstate
    rw [← hstate, (hsame hstored).1, hs.published]
  have hnowhere : ∀ {d'}, s.staging[r]? = some d' → False := by
    intro d' hd
    rw [hs.staging] at hd
    cases hd
  cases h with
  | record hstep heffect =>
      refine ⟨?_, rfl, rfl⟩
      rw [hstep.stored_eq, Function.update_self, hs.stored]
      cases heffect with
      | fresh hstored _ _ => rw [hs.stored] at hstored; cases hstored
      | nonces _ hstaging _ _ => exact (hnowhere hstaging).elim
      | commitData hstored hcommit _ =>
          obtain ⟨rfl, rfl⟩ := hsame hstored
          rcases (ResultAuthorityRecordV2.commitData_ok hcommit).2 with ⟨_, rfl⟩ | ⟨hopen, _⟩
          · rfl
          · cases hs.published.symm.trans hopen
      | sealResult hstored hseal _ =>
          obtain ⟨rfl, rfl⟩ := hsame hstored
          rcases (ResultAuthorityRecordV2.seal_ok hseal).2 with ⟨_, rfl⟩ | ⟨hcommitted, _⟩
          · rfl
          · cases hs.published.symm.trans hcommitted
      | publish hstored hpublish _ =>
          obtain ⟨rfl, rfl⟩ := hsame hstored
          rcases (ResultAuthorityRecordV2.publish_ok hpublish).2 with ⟨_, rfl⟩ | ⟨hsealed, _⟩
          · rfl
          · cases hs.published.symm.trans hsealed
      | destroyed hallowed =>
          rcases hallowed _ _ hs.stored with ⟨hopen, _⟩ | hnever
          · cases hs.published.symm.trans hopen
          · exact hnever.elim
  | reserve hstored hsealed _ _ => cases hstate hstored hsealed
  | staging hstored heffect =>
      cases heffect with
      | make _ hclear =>
          have hnone := hclear (congrArg some (hstate hstored rfl))
          rw [hs.final] at hnone
          cases hnone
      | lock hstaging => exact (hnowhere hstaging).elim
      | request hstaging _ => exact (hnowhere hstaging).elim
      | batch _ hstaging => exact (hnowhere hstaging).elim
      | dataCommit _ hstaging _ _ => exact (hnowhere hstaging).elim
      | sealedProducts _ hstaging _ _ => exact (hnowhere hstaging).elim
      | commitment _ hstaging _ => exact (hnowhere hstaging).elim
  | install _ _ hstaging _ _ _ => exact (hnowhere hstaging).elim
  | quarantine hmisplaced _ _ _ =>
      rcases hmisplaced with hnone | ⟨hboth, _⟩ | ⟨d', hd', hlock⟩
      · rw [hs.stored] at hnone; cases hnone
      · rw [hs.staging] at hboth; cases hboth
      · rcases hd' with hd' | hd'
        · exact (hnowhere hd').elim
        · rw [hs.final] at hd'
          cases hd'
          rw [hs.lock] at hlock
          cases hlock
  | remove hnone => rw [hs.stored] at hnone; cases hnone

/-- A record effect that leaves a published record does so from a published
one, or the result has just left its staging directory. -/
theorem RecordEffect.published {C : Option ResultLifecycleStateV1 → Prop} {D S : Prop}
    (h : RecordEffect C D S r s (some (record, key))) (hpublished : record.state = .published) :
    (∃ before key', LawfulKeyAuthorityV2.stored s.authority r = some (before, key') ∧
      before.state = .published) ∨ s.staging[r]? = none := by
  cases h with
  | fresh _ hopened _ => cases hopened.symm.trans hpublished
  | nonces hstored _ hsame _ =>
      exact .inl ⟨_, _, hstored,
        (ResultAuthorityRecordV2.state_of_withoutNonces hsame).symm.trans hpublished⟩
  | commitData hstored hcommit _ =>
      rcases (ResultAuthorityRecordV2.commitData_ok hcommit).2 with ⟨_, rfl⟩ | ⟨_, _, rfl⟩
      · exact .inl ⟨_, _, hstored, hpublished⟩
      · cases hpublished
  | sealResult hstored hseal _ =>
      rcases (ResultAuthorityRecordV2.seal_ok hseal).2 with ⟨_, rfl⟩ | ⟨_, rfl⟩
      · exact .inl ⟨_, _, hstored, hpublished⟩
      · cases hpublished
  | publish hstored hpublish hinstalled =>
      rcases (ResultAuthorityRecordV2.publish_ok hpublish).2 with ⟨_, rfl⟩ | ⟨hsealed, _⟩
      · exact .inl ⟨_, _, hstored, hpublished⟩
      · exact .inr (hinstalled hsealed).1

theorem Effect.placed {D S : Prop} (h : Effect isPublished D S r s s') (hs : Placed r s) :
    Placed r s' := by
  cases h with
  | record hstep heffect =>
      refine ⟨hs.lock, ?_⟩
      intro record key d hstored hpublished hfinal
      rw [hstep.stored_eq, Function.update_self] at hstored
      cases hstored
      rcases heffect.published hpublished with ⟨before, key', hbefore, hstate⟩ | hnone
      · exact hs.single before key' d hbefore hstate hfinal
      · exact hnone
  | reserve _ _ _ hsame =>
      refine ⟨hs.lock, ?_⟩
      intro record key d hstored
      rw [hsame] at hstored
      exact hs.single record key d hstored
  | @staging record₀ key₀ d₀ hstored heffect =>
      refine ⟨hs.lock, ?_⟩
      intro record key d hstored' hpublished hfinal
      have hnone := hs.single record key d hstored' hpublished hfinal
      -- every write into the staging directory needs one, or makes one
      rw [hstored] at hstored'
      cases hstored'
      cases heffect with
      | make _ hclear =>
          have hgone := hclear (congrArg some hpublished)
          rw [hfinal] at hgone
          cases hgone
      | lock hstaging => rw [hnone] at hstaging; cases hstaging
      | request hstaging _ => rw [hnone] at hstaging; cases hstaging
      | batch _ hstaging => rw [hnone] at hstaging; cases hstaging
      | dataCommit _ hstaging _ _ => rw [hnone] at hstaging; cases hstaging
      | sealedProducts _ hstaging _ _ => rw [hnone] at hstaging; cases hstaging
      | commitment _ hstaging _ => rw [hnone] at hstaging; cases hstaging
  | install hstored hsealed _ _ hlock _ =>
      refine ⟨?_, ?_⟩
      · intro d' hd'
        simp only [ExtTreeMap.getElem?_insert_self, Option.some.injEq] at hd'
        rw [← hd']
        exact hlock
      · intro record key d' hstored' hpublished _
        rw [hstored] at hstored'
        cases hstored'
        cases hsealed.symm.trans hpublished
  | quarantine _ hauthority hstaging hfinals =>
      have hfinal : ∀ d', s'.finals[r]? = some d' → s.finals[r]? = some d' := by
        intro d' hd'
        rcases hfinals r with hsame | ⟨_, hnone⟩
        · exact hsame.symm.trans hd'
        · rw [hnone] at hd'; cases hd'
      refine ⟨fun d' hd' => hs.lock d' (hfinal d' hd'), ?_⟩
      intro record key d' hstored hpublished hd'
      rw [hauthority] at hstored
      have hnone := hs.single record key d' hstored hpublished (hfinal d' hd')
      rcases hstaging r with hsame | ⟨_, hgone⟩
      · exact hsame.trans hnone
      · exact hgone
  | remove hnone =>
      refine ⟨fun d' hd' => ?_, fun record key d' hstored => ?_⟩
      · simp at hd'
      · rw [show LawfulKeyAuthorityV2.stored s.authority r = some (record, key) from hstored]
          at hnone
        cases hnone

/-! ## Reading depends on nothing else -/

theorem expand_of_frame (hs : Sound s.authority) (hs' : Sound s'.authority)
    (hframe : Frame r s s') (eventIds : List EventId) (maxEvents maxBytes : Nat) (now : Int) :
    s'.expand r eventIds maxEvents maxBytes now = s.expand r eventIds maxEvents maxBytes now := by
  unfold expand
  simp only [hframe.final, verifyVisible_of_frame hs hs' hframe, resultKey_eq hs,
    resultKey_eq hs', snapshot_eq hs, snapshot_eq hs', hframe.stored]

/-- Within its life, a published result reads the same at any time. -/
theorem expand_any_time (hs : Sound s.authority)
    (hstored : LawfulKeyAuthorityV2.stored s.authority r = some (record, key))
    (eventIds : List EventId) (maxEvents maxBytes : Nat) {t t' : Int}
    (ht : record.createdUnixNanos ≤ t ∧ t < record.expiresUnixNanos)
    (ht' : record.createdUnixNanos ≤ t' ∧ t' < record.expiresUnixNanos) :
    s.expand r eventIds maxEvents maxBytes t' = s.expand r eventIds maxEvents maxBytes t := by
  unfold expand
  rw [snapshot_eq hs, hstored]
  have hlive : ∀ {now : Int}, record.createdUnixNanos ≤ now ∧ now < record.expiresUnixNanos →
      ((record.state ≠ .published ∨ now < record.createdUnixNanos ∨
        now ≥ record.expiresUnixNanos) ↔ record.state ≠ .published) := by
    intro now hnow
    constructor
    · rintro (h | h | h)
      · exact h
      · omega
      · omega
    · exact Or.inl
  simp only [Option.map_some, okOr_some, ofAuthority, Except.mapError, except_bind_ok,
    hlive ht, hlive ht']

/-! ## Runs -/

theorem Moves.frame_of_settled (h : Moves isPublished False r s s')
    (hs : Settled r record key d s) : Frame r s s' :=
  h.invariant (I := Frame r s) (fun hframe hs => hs.trans hframe)
    (fun heffect hframe => hframe.trans (heffect.frame_of_settled (hs.of_frame hframe)))
    (Frame.refl r s)

theorem Moves.placed {D : Prop} (h : Moves isPublished D r s s') (hs : Placed r s) :
    Placed r s' :=
  h.invariant Placed.of_frame Effect.placed hs

/-- No recovery of all results quarantines a settled one. -/
theorem recoverEach_settled {now : Int} (hnow : now < record.expiresUnixNanos)
    (context : ResultId → Option BuildContextDigestsV1) :
    ∀ (resultIds : List ResultId) (s : RepositoryV2 A), Sound s.authority → AllAdmitted s →
      Settled r record key d s → ∀ report,
      (recoverEach now context resultIds s).1 = .ok report → (r, .quarantined) ∉ report
  | [], s, _, _, _, report, h => by
      cases h
      exact List.not_mem_nil
  | q :: rest, s, hs, hadmitted, hsettled, report, h => by
      have hchain : ∀ {D S : Prop}, (Expired q now s → D) →
          Chain isPublished D S q s (recover q now (context q) s).2 := fun hd =>
        recover_chain now (context q) hs (fun _ _ h h' => hadmitted q _ _ h h')
          fun record key hstored hnow => hd ⟨record, key, hstored, hnow⟩
      have hframe : Frame r s (recover q now (context q) s).2 := by
        by_cases hq : q = r
        · subst hq
          refine (Chain.moves (hchain fun hexpired => ?_)).frame_of_settled hsettled
          have hends : ¬Ends q record (.recoverAll now context) := Int.not_le.mpr hnow
          exact hsettled.mayDestroy hends hexpired
        · exact (hchain (S := True) fun _ => trivial).frame (Ne.symm hq)
      have hkept : Chain isPublished True False q s (recover q now (context q) s).2 :=
        hchain fun _ => trivial
      rw [recoverEach, bind_apply] at h
      cases hrun : recover q now (context q) s with
      | mk result s₁ =>
          rw [hrun] at h hframe hkept
          cases result with
          | error e => cases h
          | ok disposition =>
              dsimp only at h
              rw [bind_apply] at h
              cases hrest : recoverEach now context rest s₁ with
              | mk result₁ s₂ =>
                  rw [hrest] at h
                  cases result₁ with
                  | error e => cases h
                  | ok later =>
                      cases h
                      have hlater := recoverEach_settled hnow context rest s₁ (hkept.sound hs)
                        (hkept.allAdmitted hadmitted) (hsettled.of_frame hframe) later
                        (by rw [hrest])
                      intro hmem
                      rcases List.mem_cons.mp hmem with heq | hmem
                      · cases heq
                        refine recover_settled hs hsettled hnow (context r) ?_
                        rw [hrun]
                      · exact hlater hmem

/-- The property of a settled result over any later run. -/
theorem readable_of_settled (hs : Sound s.authority) (hs' : Sound s'.authority)
    (hadmitted : AllAdmitted s') (h : Settled r record key d s) (hframe : Frame r s s') :
    (∀ eventIds maxEvents maxBytes t t',
      record.createdUnixNanos ≤ t ∧ t < record.expiresUnixNanos →
      record.createdUnixNanos ≤ t' ∧ t' < record.expiresUnixNanos →
      s'.expand r eventIds maxEvents maxBytes t' = s.expand r eventIds maxEvents maxBytes t) ∧
    (∀ now, now < record.expiresUnixNanos →
      (∀ context, (recover r now context s').1 ≠ .ok .quarantined) ∧
      ∀ context report, (recoverAll now context s').1 = .ok report →
        (r, .quarantined) ∉ report) := by
  have h' := h.of_frame hframe
  refine ⟨?_, fun now hnow => ⟨fun context => recover_settled hs' h' hnow context, ?_⟩⟩
  · intro eventIds maxEvents maxBytes t t' ht ht'
    rw [expand_of_frame hs hs' hframe, expand_any_time hs h.stored _ _ _ ht ht']
  · intro context report hreport
    unfold recoverAll at hreport
    rw [bind_apply, read_apply] at hreport
    dsimp only at hreport
    rw [bind_apply] at hreport
    cases hactive : s'.activeResults with
    | error e =>
        rw [hactive] at hreport
        cases hreport
    | ok resultIds =>
        rw [hactive] at hreport
        exact recoverEach_settled hnow context resultIds s' hs' hadmitted h' report hreport

end Published

/-! ## In process memory -/

section Process

variable [Sha256]

theorem allAdmitted_process (s : RepositoryV2 ProcessKeyAuthorityV2) : AllAdmitted s :=
  fun _ _ _ _ _ => trivial

theorem sound_new {capacity : Nat} {authority : ProcessKeyAuthorityV2}
    (hnew : ProcessKeyAuthorityV2.new capacity = .ok authority) : Sound authority := by
  unfold ProcessKeyAuthorityV2.new at hnew
  split at hnew
  · cases hnew
  · cases hnew
    intro r operation digest generation h
    simp at h

variable [SnapshotFormatV2]

/-- In every run without an exact retry of its `begin` after publication, a
published result reads the same until its end, and is not quarantined. -/
theorem published_stays_readable {capacity : Nat} {authority : ProcessKeyAuthorityV2}
    (hnew : ProcessKeyAuthorityV2.new capacity = .ok authority) (r : ResultId)
    (before after : List CommandV2) {s s' : RepositoryV2 ProcessKeyAuthorityV2}
    (hs : s = run { authority } before) (hs' : s' = run s after)
    {record : ResultAuthorityRecordV2} {d : ResultDirectoryV2}
    (hrecord : snapshot s.authority r = .ok record) (hpublished : record.state = .published)
    (hfinal : s.finals[r]? = some d)
    (hbefore : Follows (fun s command => ¬RepeatsBegin r s command) { authority } before)
    (hafter : Follows (fun s command => ¬RepeatsBegin r s command ∧ ¬Ends r record command)
      s after) :
    (∀ eventIds maxEvents maxBytes t t',
      record.createdUnixNanos ≤ t ∧ t < record.expiresUnixNanos →
      record.createdUnixNanos ≤ t' ∧ t' < record.expiresUnixNanos →
      s'.expand r eventIds maxEvents maxBytes t' = s.expand r eventIds maxEvents maxBytes t) ∧
    (∀ now, now < record.expiresUnixNanos →
      (∀ context, (recover r now context s').1 ≠ .ok .quarantined) ∧
      ∀ context report, (recoverAll now context s').1 = .ok report →
        (r, .quarantined) ∉ report) := by
  have hopen : Sound s.authority ∧ Placed r s := by
    rw [hs]
    refine Follows.invariant (I := fun s => Sound s.authority ∧ Placed r s) ?_
      ⟨sound_new hnew, ⟨by simp, by simp⟩⟩ hbefore
    rintro s command ⟨hsound, hplaced⟩ hcommand
    have hmoves := step_moves (D := True) command hsound (allAdmitted_process s)
      (clearBegin_of_not_repeats hsound hcommand) fun _ => trivial
    exact ⟨hmoves.sound hsound, hmoves.placed hplaced⟩
  obtain ⟨hsound, hplaced⟩ := hopen
  rw [snapshot_eq hsound, okOr_eq_ok, Option.map_eq_some_iff] at hrecord
  obtain ⟨⟨_, key⟩, hstored, rfl⟩ := hrecord
  have hsettled : Settled r _ key d s := ⟨hstored, hpublished,
    hplaced.single _ _ _ hstored hpublished hfinal, hfinal, hplaced.lock d hfinal⟩
  have hlater : Sound s'.authority ∧ Frame r s s' := by
    rw [hs']
    refine Follows.invariant (I := fun s' => Sound s'.authority ∧ Frame r s s') ?_
      ⟨hsound, Frame.refl r s⟩ hafter
    rintro s₁ command ⟨hsound₁, hframe⟩ ⟨hrepeats, hends⟩
    have hsettled₁ := hsettled.of_frame hframe
    have hmoves := step_moves (D := False) command hsound₁ (allAdmitted_process s₁)
      (clearBegin_of_not_repeats hsound₁ hrepeats) (hsettled₁.mayDestroy hends)
    exact ⟨hmoves.sound hsound₁, hframe.trans (hmoves.frame_of_settled hsettled₁)⟩
  exact readable_of_settled hsound hlater.1 (allAdmitted_process s') hsettled hlater.2

end Process

/-! ## One published result -/

/-- Digests of the encodings, taken over their contents. -/
abbrev plainFormat [Sha256] : SnapshotFormatV2 where
  acquisitionChain request batches :=
    lifecycleDigest (request ++ batches.flatMap fun batch => (digestBatch batch).asBytes)
  productChain sealed := sealed.manifest.digest
  eventIndexDigest entries chain :=
    lifecycleDigest (entries.flatMap (·.eventId.asBytes) ++ chain.asBytes)

def sampleResult : ResultId := .repeated 7

def sampleEvent : DurableEventInputV2 := ⟨.repeated 9, .sourceExact, [104, 105], by decide⟩

/-- A repository without a result. -/
def emptyRoot : RepositoryV2 ProcessKeyAuthorityV2 := { authority := { capacity := 1 } }

def sampleBegin : CommandV2 :=
  .begin (fun _ => false) (some (.repeated 1, .repeated 2)) sampleResult 0 1000 (.repeated 1) [1]

/-- One event is acquired, and the result sealed over it. -/
def sealedRun : List CommandV2 :=
  [sampleBegin,
    .commitBatch (fun _ => false) sampleResult ⟨0, .repeated 2, [sampleEvent], [], []⟩,
    .commitData (fun _ => false) sampleResult ⟨.repeated 3, .zero, .zero, .zero, .zero, .zero,
      ⟨.repeated 1, .repeated 1, .repeated 1, .repeated 1, .repeated 1⟩⟩,
    .sealResult (fun _ => false) sampleResult ⟨.repeated 4, [], [], [], [], []⟩]

def samplePublish : CommandV2 := .publish (fun _ => false) sampleResult (.repeated 5)

/-- What the repository knows of the life of a result. -/
def life {A : Type} [KeyAuthorityV2 A] (s : RepositoryV2 A) (r : ResultId) :
    Option (ResultLifecycleStateV1 × Int × Int) :=
  match snapshot s.authority r with
  | .ok record => some (record.state, record.createdUnixNanos, record.expiresUnixNanos)
  | .error _ => none

theorem life_eq_some {A : Type} [KeyAuthorityV2 A] {s : RepositoryV2 A} {r : ResultId}
    {state : ResultLifecycleStateV1} {created expires : Int}
    (h : s.life r = some (state, created, expires)) :
    ∃ record, snapshot s.authority r = .ok record ∧ record.state = state ∧
      record.createdUnixNanos = created ∧ record.expiresUnixNanos = expires := by
  unfold life at h
  cases hrecord : snapshot s.authority r with
  | error e => rw [hrecord] at h; cases h
  | ok record =>
      rw [hrecord] at h
      cases h
      exact ⟨record, rfl, rfl, rfl, rfl⟩

/-- The run ends sealed, a publication after it ends published, and the exact
retry of the first call then takes the result from its readers. -/
theorem sealedRun_outcome :
    letI := fips180
    letI := plainFormat
    (life (emptyRoot.run sealedRun) sampleResult = some (.sealed, 0, 1000) ∧
      life (emptyRoot.run (sealedRun ++ [samplePublish])) sampleResult =
        some (.published, 0, 1000) ∧
      (emptyRoot.run (sealedRun ++ [samplePublish])).finals[sampleResult]?.isSome = true ∧
      (emptyRoot.run (sealedRun ++ [samplePublish])).expand sampleResult
        [sampleEvent.eventId] 1 100 5 = .ok ⟨[sampleEvent], 2⟩) ∧
    ((emptyRoot.run (sealedRun ++ [samplePublish])).run [sampleBegin]).expand sampleResult
        [sampleEvent.eventId] 1 100 5 = .error .rollbackOrCorruption ∧
      (recover sampleResult 5 none
        ((emptyRoot.run (sealedRun ++ [samplePublish])).run [sampleBegin])).1 =
          .ok .quarantined := by
  rw [fips180_eq]
  decide +kernel

/-- The published result, and the same result after the exact retry of its
`begin`: the reader gets an error, and recovery takes the directories away. -/
theorem begin_retry_hides_published :
    letI := fips180
    letI := plainFormat
    let s := emptyRoot.run (sealedRun ++ [samplePublish])
    let s' := s.run [sampleBegin]
    life s sampleResult = some (.published, 0, 1000) ∧
      s.finals[sampleResult]?.isSome = true ∧
      s.expand sampleResult [sampleEvent.eventId] 1 100 5 = .ok ⟨[sampleEvent], 2⟩ ∧
      s'.expand sampleResult [sampleEvent.eventId] 1 100 5 = .error .rollbackOrCorruption ∧
      (recover sampleResult 5 none s').1 = .ok .quarantined := by
  obtain ⟨⟨_, hlife, hfinal, hread⟩, hgone, hquarantined⟩ := sealedRun_outcome
  exact ⟨hlife, hfinal, hread, hgone, hquarantined⟩

/-- A retry of the publication and a recovery leave the sample readable. -/
theorem published_stays_readable_sample :
    letI := fips180
    letI := plainFormat
    ((emptyRoot.run (sealedRun ++ [samplePublish])).run
      [samplePublish, .recoverAll 6 fun _ => none]).expand sampleResult
        [sampleEvent.eventId] 1 100 7 = .ok ⟨[sampleEvent], 2⟩ := by
  let := fips180
  let := plainFormat
  obtain ⟨⟨_, hlife, hfinal, hread⟩, _⟩ := sealedRun_outcome
  obtain ⟨record, hrecord, hstate, hcreated, hexpires⟩ := life_eq_some hlife
  obtain ⟨d, hd⟩ := Option.isSome_iff_exists.mp hfinal
  have hnew : ProcessKeyAuthorityV2.new 1 = .ok emptyRoot.authority := rfl
  have hbefore : Follows (fun s command => ¬RepeatsBegin sampleResult s command)
      { authority := emptyRoot.authority } (sealedRun ++ [samplePublish]) := by
    refine ⟨?_, id, id, id, id, trivial⟩
    rintro ⟨_, _, hfinal, _⟩
    simp at hfinal
  have hends : ∀ (s : RepositoryV2 ProcessKeyAuthorityV2), Follows (fun s command =>
      ¬RepeatsBegin sampleResult s command ∧ ¬Ends sampleResult record command) s
      [samplePublish, .recoverAll 6 fun _ => none] := by
    refine fun s => ⟨⟨id, id⟩, ⟨id, ?_⟩, trivial⟩
    intro hends
    replace hends : record.expiresUnixNanos ≤ 6 := hends
    omega
  have hstays := (published_stays_readable hnew sampleResult _ _ rfl rfl hrecord hstate hd
    hbefore (hends _)).1 [sampleEvent.eventId] 1 100 5 7
  rw [hcreated, hexpires] at hstays
  exact (hstays (by decide) (by decide)).trans hread

end RepositoryV2

end Evidentrail
