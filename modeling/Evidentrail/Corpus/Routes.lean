import Evidentrail.Corpus.Labels

/-!
# Routes and the labels they were trained on

The status column of the routes, the row of the state and the labels are
written by different calls. `Routed` ties the first two together over every run
of calls, and `Labelled` the labels and their terms; no call needs both.
-/

namespace Evidentrail

open Rust

namespace LearningStore

/-! ## One active route -/

/-- The state names the one route whose status is active, and parents are
older. -/
structure Routed (s : LearningStore) : Prop where
  versions : (s.routes.map RouteVersion.version).Nodup
  active : ∀ route ∈ s.routes, route.status = .active ↔ s.routeState.join = some route.version
  present : ∀ version, s.routeState.join = some version →
    version ∈ s.routes.map RouteVersion.version
  parents : ∀ route ∈ s.routes, ∀ parent, route.parentVersion = some parent →
    parent < route.version ∧ parent ∈ s.routes.map RouteVersion.version

theorem routed_empty : Routed {} := by
  refine ⟨List.nodup_nil, ?_, ?_, ?_⟩ <;> intro _ h <;> cases h

variable {s s' : LearningStore}

theorem Routed.congr (h : Routed s) (hroutes : s'.routes = s.routes)
    (hstate : s'.routeState = s.routeState) : Routed s' where
  versions := by rw [hroutes]; exact h.versions
  active := by rw [hroutes, hstate]; exact h.active
  present := by rw [hroutes, hstate]; exact h.present
  parents := by rw [hroutes]; exact h.parents

/-- The same routes with other statuses. -/
def withStatus (routes : List RouteVersion) (status : RouteVersion → RouteStatus) :
    List RouteVersion :=
  routes.map fun route => { route with status := status route }

theorem setStatus_eq (routes : List RouteVersion) (version : Nat) (status : RouteStatus) :
    setStatus routes version status =
      withStatus routes fun route => if route.version = version then status else route.status := by
  unfold setStatus Table.update withStatus
  refine List.map_congr_left fun route _ => ?_
  by_cases hversion : route.version = version
  · simp only [hversion, if_true]
  · simp only [hversion, if_false]

theorem withStatus_withStatus (routes : List RouteVersion) (f g : RouteVersion → RouteStatus) :
    withStatus (withStatus routes f) g =
      withStatus routes fun route => g { route with status := f route } := by
  unfold withStatus
  rw [List.map_map]
  rfl

/-- The statuses and the state are changed together. -/
theorem Routed.restate (h : Routed s) {status : RouteVersion → RouteStatus}
    {state : Option (Option Nat)}
    (hactive : ∀ route ∈ s.routes, status route = .active ↔ state.join = some route.version)
    (hpresent : ∀ version, state.join = some version →
      version ∈ s.routes.map RouteVersion.version) :
    Routed { s with routes := withStatus s.routes status, routeState := state } := by
  have hversions : (withStatus s.routes status).map RouteVersion.version =
      s.routes.map RouteVersion.version := by
    rw [withStatus, List.map_map]
    rfl
  refine ⟨?_, ?_, ?_, ?_⟩
  · rw [hversions]
    exact h.versions
  · intro route hroute
    obtain ⟨old, hold, rfl⟩ := List.mem_map.mp hroute
    exact hactive old hold
  · intro version hversion
    rw [hversions]
    exact hpresent version hversion
  · intro route hroute parent hparent
    obtain ⟨old, hold, rfl⟩ := List.mem_map.mp hroute
    rw [hversions]
    exact h.parents old hold parent hparent

/-- A call that fails leaves the store as it was. -/
theorem getD_keeps {P : LearningStore → Prop} {result : Except CorpusError LearningStore}
    (h : P s) (hok : ∀ s', result = .ok s' → P s') : P (result.toOption.getD s) := by
  cases result with
  | error e => exact h
  | ok s' => exact hok s' rfl

theorem getD_fst_keeps {P : LearningStore → Prop} {α : Type}
    {result : Except CorpusError (LearningStore × α)} (h : P s)
    (hok : ∀ s' a, result = .ok (s', a) → P s') :
    P ((result.toOption.map Prod.fst).getD s) := by
  cases result with
  | error e => exact h
  | ok answer => exact hok answer.1 answer.2 rfl

section Hashing

variable [Sha256]

theorem activeRoute_eq_some {route : RouteVersion} (h : s.activeRoute = some route) :
    s.routeState.join = some route.version ∧ route ∈ s.routes ∧ route.heldOutPassed = true ∧
      route.trainingDigest = s.learningFingerprint := by
  unfold activeRoute at h
  obtain ⟨version, hstate, h⟩ := Option.bind_eq_some_iff.mp h
  obtain ⟨found, hfound, h⟩ := Option.bind_eq_some_iff.mp h
  obtain ⟨hmem, hversion⟩ := Table.mem_of_find hfound
  split at h
  · cases h
  · rename_i hvalid
    cases h
    rw [← hversion] at hstate
    rw [not_or, not_not, Bool.not_eq_true, Bool.not_eq_false] at hvalid
    exact ⟨hstate, hmem, hvalid.2, hvalid.1⟩

theorem Routed.register (h : Routed s) {selectorId modelId : String} {reportDigest : Digest}
    {heldOutPassed : Bool} {version : Nat}
    (hregister : s.registerShadowRoute selectorId modelId reportDigest heldOutPassed =
      .ok (s', version)) : Routed s' := by
  unfold registerShadowRoute at hregister
  split at hregister
  · cases hregister
  cases hregister
  -- the new version is above all others
  have hnew : ∀ route ∈ s.routes,
      route.version < (s.routes.map RouteVersion.version).foldl max 0 + 1 := fun route hroute =>
    Nat.lt_succ_of_le ((le_foldl_max _ 0).2 _ (List.mem_map_of_mem hroute))
  have hpresent : ∀ version ∈ s.routes.map RouteVersion.version,
      version < (s.routes.map RouteVersion.version).foldl max 0 + 1 := by
    intro version hversion
    obtain ⟨route, hroute, rfl⟩ := List.mem_map.mp hversion
    exact hnew route hroute
  refine ⟨Table.nodup_append_row h.versions fun route hroute => (hnew route hroute).ne, ?_, ?_, ?_⟩
  · intro route hroute
    rcases List.mem_append.mp hroute with hold | hadded
    · exact h.active route hold
    · rw [List.mem_singleton.mp hadded]
      constructor
      · intro hstatus
        cases hstatus
      · intro hstate
        exact absurd (hpresent _ (h.present _ hstate)) (Nat.lt_irrefl _)
  · intro version hversion
    rw [List.map_append]
    exact List.mem_append_left _ (h.present version hversion)
  · intro route hroute parent hparent
    rw [List.map_append]
    rcases List.mem_append.mp hroute with hold | hadded
    · obtain ⟨holder, hmem⟩ := h.parents route hold parent hparent
      exact ⟨holder, List.mem_append_left _ hmem⟩
    · rw [List.mem_singleton.mp hadded] at hparent ⊢
      obtain ⟨active, hactive, rfl⟩ := Option.map_eq_some_iff.mp hparent
      have hmem := (activeRoute_eq_some hactive).2.1
      exact ⟨hnew active hmem, List.mem_append_left _ (List.mem_map_of_mem hmem)⟩

theorem Routed.promote (h : Routed s) {version : Nat}
    (hpromote : s.promoteRoute version = .ok s') : Routed s' := by
  unfold promoteRoute at hpromote
  obtain ⟨route, hroute, hpromote⟩ := except_bind_eq_ok.mp hpromote
  obtain ⟨hmem, rfl⟩ := Table.mem_of_find (okOr_eq_ok.mp hroute)
  split at hpromote
  · cases hpromote
  split at hpromote
  · cases hpromote
  cases hpromote
  -- every other route is retired, if it was active
  have hroutes : setStatus (s.routes.map fun route =>
      if route.status = .active then { route with status := .retired } else route)
        route.version .active =
      withStatus s.routes fun row => if row.version = route.version then .active
        else if row.status = .active then .retired else row.status := by
    have hretired : (s.routes.map fun route =>
        if route.status = .active then { route with status := .retired } else route) =
        withStatus s.routes fun row =>
          if row.status = .active then .retired else row.status := by
      refine List.map_congr_left fun row _ => ?_
      by_cases hactive : row.status = .active
      · simp only [hactive, if_true]
      · simp only [hactive, if_false]
    rw [setStatus_eq, hretired, withStatus_withStatus]
  rw [hroutes]
  refine h.restate (fun row hrow => ?_) ?_
  · by_cases hversion : row.version = route.version
    · simp [hversion]
    · have hne : route.version ≠ row.version := Ne.symm hversion
      simp only [hversion, if_false, Option.join_some, Option.some.injEq, hne, iff_false]
      split
      · exact RouteStatus.noConfusion
      · assumption
  · intro version hversion
    cases hversion
    exact List.mem_map_of_mem hmem

theorem Routed.rollback (h : Routed s) {parent : Option Nat}
    (hrollback : s.rollbackRoute = .ok (s', parent)) : Routed s' := by
  unfold rollbackRoute at hrollback
  obtain ⟨active, hactive, hrollback⟩ := except_bind_eq_ok.mp hrollback
  obtain ⟨hstate, hmem, _, _⟩ := activeRoute_eq_some (okOr_eq_ok.mp hactive)
  obtain ⟨state, hrow⟩ : ∃ state, s.routeState = some state := by
    cases hrow : s.routeState with
    | none => rw [hrow] at hstate; cases hstate
    | some state => exact ⟨state, rfl⟩
  split at hrollback
  · cases hrollback
  cases hrollback
  -- no other route was active
  have hothers : ∀ row ∈ s.routes, row.version ≠ active.version → row.status ≠ .active := by
    intro row hrow hne hstatus
    rw [(h.active row hrow).mp hstatus] at hstate
    exact hne (Option.some.inj hstate)
  cases hparent : active.parentVersion with
  | none =>
      simp only [hrow, Option.map_some, setStatus_eq]
      refine h.restate (fun row hmem => ?_) (fun version hversion => by cases hversion)
      simp only [Option.join_some, reduceCtorEq, iff_false]
      split
      · exact RouteStatus.noConfusion
      · rename_i hne
        exact hothers row hmem hne
  | some parent =>
      obtain ⟨holder, hpresent⟩ := h.parents active hmem parent hparent
      simp only [hrow, Option.map_some, setStatus_eq, withStatus_withStatus]
      refine h.restate (fun row hmem => ?_) ?_
      · by_cases hversion : row.version = parent
        · simp [hversion]
        · have hne : parent ≠ row.version := Ne.symm hversion
          simp only [hversion, if_false, Option.join_some, Option.some.injEq, hne, iff_false]
          split
          · exact RouteStatus.noConfusion
          · rename_i hne
            exact hothers row hmem hne
      · intro version hversion
        cases hversion
        exact hpresent

end Hashing

/-! ## Runs -/

section Runs

variable [Sha256] [LogModel]

/-- The tasks that records were labelled for. -/
def labelledTasks (calls : List LearningCall) : Set String :=
  { task | ∃ caseText nativeId label split provenanceDigest,
    .recordIndependentLabel caseText task nativeId label split provenanceDigest ∈ calls }

structure Sound (tasks : Set String) (s : LearningStore) : Prop where
  labelled : Labelled tasks s
  routed : Routed s
  consistent : s.tables.Consistent

theorem sound_empty (tasks : Set String) : Sound tasks {} where
  labelled := by refine ⟨?_, ?_, ?_⟩ <;> intro _ h <;> cases h
  routed := routed_empty
  consistent := Tables.consistent_empty

theorem Sound.rowidGroups {tasks : Set String} (h : Sound tasks s) : RowidGroups s.tables := by
  intro nativeId groupId hgroup
  obtain ⟨member, hmember, rfl⟩ := Option.map_eq_some_iff.mp hgroup
  obtain ⟨hmem, rfl⟩ := Table.mem_of_find hmember
  obtain ⟨record, hrecord, hid⟩ := h.consistent.grouped.covered member hmem
  obtain ⟨group, hgroup, hsame, _⟩ := h.consistent.grouped.grouped member hmem record hrecord hid
  rw [← hsame]
  exact (h.consistent.grouped.rowids group hgroup).2

variable [Rowids]

theorem Sound.step {tasks : Set String} (h : Sound tasks s) (call : LearningCall)
    (htasks : labelledTasks [call] ⊆ tasks) : Sound tasks (s.step call) := by
  cases call with
  | recordIndependentLabel caseText task nativeId label split provenanceDigest =>
      refine getD_keeps h fun s' hok => ?_
      have htask : task ∈ tasks :=
        htasks ⟨caseText, nativeId, label, split, provenanceDigest, List.mem_singleton_self _⟩
      have hlabelled := h.labelled.record htask hok
      obtain ⟨caseId, _, rfl⟩ := recordIndependentLabel_ok hok
      exact ⟨hlabelled, h.routed.congr rfl rfl, h.consistent⟩
  | revokeLearningEvidence nativeId =>
      exact ⟨h.labelled.revoke nativeId, h.routed.congr rfl rfl, h.consistent⟩
  | recordVerifiedCaseOutcome caseText task repaired verifierDigest =>
      refine getD_keeps h fun s' hok => ?_
      obtain ⟨htables, hlabels, hterms, hroutes, hstate⟩ := outcome_silent hok
      exact ⟨h.labelled.congr hlabels hterms, h.routed.congr hroutes hstate,
        htables ▸ h.consistent⟩
  | registerShadowRoute selectorId modelId reportDigest heldOutPassed =>
      refine getD_fst_keeps h fun s' version hok => ?_
      have hrouted := h.routed.register hok
      unfold LearningStore.registerShadowRoute at hok
      split at hok
      · cases hok
      cases hok
      exact ⟨h.labelled.congr rfl rfl, hrouted, h.consistent⟩
  | promoteRoute version =>
      refine getD_keeps h fun s' hok => ?_
      have hrouted := h.routed.promote hok
      unfold LearningStore.promoteRoute at hok
      obtain ⟨route, _, hok⟩ := except_bind_eq_ok.mp hok
      split at hok
      · cases hok
      split at hok
      · cases hok
      cases hok
      exact ⟨h.labelled.congr rfl rfl, hrouted, h.consistent⟩
  | rollbackRoute =>
      refine getD_fst_keeps h fun s' parent hok => ?_
      have hrouted := h.routed.rollback hok
      unfold LearningStore.rollbackRoute at hok
      obtain ⟨active, _, hok⟩ := except_bind_eq_ok.mp hok
      split at hok
      · cases hok
      cases hok
      exact ⟨h.labelled.congr rfl rfl, hrouted, h.consistent⟩
  | commitPage fault records =>
      exact ⟨h.labelled.congr rfl rfl, h.routed.congr rfl rfl,
        commitPage_keeps Tables.Consistent.commitRecord fault records h.consistent⟩

theorem Sound.runCalls {tasks : Set String} (h : Sound tasks s) {calls : List LearningCall}
    (htasks : labelledTasks calls ⊆ tasks) : Sound tasks (s.runCalls calls) := by
  induction calls generalizing s with
  | nil => exact h
  | cons call rest ih =>
      refine ih (h.step call ?_) ?_
      · rintro task ⟨caseText, nativeId, label, split, provenanceDigest, hmem⟩
        refine htasks ⟨caseText, nativeId, label, split, provenanceDigest, ?_⟩
        rw [List.mem_singleton.mp hmem]
        exact List.mem_cons_self
      · rintro task ⟨caseText, nativeId, label, split, provenanceDigest, hmem⟩
        exact htasks ⟨caseText, nativeId, label, split, provenanceDigest,
          List.mem_cons_of_mem _ hmem⟩

theorem sound_run (calls : List LearningCall) :
    Sound (labelledTasks calls) (LearningStore.runCalls {} calls) :=
  (sound_empty _).runCalls (Set.Subset.refl _)

/-- A held-out label, or the outcome of a case. -/
def heldOutOrOutcome : LearningCall → Prop
  | .recordIndependentLabel _ _ _ _ split _ => split = .heldOut
  | .recordVerifiedCaseOutcome .. => True
  | _ => False

theorem Sound.silent {tasks : Set String} (h : Sound tasks s) {call : LearningCall}
    (hcall : heldOutOrOutcome call) :
    (s.step call).learningFingerprint = s.learningFingerprint ∧
    ∀ task cards, (s.step call).shadowGroupBonus task cards = s.shadowGroupBonus task cards := by
  cases call with
  | recordIndependentLabel caseText task nativeId label split provenanceDigest =>
      cases (show split = .heldOut from hcall)
      exact getD_keeps (P := fun s' => s'.learningFingerprint = s.learningFingerprint ∧
        ∀ task cards, s'.shadowGroupBonus task cards = s.shadowGroupBonus task cards)
        ⟨rfl, fun _ _ => rfl⟩ fun s' hok => h.labelled.heldOut_silent hok
  | recordVerifiedCaseOutcome caseText task repaired verifierDigest =>
      refine getD_keeps (P := fun s' => s'.learningFingerprint = s.learningFingerprint ∧
        ∀ task cards, s'.shadowGroupBonus task cards = s.shadowGroupBonus task cards)
        ⟨rfl, fun _ _ => rfl⟩ fun s' hok => ?_
      obtain ⟨htables, hlabels, hterms, _, _⟩ := outcome_silent hok
      refine unchanged_of_development htables ?_ fun row _ digest => by rw [hterms]
      unfold developmentLabels
      rw [hlabels]
  | _ => cases hcall

/-- What is hashed in a run and compared later: the tasks of labels, and the
labels at the end. -/
def hashed (calls : List LearningCall) : Set (List UInt8) :=
  taskPreimage '' labelledTasks calls ∪ {(LearningStore.runCalls {} calls).fingerprintPreimage}

/-- Over every run of calls: the state names the one active route, a route that
answers has passed and was trained on the labels there are, the labels of one
case share their task and their split, equal fingerprints mean equal bonuses,
and held-out labels and outcomes touch neither. -/
theorem routes_follow_labels (calls : List LearningCall) :
    let s := LearningStore.runCalls {} calls
    ((s.routes.map RouteVersion.version).Nodup ∧
      (∀ route ∈ s.routes, route.status = .active ↔ s.routeState.join = some route.version) ∧
      ∀ version, s.routeState.join = some version → version ∈ s.routes.map RouteVersion.version) ∧
    (∀ route, s.activeRoute = some route →
      route ∈ s.routes ∧ s.routeState.join = some route.version ∧ route.heldOutPassed = true ∧
      route.trainingDigest = s.learningFingerprint) ∧
    (∀ a ∈ s.labels, ∀ b ∈ s.labels, a.caseId = b.caseId →
      a.taskDigest = b.taskDigest ∧ a.split = b.split) ∧
    (∀ calls' : List LearningCall, Set.InjOn Sha256.digest (hashed calls ∪ hashed calls') →
      s.learningFingerprint = (LearningStore.runCalls {} calls').learningFingerprint →
      ∀ task cards, s.shadowGroupBonus task cards =
        (LearningStore.runCalls {} calls').shadowGroupBonus task cards) ∧
    ∀ call, heldOutOrOutcome call →
      (s.step call).learningFingerprint = s.learningFingerprint ∧
      ∀ task cards, (s.step call).shadowGroupBonus task cards = s.shadowGroupBonus task cards := by
  have hsound := sound_run calls
  refine ⟨⟨hsound.routed.versions, hsound.routed.active, hsound.routed.present⟩, ?_,
    hsound.labelled.one_case, ?_, fun call hcall => hsound.silent hcall⟩
  · intro route hroute
    obtain ⟨hstate, hmem, hpassed, hdigest⟩ := activeRoute_eq_some hroute
    exact ⟨hmem, hstate, hpassed, hdigest⟩
  · intro calls' hinj hfingerprint task cards
    have hsound' := sound_run calls'
    refine bonus_of_fingerprint hsound.labelled hsound'.labelled hsound.rowidGroups
      hsound'.rowidGroups (hinj.mono ?_) hfingerprint task cards
    rintro preimage (⟨task, htask | htask, rfl⟩ | rfl | rfl)
    · exact .inl (.inl ⟨task, htask, rfl⟩)
    · exact .inr (.inl ⟨task, htask, rfl⟩)
    · exact .inl (.inr rfl)
    · exact .inr (.inr rfl)

end Runs

/-! ## A held-out label on top -/

def reviewer : Digest := ⟨List.replicate 32 1, List.length_replicate⟩

def oneLabel : List LearningCall :=
  [.commitPage none [⟨[1], 5, [120]⟩],
    .recordIndependentLabel "case" "checkout fails" ⟨[1], by decide⟩ .relevant .development
      reviewer,
    .registerShadowRoute "selector" "model" reviewer true, .promoteRoute 1]

def withHeldOut : List LearningCall :=
  oneLabel ++ [.recordIndependentLabel "other" "slow login" ⟨[1], by decide⟩ .irrelevant .heldOut
    reviewer]

theorem mem_labelledTasks {task : String}
    (h : task ∈ labelledTasks oneLabel ∨ task ∈ labelledTasks withHeldOut) :
    task = "checkout fails" ∨ task = "slow login" := by
  rcases h with ⟨caseText, nativeId, label, split, provenanceDigest, hmem⟩ |
    ⟨caseText, nativeId, label, split, provenanceDigest, hmem⟩
  · simp [oneLabel] at hmem
    exact .inl hmem.2.1
  · simp [withHeldOut, oneLabel] at hmem
    exact hmem.imp (fun h => h.2.1) fun h => h.2.1

/-- The route still answers, and every bonus is what it was. -/
theorem routes_one_label :
    letI := fips180
    letI := plainLog
    letI := noRetry
    Set.InjOn Sha256.digest (hashed oneLabel ∪ hashed withHeldOut) ∧
    (runCalls {} withHeldOut).activeRoute.isSome ∧
    ∀ task cards, (runCalls {} oneLabel).shadowGroupBonus task cards =
      (runCalls {} withHeldOut).shadowGroupBonus task cards := by
  rw [fips180_eq]
  let := fips180Evaluated
  let := plainLog
  let := noRetry
  have hinj : Set.InjOn Sha256.digest (hashed oneLabel ∪ hashed withHeldOut) := by
    let preimages := [taskPreimage "checkout fails", taskPreimage "slow login",
      (runCalls {} oneLabel).fingerprintPreimage, (runCalls {} withHeldOut).fingerprintPreimage]
    have hdistinct : ∀ a ∈ preimages, ∀ b ∈ preimages,
        Sha256.digest a = Sha256.digest b → a = b := by decide +kernel
    have hlisted : hashed oneLabel ∪ hashed withHeldOut ⊆ { a | a ∈ preimages } := by
      have htask : ∀ task, task ∈ labelledTasks oneLabel ∨ task ∈ labelledTasks withHeldOut →
          taskPreimage task ∈ preimages := by
        intro task h
        rcases mem_labelledTasks h with rfl | rfl
        · exact List.mem_cons_self
        · exact List.mem_cons_of_mem _ List.mem_cons_self
      rintro a ((⟨task, h, rfl⟩ | rfl) | ⟨task, h, rfl⟩ | rfl)
      · exact htask task (.inl h)
      · simp [preimages]
      · exact htask task (.inr h)
      · simp [preimages]
    intro a ha b hb
    exact hdistinct a (hlisted ha) b (hlisted hb)
  refine ⟨hinj, by decide +kernel, ?_⟩
  exact (routes_follow_labels oneLabel).2.2.2.1 withHeldOut hinj (by decide +kernel)

end LearningStore

end Evidentrail
