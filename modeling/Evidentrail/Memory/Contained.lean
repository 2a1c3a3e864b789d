import Evidentrail.Core.LedgerIndex
import Evidentrail.Memory.Run

/-!
# References inside their result

References are validated against the ledger that is stored when they are
prepared, and committed to the result that is stored under the same id then.
A result that was deleted and inserted again in between, with the creation time
it had, is taken for the one they were prepared for. Without such a commit all
references of a run stay inside their result.
-/

namespace Evidentrail

open Rust Std

/-- References target events of the ledger, aliases are references, and both
live as long as the result. -/
structure MemoryResult.Contained (result : MemoryResult) : Prop where
  targets : ∀ (id : EvidenceReferenceId) (reference : EvidenceReferenceV1),
    result.references[id]? = some reference →
      ∀ target ∈ reference.targets, result.ledger.Holds target
  aliases : ∀ manifest, result.evidenceAliasManifest = some manifest →
    ∀ id ∈ manifest, id ∈ result.references
  expires : ∀ (id : EvidenceReferenceId) (reference : EvidenceReferenceV1),
    result.references[id]? = some reference → reference.expiresAt = result.expiresAt

theorem MemoryResult.Regular.contained {result : MemoryResult} (h : result.Regular)
    (hinside : result.Inside) : result.Contained :=
  ⟨hinside, h.aliases, h.expires⟩

namespace MemoryRunV1

variable [Sha256] {s : MemoryRunV1} {call : MemoryCallV1} {id : ResultId}

/-- Aliases that were published stay, until the result is deleted or has
expired and is cleaned up. -/
def KeepsAliases (s : MemoryRunV1) (call : MemoryCallV1) : Prop :=
  ∀ (id : ResultId) (result : MemoryResult) (manifest : List EvidenceReferenceId),
    s.store.results[id]? = some result → result.evidenceAliasManifest = some manifest →
      (∃ result', (s.step call).store.results[id]? = some result' ∧
        result'.evidenceAliasManifest = some manifest) ∨
      call = .delete id ∨ ∃ now, call = .cleanupExpired now ∧ result.expiresAt.get ≤ now.get

/-- After every call of the run from the empty store. -/
def Contained (calls : List MemoryCallV1) : Prop :=
  ∀ (before : List MemoryCallV1) (call : MemoryCallV1) (after : List MemoryCallV1),
    calls = before ++ call :: after →
      (∀ (id : ResultId) (result : MemoryResult),
        ((runCalls {} before).step call).store.results[id]? = some result → result.Contained) ∧
      (runCalls {} before).KeepsAliases call

/-- The call commits references to a result that accepts them, and whose
ledger does not have the events of all of them. -/
def Strays (s : MemoryRunV1) (call : MemoryCallV1) : Prop :=
  ∃ index now prepared result, call = .commitPacketReferences index now ∧
    s.prepared[index]? = some prepared ∧
    s.store.results[prepared.resultId]? = some result ∧
    result.accepts prepared now = true ∧
    ∃ reference ∈ prepared.references, ∃ target ∈ reference.targets,
      ¬result.ledger.Holds target

/-! ## Aliases -/

theorem keepsAliases (s : MemoryRunV1) (call : MemoryCallV1) : s.KeepsAliases call := by
  intro id result manifest hresult hmanifest
  have heffect : Effect s call id s.store.results[id]? (s.step call).store.results[id]? :=
    effect_step
  rw [hresult] at heffect
  generalize (s.step call).store.results[id]? = found at heffect
  cases heffect with
  | same => exact .inl ⟨result, rfl, hmanifest⟩
  | published hnone =>
      rw [hnone] at hmanifest
      cases hmanifest
  | issued hexpires htargets => exact .inl ⟨_, rfl, hmanifest⟩
  | committed hcall hprepared hid hmap haccepts =>
      simp [MemoryResult.accepts, hmanifest] at haccepts
  | gone hcall => exact .inr hcall

/-! ## Targets -/

theorem Effect.inside {before after : Option MemoryResult} (h : Effect s call id before after)
    (hat : s.store.results[id]? = before)
    (hbefore : ∀ result, before = some result → result.Regular ∧ result.Inside)
    (hstrays : ¬s.Strays call) : ∀ result, after = some result → result.Inside := by
  cases h with
  | same =>
      intro result hresult
      exact (hbefore result hresult).2
  | opened hregular hinside =>
      intro result hresult
      cases hresult
      exact hinside
  | published hnone =>
      intro result hresult
      cases hresult
      exact (hbefore _ rfl).2
  | @issued result reference hexpires htargets =>
      intro found hfound
      cases hfound
      obtain ⟨hregular, hinside⟩ := hbefore _ rfl
      intro key candidate hcandidate
      rw [getElem?_insert] at hcandidate
      split at hcandidate
      · cases hcandidate
        exact htargets hregular.indexed
      · exact hinside key candidate hcandidate
  | @committed result index prepared registered now hcall hprepared hid hmap haccepts =>
      intro found hfound
      cases hfound
      intro key reference hreference target htarget
      rcases MemoryResult.withPackets_reference hmap hreference with hold | hmem
      · exact (hbefore _ rfl).2 key reference hold target htarget
      · -- a target that the ledger does not have would make this a stray commit
        by_contra hholds
        subst hid
        exact hstrays ⟨index, now, prepared, result, hcall, hprepared, hat, haccepts, reference,
          hmem, target, htarget, hholds⟩
  | gone hcall =>
      intro result hresult
      cases hresult

/-- Every result of the state is inside its ledger. -/
def AllInside (s : MemoryRunV1) : Prop :=
  ∀ (id : ResultId) (result : MemoryResult), s.store.results[id]? = some result → result.Inside

theorem AllInside.step (h : s.AllInside) (hsound : s.Sound) (hstrays : ¬s.Strays call) :
    (s.step call).AllInside := fun id =>
  effect_step.inside rfl (fun result hresult => ⟨hsound.regular id result hresult,
    h id result hresult⟩) hstrays

theorem AllInside.runCalls (h : s.AllInside) (hsound : s.Sound) {calls : List MemoryCallV1}
    (hnever : ∀ (before : List MemoryCallV1) (call : MemoryCallV1) (after : List MemoryCallV1),
      calls = before ++ call :: after → ¬(s.runCalls before).Strays call) :
    (s.runCalls calls).AllInside := by
  induction calls generalizing s with
  | nil => exact h
  | cons call rest ih =>
      refine ih (h.step hsound (hnever [] call rest rfl)) (hsound.step call) ?_
      intro before next after hrest
      exact hnever (call :: before) next after (by rw [hrest, List.cons_append])

/-- A stray commit leaves a reference to an event the ledger does not have. -/
theorem Strays.outside (h : s.Strays call) (hsound : s.Sound) :
    ¬∀ (id : ResultId) (result : MemoryResult),
      (s.step call).store.results[id]? = some result → result.Contained := by
  obtain ⟨index, now, prepared, result, rfl, hprepared, hresult, haccepts, reference, hmem,
    target, htarget, hholds⟩ := h
  obtain ⟨registered, hmap⟩ := (hsound.ready _ (List.mem_of_getElem? hprepared)).distinct
  intro hcontained
  have hafter : (s.step (.commitPacketReferences index now)).store.results[prepared.resultId]? =
      some (result.withPackets prepared registered) := by
    simp only [step, hprepared, commit_accepted hmap hresult haccepts, settle,
      MemoryResultStore.setResult, getElem?_insert, if_true]
  have hfound : (result.withPackets prepared registered).references[reference.id]? =
      some reference := by
    obtain ⟨found, hfound⟩ := Option.isSome_iff_exists.mp
      (ExtTreeMap.mem_iff_isSome_getElem?.mp (result.mem_withPackets hmap hmem))
    rcases merged_some hfound with hold | hnew
    · -- the commit is accepted only for ids that are not yet given
      have hfresh := result.fresh_of_accepts haccepts hmem
      rw [hold] at hfresh
      cases hfresh
    · have hregistered := ExtTreeMap.mem_toList_iff_getElem?_eq_some.mp hnew
      rw [(referenceMap_ok hmap).mpr ⟨hmem, rfl⟩] at hregistered
      rw [hfound, hregistered]
  exact hholds ((hcontained _ _ hafter).targets _ _ hfound target htarget)

/-- Over every run from the empty store: references stay inside their result
and published aliases stay as they are, exactly when no prepared references
are committed to a result that has taken the place of theirs. -/
theorem contained_iff_never_strays (calls : List MemoryCallV1) :
    Contained calls ↔ ∀ (before : List MemoryCallV1) (call : MemoryCallV1)
      (after : List MemoryCallV1), calls = before ++ call :: after →
        ¬(runCalls {} before).Strays call := by
  constructor
  · intro hcontained before call after hcalls hstrays
    exact hstrays.outside (sound_empty.runCalls before) (hcontained before call after hcalls).1
  · intro hnever before call after hcalls
    refine ⟨fun id result hresult => ?_, keepsAliases _ _⟩
    have hsound := (sound_empty.runCalls before).step call
    have hinside : (runCalls {} before).AllInside := by
      refine AllInside.runCalls (fun id result hresult => ?_) sound_empty ?_
      · simp at hresult
      · intro earlier next later hbefore
        refine hnever earlier next (later ++ call :: after) ?_
        rw [hcalls, hbefore]
        simp
    exact (hsound.regular id result hresult).contained
      (hinside.step (sound_empty.runCalls before) (hnever before call after hcalls) id result
        hresult)

/-! ## Two runs -/

/-- The ledger of a replay, as the store takes it. -/
def storedLedger (es : List RawEnvelopeV1) (bytes : Nat) :
    Option { ledger : EventLedger // ledger.Obtained } :=
  match h : replayLedger es bytes with
  | some ledger => some ⟨ledger, obtained_of_replayLedger h⟩
  | none => none

/-- What a commit would register is in the ledger. -/
def staysInside (s : MemoryRunV1) : MemoryCallV1 → Bool
  | .commitPacketReferences index _ => s.prepared[index]?.all fun prepared =>
      s.store.results[prepared.resultId]?.all fun result =>
        prepared.references.all fun reference => reference.targets.all fun target =>
          decide (∃ event ∈ result.ledger.events, target = .event event.id)
  | _ => true

def staysInsideAll (s : MemoryRunV1) : List MemoryCallV1 → Bool
  | [] => true
  | call :: rest => s.staysInside call && (s.step call).staysInsideAll rest

theorem not_strays_of_staysInside (h : s.staysInside call = true) : ¬s.Strays call := by
  rintro ⟨index, now, prepared, result, rfl, hprepared, hresult, _, reference, hmem, target,
    htarget, hholds⟩
  simp only [staysInside, hprepared, hresult, Option.all_some, List.all_eq_true,
    decide_eq_true_eq] at h
  exact hholds (h reference hmem target htarget)

theorem not_strays_of_staysInsideAll {calls : List MemoryCallV1}
    (h : s.staysInsideAll calls = true) (before : List MemoryCallV1) (call : MemoryCallV1)
    (after : List MemoryCallV1) (hcalls : calls = before ++ call :: after) :
    ¬(s.runCalls before).Strays call := by
  subst hcalls
  induction before generalizing s with
  | nil =>
      simp only [List.nil_append, staysInsideAll, Bool.and_eq_true] at h
      exact not_strays_of_staysInside h.1
  | cons first before ih =>
      simp only [List.cons_append, staysInsideAll, Bool.and_eq_true] at h
      exact ih h.2

/-- References are prepared for one ledger and committed to it, while another
result comes with aliases of its own, is deleted and comes again. -/
def keeping (first second : { ledger : EventLedger // ledger.Obtained }) : List MemoryCallV1 :=
  let now := UnixTimestampNanos.epoch
  [.insert (.repeated 9) first now,
    .preparePacketReferences (.repeated 9) (first.1.events.map fun event => [event.id]) now,
    .insertWithEventReferences (.repeated 8) second now,
    .publishEventAliases (.repeated 8) now, .delete (.repeated 8),
    .commitPacketReferences 0 now, .insert (.repeated 8) first now,
    .issueEventReference (.repeated 8) (first.1.events.map Event.id) [.exact] now,
    .cleanupExpired now]

/-- How many references and aliases a result has. -/
def registered (s : MemoryRunV1) (id : ResultId) : Option (Nat × Option Nat) :=
  s.store.results[id]?.map fun result =>
    (result.references.size, result.evidenceAliasManifest.map List.length)

/-- References are prepared for one ledger. The result is deleted, inserted
again with another ledger at the same time, and the references are committed. -/
def replacing (first second : { ledger : EventLedger // ledger.Obtained }) : List MemoryCallV1 :=
  let now := UnixTimestampNanos.epoch
  [.insert (.repeated 9) first now,
    .preparePacketReferences (.repeated 9) [first.1.events.map Event.id] now,
    .delete (.repeated 9), .insert (.repeated 9) second now]

def commitsAll (s : MemoryRunV1) (now : UnixTimestampNanos) : Bool :=
  match s.prepared[0]? with
  | none => false
  | some prepared =>
      match s.store.results[prepared.resultId]? with
      | none => false
      | some result => result.accepts prepared now && result.ledger.events.isEmpty &&
          prepared.references.any fun reference => !reference.targets.isEmpty

theorem strays_of_commitsAll {now : UnixTimestampNanos} (h : s.commitsAll now = true) :
    s.Strays (.commitPacketReferences 0 now) := by
  unfold commitsAll at h
  split at h
  · cases h
  · rename_i prepared hprepared
    split at h
    · cases h
    · rename_i result hresult
      simp only [Bool.and_eq_true, List.any_eq_true, List.isEmpty_iff] at h
      obtain ⟨⟨haccepts, hempty⟩, reference, hmem, htargets⟩ := h
      cases hfound : reference.targets with
      | nil =>
          rw [hfound] at htargets
          cases htargets
      | cons target rest =>
          refine ⟨0, now, prepared, result, rfl, hprepared, hresult, haccepts, reference, hmem,
            target, by rw [hfound]; exact List.mem_cons_self .., ?_⟩
          rintro ⟨event, hevent, _⟩
          rw [hempty] at hevent
          cases hevent

end MemoryRunV1

namespace MemoryRunV1

/-- Both results end with references, and one with aliases. -/
theorem contained_iff_never_strays_keeping :
    letI := fips180
    ∃ first second : { ledger : EventLedger // ledger.Obtained },
      (runCalls {} (keeping first second)).registered (.repeated 9) = some (3, some 3) ∧
      (runCalls {} (keeping first second)).registered (.repeated 8) = some (1, none) ∧
      Contained (keeping first second) := by
  rw [fips180_eq]
  let := fips180Evaluated
  have hrun : (do
      let first ← storedLedger LedgerBuilder.replayRun 3
      let second ← storedLedger twoStreams 4
      some ((runCalls {} (keeping first second)).registered (.repeated 9),
        (runCalls {} (keeping first second)).registered (.repeated 8),
        staysInsideAll {} (keeping first second))) =
          some (some (3, some 3), some (1, none), true) := by
    decide +kernel
  obtain ⟨first, _, hrun⟩ := Option.bind_eq_some_iff.mp hrun
  obtain ⟨second, _, hrun⟩ := Option.bind_eq_some_iff.mp hrun
  simp only [Option.some.injEq, Prod.mk.injEq] at hrun
  obtain ⟨hcommitted, hissued, hstays⟩ := hrun
  exact ⟨first, second, hcommitted, hissued,
    (contained_iff_never_strays _).mpr (not_strays_of_staysInsideAll hstays)⟩

/-- The second ledger is empty, so no reference speaks of an event of it. -/
theorem replaced_result_takes_references :
    letI := fips180
    ∃ first second : { ledger : EventLedger // ledger.Obtained },
      ¬Contained (replacing first second ++
        [.commitPacketReferences 0 ⟨0, by decide, by decide⟩]) := by
  rw [fips180_eq]
  let := fips180Evaluated
  have hrun : (do
      let first ← storedLedger LedgerBuilder.replayRun 3
      let second ← storedLedger [] 0
      some ((runCalls {} (replacing first second)).commitsAll ⟨0, by decide, by decide⟩)) =
        some true := by
    decide +kernel
  obtain ⟨first, _, hrun⟩ := Option.bind_eq_some_iff.mp hrun
  obtain ⟨second, _, hrun⟩ := Option.bind_eq_some_iff.mp hrun
  refine ⟨first, second, fun hcontained => ?_⟩
  exact (strays_of_commitsAll (Option.some.inj hrun)).outside (sound_empty.runCalls _)
    (hcontained _ _ [] rfl).1

end MemoryRunV1

end Evidentrail
