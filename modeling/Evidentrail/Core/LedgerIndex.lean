import Evidentrail.Core.LedgerSeal

/-!
# Ledgers with a faithful index

`Indexed` is all that later stages need of a ledger: its position index
inverts its event list. Sealing establishes it after any run, and an
analysis projection keeps it.
-/

namespace Evidentrail

open Rust Std

namespace EventLedger

structure Indexed (ledger : EventLedger) : Prop where
  positions : ∀ (id : EventId) (position : Nat),
    ledger.positions[id]? = some position ↔
      (ledger.events.map (·.id))[position]? = some id
  length_le : ledger.events.length ≤ u64Bound

/-- The position the index gives an event. -/
def pos (ledger : EventLedger) (event : Event) : Nat :=
  ledger.positions[event.id]?.getD 0

variable {ledger : EventLedger}

theorem Indexed.position_of_getElem? (h : ledger.Indexed) {event : Event} {position : Nat}
    (hevent : ledger.events[position]? = some event) :
    ledger.positions[event.id]? = some position ∧ ledger.pos event = position := by
  have hindex : ledger.positions[event.id]? = some position := by
    rw [h.positions, List.getElem?_map, hevent]
    rfl
  exact ⟨hindex, by rw [pos, hindex]; rfl⟩

theorem Indexed.lookup (h : ledger.Indexed) {event : Event}
    (hmem : event ∈ ledger.events) :
    ledger.positions[event.id]? = some (ledger.pos event) ∧
      ledger.events[ledger.pos event]? = some event := by
  obtain ⟨position, hposition⟩ := List.mem_iff_getElem?.mp hmem
  obtain ⟨hindex, hpos⟩ := h.position_of_getElem? hposition
  rw [hpos]
  exact ⟨hindex, hposition⟩

theorem Indexed.map_pos (h : ledger.Indexed) :
    ledger.events.map ledger.pos = List.range ledger.events.length := by
  apply List.ext_getElem (by simp)
  intro i hi hi'
  rw [List.length_map] at hi
  rw [List.getElem_map, List.getElem_range]
  exact (h.position_of_getElem? (List.getElem?_eq_getElem hi)).2

theorem Indexed.ids_nodup (h : ledger.Indexed) : (ledger.events.map (·.id)).Nodup :=
  LedgerBuilder.ids_nodup h.positions

/-- Events in ledger order have increasing positions. -/
theorem Indexed.pairwise_pos (h : ledger.Indexed) {events : List Event}
    (hsub : events.Sublist ledger.events) :
    events.Pairwise fun a b => ledger.pos a < ledger.pos b := by
  have hall : ledger.events.Pairwise fun a b => ledger.pos a < ledger.pos b := by
    rw [← List.pairwise_map, h.map_pos]
    exact List.pairwise_lt_range
  exact hall.sublist hsub

/-! ## Projections -/

/-- The event of a ledger that a projection took, up to its ordinal. -/
def Renumbered (source event : Event) : Prop :=
  ∃ ordinal, event = { source with ordinal }

/-- A projection selects events in order and counts them. -/
theorem projectEvents_eq_ok {events : List Event} : ∀ {positions : List Nat}
    {prior : Option Nat} {count : Nat} {out : List Event},
    projectEvents events prior count positions = .ok out →
    (∃ sources, sources.Sublist (events.drop (prior.elim 0 (· + 1))) ∧
        List.Forall₂ Renumbered sources out) ∧
      (out ≠ [] → count + out.length ≤ u64Bound)
  | [], _, _, out, h => by
      cases h
      exact ⟨⟨[], List.nil_sublist _, .nil⟩, fun hne => absurd rfl hne⟩
  | position :: rest, prior, count, out, h => by
      unfold projectEvents at h
      split at h
      · cases h
      rename_i event hevent
      split at h
      · cases h
      rename_i hprior
      split at h
      · cases h
      rename_i ordinal hordinal
      have hlt := (u64TryFrom_eq_some.mp hordinal).1
      cases htail : projectEvents events (some position) (count + 1) rest with
      | error error =>
          rw [htail] at h
          cases h
      | ok tail =>
          rw [htail] at h
          cases h
          obtain ⟨⟨sources, hsub, hrenumbered⟩, hcount⟩ := projectEvents_eq_ok htail
          have hlow : prior.elim 0 (· + 1) ≤ position := by
            cases prior with
            | none => exact Nat.zero_le _
            | some p =>
                simp only [Option.any_some, decide_eq_true_eq] at hprior
                simp only [Option.elim_some]
                omega
          obtain ⟨hposition, hget⟩ := List.getElem?_eq_some_iff.mp hevent
          constructor
          · refine ⟨event :: sources, ?_, .cons ⟨_, rfl⟩ hrenumbered⟩
            refine List.Sublist.trans ?_ (List.drop_sublist_drop_left _ hlow)
            rw [List.drop_eq_getElem_cons hposition, hget]
            exact hsub.cons_cons _
          · intro _
            by_cases hnil : tail = []
            · rw [hnil, List.length_singleton]
              exact hlt
            · have hle := hcount hnil
              rw [List.length_cons]
              omega

/-- What the ordinal does not enter is read off the sources. -/
theorem map_renumbered {β : Type} {f : Event → β} (hf : ∀ event ordinal,
    f { event with ordinal } = f event) {sources events : List Event}
    (h : List.Forall₂ Renumbered sources events) : events.map f = sources.map f := by
  induction h with
  | nil => rfl
  | cons hevent _ ih =>
      obtain ⟨ordinal, rfl⟩ := hevent
      rw [List.map_cons, List.map_cons, hf, ih]

theorem exists_source {sources events : List Event} (h : List.Forall₂ Renumbered sources events) :
    ∀ event ∈ events, ∃ source ∈ sources, Renumbered source event := by
  induction h with
  | nil => exact fun _ hevent => absurd hevent List.not_mem_nil
  | cons hhead _ ih =>
      refine List.forall_mem_cons.mpr ⟨⟨_, List.mem_cons_self .., hhead⟩, fun event hevent => ?_⟩
      obtain ⟨source, hsource, hrenumbered⟩ := ih event hevent
      exact ⟨source, List.mem_cons_of_mem _ hsource, hrenumbered⟩

/-- The rebuilt index inverts the projected events. -/
theorem positionsFrom_inverts : ∀ (events : List Event) (before : List EventId)
    {index : ExtTreeMap EventId Nat},
    (∀ (id : EventId) (position : Nat),
      index[id]? = some position ↔ before[position]? = some id) →
    (before ++ events.map (·.id)).Nodup →
    ∀ (id : EventId) (position : Nat),
      (positionsFrom index before.length events)[id]? = some position ↔
        (before ++ events.map (·.id))[position]? = some id
  | [], before, index, h, _ => by simpa [positionsFrom] using h
  | event :: rest, before, index, h, hnodup => by
      have hfresh : event.id ∉ index := by
        intro hin
        obtain ⟨position, hposition⟩ :=
          Option.isSome_iff_exists.mp (ExtTreeMap.isSome_getElem?_iff_mem.mpr hin)
        have hmem := List.mem_of_getElem? ((h event.id position).mp hposition)
        exact (List.nodup_append.mp hnodup).2.2 _ hmem _ (List.mem_cons_self ..) rfl
      have hstep := positionsFrom_inverts rest (before ++ [event.id])
        (LedgerBuilder.positions_concat h hfresh) (by simpa using hnodup)
      simpa [positionsFrom] using hstep

theorem Indexed.analysisProjectionV3 {projected : EventLedger} {positions : List Nat}
    (h : ledger.Indexed) (hok : ledger.analysisProjectionV3 positions = .ok projected) :
    projected.Indexed := by
  unfold EventLedger.analysisProjectionV3 at hok
  split at hok
  · cases hok
  rename_i events hevents
  split at hok
  · cases hok
  rename_i hne
  cases hok
  obtain ⟨⟨sources, hsub, hrenumbered⟩, hcount⟩ := projectEvents_eq_ok hevents
  have hnodup : (events.map (·.id)).Nodup := by
    rw [map_renumbered (f := (·.id)) (fun _ _ => rfl) hrenumbered]
    exact h.ids_nodup.sublist (hsub.map _)
  exact ⟨positionsFrom_inverts events [] (by simp) hnodup, by simpa using hcount hne⟩

/-- The ledgers there are: sealed after a run in either mode, or projected
from one of them. -/
inductive Obtained [Sha256] : EventLedger → Prop where
  | ofSeal (identity : FetchIdentity) (digest : SourceIdentityDigest)
      (policy : DeterministicPolicy) (projection : Bool) (es : List RawEnvelopeV1)
      (completion : FetchCompletion) (ledger : EventLedger)
      (h : ((LedgerBuilder.opened identity digest policy projection).runAll es).seal
        completion = .ok ledger) : Obtained ledger
  | ofProjection (ledger projected : EventLedger) (positions : List Nat)
      (h : ledger.analysisProjectionV3 positions = .ok projected) :
      Obtained ledger → Obtained projected

theorem Obtained.indexed [Sha256] (h : Obtained ledger) : ledger.Indexed := by
  induction h with
  | ofSeal identity digest policy projection es completion ledger hseal =>
      have hinv := LedgerBuilder.inv_runAll identity digest policy projection es
      have hsealed := hinv.sealed hseal
      refine ⟨?_, ?_⟩
      · rw [hsealed.positions, hsealed.events]
        exact hinv.positions
      · rw [hsealed.events]
        exact hinv.length_le
  | ofProjection ledger projected positions hok _ ih => exact ih.analysisProjectionV3 hok

end EventLedger

/-! ## The ledger of a replay -/

/-- The ledger of a replay of these envelopes. -/
def replayLedger [Sha256] (es : List RawEnvelopeV1) (bytes : Nat) : Option EventLedger :=
  (((LedgerBuilder.opened replayIdentity (.repeated 4) (fun _ => .sourceExact) false).runAll
    es).seal (replayCompletion es.length bytes)).toOption

theorem obtained_of_replayLedger [Sha256] {es : List RawEnvelopeV1} {bytes : Nat}
    {ledger : EventLedger} (h : replayLedger es bytes = some ledger) : ledger.Obtained :=
  .ofSeal _ _ _ _ es _ ledger (toOption_eq_some.mp h)

/-- Two lines of the error stream with a line of the other one between them. -/
def twoStreams : List RawEnvelopeV1 :=
  [streamLine 0 .stderr 0 (.singleton 120), streamLine 1 .stdout 0 ⟨[121, 122], by decide⟩,
    streamLine 2 .stderr 1 (.singleton 123)]

end Evidentrail
