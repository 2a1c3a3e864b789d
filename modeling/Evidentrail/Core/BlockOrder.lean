import Evidentrail.Core.BlockLookup

/-!
# Blocks in the order of their lane

The events of a block have consecutive lane sequences, and no event is in two blocks.
So of two blocks of a lane, one ends before the other begins, and the order of the
index is this order.
-/

namespace Evidentrail

open Rust Std

namespace BlockIndex

/-! ## Consecutive sequences -/

theorem pairwise_of_chained {events : List Event} (h : events.IsChain Follows) :
    events.Pairwise fun a b => a.laneSequence.get < b.laneSequence.get := by
  have htrans : IsTrans Event fun a b => a.laneSequence.get < b.laneSequence.get :=
    ⟨fun _ _ _ => Nat.lt_trans⟩
  refine List.isChain_iff_pairwise.mp (h.imp fun a b hab => ?_)
  unfold Follows at hab
  omega

/-- No sequence between the first event and another one is left out. -/
theorem exists_sequence_of_chained {first : Event} {rest : List Event} :
    (first :: rest).IsChain Follows → ∀ event ∈ first :: rest, ∀ sequence,
      first.laneSequence.get ≤ sequence → sequence ≤ event.laneSequence.get →
        ∃ between ∈ first :: rest, between.laneSequence.get = sequence := by
  induction rest generalizing first with
  | nil =>
      intro _ event hevent sequence hlow hhigh
      rw [List.mem_singleton] at hevent
      rw [hevent] at hhigh
      exact ⟨first, List.mem_singleton.mpr rfl, Nat.le_antisymm hlow hhigh⟩
  | cons second rest ih =>
      intro hchain event hevent sequence hlow hhigh
      rw [List.isChain_cons_cons] at hchain
      have hfollows : first.laneSequence.get + 1 = second.laneSequence.get := hchain.1
      rcases Nat.lt_or_eq_of_le hlow with hlt | heq
      · rcases List.mem_cons.mp hevent with rfl | hlater
        · omega
        · obtain ⟨between, hbetween, hsequence⟩ :=
            ih hchain.2 event hlater sequence (by omega) hhigh
          exact ⟨between, List.mem_cons_of_mem _ hbetween, hsequence⟩
      · exact ⟨first, List.mem_cons_self .., heq⟩

end BlockIndex

namespace EventLedger

variable {ledger : EventLedger}

/-- A lane has one event of a sequence. -/
theorem Laned.eq_of_sequence (h : ledger.Laned) {a b : Event} (ha : a ∈ ledger.events)
    (hb : b ∈ ledger.events) (hlane : a.lane = b.lane)
    (hsequence : a.laneSequence.get = b.laneSequence.get) : a = b := by
  have hapart : ledger.events.Pairwise fun a b =>
      a.lane = b.lane → a.laneSequence.get ≠ b.laneSequence.get :=
    h.ordered.imp fun hab hlane => Nat.ne_of_lt (hab hlane)
  have hsymm : Std.Symm fun a b : Event =>
      a.lane = b.lane → a.laneSequence.get ≠ b.laneSequence.get :=
    ⟨fun _ _ hab hlane => (hab hlane.symm).symm⟩
  by_contra hne
  exact hapart.forall ha hb hne hlane hsequence

end EventLedger

namespace BlockIndex

variable {index : BlockIndex}

theorem Reconciled.mem_events (h : index.Reconciled) {block : EventBlock}
    (hblock : block ∈ index.blocks) : ∀ event ∈ index.members block, event ∈ index.ledger.events :=
  fun _ hevent => h.covers.mem_iff.mp (List.mem_flatMap_of_mem hblock hevent)

/-- Blocks have no event in common. -/
theorem Reconciled.disjoint (h : index.Reconciled) (hindexed : index.ledger.Indexed) :
    index.blocks.Pairwise fun a b => List.Disjoint (index.members a) (index.members b) := by
  have hnodup := h.covers.nodup_iff.mpr hindexed.ids_nodup.of_map
  exact (List.nodup_flatMap.mp hnodup).2

/-- The event a block begins with. -/
theorem Reconciled.exists_first (h : index.Reconciled) {block : EventBlock}
    (hblock : block ∈ index.blocks) : ∃ first rest, index.members block = first :: rest ∧
      block.memberPositions.headD 0 = index.ledger.pos first := by
  obtain ⟨first, rest, hmembers⟩ := List.exists_cons_of_ne_nil (h.nonempty block hblock)
  refine ⟨first, rest, hmembers, ?_⟩
  rw [h.memberPositions block hblock, hmembers, List.map_cons, List.headD_cons]

/-- In a lane every event of a block comes before every event of a later block. -/
theorem Reconciled.sequenced (h : index.Reconciled) (hindexed : index.ledger.Indexed)
    (hlaned : index.ledger.Laned) : index.blocks.Pairwise fun a b => a.lane = b.lane →
      ∀ event ∈ index.members a, ∀ event' ∈ index.members b,
        event.laneSequence.get < event'.laneSequence.get := by
  refine (h.ordered.and (h.disjoint hindexed)).imp_of_mem ?_
  rintro a b ha hb ⟨hordered, hdisjoint⟩ hlane event hevent event' hevent'
  obtain ⟨first, rest, hmembers, hposition⟩ := h.exists_first ha
  obtain ⟨first', rest', hmembers', hposition'⟩ := h.exists_first hb
  rw [hposition, hposition'] at hordered
  have hin : first ∈ index.members a := hmembers ▸ List.mem_cons_self ..
  have hin' : first' ∈ index.members b := hmembers' ▸ List.mem_cons_self ..
  have hsame : ∀ e ∈ index.members a, ∀ e' ∈ index.members b, e.lane = e'.lane :=
    fun e he e' he' => by rw [h.lane a ha e he, h.lane b hb e' he', hlane]
  have hfirst : first.laneSequence.get < first'.laneSequence.get := by
    rcases Nat.lt_trichotomy first.laneSequence.get first'.laneSequence.get with hlt | heq | hgt
    · exact hlt
    · rw [hlaned.eq_of_sequence (h.mem_events ha _ hin) (h.mem_events hb _ hin')
        (hsame _ hin _ hin') heq] at hordered
      exact absurd hordered (Nat.lt_irrefl _)
    · have hbefore := hlaned.pos_lt hindexed (h.mem_events hb _ hin') (h.mem_events ha _ hin)
        (hsame _ hin _ hin').symm hgt
      omega
  have hlow : first'.laneSequence.get ≤ event'.laneSequence.get := by
    have hpairs := pairwise_of_chained (h.chained b hb)
    rw [hmembers', List.pairwise_cons] at hpairs
    rw [hmembers'] at hevent'
    rcases List.mem_cons.mp hevent' with rfl | hlater
    · exact Nat.le_refl _
    · exact Nat.le_of_lt (hpairs.1 _ hlater)
  refine Nat.lt_of_lt_of_le (Nat.lt_of_not_le fun hover => ?_) hlow
  -- Then the earlier block reaches the first event of the later one.
  obtain ⟨between, hbetween, hsequence⟩ := exists_sequence_of_chained (hmembers ▸ h.chained a ha)
    event (hmembers ▸ hevent) _ (Nat.le_of_lt hfirst) hover
  rw [← hmembers] at hbetween
  have heq := hlaned.eq_of_sequence (h.mem_events ha _ hbetween) (h.mem_events hb _ hin')
    (hsame _ hbetween _ hin') hsequence
  exact hdisjoint hbetween (heq ▸ hin')

end BlockIndex

end Evidentrail
