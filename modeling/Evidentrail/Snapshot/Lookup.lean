import Evidentrail.Snapshot.IndexDirectory

/-!
# Looking an event up

The shards of a directory cover ranges of events that lie apart, so the search
among the last events names the one shard an event can be in, and the search in
that shard finds its entry (`AuthenticatedEventIndexDirectoryV2.lookup_exact`).
A shard is told from the others of its directory by its first event alone.
-/

namespace Evidentrail.Snapshot

open Rust Std Encoding Bytes Slice

/-! ## In one shard -/

namespace AuthenticatedEventIndexV2

def get (index : AuthenticatedEventIndexV2) (eventId : EventId) :
    Option AuthenticatedEventIndexEntryV2 :=
  match binarySearchByKey AuthenticatedEventIndexEntryV2.eventId eventId index.entries with
  | .ok i => some index.entries[i]
  | .error _ => none

/-- The only way to an index. -/
def IsBuilt (index : AuthenticatedEventIndexV2) : Prop :=
  ∃ entries finalFrameCommitment, new entries finalFrameCommitment = .ok index

/-- The loop of `new` lets no event through twice. -/
theorem nodup_of_scanEntries {eventIds : List EventId} {frames : List (UInt64 × UInt32 × UInt64)}
    {total result : UInt64} {entries : List AuthenticatedEventIndexEntryV2}
    (h : scanEntries eventIds frames total entries = .ok result) :
    (∀ entry ∈ entries, entry.eventId ∉ eventIds) ∧
      (entries.map AuthenticatedEventIndexEntryV2.eventId).Nodup := by
  induction entries generalizing eventIds frames total with
  | nil => exact ⟨fun entry hentry => (List.not_mem_nil hentry).elim, List.nodup_nil⟩
  | cons entry rest ih =>
      simp only [scanEntries, ite_error_eq_ok, except_bind_eq_ok, not_or] at h
      obtain ⟨⟨hfresh, _⟩, _, _, hrest⟩ := h
      obtain ⟨hnew, hnodup⟩ := ih hrest
      refine ⟨List.forall_mem_cons.mpr ⟨hfresh, fun other hother hmem => ?_⟩, ?_⟩
      · exact hnew other hother (List.mem_cons_of_mem _ hmem)
      · rw [List.map_cons, List.nodup_cons, List.mem_map]
        refine ⟨?_, hnodup⟩
        rintro ⟨other, hother, heq⟩
        exact hnew other hother (heq ▸ List.mem_cons_self)

theorem IsBuilt.strictlySorted {index : AuthenticatedEventIndexV2} (h : index.IsBuilt) :
    StrictlySorted AuthenticatedEventIndexEntryV2.eventId index.entries := by
  obtain ⟨entries, commitment, hnew⟩ := h
  simp only [new, ite_error_eq_ok, except_bind_eq_ok, Except.ok.injEq] at hnew
  obtain ⟨_, total, hscan, rfl⟩ := hnew
  have hnodup := (nodup_of_scanEntries hscan).2
  have hsorted := pairwise_sortByKey AuthenticatedEventIndexEntryV2.eventId entries
  rw [List.Nodup, List.pairwise_map] at hnodup
  refine (hsorted.and hnodup).imp fun {a b} hab => ?_
  rcases Ordering.isLE_iff_eq_lt_or_eq_eq.mp hab.1 with hlt | heq
  · exact hlt
  · exact absurd (LawfulEqOrd.eq_of_compare heq) hab.2

theorem IsBuilt.get_eq_some_iff {index : AuthenticatedEventIndexV2} (h : index.IsBuilt)
    {eventId : EventId} {entry : AuthenticatedEventIndexEntryV2} :
    index.get eventId = some entry ↔ entry ∈ index.entries ∧ entry.eventId = eventId := by
  have hsorted := h.strictlySorted
  unfold get
  constructor
  · intro hget
    split at hget
    · rename_i i hsearch
      cases hget
      exact ⟨List.getElem_mem _, hsorted.binarySearchByKey_eq_ok.mp hsearch⟩
    · cases hget
  · rintro ⟨hmem, hid⟩
    obtain ⟨i, hi, rfl⟩ := List.getElem_of_mem hmem
    rw [hsorted.binarySearchByKey_eq_ok (i := ⟨i, hi⟩) |>.mpr hid]
    rfl

end AuthenticatedEventIndexV2

/-! ## Shards and descriptors -/

/-- What the loop of `new` has checked behind `expected` shards. -/
theorem AuthenticatedEventIndexDirectoryV2.scanDescriptors_eq_ok {expected : Nat}
    {previousLast : Option EventId} {eventCount total : UInt64} {result : UInt64 × UInt64}
    {descriptors : List AuthenticatedEventIndexShardDescriptorV2}
    (h : scanDescriptors expected previousLast eventCount total descriptors = .ok result) :
    (∀ (i : Nat) (descriptor : AuthenticatedEventIndexShardDescriptorV2),
      descriptors[i]? = some descriptor → descriptor.ordinal.toNat = expected + i) ∧
    (∀ last ∈ previousLast, ∀ descriptor ∈ descriptors.head?,
      compare last descriptor.firstEventId = .lt) ∧
    descriptors.IsChain fun a b => compare a.lastEventId b.firstEventId = .lt := by
  induction descriptors generalizing expected previousLast eventCount total with
  | nil => exact ⟨by simp, by simp, .nil⟩
  | cons descriptor rest ih =>
      simp only [scanDescriptors, ite_error_eq_ok, except_bind_eq_ok, not_or, not_not,
        Bool.not_eq_true, Option.any_eq_false, decide_eq_false_iff_not] at h
      obtain ⟨⟨hordinal, hbehind⟩, _, _, _, _, hrest⟩ := h
      obtain ⟨hordinals, hnext, hchain⟩ := ih hrest
      refine ⟨?_, ?_, ?_⟩
      · rintro (_ | i) found hfound
        · cases hfound
          exact hordinal
        · rw [List.getElem?_cons_succ] at hfound
          rw [hordinals i found hfound]
          omega
      · intro last hlast found hfound
        cases hfound
        exact hbehind last hlast
      · rw [List.isChain_cons]
        exact ⟨hnext _ rfl, hchain⟩

section Shards

variable [Sha256]

namespace AuthenticatedEventIndexShardDescriptorV2

/-- A descriptor gives the ends of a shard that is in order. -/
theorem fromIndex_ends {ordinal : UInt32} {index : AuthenticatedEventIndexV2}
    {descriptor : AuthenticatedEventIndexShardDescriptorV2}
    (h : fromIndex ordinal index = .ok descriptor) :
    descriptor.ordinal = ordinal ∧
      (∃ entry ∈ index.entries, entry.eventId = descriptor.firstEventId) ∧
      ∀ entry ∈ index.entries, (compare descriptor.firstEventId entry.eventId).isLE ∧
        (compare entry.eventId descriptor.lastEventId).isLE := by
  have hsorted := index.sorted
  unfold fromIndex at h
  split at h
  · cases h
  · rename_i first rest hentries
    rw [ite_error_eq_ok] at h
    obtain ⟨_, h⟩ := h
    cases h
    rw [hentries] at hsorted ⊢
    refine ⟨rfl, ⟨first, List.mem_cons_self, rfl⟩, fun entry hentry => ⟨?_, ?_⟩⟩
    · rcases List.mem_cons.mp hentry with rfl | hrest
      · exact ReflCmp.isLE_rfl
      · exact (List.pairwise_cons.mp hsorted).1 entry hrest
    · obtain ⟨i, hi, rfl⟩ := List.getElem_of_mem hentry
      rw [List.getLast_eq_getElem]
      rcases Nat.eq_or_lt_of_le (Nat.le_sub_one_of_lt hi) with heq | hlt
      · subst heq
        exact ReflCmp.isLE_rfl
      · exact List.pairwise_iff_getElem.mp hsorted _ _ hi (by omega) hlt

end AuthenticatedEventIndexShardDescriptorV2

namespace AuthenticatedEventIndexDirectoryV2

def shardFor (directory : AuthenticatedEventIndexDirectoryV2) (eventId : EventId) :
    Option AuthenticatedEventIndexShardDescriptorV2 :=
  rangeFor AuthenticatedEventIndexShardDescriptorV2.firstEventId
    AuthenticatedEventIndexShardDescriptorV2.lastEventId eventId directory.descriptors

def verifyShard (_directory : AuthenticatedEventIndexDirectoryV2)
    (descriptor : AuthenticatedEventIndexShardDescriptorV2) (shard : AuthenticatedEventIndexV2) :
    Except AuthenticatedEventIndexErrorV2 Unit := do
  let derived ← AuthenticatedEventIndexShardDescriptorV2.fromIndex descriptor.ordinal shard
  if derived ≠ descriptor then .error .aggregateMismatch else .ok ()

theorem describe_eq_ok {shards : List AuthenticatedEventIndexV2} {ordinal : Nat}
    {descriptors : List AuthenticatedEventIndexShardDescriptorV2}
    (h : describe ordinal shards = .ok descriptors) :
    descriptors.length = shards.length ∧ ∀ (i : Nat) (shard : AuthenticatedEventIndexV2)
      (descriptor : AuthenticatedEventIndexShardDescriptorV2), shards[i]? = some shard →
        descriptors[i]? = some descriptor →
          AuthenticatedEventIndexShardDescriptorV2.fromIndex (.ofNat (ordinal + i)) shard =
            .ok descriptor := by
  induction shards generalizing ordinal descriptors with
  | nil =>
      cases h
      exact ⟨rfl, fun i shard descriptor hshard => by simp at hshard⟩
  | cons first rest ih =>
      obtain ⟨descriptor, hfirst, h⟩ := except_bind_eq_ok.mp h
      obtain ⟨others, hothers, h⟩ := except_bind_eq_ok.mp h
      cases h
      obtain ⟨hlength, hall⟩ := ih hothers
      refine ⟨by rw [List.length_cons, hlength, List.length_cons], ?_⟩
      rintro (_ | i) shard found hshard hfound
      · cases hshard
        cases hfound
        exact hfirst
      · rw [List.getElem?_cons_succ] at hshard hfound
        rw [← Nat.succ_add_eq_add_succ]
        exact hall i shard found hshard hfound

/-- What `from_shards` has made sure of. -/
structure Describes (directory : AuthenticatedEventIndexDirectoryV2)
    (shards : List AuthenticatedEventIndexV2) : Prop where
  length_eq : directory.descriptors.length = shards.length
  ordinal_eq : ∀ (i : Nat) (descriptor : AuthenticatedEventIndexShardDescriptorV2),
    directory.descriptors[i]? = some descriptor → descriptor.ordinal.toNat = i
  described : ∀ (i : Nat) (shard : AuthenticatedEventIndexV2)
    (descriptor : AuthenticatedEventIndexShardDescriptorV2), shards[i]? = some shard →
      directory.descriptors[i]? = some descriptor →
        AuthenticatedEventIndexShardDescriptorV2.fromIndex descriptor.ordinal shard =
          .ok descriptor
  ranges : Ranges AuthenticatedEventIndexShardDescriptorV2.firstEventId
    AuthenticatedEventIndexShardDescriptorV2.lastEventId directory.descriptors

theorem describes_of_fromShards {shards : List AuthenticatedEventIndexV2}
    {finalFrameCommitment : FrameCommitmentV1} {directory : AuthenticatedEventIndexDirectoryV2}
    (h : fromShards shards finalFrameCommitment = .ok directory) : directory.Describes shards := by
  simp only [fromShards, ite_error_eq_ok, except_bind_eq_ok] at h
  obtain ⟨_, descriptors, hdescribe, hnew⟩ := h
  simp only [new, ite_error_eq_ok, except_bind_eq_ok, Except.ok.injEq] at hnew
  obtain ⟨_, counts, hscan, _, rfl⟩ := hnew
  obtain ⟨hlength, hall⟩ := describe_eq_ok hdescribe
  obtain ⟨hordinals, _, hchain⟩ := scanDescriptors_eq_ok hscan
  have hproper : ∀ descriptor ∈ descriptors,
      (compare descriptor.firstEventId descriptor.lastEventId).isLE := by
    intro descriptor hmem
    obtain ⟨i, hi⟩ := List.getElem?_of_mem hmem
    obtain ⟨hbound, _⟩ := List.getElem?_eq_some_iff.mp hi
    have hshard := List.getElem?_eq_getElem (hlength ▸ hbound)
    obtain ⟨_, ⟨entry, hentry, _⟩, hends⟩ :=
      AuthenticatedEventIndexShardDescriptorV2.fromIndex_ends (hall i _ _ hshard hi)
    exact TransCmp.isLE_trans (hends entry hentry).1 (hends entry hentry).2
  refine ⟨hlength, fun i descriptor hi => ?_, fun i shard descriptor hshard hi => ?_,
    ranges_of_isChain hproper hchain⟩
  · rw [hordinals i descriptor hi, Nat.zero_add]
  · have hdescribed := hall i shard descriptor hshard hi
    rwa [(AuthenticatedEventIndexShardDescriptorV2.fromIndex_ends hdescribed).1]

theorem verifyShard_eq_ok {directory : AuthenticatedEventIndexDirectoryV2}
    {descriptor : AuthenticatedEventIndexShardDescriptorV2} {shard : AuthenticatedEventIndexV2} :
    directory.verifyShard descriptor shard = .ok () ↔
      AuthenticatedEventIndexShardDescriptorV2.fromIndex descriptor.ordinal shard =
        .ok descriptor := by
  simp only [verifyShard, except_bind_eq_ok, ite_error_eq_ok, not_not, and_true]
  constructor
  · rintro ⟨derived, hderived, rfl⟩
    exact hderived
  · exact fun h => ⟨descriptor, h, rfl⟩

/-- A shard passes for its own descriptor and for no other of the directory. -/
theorem Describes.verifyShard_iff {directory : AuthenticatedEventIndexDirectoryV2}
    {shards : List AuthenticatedEventIndexV2} (h : directory.Describes shards) {i j : Nat}
    {shard : AuthenticatedEventIndexV2} {descriptor : AuthenticatedEventIndexShardDescriptorV2}
    (hshard : shards[i]? = some shard) (hdescriptor : directory.descriptors[j]? = some descriptor) :
    directory.verifyShard descriptor shard = .ok () ↔ j = i := by
  rw [verifyShard_eq_ok]
  constructor
  · intro hpasses
    obtain ⟨hi, _⟩ := List.getElem?_eq_some_iff.mp hshard
    have hown := List.getElem?_eq_getElem (h.length_eq ▸ hi)
    obtain ⟨_, ⟨entry, hentry, _⟩, hends⟩ :=
      AuthenticatedEventIndexShardDescriptorV2.fromIndex_ends (h.described i shard _ hshard hown)
    obtain ⟨_, _, hothers⟩ := AuthenticatedEventIndexShardDescriptorV2.fromIndex_ends hpasses
    -- an event of the shard is in the range of both, and one range at most has it
    have hfirst := h.ranges.rangeFor_eq_some_iff.mpr
      ⟨List.mem_of_getElem? hown, hends entry hentry⟩
    have hsecond := h.ranges.rangeFor_eq_some_iff.mpr
      ⟨List.mem_of_getElem? hdescriptor, hothers entry hentry⟩
    have heq := Option.some.inj (hfirst.symm.trans hsecond)
    rw [← h.ordinal_eq j descriptor hdescriptor, ← heq, h.ordinal_eq i _ hown]
  · rintro rfl
    exact h.described j shard descriptor hshard hdescriptor

/-- The shard that the search names is the one that has the event. -/
theorem Describes.get_iff {directory : AuthenticatedEventIndexDirectoryV2}
    {shards : List AuthenticatedEventIndexV2} (h : directory.Describes shards)
    (hbuilt : ∀ shard ∈ shards, shard.IsBuilt) (eventId : EventId)
    (entry : AuthenticatedEventIndexEntryV2) :
    (∃ shard ∈ shards, entry ∈ shard.entries ∧ entry.eventId = eventId) ↔
      ∃ i descriptor shard, directory.shardFor eventId = some descriptor ∧
        directory.descriptors[i]? = some descriptor ∧ descriptor.ordinal.toNat = i ∧
        shards[i]? = some shard ∧ shard.get eventId = some entry := by
  constructor
  · rintro ⟨shard, hmem, hentry, rfl⟩
    obtain ⟨i, hshard⟩ := List.getElem?_of_mem hmem
    obtain ⟨hi, _⟩ := List.getElem?_eq_some_iff.mp hshard
    have hdescriptor := List.getElem?_eq_getElem (h.length_eq ▸ hi)
    obtain ⟨_, _, hends⟩ := AuthenticatedEventIndexShardDescriptorV2.fromIndex_ends
      (h.described i shard _ hshard hdescriptor)
    refine ⟨i, _, shard, ?_, hdescriptor, h.ordinal_eq i _ hdescriptor, hshard, ?_⟩
    · exact h.ranges.rangeFor_eq_some_iff.mpr ⟨List.mem_of_getElem? hdescriptor, hends entry hentry⟩
    · exact (hbuilt shard hmem).get_eq_some_iff.mpr ⟨hentry, rfl⟩
  · rintro ⟨i, descriptor, shard, _, _, _, hshard, hget⟩
    have hmem := List.mem_of_getElem? hshard
    exact ⟨shard, hmem, (hbuilt shard hmem).get_eq_some_iff.mp hget⟩

/-- An event is in the shards exactly if the directory names the shard that
finds it, and each shard passes for its own descriptor alone. -/
theorem lookup_exact {shards : List AuthenticatedEventIndexV2}
    {finalFrameCommitment : FrameCommitmentV1} {directory : AuthenticatedEventIndexDirectoryV2}
    (hbuilt : ∀ shard ∈ shards, shard.IsBuilt)
    (h : fromShards shards finalFrameCommitment = .ok directory) :
    (∀ eventId entry,
      (∃ shard ∈ shards, entry ∈ shard.entries ∧ entry.eventId = eventId) ↔
        ∃ i descriptor shard, directory.shardFor eventId = some descriptor ∧
          directory.descriptors[i]? = some descriptor ∧ descriptor.ordinal.toNat = i ∧
          shards[i]? = some shard ∧ shard.get eventId = some entry) ∧
    (∀ (i j : Nat) (shard : AuthenticatedEventIndexV2)
      (descriptor : AuthenticatedEventIndexShardDescriptorV2), shards[i]? = some shard →
        directory.descriptors[j]? = some descriptor →
          (directory.verifyShard descriptor shard = .ok () ↔ j = i)) := by
  have hdescribes := describes_of_fromShards h
  exact ⟨hdescribes.get_iff hbuilt,
    fun _ _ _ _ hshard hdescriptor => hdescribes.verifyShard_iff hshard hdescriptor⟩

end AuthenticatedEventIndexDirectoryV2

end Shards

/-! ## Two shards -/

def storedEntry (event : UInt8) (frameSequence : UInt32) : AuthenticatedEventIndexEntryV2 :=
  ⟨.repeated event, .sourceExact, ⟨0, frameSequence, 0, 96, 200, 1, .repeated 9, by decide⟩⟩

def lowShard : AuthenticatedEventIndexV2 :=
  ⟨[storedEntry 1 0, storedEntry 2 1], .repeated 7, 2, by unfold inEventOrder; decide⟩

def highShard : AuthenticatedEventIndexV2 :=
  ⟨[storedEntry 4 2], .repeated 7, 1, by unfold inEventOrder; decide⟩

namespace AuthenticatedEventIndexDirectoryV2

theorem lookup_exact_two_shards :
    letI := fips180
    ∃ directory, fromShards [lowShard, highShard] (.repeated 7) = .ok directory ∧
      ∃ i descriptor shard, directory.shardFor (.repeated 4) = some descriptor ∧
        directory.descriptors[i]? = some descriptor ∧ descriptor.ordinal.toNat = i ∧
        [lowShard, highShard][i]? = some shard ∧
        shard.get (.repeated 4) = some (storedEntry 4 2) := by
  have hbuilt : ∀ shard ∈ [lowShard, highShard], shard.IsBuilt := by
    refine List.forall_mem_cons.mpr ⟨⟨lowShard.entries, .repeated 7, rfl⟩, ?_⟩
    exact List.forall_mem_cons.mpr ⟨⟨highShard.entries, .repeated 7, rfl⟩, by simp⟩
  rw [fips180_eq]
  let := fips180Evaluated
  have hrun : (fromShards [lowShard, highShard] (.repeated 7)).toOption.isSome := by
    decide
  cases hshards : fromShards [lowShard, highShard] (.repeated 7) with
  | error error =>
      rw [hshards] at hrun
      cases hrun
  | ok directory =>
      exact ⟨directory, rfl, ((lookup_exact hbuilt hshards).1 _ _).mp
        ⟨highShard, by simp, List.mem_singleton_self _, rfl⟩⟩

end AuthenticatedEventIndexDirectoryV2

end Evidentrail.Snapshot
