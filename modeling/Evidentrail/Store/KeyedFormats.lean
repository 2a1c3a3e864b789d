import Evidentrail.Snapshot.IndexDirectory
import Evidentrail.Store.AliasManifest

/-!
# When the keyed formats are canonical

The index, its directory and the alias manifest, in both directions. What is
built comes back unless a digest is zero, and what is accepted is written back
as it was if its records and relations stand in order, which nothing asks of
them. The directory is the exception: its decoder checks the order.
-/

namespace Evidentrail

open Snapshot Bytes

/-- For each of the three formats, exactly when a value that was built comes
back, and exactly when a byte string that was accepted is written back. -/
theorem keyed_formats_canonical_iff [Sha256] :
    (∀ entries finalFrameCommitment index,
      AuthenticatedEventIndexV2.new entries finalFrameCommitment = .ok index →
      (AuthenticatedEventIndexV2.decode index.encode = .ok index ↔
        ∀ entry ∈ entries, entry.exactnessBasis.isNonzero = true)) ∧
    (∀ bytes index, AuthenticatedEventIndexV2.decode bytes = .ok index →
      (index.encode = bytes ↔
        (AuthenticatedEventIndexV2.storedEventIds bytes).Pairwise fun a b =>
          (compare a b).isLE)) ∧
    (∀ shards finalFrameCommitment directory,
      AuthenticatedEventIndexDirectoryV2.fromShards shards finalFrameCommitment = .ok directory →
      (AuthenticatedEventIndexDirectoryV2.decode directory.encode = .ok directory ↔
        ∀ shard ∈ shards, allZero shard.digest.asBytes = false)) ∧
    (∀ bytes directory, AuthenticatedEventIndexDirectoryV2.decode bytes = .ok directory →
      directory.encode = bytes) ∧
    (∀ resultId expiresAt entries manifest,
      DisplayedAliasManifestV1.new resultId expiresAt entries = .ok manifest →
      ∃ bytes, manifest.encode = some bytes ∧
        DisplayedAliasManifestV1.decode bytes = .ok manifest) ∧
    (∀ bytes manifest, DisplayedAliasManifestV1.decode bytes = .ok manifest →
      (manifest.encode = some bytes ↔ ∀ relations ∈ storedRelations bytes,
        relations.Pairwise fun a b => compare a b = .lt)) := by
  refine ⟨?_, ?_, ?_, ?_, ?_, ?_⟩
  · intro entries finalFrameCommitment index h
    exact AuthenticatedEventIndexV2.decode_encode_iff h
  · intro bytes index h
    exact AuthenticatedEventIndexV2.encode_decode_iff h
  · intro shards finalFrameCommitment directory h
    exact AuthenticatedEventIndexDirectoryV2.decode_encode_iff h
  · intro bytes directory h
    exact ((AuthenticatedEventIndexDirectoryV2.canonical _ _).mp h).1
  · intro resultId expiresAt entries manifest h
    exact DisplayedAliasManifestV1.decode_encode h
  · intro bytes manifest h
    exact DisplayedAliasManifestV1.encode_decode_iff h

/-! ## Two records that stand the wrong way round -/

def smallLocator (frameSequence : UInt32) : Snapshot.EventFrameLocatorV2 :=
  ⟨0, frameSequence, 0, 96, 200, 1, .repeated 8, by decide⟩

def swapped : List Snapshot.AuthenticatedEventIndexEntryV2 :=
  [⟨.repeated 2, .sourceExact, smallLocator 1⟩, ⟨.repeated 1, .sourceExact, smallLocator 0⟩]

theorem new_swapped : ∃ index, AuthenticatedEventIndexV2.new swapped (.repeated 7) = .ok index ∧
    index.totalAuthorizedBytes = 2 := by
  have hrun : (AuthenticatedEventIndexV2.new swapped (.repeated 7)).toOption.map
      (·.totalAuthorizedBytes) = some 2 := by decide
  cases hnew : AuthenticatedEventIndexV2.new swapped (.repeated 7) with
  | ok index =>
      rw [hnew] at hrun
      exact ⟨index, rfl, Option.some.inj hrun⟩
  | error error =>
      rw [hnew] at hrun
      cases hrun

/-- The swapped records are accepted, and written back in order. -/
theorem swapped_index_rewritten :
    ∃ index, AuthenticatedEventIndexV2.decode (encodeIndex swapped 2 (.repeated 7)) = .ok index ∧
      index.encode ≠ encodeIndex swapped 2 (.repeated 7) := by
  obtain ⟨index, hnew, htotal⟩ := new_swapped
  have hcommitment := (AuthenticatedEventIndexV2.new_eq_ok hnew).2.2
  have hdecode : AuthenticatedEventIndexV2.decode (encodeIndex swapped 2 (.repeated 7)) =
      .ok index := by
    refine AuthenticatedEventIndexV2.decode_eq_ok.mpr ⟨swapped, ?_, by decide, ?_⟩
    · rw [hcommitment]
      exact hnew
    · rw [htotal, hcommitment]
  refine ⟨index, hdecode, fun hsame => ?_⟩
  have horder := (AuthenticatedEventIndexV2.encode_decode_iff hdecode).mp hsame
  rw [AuthenticatedEventIndexV2.storedEventIds_encodeIndex (by decide)] at horder
  exact absurd horder (by decide)

theorem keyed_formats_canonical_swapped :
    letI := fips180
    ∃ index, AuthenticatedEventIndexV2.new swapped (.repeated 7) = .ok index ∧
      AuthenticatedEventIndexV2.decode index.encode = .ok index := by
  obtain ⟨index, hnew, _⟩ := new_swapped
  let := fips180
  exact ⟨index, hnew, (keyed_formats_canonical_iff.1 _ _ index hnew).mpr (by decide)⟩

end Evidentrail
