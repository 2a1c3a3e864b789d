import Evidentrail.Core.Transformation
import Evidentrail.Lib.Layout
import Evidentrail.Lib.Splice
import Evidentrail.Lib.Window

/-!
# Receipts certify the edit

A receipt exists exactly if its operations are ranges of the input in order and
replacing them gives the output (`new_isOk_iff_substitutes`). The loop that
replays the operations takes a slice of the input in each of its steps, and none
of them is out of range (`rebuildSliced_eq`).
-/

namespace Evidentrail

open Rust Bytes Slice Splice

/-- The operation as a range of positions. -/
def ByteRangeReplacementV1.asReplacement (operation : ByteRangeReplacementV1) :
    Replacement UInt8 :=
  ⟨operation.start.toNat, operation.stop.toNat, operation.replacement.toList⟩

namespace PreparedTransformationReceiptV1

section Rebuild

variable {input : List UInt8} {prior : Nat} {operations : List ByteRangeReplacementV1}

/-- The replay accepts ranges in order, and does what they say. -/
theorem rebuild_eq_ok {rebuilt : List UInt8} : rebuild input prior operations = .ok rebuilt ↔
    Ordered input.length prior (operations.map (·.asReplacement)) ∧
      rebuilt = (replaceRanges input (operations.map (·.asReplacement))).drop prior := by
  induction operations generalizing prior rebuilt with
  | nil =>
      rw [rebuild, Except.ok.injEq]
      exact ⟨fun h => ⟨trivial, h.symm⟩, fun h => h.2.symm⟩
  | cons operation rest ih =>
      simp only [rebuild, ite_error_eq_ok, except_bind_eq_ok, ih, not_or, Nat.not_lt, gt_iff_lt]
      constructor
      · rintro ⟨⟨hrange, hlength, hprior⟩, _, ⟨hrest, rfl⟩, hrebuilt⟩
        have hordered : Ordered input.length prior
            ((operation :: rest).map (·.asReplacement)) := ⟨hprior, hrange, hlength, hrest⟩
        refine ⟨hordered, ?_⟩
        rw [List.map_cons, drop_replaceRanges_cons hordered]
        exact (Except.ok.inj hrebuilt).symm
      · rintro ⟨hordered, rfl⟩
        have hranges := hordered
        obtain ⟨hprior, hrange, hlength, hrest⟩ := hranges
        refine ⟨⟨hrange, hlength, hprior⟩, _, ⟨hrest, rfl⟩, ?_⟩
        rw [List.map_cons, drop_replaceRanges_cons hordered]
        rfl

/-- The loop with the slices that it takes. -/
def rebuildSliced (input : List UInt8) (priorEnd : Nat) :
    List ByteRangeReplacementV1 → Except (Fault TransformationReceiptErrorV1) (List UInt8)
  | [] => okOr .panicked (subslice input priorEnd input.length)
  | operation :: rest =>
      let start := operation.start.toNat
      let stop := operation.stop.toNat
      if start > stop ∨ stop > input.length ∨ start < priorEnd then
        .error (.err .invalidOperationOrder)
      else do
        let kept ← okOr .panicked (subslice input priorEnd start)
        let tail ← rebuildSliced input stop rest
        .ok (kept ++ operation.replacement.toList ++ tail)

/-- No slice is out of range. -/
theorem rebuildSliced_eq (hprior : prior ≤ input.length) :
    rebuildSliced input prior operations = (rebuild input prior operations).mapError .err := by
  induction operations generalizing prior with
  | nil =>
      rw [rebuildSliced, rebuild, subslice_of_le hprior (Nat.le_refl _),
        List.take_of_length_le (by rw [List.length_drop])]
      rfl
  | cons operation rest ih =>
      simp only [rebuildSliced, rebuild]
      split
      · rfl
      · rename_i hrange
        simp only [not_or, Nat.not_lt, gt_iff_lt] at hrange
        obtain ⟨hrange, hlength, hstart⟩ := hrange
        rw [subslice_of_le hstart (Nat.le_trans hrange hlength), ih hlength]
        cases rebuild input operation.stop.toNat rest <;> rfl

end Rebuild

variable [Sha256]

/-- A receipt is built exactly if there are few enough operations, the output is
small enough, the operations are ranges of the input in order, and replacing
them gives the output. No slice of the replay is out of range. -/
theorem new_isOk_iff_substitutes (policyDigest : PolicyDigest) (input output : RecordBytes)
    (operations : List ByteRangeReplacementV1) :
    ((∃ receipt, new policyDigest input output operations = .ok receipt) ↔
      operations.length ≤ 256 ∧ output.payload.length ≤ 8 * 1024 * 1024 ∧
      (∀ terminator ∈ output.terminator, terminator.length ≤ 64) ∧
      (∀ operation ∈ operations, operation.start.toNat ≤ operation.stop.toNat ∧
        operation.stop.toNat ≤ input.exactBytes.length) ∧
      operations.IsChain (fun prior next => prior.stop.toNat ≤ next.start.toNat) ∧
      replaceRanges input.exactBytes (operations.map (·.asReplacement)) = output.exactBytes) ∧
    rebuildSliced input.exactBytes 0 operations =
      (rebuild input.exactBytes 0 operations).mapError .err := by
  refine ⟨?_, rebuildSliced_eq (Nat.zero_le _)⟩
  have hterminator : output.terminatorLen.getD 0 ≤ maxRecordTerminatorBytes ↔
      ∀ terminator ∈ output.terminator, terminator.length ≤ 64 := by
    rw [RecordBytes.terminatorLen, maxRecordTerminatorBytes]
    cases output.terminator with
    | none => simp
    | some terminator => simp
  have hordered : Ordered input.exactBytes.length 0 (operations.map (·.asReplacement)) ↔
      (∀ operation ∈ operations, operation.start.toNat ≤ operation.stop.toNat ∧
        operation.stop.toNat ≤ input.exactBytes.length) ∧
      operations.IsChain (fun prior next => prior.stop.toNat ≤ next.start.toNat) := by
    rw [ordered_iff, List.isChain_map, List.forall_mem_map]
    exact and_congr_right fun _ => and_iff_right fun _ _ => Nat.zero_le _
  constructor
  · rintro ⟨receipt, h⟩
    obtain ⟨hpayload, hterm, _⟩ := new_eq_ok h
    unfold new at h
    simp only [ite_error_eq_ok, Nat.not_lt, gt_iff_lt] at h
    obtain ⟨hcount, _, h⟩ := h
    split at h
    · cases h
    rename_i rebuilt hrebuilt
    simp only [ite_error_eq_ok, not_not] at h
    obtain ⟨hrange, hvalue⟩ := rebuild_eq_ok.mp hrebuilt
    obtain ⟨hwithin, hchain⟩ := hordered.mp hrange
    exact ⟨hcount, hpayload, hterminator.mp hterm, hwithin, hchain, hvalue.symm.trans h.1⟩
  · rintro ⟨hcount, hpayload, hterm, hwithin, hchain, hvalue⟩
    have hrebuilt : rebuild input.exactBytes 0 operations = .ok output.exactBytes :=
      rebuild_eq_ok.mpr ⟨hordered.mpr ⟨hwithin, hchain⟩, hvalue.symm⟩
    have hsize : ¬(output.payloadLen > maxAuthorizedRecordBytes ∨
        output.terminatorLen.getD 0 > maxRecordTerminatorBytes) := by
      rw [not_or, Nat.not_lt, Nat.not_lt]
      exact ⟨hpayload, hterminator.mpr hterm⟩
    have hinput := u64TryFrom_eq_some.mpr ⟨input.length_exactBytes_lt, rfl⟩
    have houtput := u64TryFrom_eq_some.mpr ⟨output.length_exactBytes_lt, rfl⟩
    have hfew : ¬operations.length > maxTransformationOperations := Nat.not_lt.mpr hcount
    rw [new, if_neg hfew, if_neg hsize]
    simp only [hrebuilt, hinput, houtput, ne_eq, not_true_eq_false, if_false]
    exact ⟨_, rfl⟩

/-- Replace two bytes by one, insert two, and take the last byte and the line end. -/
def threeEdits : List ByteRangeReplacementV1 :=
  [⟨1, 3, .singleton 42⟩, ⟨4, 4, ⟨[120, 121], by decide⟩⟩, ⟨5, 7, .empty⟩]

end PreparedTransformationReceiptV1

namespace PreparedTransformationReceiptV1

/-- The edit of a line has a receipt. With its operations the other way round it has
none, and neither has another output. -/
theorem new_isOk_iff_substitutes_three :
    letI := fips180
    let input : RecordBytes := .framed ⟨[97, 98, 99, 100, 101, 102], by decide⟩
      ⟨[10], by decide⟩
    let output : RecordBytes := .whole ⟨[97, 42, 100, 120, 121, 101], by decide⟩
    (∃ receipt, new (.repeated 5) input output threeEdits = .ok receipt) ∧
      (¬∃ receipt, new (.repeated 5) input output threeEdits.reverse = .ok receipt) ∧
      (¬∃ receipt, new (.repeated 5) input input threeEdits = .ok receipt) ∧
      rebuildSliced input.exactBytes 0 threeEdits = .ok output.exactBytes := by
  let := fips180
  intro input output
  have hrebuilt := (new_isOk_iff_substitutes (.repeated 5) input output threeEdits).2
  refine ⟨(new_isOk_iff_substitutes _ _ _ _).1.mpr (by decide), ?_, ?_,
    hrebuilt.trans (by decide)⟩
  · rw [(new_isOk_iff_substitutes _ _ _ _).1]
    decide
  · rw [(new_isOk_iff_substitutes _ _ _ _).1]
    decide

end PreparedTransformationReceiptV1

end Evidentrail
