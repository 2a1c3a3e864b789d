import Evidentrail.Core.Hash

/-!
# Transformation receipts

A post-policy record comes with the byte-range replacements that turn
the source record into it. The receipt is built only after the
replacements have been replayed; the sink later binds it to the event.
-/

namespace Evidentrail

open Rust

/-- Largest authorized source record. -/
def maxAuthorizedRecordBytes : Nat := 8 * 1024 * 1024

/-- Largest separately preserved source record terminator. -/
def maxRecordTerminatorBytes : Nat := 64

/-- Largest number of sorted byte-range replacements. -/
def maxTransformationOperations : Nat := 256

inductive TransformationReceiptErrorV1 where
  | tooManyOperations
  | invalidOperationOrder
  | outputMismatch
  | outputTooLarge
  | lengthOverflow
deriving DecidableEq

structure PreparedTransformationReceiptV1 where
  id : TransformationReceiptId
  policyDigest : PolicyDigest
  operations : List ByteRangeReplacementV1
  inputLength : Nat
  outputLength : Nat
  outputContentHash : ContentHash
  outputPayloadLength : Nat
  outputTerminatorLength : Option Nat
deriving DecidableEq

/-- A receipt bound to the event that holds its output. -/
structure TransformationReceiptV1 where
  prepared : PreparedTransformationReceiptV1
  resultingEventId : EventId
deriving DecidableEq

def TransformationReceiptV1.id (r : TransformationReceiptV1) :
    TransformationReceiptId :=
  r.prepared.id

namespace PreparedTransformationReceiptV1

/-- Replay the replacements from `priorEnd` on. -/
def rebuild (input : List UInt8) (priorEnd : Nat) :
    List ByteRangeReplacementV1 → Except TransformationReceiptErrorV1 (List UInt8)
  | [] => .ok (input.drop priorEnd)
  | operation :: rest =>
      let start := operation.start.toNat
      let stop := operation.stop.toNat
      if start > stop ∨ stop > input.length ∨ start < priorEnd then
        .error .invalidOperationOrder
      else do
        let tail ← rebuild input stop rest
        return (input.drop priorEnd).take (start - priorEnd)
          ++ operation.replacement.toList ++ tail

variable [Sha256]

def new (policyDigest : PolicyDigest) (input output : RecordBytes)
    (operations : List ByteRangeReplacementV1) :
    Except TransformationReceiptErrorV1 PreparedTransformationReceiptV1 :=
  if operations.length > maxTransformationOperations then .error .tooManyOperations
  else if output.payloadLen > maxAuthorizedRecordBytes ∨
      output.terminatorLen.getD 0 > maxRecordTerminatorBytes then
    .error .outputTooLarge
  else
    let inputBytes := input.exactBytes
    let outputBytes := output.exactBytes
    match rebuild inputBytes 0 operations with
    | .error error => .error error
    | .ok rebuilt =>
        if rebuilt ≠ outputBytes then .error .outputMismatch
        else match u64TryFrom inputBytes.length, u64TryFrom outputBytes.length with
          | some inputLength, some outputLength =>
              let outputContentHash := authorizedContentHash outputBytes
              -- the payload and terminator lengths passed the limits above, so
              -- their conversions to `u64` cannot fail
              .ok {
                id := receiptId policyDigest operations inputLength outputLength
                  outputContentHash output.payloadLen output.terminatorLen
                policyDigest
                operations
                inputLength
                outputLength
                outputContentHash
                outputPayloadLength := output.payloadLen
                outputTerminatorLength := output.terminatorLen }
          | _, _ => .error .lengthOverflow

def bind (r : PreparedTransformationReceiptV1) (resultingEventId : EventId) :
    TransformationReceiptV1 :=
  ⟨r, resultingEventId⟩

/-- What an accepted receipt records of its output. -/
theorem new_eq_ok {policyDigest : PolicyDigest} {input output : RecordBytes}
    {operations : List ByteRangeReplacementV1} {r : PreparedTransformationReceiptV1}
    (h : new policyDigest input output operations = .ok r) :
    output.payloadLen ≤ maxAuthorizedRecordBytes ∧
      output.terminatorLen.getD 0 ≤ maxRecordTerminatorBytes ∧
      r.outputContentHash = authorizedContentHash output.exactBytes ∧
      r.outputLength = output.exactBytes.length ∧
      r.outputPayloadLength = output.payloadLen ∧
      r.outputTerminatorLength = output.terminatorLen := by
  unfold new at h
  split at h
  · cases h
  split at h
  · cases h
  rename_i hsize
  rw [not_or, not_lt, not_lt] at hsize
  simp only at h
  split at h
  · cases h
  split at h
  · cases h
  split at h
  · rename_i hin hout
    cases h
    exact ⟨hsize.1, hsize.2, rfl, (u64TryFrom_eq_some.mp hout).2, rfl, rfl⟩
  · cases h

end PreparedTransformationReceiptV1

end Evidentrail
