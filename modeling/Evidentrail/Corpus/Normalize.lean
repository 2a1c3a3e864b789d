import Evidentrail.Lib.Rust
import Evidentrail.Lib.Utf8
import Evidentrail.Lib.Window

/-!
# Volatile fragments of a log line

`normalize_temporal_fragments` replaces dates, times of day and epoch
milliseconds by a marker each, so that two records which differ in them only get
the same template. It scans the bytes of the line: a fragment must not begin behind
a digit, a time not behind a colon either, and a date or a time must not run on
into further digits.

An index out of range is a panic, and the outer loop has as many passes as the line
has bytes.
-/

namespace Evidentrail

open Rust Ascii Utf8 Slice

/-- `bytes[index]`. -/
def byteAt (bytes : List UInt8) (index : Nat) : Except (Fault Empty) UInt8 :=
  okOr .panicked bytes[index]?

def digitAt (bytes : List UInt8) (index : Nat) : Except (Fault Empty) Bool := do
  return isAsciiDigit (← byteAt bytes index)

/-- `index > 0 && bytes[index - 1].is_ascii_digit()`. -/
def digitBefore (bytes : List UInt8) (index : Nat) : Except (Fault Empty) Bool :=
  if 0 < index then digitAt bytes (index - 1) else return false

/-- `while bytes.get(end).is_some_and(u8::is_ascii_digit) { end += 1 }`. -/
def digitsEnd (bytes : List UInt8) (stop : Nat) : Nat :=
  if h : bytes[stop]?.any isAsciiDigit then digitsEnd bytes (stop + 1) else stop
termination_by bytes.length - stop
decreasing_by
  have hstop : stop < bytes.length := by
    by_contra hout
    rw [List.getElem?_eq_none (Nat.not_lt.mp hout)] at h
    cases h
  omega

/-- `count` bytes of which two are the literal and the others digits. -/
def digitsAround (bytes : List UInt8) (index count first second : Nat) (literal : UInt8) :
    Except (Fault Empty) Bool := do
  if bytes.length < index + count then return false
  if (← byteAt bytes (index + first)) ≠ literal then return false
  if (← byteAt bytes (index + second)) ≠ literal then return false
  (List.range count).allM fun offset =>
    if offset = first ∨ offset = second then return true else digitAt bytes (index + offset)

/-- `-`, `:` and `.`. -/
def dash : UInt8 := 45
def colon : UInt8 := 58
def period : UInt8 := 46

def startsDate (bytes : List UInt8) (index : Nat) (beforeDigit : Bool) :
    Except (Fault Empty) Bool := do
  if beforeDigit then return false
  if ← digitsAround bytes index 10 4 7 dash then
    return !(bytes[index + 10]?.any isAsciiDigit)
  else return false

/-- `index > 0 && bytes[index - 1] == b':'`. -/
def colonBefore (bytes : List UInt8) (index : Nat) : Except (Fault Empty) Bool := do
  if 0 < index then return (← byteAt bytes (index - 1)) == colon else return false

/-- The end of the fraction that may follow the seconds. -/
def fractionEnd (bytes : List UInt8) (stop : Nat) : Nat :=
  if bytes[stop]? == some period && bytes[stop + 1]?.any isAsciiDigit then
    digitsEnd bytes (stop + 1)
  else stop

/-- The end of the time of day that begins at the index. -/
def timeEnd (bytes : List UInt8) (index : Nat) (beforeDigit : Bool) :
    Except (Fault Empty) (Option Nat) := do
  if beforeDigit then return none
  if ← colonBefore bytes index then return none
  if ← digitsAround bytes index 8 2 5 colon then
    let stop := fractionEnd bytes (index + 8)
    if bytes[stop]?.all fun byte => !isAsciiDigit byte && byte != colon then return some stop
    else return none
  else return none

def dateMarker : List UInt8 := asBytes "<date>"
def timeMarker : List UInt8 := asBytes "<time>"
def epochMarker : List UInt8 := asBytes "<epoch_ms>"

/-- One pass of the loop: the bytes it appends and the index it goes on at. -/
def normalizeStep (bytes : List UInt8) (index : Nat) :
    Except (Fault Empty) (List UInt8 × Nat) := do
  let beforeDigit ← digitBefore bytes index
  if ← startsDate bytes index beforeDigit then return (dateMarker, index + 10)
  if let some stop ← timeEnd bytes index beforeDigit then return (timeMarker, stop)
  let byte ← byteAt bytes index
  if isAsciiDigit byte && !beforeDigit then
    let stop := digitsEnd bytes (index + 1)
    if stop - index = 13 then return (epochMarker, stop)
    return (← okOr .panicked (subslice bytes index stop), stop)
  return ([byte], index + 1)

def normalizeFrom (bytes : List UInt8) :
    Nat → List UInt8 → Nat → Except (Fault Empty) (List UInt8)
  | passes, output, index =>
      if index < bytes.length then
        match passes with
        | 0 => .error .diverged
        | passes + 1 => do
            let (appended, next) ← normalizeStep bytes index
            normalizeFrom bytes passes (output ++ appended) next
      else .ok output

def normalizeTemporalFragments (value : String) : Except (Fault Empty) String := do
  let output ← normalizeFrom (asBytes value) (asBytes value).length [] 0
  okOr .panicked (fromUtf8 output)

end Evidentrail
