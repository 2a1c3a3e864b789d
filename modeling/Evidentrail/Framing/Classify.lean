import Evidentrail.Core.Ledger
import Evidentrail.Lib.Ascii

/-!
# Line recognizers

Byte-oriented recognizers of multi-line records: which line starts one,
and which line continues it in the current recognition state. They only
ever see joinable lines, and they may look one line ahead.
-/

namespace Evidentrail

open Ascii

/-! ## Byte strings -/

def startsWith (line : List UInt8) (text : String) : Bool :=
  (asciiBytes text).isPrefixOf line

def endsWith (line : List UInt8) (text : String) : Bool :=
  (asciiBytes text).isSuffixOf line

def isText (line : List UInt8) (text : String) : Bool :=
  line = asciiBytes text

def hasByte (line : List UInt8) (byte : UInt8) : Bool :=
  line.contains byte

/-- `windows(needle.len()).any(..)`; an empty needle matches nothing. -/
def containsBytes (haystack : List UInt8) (needle : List UInt8) : Bool :=
  match haystack with
  | [] => false
  | _ :: rest =>
      needle ≠ [] && (needle.isPrefixOf haystack || containsBytes rest needle)

def trimAsciiStart (line : List UInt8) : List UInt8 :=
  line.dropWhile isAsciiWhitespace

/-- The bytes before the first colon or whitespace. -/
def tokenBeforeMessage (line : List UInt8) : List UInt8 :=
  line.takeWhile fun byte => !(byte = 58 || isAsciiWhitespace byte)

def startsWithWhitespace (line : List UInt8) : Bool :=
  line.head?.any isAsciiWhitespace

def leadingDigits (line : List UInt8) : Nat :=
  (line.takeWhile isAsciiDigit).length

def isSafeAsciiLine (line : List UInt8) : Bool :=
  line.all fun byte => byte = 9 || (32 ≤ byte && byte ≤ 126)

def isBlank (line : List UInt8) : Bool :=
  line.all isAsciiWhitespace

/-! ## Events as lines -/

def Event.payload (event : Event) : List UInt8 :=
  event.raw.take event.payloadLen

def Event.terminator (event : Event) : Option (List UInt8) :=
  event.terminatorLen.map fun length => (event.raw.drop event.payloadLen).take length

def isJoinableLine (event : Event) : Bool :=
  event.recordState.isComplete
    && (event.terminator = some [10] || event.terminator = some [13, 10]
      || event.terminator = some [13] || event.terminator = some [])
    && !hasByte event.payload 10
    && !hasByte event.payload 13
    && isSafeAsciiLine event.payload

def isProviderAtomic (event : Event) : Bool :=
  event.recordState.isComplete
    && (event.terminator.isNone || hasByte event.payload 10 || hasByte event.payload 13)

def isOpaqueLine (event : Event) : Bool :=
  !isSafeAsciiLine event.payload

/-- The next line, when it may be looked at. -/
def joinablePayload (next : Option Event) : Option (List UInt8) :=
  (next.filter isJoinableLine).map Event.payload

/-! ## Python -/

def isPythonTraceback (line : List UInt8) : Bool :=
  isText line "Traceback (most recent call last):"

def isPythonFrame (line : List UInt8) : Bool :=
  startsWith line "  File \"" || startsWith line "  File '"

def isPythonIndentedDetail (line : List UInt8) : Bool :=
  startsWith line "    " || startsWith line "\t"

def isPythonExceptionTerminal (line : List UInt8) : Bool :=
  if startsWithWhitespace line || line.isEmpty then false
  else
    let head := tokenBeforeMessage line
    endsWith head "Error" || endsWith head "Exception" || isText head "KeyboardInterrupt"
      || isText head "SystemExit" || isText head "GeneratorExit"

def isPythonChainSeparator (line : List UInt8) : Bool :=
  isText line "During handling of the above exception, another exception occurred:"
    || isText line "The above exception was the direct cause of the following exception:"

/-! ## JVM, .NET and JavaScript -/

def isJvmDotnetExplicitStart (line : List UInt8) : Bool :=
  startsWith line "Exception in thread \"" || startsWith line "Unhandled exception."
    || startsWith line "Unhandled Exception:"

def isJvmDotnetExceptionHeader (line : List UInt8) : Bool :=
  if startsWithWhitespace line then false
  else
    let head := tokenBeforeMessage line
    hasByte head 46 && (endsWith head "Exception" || endsWith head "Error")

def isJavascriptErrorHeader (line : List UInt8) : Bool :=
  let head := tokenBeforeMessage line
  isText head "Error" || isText head "TypeError" || isText head "ReferenceError"
    || isText head "RangeError" || isText head "SyntaxError" || isText head "URIError"
    || isText head "EvalError" || isText head "AggregateError"

def isStackFrame (line : List UInt8) : Bool :=
  let leading := (line.takeWhile fun byte => byte = 32 || byte = 9).length
  leading > 0 && startsWith (line.drop leading) "at "

def isNestedCause (line : List UInt8) : Bool :=
  let trimmed := trimAsciiStart line
  startsWith trimmed "Caused by:" || startsWith trimmed "Suppressed:"
    || startsWith trimmed "Wrapped by:"

def isElidedStackFrames (line : List UInt8) : Bool :=
  let trimmed := trimAsciiStart line
  startsWith trimmed "... " && endsWith trimmed " more"

def isDotnetInnerBoundary (line : List UInt8) : Bool :=
  let trimmed := trimAsciiStart line
  startsWith trimmed "---> "
    || isText trimmed "--- End of inner exception stack trace ---"

/-! ## Rust -/

def isRustPanicStart (line : List UInt8) : Bool :=
  startsWith line "panicked at "
    || (startsWith line "thread '" && containsBytes line (asciiBytes "' panicked at "))
    || (startsWith line "thread \"" && containsBytes line (asciiBytes "\" panicked at "))

def isRustBacktraceMarker (line : List UInt8) : Bool :=
  isText (trimAsciiStart line) "stack backtrace:"

def isRustFrame (line : List UInt8) : Bool :=
  let trimmed := trimAsciiStart line
  let digits := leadingDigits trimmed
  (digits > 0 && trimmed[digits]? = some 58)
    || (trimmed.length < line.length
      && startsWith trimmed "at "
      && (hasByte (trimmed.drop 3) 47 || hasByte (trimmed.drop 3) 92
        || hasByte (trimmed.drop 3) 58))

def isRustPanicDetail (line : List UInt8) : Bool :=
  let trimmed := trimAsciiStart line
  startsWith trimmed "note: run with " || startsWith trimmed "left:"
    || startsWith trimmed "right:"

/-! ## Go -/

def isGoPanicStart (line : List UInt8) : Bool :=
  startsWith line "panic:" || startsWith line "fatal error:"

def isGoGoroutine (line : List UInt8) : Bool :=
  let trimmed := trimAsciiStart line
  if !startsWith trimmed "goroutine " || !endsWith trimmed ":" then false
  else
    let rest := trimmed.drop (asciiBytes "goroutine ").length
    let digits := leadingDigits rest
    digits > 0 && rest[digits]? = some 32

def isGoFunction (line : List UInt8) : Bool :=
  !line.isEmpty && !startsWithWhitespace line && endsWith line ")" && hasByte line 40
    && !hasByte line 32

def isGoLocation (line : List UInt8) : Bool :=
  startsWithWhitespace line && containsBytes (trimAsciiStart line) (asciiBytes ".go:")

def isGoCreatedBy (line : List UInt8) : Bool :=
  startsWith (trimAsciiStart line) "created by "

/-! ## Compilers, assertions and diffs -/

def isCompilerStrongStart (line : List UInt8) : Bool :=
  startsWith line "error[" || startsWith line "warning[" || startsWith line "fatal error C"

def isCompilerGenericStart (line : List UInt8) : Bool :=
  startsWith line "error:" || startsWith line "warning:"

def isCompilerStructuralLine (line : List UInt8) : Bool :=
  let trimmed := trimAsciiStart line
  if startsWith trimmed "-->" || startsWith trimmed ":::" || startsWith trimmed "= note:"
      || startsWith trimmed "= help:" || startsWith trimmed "help:"
      || startsWith trimmed "note:" || startsWith trimmed "^" then true
  else if startsWith trimmed "|" then true
  else
    let digits := leadingDigits trimmed
    digits > 0 && startsWith (trimAsciiStart (trimmed.drop digits)) "|"

def isAssertionStart (line : List UInt8) : Bool :=
  startsWith line "AssertionError" || startsWith line "AssertionFailedError"
    || startsWith line "org.opentest4j.AssertionFailedError"
    || startsWith line "assertion failed:"
    || (startsWith line "assertion " && endsWith line " failed")

def isAssertionDetail (line : List UInt8) : Bool :=
  let trimmed := trimAsciiStart line
  startsWith trimmed "left:" || startsWith trimmed "right:"
    || startsWith trimmed "expected:" || startsWith trimmed "actual:"
    || startsWith trimmed "Expected:" || startsWith trimmed "Actual:"

def isExpectedDiffHeader (line : List UInt8) : Bool :=
  startsWith line "--- expected" || startsWith line "--- Expected"

def isActualDiffHeader (line : List UInt8) : Bool :=
  startsWith line "+++ actual" || startsWith line "+++ Actual"

def isDiffContinuation (line : List UInt8) : Bool :=
  isExpectedDiffHeader line || isActualDiffHeader line || startsWith line "@@ "
    || startsWith line "+ " || startsWith line "- " || startsWith line ">"
    || startsWith line "<"

/-! ## Recognition -/

inductive Family where
  | python
  | jvmDotNet
  | javaScript
  | rust
  | go
  | compiler
  | assertion
deriving DecidableEq

inductive PythonPhase where
  | traceback
  | terminal
  | awaitTraceback
deriving DecidableEq

inductive GoPhase where
  | awaitGoroutine
  | frames
deriving DecidableEq

structure RecognitionState where
  family : Family
  depth : Nat
  pythonPhase : PythonPhase
  goPhase : GoPhase
deriving DecidableEq

/-- `depth.saturating_add(1)` on `u16`. -/
def RecognitionState.deeper (state : RecognitionState) : RecognitionState :=
  { state with depth := min (state.depth + 1) (2 ^ 16 - 1) }

def recognizedStart (event : Event) (next : Option Event) : Option RecognitionState :=
  if !isJoinableLine event then none
  else
    let line := event.payload
    let nextLine := joinablePayload next
    let start family : Option RecognitionState :=
      some ⟨family, 1, .traceback, .awaitGoroutine⟩
    if isPythonTraceback line then start .python
    else if isRustPanicStart line then start .rust
    else if isGoPanicStart line then start .go
    else if isCompilerStrongStart line
        || (isCompilerGenericStart line && nextLine.any isCompilerStructuralLine) then
      start .compiler
    else if isAssertionStart line
        || (isExpectedDiffHeader line && nextLine.any isActualDiffHeader) then
      start .assertion
    else if isJvmDotnetExplicitStart line
        || (isJvmDotnetExceptionHeader line && nextLine.any isStackFrame) then
      start .jvmDotNet
    else if isJavascriptErrorHeader line && nextLine.any isStackFrame then
      start .javaScript
    else none

/-- A blank line continues only on the strength of the line behind it. -/
def blankBefore (line : List UInt8) (next : Option (List UInt8))
    (accepts : List UInt8 → Bool) : Bool :=
  isBlank line && next.any accepts

def pythonContinuation (state : RecognitionState) (line : List UInt8)
    (next : Option (List UInt8)) : Option RecognitionState :=
  match state.pythonPhase with
  | .traceback =>
      if isPythonFrame line || isPythonIndentedDetail line then some state
      else if isPythonExceptionTerminal line then
        some { state with pythonPhase := .terminal }
      else if isPythonChainSeparator line then
        some { state.deeper with pythonPhase := .awaitTraceback }
      else if blankBefore line next fun candidate =>
          isPythonFrame candidate || isPythonExceptionTerminal candidate then some state
      else none
  | .terminal =>
      if isPythonChainSeparator line then
        some { state.deeper with pythonPhase := .awaitTraceback }
      else if blankBefore line next isPythonChainSeparator then some state
      else none
  | .awaitTraceback =>
      if isPythonTraceback line then some { state with pythonPhase := .traceback }
      else if blankBefore line next isPythonTraceback then some state
      else none

def jvmDotnetContinuation (state : RecognitionState) (line : List UInt8)
    (next : Option (List UInt8)) : Option RecognitionState :=
  if isNestedCause line || isDotnetInnerBoundary line then some state.deeper
  else if isStackFrame line || isElidedStackFrames line then some state
  else if blankBefore line next fun candidate =>
      isStackFrame candidate || isNestedCause candidate || isDotnetInnerBoundary candidate
    then some state
  else none

def javascriptContinuation (state : RecognitionState) (line : List UInt8)
    (next : Option (List UInt8)) : Option RecognitionState :=
  if isNestedCause line then some state.deeper
  else if isStackFrame line || isElidedStackFrames line then some state
  else if blankBefore line next fun candidate =>
      isStackFrame candidate || isNestedCause candidate then some state
  else none

def rustContinuation (line : List UInt8) (next : Option (List UInt8)) : Bool :=
  isRustBacktraceMarker line || isRustFrame line || isRustPanicDetail line
    || blankBefore line next fun candidate =>
      isRustBacktraceMarker candidate || isRustFrame candidate

def goContinuation (state : RecognitionState) (line : List UInt8)
    (next : Option (List UInt8)) : Option RecognitionState :=
  if isGoGoroutine line then some { state.deeper with goPhase := .frames }
  else if state.goPhase = .frames
      && (isGoFunction line || isGoLocation line || isGoCreatedBy line) then some state
  else if blankBefore line next isGoGoroutine then some state
  else none

def compilerContinuation (line : List UInt8) (next : Option (List UInt8)) : Bool :=
  isCompilerStructuralLine line || blankBefore line next isCompilerStructuralLine

def assertionContinuation (line : List UInt8) (next : Option (List UInt8)) : Bool :=
  isAssertionDetail line || isDiffContinuation line
    || blankBefore line next fun candidate =>
      isAssertionDetail candidate || isDiffContinuation candidate

/-- The state behind a continuation line, `none` when it is not one. -/
def recognizedContinuation (state : RecognitionState) (event : Event)
    (next : Option Event) : Option RecognitionState :=
  if !isJoinableLine event then none
  else
    let line := event.payload
    let nextLine := joinablePayload next
    match state.family with
    | .python => pythonContinuation state line nextLine
    | .jvmDotNet => jvmDotnetContinuation state line nextLine
    | .javaScript => javascriptContinuation state line nextLine
    | .rust => if rustContinuation line nextLine then some state else none
    | .go => goContinuation state line nextLine
    | .compiler => if compilerContinuation line nextLine then some state else none
    | .assertion => if assertionContinuation line nextLine then some state else none

def looksLikeOrphanContinuation (event : Event) : Bool :=
  if !isJoinableLine event then false
  else
    let line := event.payload
    isPythonFrame line || isPythonIndentedDetail line || isPythonChainSeparator line
      || isStackFrame line || isNestedCause line || isElidedStackFrames line
      || isDotnetInnerBoundary line || isRustBacktraceMarker line || isRustFrame line
      || isGoGoroutine line || isGoLocation line || isCompilerStructuralLine line
      || isDiffContinuation line

end Evidentrail
