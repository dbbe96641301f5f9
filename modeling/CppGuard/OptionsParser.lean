import CppGuard.Pystring
import CppGuard.ThreadWatchdog

/-!
# The options parser

`parse_options` takes a list of `key:value` pairs and stores them one by one. It reports errors by
exceptions; what was stored before one is thrown stays. `cppguard_set_options` is the exported
function that calls it.
-/
namespace CppGuard
open Pystring

inductive LogType where
  | disabled
  | toStdout
  | toStderr
  | toFile
  deriving DecidableEq, Repr

/-- All members of `runtime_options_t`. -/
structure RuntimeOptionsT extends RuntimeOptions where
  logFile : Str := []
  logType : LogType := .toStdout
  useOutputdebugstring : Bool := true
  exitCode : Int := 66
  deriving DecidableEq, Repr

/-- What the parser and the functions that it calls throw. -/
inductive Exception where
  /-- `std::invalid_argument` with the text of `what`. -/
  | invalidArgument (what : Str)
  /-- `std::out_of_range` -/
  | outOfRange
  deriving DecidableEq, Repr

/-- Throw `std::invalid_argument` with a text that consists of parts. -/
def throwInvalidArgument {α : Type} (parts : List Str) : Except Exception α :=
  .error (.invalidArgument parts.flatten)

/-- `std::stoi` of a string of digits. -/
def stoi (value : Str) : Except Exception Nat :=
  if Nat.ofDigitChars 10 value 0 ≤ maxInt then .ok (Nat.ofDigitChars 10 value 0)
  else .error .outOfRange

namespace OptionsParser

def knowKeys : List Str :=
  ["log".toList, "outputdebugstring".toList, "halt_on_error".toList,
    "fail_process_in_case_of_error".toList, "thread_watchdog".toList,
    "thread_watchdog_max_duration_sec".toList, "exit_code".toList]

def trueFalse : List Str := ["1".toList, "0".toList]

/-- The value of an option that is 1 or 0. -/
def parseTrueFalse (key value : Str) : Except Exception Bool :=
  if value ∈ trueFalse then .ok (value = "1".toList)
  else throwInvalidArgument
    ["Option '".toList, key, "' requires value 1/0 but got '".toList, value, "'".toList]

/-- The value of an option that is a number. -/
def parseNumber (key value : Str) : Except Exception Nat :=
  if isdigit value then stoi value
  else throwInvalidArgument
    ["Value '".toList, value, "' for option '".toList, key, "' is not number".toList]

/-- The branches of the loop body: check the value and store it. -/
def storeValue (o : RuntimeOptionsT) (key value : Str) : Except Exception RuntimeOptionsT :=
  if key = "log".toList then
    if value = "disable".toList then .ok { o with logType := .disabled }
    else if value = "stdout".toList then .ok { o with logType := .toStdout }
    else if value = "stderr".toList then .ok { o with logType := .toStderr }
    else .ok { o with logType := .toFile, logFile := value }
  else if key = "halt_on_error".toList then do
    let b ← parseTrueFalse key value
    return { o with haltOnError := b }
  else if key = "fail_process_in_case_of_error".toList then do
    let b ← parseTrueFalse key value
    return { o with overrideProcessExitCodeOnError := b }
  else if key = "outputdebugstring".toList then do
    let b ← parseTrueFalse key value
    return { o with useOutputdebugstring := b }
  else if key = "thread_watchdog".toList then do
    let b ← parseTrueFalse key value
    return { o with threadWatchdogEnabled := b }
  else if key = "thread_watchdog_max_duration_sec".toList then do
    let asIntSec ← parseNumber key value
    if 1 < asIntSec ∧ asIntSec ≤ 24 * 60 * 60 then
      return { o with threadWatchdogMaxDurationSec := asIntSec }
    else
      throwInvalidArgument
        ["Option '".toList, key, "' requires value 2..86400 but got '".toList, value, "'".toList]
  else if key = "exit_code".toList then do
    let asInt ← parseNumber key value
    if asInt < 127 then return { o with exitCode := asInt }
    else
      throwInvalidArgument
        ["Option '".toList, key, "' requires value 1..126 but got '".toList, value, "'".toList]
  else .ok o

/-- The body of the loop over the pairs. -/
def parsePair (o : RuntimeOptionsT) (substring : Str) : Except Exception RuntimeOptionsT :=
  let keyValuePair := partition substring ':'
  if keyValuePair.2.1 ≠ [':'] then
    throwInvalidArgument ["No valid key-value pair: '".toList, substring, "'".toList]
  else
    let key := strip keyValuePair.1
    if key = [] then
      throwInvalidArgument ["Option is empty for key-value pair: ".toList, substring]
    else if key ∉ knowKeys then
      throwInvalidArgument ["Option '".toList, key, "' is not known".toList]
    else
      let value := strip keyValuePair.2.2
      if value = [] then
        throwInvalidArgument
          ["Value from key-value pair '".toList, substring, "' is empty".toList]
      else storeValue o key value

/-- The loop over the pairs: the options when it is left, and the exception if it was left by
one. -/
def parsePairs (o : RuntimeOptionsT) : List Str → RuntimeOptionsT × Option Exception
  | [] => (o, none)
  | substring :: substrings =>
    match parsePair o substring with
    | .ok o => parsePairs o substrings
    | .error e => (o, some e)

/-- The bytes of a C string. -/
def cString (bytes : Str) : Str := bytes.takeWhile (· ≠ '\x00')

/-- `parse_options`; the pointer is null, or there are `bytes` behind it. -/
def parseOptions (o : RuntimeOptionsT) (bytes : Option Str) : RuntimeOptionsT × Option Exception :=
  match bytes.map cString with
  | none | some [] => (o, some (.invalidArgument "p_options is null or empty".toList))
  | some options =>
    let substrings := split (lower options) ','
    if substrings = [] then (o, some (.invalidArgument "No key=value pairs found".toList))
    else parsePairs o substrings

/-- What `format_to_n` leaves in a buffer that was cleared: the text, and zeros up to the end. -/
def formatError (size : Nat) (what : Str) : Str :=
  let text := ("Invalid argument: '".toList ++ what ++ "'".toList).take (size - 1)
  text ++ List.replicate (size - text.length) '\x00'

/-- `cppguard_set_options`: the options, and what it returns with the error text, unless an
exception leaves it. `errorText` is the buffer, if the pointer is not null. -/
def cppguardSetOptions (o : RuntimeOptionsT) (bytes errorText : Option Str) :
    RuntimeOptionsT × Except Exception (Nat × Option Str) :=
  match errorText with
  | none => (o, .ok (0, none))
  | some buffer =>
    if buffer.length < 50 then (o, .ok (0, some buffer))
    else
      match parseOptions o bytes with
      | (o, none) => (o, .ok (1, some buffer))
      | (o, some (.invalidArgument what)) =>
        (o, .ok (0, some (formatError buffer.length what)))
      | (o, some e) => (o, .error e)

end OptionsParser

end CppGuard
