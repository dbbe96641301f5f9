import CppGuard.OptionsParser.Pairs

/-!
# The printed options

`log_helper` prints the options line by line. A line `key: value` can be taken as a pair for the
parser.
-/
namespace CppGuard
open Pystring Separated

namespace OptionsParser

/-- An integer, as `fmt` prints it. -/
def formatInt : Int → Str
  | .ofNat n => Nat.toDigits 10 n
  | .negSucc n => '-' :: Nat.toDigits 10 (n + 1)

def formatBool (b : Bool) : Str := if b then "1".toList else "0".toList

/-- What is printed for the log. -/
def logOption (o : RuntimeOptionsT) : Str :=
  match o.logType with
  | .disabled => "disabled".toList
  | .toStderr => "stderr".toList
  | .toStdout => "stdout".toList
  | .toFile => o.logFile

def createOptionsLogText (o : RuntimeOptionsT) : Str :=
  "\n".toList ++
  ("Used CppGuard options:\n".toList ++
  ("  halt_on_error: ".toList ++ formatBool o.haltOnError ++ "\n".toList ++
  ("  fail_process_in_case_of_error: ".toList ++ formatBool o.overrideProcessExitCodeOnError ++
    "\n".toList ++
  ("  thread_watchdog: ".toList ++ formatBool o.threadWatchdogEnabled ++ "\n".toList ++
  ("  thread_watchdog_max_duration_sec: ".toList ++
    Nat.toDigits 10 o.threadWatchdogMaxDurationSec ++ "\n".toList ++
  ("  exit_code: ".toList ++ formatInt o.exitCode ++ "\n".toList ++
  ("  log: ".toList ++ logOption o ++ "\n\n".toList)))))))

/-- A line `key: value` as a pair for the parser. -/
def pairOfLine (line : Str) : Option Str :=
  match line.dropWhile (· ≠ ':') with
  | ':' :: ' ' :: value => some (trim isspace (line.takeWhile (· ≠ ':')) ++ ':' :: value)
  | _ => none

/-- The lines `key: value` of a text, joined as pairs. -/
def fedBackText (text : Str) : Str := [','].intercalate ((text.splitOn '\n').filterMap pairOfLine)

/-- The pairs that are printed, besides the one for the log. -/
def printedPairs (o : RuntimeOptionsT) : List (Key × Str) :=
  [(.haltOnError, formatBool o.haltOnError),
    (.failProcessInCaseOfError, formatBool o.overrideProcessExitCodeOnError),
    (.threadWatchdog, formatBool o.threadWatchdogEnabled),
    (.threadWatchdogMaxDurationSec, Nat.toDigits 10 o.threadWatchdogMaxDurationSec),
    (.exitCode, formatInt o.exitCode)]

/-- The line of one option, without its end. -/
def printedLine (pair : Key × Str) : Str := "  ".toList ++ pair.1.name ++ ": ".toList ++ pair.2

variable {o : RuntimeOptionsT} {pair : Key × Str} {line f : Str}

theorem createOptionsLogText_eq (o : RuntimeOptionsT) :
    createOptionsLogText o =
      (([] :: "Used CppGuard options:".toList :: (printedPairs o).map printedLine).map
        (· ++ ['\n'])).flatten ++ (printedLine (.log, logOption o) ++ "\n\n".toList) := by
  have hlabel (name : String) : ("  " ++ name ++ ": ").toList =
      "  ".toList ++ (name.toList ++ ": ".toList) := by
    rw [String.toList_append, String.toList_append, List.append_assoc]
  have hhalt : "  halt_on_error: ".toList = "  ".toList ++ (Key.haltOnError.name ++ ": ".toList) :=
    hlabel "halt_on_error"
  have hfail : "  fail_process_in_case_of_error: ".toList =
      "  ".toList ++ (Key.failProcessInCaseOfError.name ++ ": ".toList) :=
    hlabel "fail_process_in_case_of_error"
  have hwatchdog : "  thread_watchdog: ".toList =
      "  ".toList ++ (Key.threadWatchdog.name ++ ": ".toList) := hlabel "thread_watchdog"
  have hmax : "  thread_watchdog_max_duration_sec: ".toList =
      "  ".toList ++ (Key.threadWatchdogMaxDurationSec.name ++ ": ".toList) :=
    hlabel "thread_watchdog_max_duration_sec"
  have hexit : "  exit_code: ".toList = "  ".toList ++ (Key.exitCode.name ++ ": ".toList) :=
    hlabel "exit_code"
  have hlog : "  log: ".toList = "  ".toList ++ (Key.log.name ++ ": ".toList) := hlabel "log"
  have hheader : "Used CppGuard options:\n".toList = "Used CppGuard options:".toList ++ ['\n'] :=
    rfl
  have hnewline : "\n".toList = ['\n'] := rfl
  rw [createOptionsLogText, hhalt, hfail, hwatchdog, hmax, hexit, hlog, hheader, hnewline]
  simp only [printedPairs, printedLine, List.map_cons, List.map_nil, List.flatten_cons,
    List.flatten_nil, List.append_assoc, List.nil_append]

theorem pairOfLine_printedLine : pairOfLine (printedLine pair) = some (pairText pair) := by
  have hcolon : ':' ∉ "  ".toList ++ pair.1.name := by
    simpa using pair.1.colon_not_mem_name
  have hline : printedLine pair = ("  ".toList ++ pair.1.name) ++ ':' :: ' ' :: pair.2 := by
    simp [printedLine]
  have htake : (printedLine pair).takeWhile (· ≠ ':') = "  ".toList ++ pair.1.name := by
    rw [hline, List.takeWhile_append_of_pos (by grind)]
    simp
  have hdrop : (printedLine pair).dropWhile (· ≠ ':') = ':' :: ' ' :: pair.2 := by
    rw [hline, List.dropWhile_append_of_pos (by grind)]
    simp
  have htrim : trim isspace ("  ".toList ++ pair.1.name) = pair.1.name := by
    generalize pair.1 = k
    cases k <;> decide
  simp only [pairOfLine, hdrop, htake, htrim, pairText]

theorem mem_of_mem_pairOfLine {text : Str} {c : Char} (h : pairOfLine line = some text)
    (hc : c ∈ text) : c ∈ line := by
  unfold pairOfLine at h
  split at h
  · rename_i value hdrop
    obtain rfl := Option.some.inj h
    rw [← List.takeWhile_append_dropWhile (p := (· ≠ ':')) (l := line), hdrop]
    have htrim := mem_of_mem_trim (p := isspace) (l := line.takeWhile (· ≠ ':')) (x := c)
    grind
  · cases h

/-- A pair is shorter than its line. -/
theorem length_pairOfLine {text : Str} (h : pairOfLine line = some text) :
    text.length + 1 ≤ line.length := by
  unfold pairOfLine at h
  split at h
  · rename_i value hdrop
    obtain rfl := Option.some.inj h
    have hsplit := congrArg List.length
      (List.takeWhile_append_dropWhile (p := (· ≠ ':')) (l := line))
    have htrim := length_trim_le (p := isspace) (l := line.takeWhile (· ≠ ':'))
    rw [hdrop] at hsplit
    simp only [List.length_append, List.length_cons] at hsplit ⊢
    omega
  · cases h

end OptionsParser
end CppGuard
