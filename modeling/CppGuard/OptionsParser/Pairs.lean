import CppGuard.OptionsParser
import Mathlib.Data.List.Forall2

/-!
# Pairs of keys and values

What the parser reads from one piece is a key and a value. The key decides which values are
accepted and which member they are stored in; neither depends on the other options.
-/
namespace CppGuard
open Pystring

namespace OptionsParser

inductive Key where
  | log
  | outputdebugstring
  | haltOnError
  | failProcessInCaseOfError
  | threadWatchdog
  | threadWatchdogMaxDurationSec
  | exitCode
  deriving DecidableEq, Repr

namespace Key

def name : Key → Str
  | log => "log".toList
  | outputdebugstring => "outputdebugstring".toList
  | haltOnError => "halt_on_error".toList
  | failProcessInCaseOfError => "fail_process_in_case_of_error".toList
  | threadWatchdog => "thread_watchdog".toList
  | threadWatchdogMaxDurationSec => "thread_watchdog_max_duration_sec".toList
  | exitCode => "exit_code".toList

def all : List Key :=
  [log, outputdebugstring, haltOnError, failProcessInCaseOfError, threadWatchdog,
    threadWatchdogMaxDurationSec, exitCode]

theorem mem_all (k : Key) : k ∈ all := by cases k <;> decide

theorem map_name_all : all.map name = knowKeys := rfl

theorem mem_knowKeys {key : Str} : key ∈ knowKeys ↔ ∃ k : Key, k.name = key := by
  rw [← map_name_all, List.mem_map]
  simp only [mem_all, true_and]

theorem name_ne_nil (k : Key) : k.name ≠ [] := by cases k <;> decide

/-- The names have different lengths. -/
theorem name_injective : Function.Injective name := by
  intro k l h
  have hlength : k.name.length = l.name.length := congrArg List.length h
  cases k <;> cases l <;> first | rfl | exact absurd hlength (by decide)

/-- The number that a string of digits denotes. -/
def number (value : Str) : Nat := Nat.ofDigitChars 10 value 0

/-- The values that are accepted for a key. -/
def Accepts (value : Str) : Key → Prop
  | log => value ≠ []
  | outputdebugstring | haltOnError | failProcessInCaseOfError | threadWatchdog =>
    value = ['0'] ∨ value = ['1']
  | threadWatchdogMaxDurationSec =>
    isdigit value = true ∧ 2 ≤ number value ∧ number value ≤ 86400
  | exitCode => isdigit value = true ∧ number value ≤ 126

instance (value : Str) (k : Key) : Decidable (k.Accepts value) := by
  cases k <;> unfold Accepts <;> infer_instance

/-- The values that are a number which does not fit an `int`. -/
def Overflows (value : Str) : Key → Prop
  | threadWatchdogMaxDurationSec | exitCode => isdigit value = true ∧ maxInt < number value
  | _ => False

/-- What an accepted value stands for. -/
def store (value : Str) : Key → RuntimeOptionsT → RuntimeOptionsT
  | log, o =>
    if value = "disable".toList then { o with logType := .disabled }
    else if value = "stdout".toList then { o with logType := .toStdout }
    else if value = "stderr".toList then { o with logType := .toStderr }
    else { o with logType := .toFile, logFile := value }
  | outputdebugstring, o => { o with useOutputdebugstring := value = ['1'] }
  | haltOnError, o => { o with haltOnError := value = ['1'] }
  | failProcessInCaseOfError, o => { o with overrideProcessExitCodeOnError := value = ['1'] }
  | threadWatchdog, o => { o with threadWatchdogEnabled := value = ['1'] }
  | threadWatchdogMaxDurationSec, o => { o with threadWatchdogMaxDurationSec := number value }
  | exitCode, o => { o with exitCode := number value }

/-- The branch of the parser for a key. -/
def parse (value : Str) (o : RuntimeOptionsT) (k : Key) : Except Exception RuntimeOptionsT :=
  match k with
  | log => .ok (log.store value o)
  | outputdebugstring => do
    let b ← parseTrueFalse k.name value
    return { o with useOutputdebugstring := b }
  | haltOnError => do
    let b ← parseTrueFalse k.name value
    return { o with haltOnError := b }
  | failProcessInCaseOfError => do
    let b ← parseTrueFalse k.name value
    return { o with overrideProcessExitCodeOnError := b }
  | threadWatchdog => do
    let b ← parseTrueFalse k.name value
    return { o with threadWatchdogEnabled := b }
  | threadWatchdogMaxDurationSec => do
    let asIntSec ← parseNumber k.name value
    if 1 < asIntSec ∧ asIntSec ≤ 24 * 60 * 60 then
      return { o with threadWatchdogMaxDurationSec := asIntSec }
    else
      throwInvalidArgument
        ["Option '".toList, k.name, "' requires value 2..86400 but got '".toList, value,
          "'".toList]
  | exitCode => do
    let asInt ← parseNumber k.name value
    if asInt < 127 then return { o with exitCode := asInt }
    else
      throwInvalidArgument
        ["Option '".toList, k.name, "' requires value 1..126 but got '".toList, value, "'".toList]

variable {k : Key} {value : Str} {o : RuntimeOptionsT}

theorem storeValue_name : storeValue o k.name value = k.parse value o := by
  cases k with
  | log =>
    change (if value = "disable".toList then _ else _) = Except.ok (log.store value o)
    unfold store
    split_ifs <;> rfl
  | _ => rfl

theorem mem_trueFalse : value ∈ trueFalse ↔ value = ['0'] ∨ value = ['1'] := by
  rw [trueFalse, List.mem_cons, List.mem_singleton]
  exact or_comm

theorem not_overflows (h : k.Accepts value) : ¬ k.Overflows value := by
  have hmax : maxInt = 2147483647 := rfl
  cases k <;> simp only [Accepts, Overflows, not_false_eq_true] at h ⊢ <;> omega

theorem ne_nil_of_accepts (h : k.Accepts value) : value ≠ [] := by
  rintro rfl
  cases k <;> simp [Accepts, isdigit] at h

theorem ne_nil_of_overflows (h : k.Overflows value) : value ≠ [] := by
  rintro rfl
  cases k <;> simp [Overflows, isdigit] at h

/-- An option that is 1 or 0. -/
theorem parseTrueFalse_cases (key value : Str) :
    (value = ['0'] ∨ value = ['1']) ∧ parseTrueFalse key value = .ok (value = ['1']) ∨
      ¬ (value = ['0'] ∨ value = ['1']) ∧
        ∃ what, parseTrueFalse key value = .error (.invalidArgument what) := by
  unfold parseTrueFalse
  by_cases h : value ∈ trueFalse
  · exact .inl ⟨mem_trueFalse.mp h, if_pos h⟩
  · exact .inr ⟨fun hvalue => h (mem_trueFalse.mpr hvalue), _, if_neg h⟩

/-- An option that is a number. -/
theorem parseNumber_cases (key value : Str) :
    isdigit value = true ∧ number value ≤ maxInt ∧ parseNumber key value = .ok (number value) ∨
      isdigit value = true ∧ maxInt < number value ∧ parseNumber key value = .error .outOfRange ∨
      ¬ isdigit value = true ∧
        ∃ what, parseNumber key value = .error (.invalidArgument what) := by
  unfold parseNumber stoi
  by_cases hdigit : isdigit value = true
  · rw [if_pos hdigit]
    by_cases hmax : number value ≤ maxInt
    · exact .inl ⟨hdigit, hmax, if_pos hmax⟩
    · exact .inr (.inl ⟨hdigit, by omega, if_neg hmax⟩)
  · exact .inr (.inr ⟨hdigit, _, if_neg hdigit⟩)

/-- What the parser does with a value: it is stored, a number does not fit, or it is refused. -/
theorem parse_cases (k : Key) (o : RuntimeOptionsT) (hvalue : value ≠ []) :
    k.Accepts value ∧ k.parse value o = .ok (k.store value o) ∨
      k.Overflows value ∧ k.parse value o = .error .outOfRange ∨
      ¬ k.Accepts value ∧ ¬ k.Overflows value ∧
        ∃ what, k.parse value o = .error (.invalidArgument what) := by
  have hmax : maxInt = 2147483647 := rfl
  cases k with
  | log => exact .inl ⟨hvalue, rfl⟩
  | threadWatchdogMaxDurationSec =>
    simp only [parse, Accepts, Overflows]
    obtain ⟨hdigit, hle, hok⟩ | ⟨hdigit, hlt, herror⟩ | ⟨hdigit, what, herror⟩ :=
      parseNumber_cases (name threadWatchdogMaxDurationSec) value
    · rw [hok]
      by_cases hrange : 1 < number value ∧ number value ≤ 24 * 60 * 60
      · exact .inl ⟨⟨hdigit, by omega⟩, if_pos hrange⟩
      · exact .inr (.inr ⟨by omega, by omega, _, if_neg hrange⟩)
    · exact .inr (.inl ⟨⟨hdigit, hlt⟩, by rw [herror]; rfl⟩)
    · exact .inr (.inr ⟨fun h => hdigit h.1, fun h => hdigit h.1, what, by rw [herror]; rfl⟩)
  | exitCode =>
    simp only [parse, Accepts, Overflows]
    obtain ⟨hdigit, hle, hok⟩ | ⟨hdigit, hlt, herror⟩ | ⟨hdigit, what, herror⟩ :=
      parseNumber_cases (name exitCode) value
    · rw [hok]
      by_cases hrange : number value < 127
      · exact .inl ⟨⟨hdigit, by omega⟩, if_pos hrange⟩
      · exact .inr (.inr ⟨by omega, by omega, _, if_neg hrange⟩)
    · exact .inr (.inl ⟨⟨hdigit, hlt⟩, by rw [herror]; rfl⟩)
    · exact .inr (.inr ⟨fun h => hdigit h.1, fun h => hdigit h.1, what, by rw [herror]; rfl⟩)
  | outputdebugstring | haltOnError | failProcessInCaseOfError | threadWatchdog =>
    all_goals
      simp only [parse, Accepts, Overflows]
      obtain ⟨hbool, hok⟩ | ⟨hbool, what, herror⟩ := parseTrueFalse_cases (name _) value
      · exact .inl ⟨hbool, by rw [hok]; rfl⟩
      · exact .inr (.inr ⟨hbool, not_false, what, by rw [herror]; rfl⟩)

end Key

/-! ## Reading a piece -/

/-- The key and the value of a piece, if it has the form of a pair and the key is known. -/
def readPair (piece : Str) : Option (Key × Str) :=
  if (partition piece ':').2.1 = [':'] then
    (Key.all.find? fun k => k.name = strip (partition piece ':').1).map fun k =>
      (k, strip (partition piece ':').2.2)
  else none

theorem readPair_eq_some {piece value : Str} {k : Key} :
    readPair piece = some (k, value) ↔ (partition piece ':').2.1 = [':'] ∧
      strip (partition piece ':').1 = k.name ∧ strip (partition piece ':').2.2 = value := by
  unfold readPair
  split_ifs with hsep
  · rw [Option.map_eq_some_iff]
    constructor
    · rintro ⟨l, hfind, hpair⟩
      have hname := List.find?_some hfind
      cases hpair
      exact ⟨hsep, (of_decide_eq_true hname).symm, rfl⟩
    · rintro ⟨-, hname, rfl⟩
      refine ⟨k, ?_, rfl⟩
      have hsome : (Key.all.find? fun l => l.name = strip (partition piece ':').1).isSome :=
        List.find?_isSome.mpr ⟨k, Key.mem_all k, decide_eq_true hname.symm⟩
      obtain ⟨l, hl⟩ := Option.isSome_iff_exists.mp hsome
      have hlname : l.name = strip (partition piece ':').1 := by simpa using List.find?_some hl
      obtain rfl : l = k := Key.name_injective (hlname.trans hname)
      exact hl
  · simp [hsep]

/-- A key and a value as a pair of the option list. -/
def pairText (pair : Key × Str) : Str := pair.1.name ++ ':' :: pair.2

section PairText

variable {pair pair' : Key × Str}

theorem Key.colon_not_mem_name (k : Key) : ':' ∉ k.name := by cases k <;> decide

theorem Key.strip_name (k : Key) : strip k.name = k.name := by cases k <;> decide

theorem Key.length_name_le (k : Key) : k.name.length ≤ 32 := by cases k <;> decide

theorem Key.lower_name (k : Key) : lower k.name = k.name := by cases k <;> decide

theorem lower_pairText : lower (pairText pair) = pairText (pair.1, lower pair.2) := by
  have hname := pair.1.lower_name
  rw [lower_eq_map] at hname
  simp only [pairText, lower_eq_map, List.map_append, List.map_cons, hname]
  rfl

/-- What is read from the text of a pair, if its colon is not overlooked. -/
theorem readPair_pairText (h : readPair (pairText pair) = some pair') :
    pair' = (pair.1, strip pair.2) := by
  obtain ⟨k, value⟩ := pair'
  obtain ⟨hsep, hkey, hvalue⟩ := readPair_eq_some.mp h
  have hcolon := pair.1.colon_not_mem_name
  have hlen : pair.1.name.length < 2 ^ 31 := pair.1.length_name_le.trans_lt (by decide)
  have hpartition := partition_append hcolon hlen ((partition_sep_iff hcolon hlen).mp hsep)
  rw [pairText, hpartition] at hkey hvalue
  rw [Prod.mk.injEq]
  exact ⟨Key.name_injective (hkey.symm.trans pair.1.strip_name), hvalue.symm⟩

theorem readPair_pairText_iff :
    readPair (pairText pair) = some (pair.1, strip pair.2) ↔
      pair.1.name.length < (pairText pair).length % 2 ^ 32 := by
  have hcolon := pair.1.colon_not_mem_name
  have hlen : pair.1.name.length < 2 ^ 31 := pair.1.length_name_le.trans_lt (by decide)
  refine ⟨fun h => (partition_sep_iff hcolon hlen).mp (readPair_eq_some.mp h).1, fun hsize => ?_⟩
  have hpartition := partition_append hcolon hlen hsize
  exact readPair_eq_some.mpr (by simp [pairText, hpartition, Key.strip_name])

end PairText

section Pair

variable {o : RuntimeOptionsT} {piece : Str} {k : Key}

theorem parsePair_malformed (hsep : (partition piece ':').2.1 ≠ [':']) :
    ∃ what, parsePair o piece = .error (.invalidArgument what) :=
  ⟨_, if_pos hsep⟩

theorem parsePair_unknown (hsep : (partition piece ':').2.1 = [':'])
    (hkey : strip (partition piece ':').1 ∉ knowKeys) :
    ∃ what, parsePair o piece = .error (.invalidArgument what) := by
  by_cases hempty : strip (partition piece ':').1 = []
  · exact ⟨_, (if_neg (not_not_intro hsep)).trans (if_pos hempty)⟩
  · exact ⟨_, (if_neg (not_not_intro hsep)).trans ((if_neg hempty).trans (if_pos hkey))⟩

theorem parsePair_known (hsep : (partition piece ':').2.1 = [':'])
    (hkey : strip (partition piece ':').1 = k.name) :
    parsePair o piece =
      if strip (partition piece ':').2.2 = [] then
        throwInvalidArgument
          ["Value from key-value pair '".toList, piece, "' is empty".toList]
      else k.parse (strip (partition piece ':').2.2) o := by
  have hknown : ¬ strip (partition piece ':').1 ∉ knowKeys :=
    not_not_intro (Key.mem_knowKeys.mpr ⟨k, hkey.symm⟩)
  have hne : strip (partition piece ':').1 ≠ [] := hkey ▸ Key.name_ne_nil k
  rw [← Key.storeValue_name, ← hkey]
  exact (if_neg (not_not_intro hsep)).trans ((if_neg hne).trans (if_neg hknown))

/-- What the loop body does with a piece: the pair is stored, its number does not fit, or the piece
is refused. -/
theorem parsePair_cases (o : RuntimeOptionsT) (piece : Str) :
    (∃ k value, readPair piece = some (k, value) ∧ k.Accepts value ∧
        parsePair o piece = .ok (k.store value o)) ∨
      (∃ k value, readPair piece = some (k, value) ∧ k.Overflows value ∧
        parsePair o piece = .error .outOfRange) ∨
      (∀ k value, readPair piece = some (k, value) → ¬ k.Accepts value ∧ ¬ k.Overflows value) ∧
        ∃ what, parsePair o piece = .error (.invalidArgument what) := by
  cases hread : readPair piece with
  | none =>
    refine .inr (.inr ⟨nofun, ?_⟩)
    by_cases hsep : (partition piece ':').2.1 = [':']
    · refine parsePair_unknown hsep fun hkey => ?_
      obtain ⟨k, hk⟩ := Key.mem_knowKeys.mp hkey
      cases hread.symm.trans (readPair_eq_some.mpr ⟨hsep, hk.symm, rfl⟩)
    · exact parsePair_malformed hsep
  | some pair =>
    obtain ⟨k, value⟩ := pair
    obtain ⟨hsep, hkey, rfl⟩ := readPair_eq_some.mp hread
    rw [parsePair_known hsep hkey]
    by_cases hvalue : strip (partition piece ':').2.2 = []
    · refine .inr (.inr ⟨?_, _, if_pos hvalue⟩)
      rintro _ _ ⟨⟩
      exact ⟨fun h => Key.ne_nil_of_accepts h hvalue, fun h => Key.ne_nil_of_overflows h hvalue⟩
    · rw [if_neg hvalue]
      obtain ⟨haccepts, hok⟩ | ⟨hoverflows, herror⟩ | ⟨hnot, hfits, what, herror⟩ :=
        k.parse_cases o hvalue
      · exact .inl ⟨k, _, rfl, haccepts, hok⟩
      · exact .inr (.inl ⟨k, _, rfl, hoverflows, herror⟩)
      · refine .inr (.inr ⟨?_, what, herror⟩)
        rintro _ _ ⟨⟩
        exact ⟨hnot, hfits⟩

end Pair

/-! ## Lists of pairs -/

/-- The piece is a pair that is accepted. -/
def Accepted (piece : Str) (pair : Key × Str) : Prop :=
  readPair piece = some pair ∧ pair.1.Accepts pair.2

/-- The piece is a number that does not fit an `int`. -/
def Overflowing (piece : Str) : Prop :=
  ∃ k value, readPair piece = some (k, value) ∧ k.Overflows value

/-- The options after some pairs were stored. -/
def storePairs (pairs : List (Key × Str)) (o : RuntimeOptionsT) : RuntimeOptionsT :=
  pairs.foldl (fun o pair => pair.1.store pair.2 o) o

section Pairs

variable {o o' : RuntimeOptionsT} {piece : Str} {pieces : List Str} {pair : Key × Str}
  {pairs : List (Key × Str)} {e : Exception}

theorem parsePair_ok (h : Accepted piece pair) :
    parsePair o piece = .ok (pair.1.store pair.2 o) := by
  obtain ⟨hread, haccepts⟩ := h
  obtain ⟨k, value, hread', -, hok⟩ | ⟨k, value, hread', hoverflows, -⟩ | ⟨hrefused, -⟩ :=
    parsePair_cases o piece
  · cases hread.symm.trans hread'
    exact hok
  · cases hread.symm.trans hread'
    exact absurd hoverflows (Key.not_overflows haccepts)
  · exact absurd haccepts (hrefused _ _ hread).1

theorem accepted_of_ok (h : parsePair o piece = .ok o') :
    ∃ pair, Accepted piece pair ∧ o' = pair.1.store pair.2 o := by
  obtain ⟨k, value, hread, haccepts, hok⟩ | ⟨_, _, -, -, herror⟩ | ⟨-, _, herror⟩ :=
    parsePair_cases o piece
  · exact ⟨(k, value), ⟨hread, haccepts⟩, Except.ok.inj (h.symm.trans hok)⟩
  · cases h.symm.trans herror
  · cases h.symm.trans herror

theorem parsePair_outOfRange_iff : parsePair o piece = .error .outOfRange ↔ Overflowing piece := by
  obtain ⟨k, value, hread, haccepts, hok⟩ | ⟨k, value, hread, hoverflows, herror⟩ |
    ⟨hrefused, _, herror⟩ := parsePair_cases o piece
  · refine ⟨fun h => (by cases hok.symm.trans h), ?_⟩
    rintro ⟨l, w, hread', hoverflows⟩
    cases hread.symm.trans hread'
    exact absurd hoverflows (Key.not_overflows haccepts)
  · exact ⟨fun _ => ⟨k, value, hread, hoverflows⟩, fun _ => herror⟩
  · refine ⟨fun h => (by cases herror.symm.trans h), ?_⟩
    rintro ⟨l, w, hread', hoverflows⟩
    exact absurd hoverflows (hrefused l w hread').2

/-- Pairs that are accepted are stored, and the loop goes on. -/
theorem parsePairs_append {before after : List Str} (h : List.Forall₂ Accepted before pairs) :
    parsePairs o (before ++ after) = parsePairs (storePairs pairs o) after := by
  induction h generalizing o with
  | nil => rfl
  | cons hpiece _ ih =>
    simp only [List.cons_append, parsePairs, parsePair_ok hpiece]
    exact ih

theorem parsePairs_of_accepted (h : List.Forall₂ Accepted pieces pairs) :
    parsePairs o pieces = (storePairs pairs o, none) := by
  have hnil : parsePairs o (pieces ++ []) = parsePairs (storePairs pairs o) [] :=
    parsePairs_append h
  simpa [parsePairs] using hnil

/-- What the loop does: every pair is stored, or the pairs before one for which an exception is
thrown. -/
theorem parsePairs_cases (o : RuntimeOptionsT) (pieces : List Str) :
    (∃ pairs, List.Forall₂ Accepted pieces pairs) ∨
      ∃ before piece after pairs e, pieces = before ++ piece :: after ∧
        List.Forall₂ Accepted before pairs ∧ parsePair (storePairs pairs o) piece = .error e ∧
        parsePairs o pieces = (storePairs pairs o, some e) := by
  induction pieces generalizing o with
  | nil => exact .inl ⟨[], .nil⟩
  | cons piece pieces ih =>
    cases hparse : parsePair o piece with
    | error e =>
      exact .inr ⟨[], piece, pieces, [], e, rfl, .nil, hparse,
        by simp [parsePairs, hparse, storePairs]⟩
    | ok o' =>
      obtain ⟨pair, haccepted, rfl⟩ := accepted_of_ok hparse
      obtain ⟨pairs, hpairs⟩ | ⟨before, bad, after, pairs, e, rfl, hbefore, herror, hresult⟩ :=
        ih (pair.1.store pair.2 o)
      · exact .inl ⟨pair :: pairs, .cons haccepted hpairs⟩
      · refine .inr ⟨piece :: before, bad, after, pair :: pairs, e, rfl,
          .cons haccepted hbefore, herror, ?_⟩
        simp only [parsePairs, hparse]
        exact hresult

/-- The loop is left normally if and only if every piece is a pair that is accepted. -/
theorem parsePairs_none_iff :
    (parsePairs o pieces).2 = none ↔ ∃ pairs, List.Forall₂ Accepted pieces pairs := by
  constructor
  · intro h
    obtain haccepted | ⟨_, _, _, _, _, -, -, -, hresult⟩ := parsePairs_cases o pieces
    · exact haccepted
    · simp [hresult] at h
  · rintro ⟨pairs, h⟩
    rw [parsePairs_of_accepted h]

end Pairs

end OptionsParser
end CppGuard
