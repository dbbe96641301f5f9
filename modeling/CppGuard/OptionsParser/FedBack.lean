import CppGuard.Library.Transition
import CppGuard.OptionsParser.Grammar
import CppGuard.OptionsParser.Printed
import CppGuard.OptionsParser.LogFile

/-!
# Feeding the printed options back

Options that were set by the parser are printed in a form that it reads again, except for a log
that is disabled, which is printed with another keyword than the one that the parser knows.
-/
namespace CppGuard
open Pystring Separated Transition

namespace OptionsParser

/-- A successful call of `parse_options`. -/
def setOptions (o : RuntimeOptionsT) (s : Str) : Option RuntimeOptionsT :=
  match parseOptions o (some s) with
  | (o', none) => some o'
  | (_, some _) => none

/-- What the parser has stored as the name of the log file. -/
structure StoredPath (f : Str) : Prop where
  lower : lower f = f
  strip : strip f = f
  path : isPath f = true
  nonempty : f ≠ []
  nul : '\x00' ∉ f

/-- What holds of options that were set by the parser. -/
structure Printable (o : RuntimeOptionsT) : Prop where
  maxDuration : o.threadWatchdogMaxDurationSec ≤ 86400 ∧ 2 ≤ o.threadWatchdogMaxDurationSec
  exitCode : ∃ n ≤ 126, o.exitCode = Int.ofNat n
  logFile : o.logType = .toFile → StoredPath o.logFile

variable {o o' : RuntimeOptionsT} {s f piece value : Str} {k : Key} {pairs : List (Key × Str)}

/-- A value that is read from an option string. -/
theorem value_of_piece (hpiece : piece ∈ split (lower (cString s)) ',')
    (h : readPair piece = some (k, value)) :
    lower value = value ∧ strip value = value ∧ '\x00' ∉ value := by
  obtain ⟨-, -, rfl⟩ := readPair_eq_some.mp h
  have hsub := ((strip_isInfix _).trans (partition_isInfix piece ':')).trans
    (infix_of_mem_split hpiece)
  refine ⟨lower_eq_self.mpr fun c hc => ?_, strip_strip _, fun hnul => ?_⟩
  · exact lower_eq_self.mp (lower_lower (cString s)) c (hsub.subset hc)
  · have hmem := (mem_lower (by decide)).mp (hsub.subset hnul)
    simpa using List.mem_takeWhile_imp hmem

theorem Printable.store (h : Printable o) (haccepts : k.Accepts value)
    (hvalue : lower value = value ∧ strip value = value ∧ '\x00' ∉ value) :
    Printable (k.store value o) := by
  cases k with
  | log =>
    have hsame (l : Key) (hl : Key.log ≠ l) : l.SameMember o (Key.log.store value o) :=
      Key.sameMember_store hl
    refine ⟨(hsame .threadWatchdogMaxDurationSec (by decide)) ▸ h.maxDuration,
      (hsame .exitCode (by decide)) ▸ h.exitCode, fun htype => ?_⟩
    rw [logType_store_log, logTypeOf_eq_toFile] at htype
    rw [logFile_store_log, if_pos htype]
    exact ⟨hvalue.1, hvalue.2.1, htype, haccepts, hvalue.2.2⟩
  | threadWatchdogMaxDurationSec => exact ⟨⟨haccepts.2.2, haccepts.2.1⟩, h.exitCode, h.logFile⟩
  | exitCode => exact ⟨h.maxDuration, ⟨_, haccepts.2, rfl⟩, h.logFile⟩
  | _ => exact ⟨h.maxDuration, h.exitCode, h.logFile⟩

theorem Printable.storePairs {pieces : List Str} (h : Printable o)
    (hpairs : List.Forall₂ Accepted pieces pairs)
    (hpieces : ∀ piece ∈ pieces, piece ∈ split (lower (cString s)) ',') :
    Printable (storePairs pairs o) := by
  induction hpairs generalizing o with
  | nil => exact h
  | cons hpiece _ ih =>
    refine ih (h.store hpiece.2 (value_of_piece (hpieces _ List.mem_cons_self) hpiece.1)) ?_
    exact fun piece hmem => hpieces piece (List.mem_cons_of_mem _ hmem)

theorem Printable.setOptions (h : Printable o) (hset : setOptions o s = some o') :
    Printable o' := by
  unfold OptionsParser.setOptions at hset
  by_cases hne : cString s = []
  · rw [parseOptions_empty (by simpa using hne)] at hset
    cases hset
  · rw [parseOptions_some hne] at hset
    obtain ⟨pairs, hpairs⟩ | ⟨_, _, _, _, _, -, -, -, hresult⟩ :=
      parsePairs_cases o (split (lower (cString s)) ',')
    · rw [parsePairs_of_accepted hpairs] at hset
      obtain rfl := Option.some.inj hset
      exact h.storePairs hpairs fun _ hmem => hmem
    · rw [hresult] at hset
      cases hset

theorem printable_start : Printable {} :=
  ⟨⟨by decide, by decide⟩, ⟨66, by decide, rfl⟩, nofun⟩

/-- Every state that is reached by successful calls. -/
theorem exec_printable {calls : List Str} (hrun : exec setOptions {} calls = some o) :
    Printable o :=
  exec_invariant (fun _ _ _ h hset => h.setOptions hset) printable_start hrun

/-! ## The pairs that are printed -/

/-- A pair whose text is read back as it is. -/
structure ReadBack (pair : Key × Str) : Prop where
  lower : lower pair.2 = pair.2
  strip : strip pair.2 = pair.2
  comma : ',' ∉ pair.2
  newline : '\n' ∉ pair.2
  nul : '\x00' ∉ pair.2
  size : pair.1.name.length < (pairText pair).length % 2 ^ 32
  accepts : pair.1.Accepts pair.2

variable {pair : Key × Str}

theorem Key.not_mem_name (k : Key) {c : Char} (hc : c ∈ [',', '\n', '\x00']) : c ∉ k.name := by
  revert c
  simp only [List.forall_mem_cons, List.not_mem_nil, false_imp_iff, implies_true, and_true]
  cases k <;> decide

theorem ReadBack.not_mem (h : ReadBack pair) {c : Char} (hc : c ∈ [',', '\n', '\x00']) :
    c ∉ pairText pair := by
  have hname := pair.1.not_mem_name hc
  have hvalue : c ∉ pair.2 := by
    simp only [List.mem_cons, List.not_mem_nil, or_false] at hc
    obtain rfl | rfl | rfl := hc
    · exact h.comma
    · exact h.newline
    · exact h.nul
  have hcolon : c ≠ ':' := by rintro rfl; revert hc; decide
  simp [pairText, hname, hvalue, hcolon]

theorem ReadBack.accepted (h : ReadBack pair) :
    Accepted (Pystring.lower (pairText pair)) pair := by
  have hread := readPair_pairText_iff.mpr h.size
  rw [h.strip] at hread
  rw [lower_pairText, h.lower]
  exact ⟨hread, h.accepts⟩

theorem readBack_digits (hdigit : ∀ c ∈ value, c.isDigit = true) (hlen : value.length ≤ 5)
    (haccepts : k.Accepts value) : ReadBack (k, value) := by
  have hnat {c : Char} (hc : c ∈ value) : 48 ≤ c.toNat ∧ c.toNat ≤ 57 := by
    simpa [Char.isDigit, UInt32.le_iff_toNat_le] using hdigit c hc
  have hnot {c : Char} (hc : c.toNat < 48) : c ∉ value := fun hmem => by
    have := hnat hmem
    omega
  have hsize : (pairText (k, value)).length % 2 ^ 32 = (pairText (k, value)).length := by
    have := k.length_name_le
    refine Nat.mod_eq_of_lt ?_
    simp only [pairText, List.length_append, List.length_cons]
    omega
  exact {
    lower := lower_eq_self.mpr fun c hc hupper => by
      have := hnat hc
      have := isUpper_iff.mp hupper
      omega
    strip := by
      change Pystring.strip value = value
      rw [strip_of_lt (by omega), trim_of_forall_not]
      intro c hc hspace
      have := hnat hc
      have := isspace_eq_true.mp hspace
      omega
    comma := hnot (by decide)
    newline := hnot (by decide)
    nul := hnot (by decide)
    size := by rw [hsize]; simp [pairText]
    accepts := haccepts }

theorem readBack_bool (hk : ∀ value, value = ['0'] ∨ value = ['1'] → k.Accepts value) (b : Bool) :
    ReadBack (k, formatBool b) := by
  cases b
  · exact readBack_digits (List.forall_mem_singleton.mpr rfl) (by decide) (hk _ (.inl rfl))
  · exact readBack_digits (List.forall_mem_singleton.mpr rfl) (by decide) (hk _ (.inr rfl))

theorem readBack_number {n : Nat} (hn : n < 10 ^ 5) (hk : k.Accepts (Nat.toDigits 10 n)) :
    ReadBack (k, Nat.toDigits 10 n) :=
  readBack_digits (fun _ hc => Nat.isDigit_of_mem_toDigits (by decide) (by decide) hc)
    ((Nat.length_toDigits_le_iff (by decide) (by decide)).mpr hn) hk

theorem number_toDigits (n : Nat) : Key.number (Nat.toDigits 10 n) = n :=
  Nat.ofDigitChars_ten_toDigits

theorem isdigit_toDigits (n : Nat) : isdigit (Nat.toDigits 10 n) = true :=
  isdigit_iff.mpr ⟨Nat.toDigits_ne_nil,
    fun _ hc => Nat.isDigit_of_mem_toDigits (by decide) (by decide) hc⟩

/-- Numbers and switches are read back. -/
theorem Printable.readBack (h : Printable o) : ∀ pair ∈ printedPairs o, ReadBack pair := by
  obtain ⟨n, hn, hexit⟩ := h.exitCode
  have hmax : Key.threadWatchdogMaxDurationSec.Accepts
      (Nat.toDigits 10 o.threadWatchdogMaxDurationSec) := by
    refine ⟨isdigit_toDigits _, ?_⟩
    rw [number_toDigits]
    exact h.maxDuration.symm
  have hcode : Key.exitCode.Accepts (Nat.toDigits 10 n) := by
    refine ⟨isdigit_toDigits _, ?_⟩
    rwa [number_toDigits]
  have := h.maxDuration
  simp only [printedPairs, hexit, formatInt, List.forall_mem_cons, List.not_mem_nil, false_imp_iff,
    implies_true, and_true]
  exact ⟨readBack_bool (k := .haltOnError) (fun _ hv => hv) _,
    readBack_bool (k := .failProcessInCaseOfError) (fun _ hv => hv) _,
    readBack_bool (k := .threadWatchdog) (fun _ hv => hv) _, readBack_number (by omega) hmax,
    readBack_number (by omega) hcode⟩

/-! ## The text that is fed back -/

/-- The pairs that come from the line for the log. -/
def logPairs (f : Str) : List Str :=
  ((printedLine (.log, f) ++ "\n\n".toList).splitOn '\n').filterMap pairOfLine

theorem not_mem_printedLine {c : Char} (hc : c ∈ [',', '\n', '\x00']) (h : c ∉ pair.2) :
    c ∉ printedLine pair := by
  have hname := pair.1.not_mem_name hc
  have hblank : ∀ c ∈ [',', '\n', '\x00'], c ∉ "  ".toList ∧ c ∉ ": ".toList := by
    simp only [List.forall_mem_cons, List.not_mem_nil, false_imp_iff, implies_true, and_true]
    decide
  simp only [printedLine, List.mem_append, not_or]
  exact ⟨⟨⟨(hblank c hc).1, hname⟩, (hblank c hc).2⟩, h⟩

theorem fedBackText_eq (h : Printable o) :
    fedBackText (createOptionsLogText o) =
      [','].intercalate ((printedPairs o).map pairText ++ logPairs (logOption o)) := by
  have hlines : ∀ line ∈ [] :: "Used CppGuard options:".toList :: (printedPairs o).map printedLine,
      '\n' ∉ line := by
    simp only [List.forall_mem_cons, List.mem_map, List.not_mem_nil, not_false_eq_true, true_and]
    refine ⟨by decide, ?_⟩
    rintro _ ⟨pair, hpair, rfl⟩
    exact not_mem_printedLine (by decide) (h.readBack pair hpair).newline
  have hheader : pairOfLine "Used CppGuard options:".toList = none := by decide
  have hcomp : pairOfLine ∘ printedLine = some ∘ pairText :=
    funext fun _ => pairOfLine_printedLine
  rw [fedBackText, createOptionsLogText_eq, splitOn_flatten_append hlines, List.filterMap_append,
    List.filterMap_cons_none rfl, List.filterMap_cons_none hheader, List.filterMap_map, hcomp,
    List.filterMap_eq_map]
  rfl

/-- Without line feeds in it, the log is one pair. -/
theorem logPairs_of_not_mem (h : '\n' ∉ f) : logPairs f = [pairText (.log, f)] := by
  have hline : '\n' ∉ printedLine (.log, f) := not_mem_printedLine (by decide) h
  have hsplit : (printedLine (.log, f) ++ "\n\n".toList).splitOn '\n' =
      [printedLine (.log, f), [], []] := splitOn_append_cons hline
  rw [logPairs, hsplit, List.filterMap_cons_some pairOfLine_printedLine]
  rfl

/-- With line feeds in it, the log is cut at the first; there may be more pairs after it. -/
theorem logPairs_append {f₁ f₂ : Str} (h : '\n' ∉ f₁) :
    logPairs (f₁ ++ '\n' :: f₂) =
      pairText (.log, f₁) :: (f₂.splitOn '\n').filterMap pairOfLine := by
  have hline : '\n' ∉ printedLine (.log, f₁) := not_mem_printedLine (by decide) h
  have htext : printedLine (.log, f₁ ++ '\n' :: f₂) ++ "\n\n".toList =
      printedLine (.log, f₁) ++ '\n' :: (f₂ ++ '\n' :: "\n".toList) := by
    simp [printedLine]
  have hrest : (f₂ ++ '\n' :: "\n".toList).splitOn '\n' = f₂.splitOn '\n' ++ [[], []] :=
    List.splitOn_append_cons_self f₂ _
  have hnone : ([[], []] : List Str).filterMap pairOfLine = [] := rfl
  rw [logPairs, htext, splitOn_append_cons hline, hrest,
    List.filterMap_cons_some pairOfLine_printedLine, List.filterMap_append, hnone, List.append_nil]

theorem logPairs_ne_nil (f : Str) : logPairs f ≠ [] := by
  by_cases h : '\n' ∈ f
  · obtain ⟨f₁, f₂, rfl, hf₁⟩ := List.eq_append_cons_of_mem h
    simp [logPairs_append hf₁]
  · simp [logPairs_of_not_mem h]

theorem sum_filterMap_pairOfLine (lines : List Str) :
    ((lines.filterMap pairOfLine).map (·.length + 1)).sum + lines.length ≤
      (lines.map (·.length + 1)).sum := by
  induction lines with
  | nil => simp
  | cons line lines ih =>
    cases hline : pairOfLine line with
    | none =>
      rw [List.filterMap_cons_none hline]
      simp only [List.map_cons, List.sum_cons, List.length_cons]
      omega
    | some text =>
      have := length_pairOfLine hline
      rw [List.filterMap_cons_some hline]
      simp only [List.map_cons, List.sum_cons, List.length_cons]
      omega

/-- All that comes from a log with line feeds is shorter than the pair that it should be. -/
theorem length_logPairs (h : '\n' ∈ f) :
    ([','].intercalate (logPairs f)).length < (pairText (.log, f)).length := by
  obtain ⟨f₁, f₂, rfl, hf₁⟩ := List.eq_append_cons_of_mem h
  have hjoined (texts : List Str) (hne : texts ≠ []) :
      ([','].intercalate texts).length + 1 = (texts.map (·.length + 1)).sum :=
    length_intercalate hne
  have hlines : (['\n'].intercalate (f₂.splitOn '\n')).length + 1 =
      ((f₂.splitOn '\n').map fun line : Str => line.length + 1).sum :=
    length_intercalate (List.splitOn_ne_nil '\n' f₂)
  have hsum := sum_filterMap_pairOfLine (f₂.splitOn '\n')
  have hpos := List.length_pos_of_ne_nil (List.splitOn_ne_nil '\n' f₂)
  rw [List.intercalate_splitOn] at hlines
  have hjoined := hjoined _ (logPairs_ne_nil (f₁ ++ '\n' :: f₂))
  rw [logPairs_append hf₁] at hjoined ⊢
  simp only [List.map_cons, List.sum_cons, pairText, List.length_append, List.length_cons]
    at hjoined ⊢
  omega

/-! ## Reading it back -/

/-- The options that are printed are the same. -/
structure SamePrinted (o o' : RuntimeOptionsT) : Prop where
  haltOnError : o'.haltOnError = o.haltOnError
  overrideProcessExitCodeOnError :
    o'.overrideProcessExitCodeOnError = o.overrideProcessExitCodeOnError
  threadWatchdogEnabled : o'.threadWatchdogEnabled = o.threadWatchdogEnabled
  threadWatchdogMaxDurationSec : o'.threadWatchdogMaxDurationSec = o.threadWatchdogMaxDurationSec
  exitCode : o'.exitCode = o.exitCode
  logType : o'.logType = o.logType
  logFile : o.logType = .toFile → o'.logFile = o.logFile

/-- The printed options are accepted, and set again what was printed. -/
def FedBack (o other : RuntimeOptionsT) : Prop :=
  (parseOptions other (some (fedBackText (createOptionsLogText o)))).2 = none ∧
    SamePrinted o (parseOptions other (some (fedBackText (createOptionsLogText o)))).1

/-- The log is not disabled, and the name of a log file has neither line feeds nor commas in it and
no length at which the parser overlooks the colon. -/
def LogReadable (o : RuntimeOptionsT) : Prop :=
  o.logType ≠ .disabled ∧ (o.logType = .toFile →
    '\n' ∉ o.logFile ∧ ',' ∉ o.logFile ∧ 4 ≤ (o.logFile.length + 4) % 2 ^ 32)

theorem pairText_ne_nil (pair : Key × Str) : pairText pair ≠ [] := by simp [pairText]

/-- Pairs that are joined are all stored. -/
theorem parse_readBack {other : RuntimeOptionsT} (hread : ∀ pair ∈ pairs, ReadBack pair)
    (hne : pairs ≠ []) (hmax : pairs.length ≤ maxInt) :
    parseOptions other (some ([','].intercalate (pairs.map pairText))) =
      (storePairs pairs other, none) := by
  have hnot {c : Char} (hc : c ∈ [',', '\n', '\x00']) (text : Str)
      (htext : text ∈ pairs.map pairText) : c ∉ text := by
    obtain ⟨pair, hpair, rfl⟩ := List.mem_map.mp htext
    exact (hread pair hpair).not_mem hc
  have hsplit : split ([','].intercalate (pairs.map pairText)) ',' = pairs.map pairText :=
    split_intercalate (hnot (by decide)) (by simpa using hne) (by simpa using hmax)
  have hnul : '\x00' ∉ [','].intercalate (pairs.map pairText) := by
    intro hmem
    obtain hcomma | ⟨text, htext, hc⟩ := mem_intercalate hmem
    · cases hcomma
    · exact hnot (by decide) text htext hc
  have hstring := cString_of_not_mem hnul
  have htext : [','].intercalate (pairs.map pairText) ≠ [] := by
    intro hnil
    have hmem : [] ∈ pairs.map pairText := by
      rw [← hsplit, hnil]
      exact List.mem_singleton_self []
    obtain ⟨pair, -, hpair⟩ := List.mem_map.mp hmem
    exact pairText_ne_nil pair hpair
  rw [parseOptions_some (by rwa [hstring]), hstring, split_lower (by decide), hsplit]
  refine parsePairs_of_accepted ?_
  rw [List.map_map, List.forall₂_map_left_iff, List.forall₂_same]
  exact fun pair hpair => (hread pair hpair).accepted

theorem parse_fedBackText {other : RuntimeOptionsT} (h : Printable o)
    (hlog : ReadBack (.log, logOption o)) :
    parseOptions other (some (fedBackText (createOptionsLogText o))) =
      (storePairs (printedPairs o ++ [(Key.log, logOption o)]) other, none) := by
  have htext : fedBackText (createOptionsLogText o) =
      [','].intercalate ((printedPairs o ++ [(Key.log, logOption o)]).map pairText) := by
    rw [fedBackText_eq h, logPairs_of_not_mem hlog.newline, List.map_append]
    rfl
  rw [htext]
  refine parse_readBack (fun pair hpair => ?_) (by simp) (by simp [printedPairs, maxInt])
  obtain hpair | hpair := List.mem_append.mp hpair
  · exact h.readBack pair hpair
  · obtain rfl := List.mem_singleton.mp hpair
    exact hlog

theorem samePrinted_storePairs {other : RuntimeOptionsT} (h : Printable o)
    (hlog : logTypeOf (logOption o) = o.logType) :
    SamePrinted o (storePairs (printedPairs o ++ [(Key.log, logOption o)]) other) := by
  obtain ⟨n, -, hexit⟩ := h.exitCode
  have hbool (b : Bool) : decide (formatBool b = ['1']) = b := by cases b <;> rfl
  have hlast := lastWins (printedPairs o ++ [(Key.log, logOption o)]) other
  have hfile := log_storePairs other (printedPairs o) (logOption o) (List.forall_mem_nil _)
  refine ⟨hlast.haltOnError.trans (hbool _), hlast.overrideProcessExitCodeOnError.trans (hbool _),
    hlast.threadWatchdogEnabled.trans (hbool _),
    hlast.threadWatchdogMaxDurationSec.trans (number_toDigits _), hlast.exitCode.trans ?_,
    hlast.logType.trans hlog, fun htype => ?_⟩
  · change (Key.number (formatInt o.exitCode) : Int) = o.exitCode
    rw [hexit]
    exact congrArg Int.ofNat (number_toDigits n)
  · have hpath := logTypeOf_eq_toFile.mp (hlog.trans htype)
    rw [hfile.2 hpath, logOption, htype]

theorem length_pairText_log (f : Str) : (pairText (.log, f)).length = f.length + 4 := by
  have hname : Key.log.name.length = 3 := rfl
  rw [pairText, List.length_append, List.length_cons, hname]
  exact Nat.add_comm _ _

theorem readBack_path (h : StoredPath f) (hnewline : '\n' ∉ f) (hcomma : ',' ∉ f)
    (hsize : 4 ≤ (f.length + 4) % 2 ^ 32) : ReadBack (.log, f) where
  lower := h.lower
  strip := h.strip
  comma := hcomma
  newline := hnewline
  nul := h.nul
  size := by
    have hname : Key.log.name.length = 3 := rfl
    rw [length_pairText_log, hname]
    omega
  accepts := h.nonempty

theorem readBack_keyword {keyword : Str}
    (h : keyword ∈ ["disabled".toList, "stdout".toList, "stderr".toList]) :
    ReadBack (.log, keyword) := by
  have hpath : keyword ≠ [] ∧ lower keyword = keyword ∧ strip keyword = keyword ∧
      ',' ∉ keyword ∧ '\n' ∉ keyword ∧ '\x00' ∉ keyword ∧ keyword.length < 9 := by
    revert keyword
    decide
  obtain ⟨hne, hlower, hstrip, hcomma, hnewline, hnul, hlen⟩ := hpath
  have hsize : 3 < (pairText (.log, keyword)).length % 2 ^ 32 := by
    rw [length_pairText_log]
    omega
  exact ⟨hlower, hstrip, hcomma, hnewline, hnul, hsize, hne⟩

theorem fedBack_of_logReadable {other : RuntimeOptionsT} (h : Printable o) (hlog : LogReadable o) :
    FedBack o other := by
  obtain ⟨hread, htype⟩ : ReadBack (.log, logOption o) ∧ logTypeOf (logOption o) = o.logType := by
    cases htype : o.logType with
    | disabled => exact absurd htype hlog.1
    | toStdout | toStderr =>
      all_goals
        simp only [logOption, htype]
        exact ⟨readBack_keyword (by decide), by decide⟩
    | toFile =>
      obtain ⟨hnewline, hcomma, hsize⟩ := hlog.2 htype
      simp only [logOption, htype]
      exact ⟨readBack_path (h.logFile htype) hnewline hcomma hsize,
        logTypeOf_eq_toFile.mpr (h.logFile htype).path⟩
  unfold FedBack
  rw [parse_fedBackText h hread]
  exact ⟨rfl, samePrinted_storePairs h htype⟩

/-- A disabled log is read back as a file with the name of the keyword that is printed. -/
theorem not_fedBack_disabled {other : RuntimeOptionsT} (h : Printable o)
    (hlog : o.logType = .disabled) : ¬ FedBack o other := by
  rintro ⟨-, hsame⟩
  have hoption : logOption o = "disabled".toList := by rw [logOption, hlog]
  rw [parse_fedBackText h (hoption ▸ readBack_keyword (by decide))] at hsame
  have htype := (log_storePairs other (printedPairs o) (logOption o) (List.forall_mem_nil _)).1
  have hfile : logTypeOf (logOption o) = .toFile := by rw [hoption]; decide
  cases (hlog.symm.trans (hsame.logType.symm.trans (htype.trans hfile)))

/-- A value is shorter than its piece, by the key and the colon. -/
theorem length_of_readPair (h : readPair piece = some (k, value)) (hvalue : value ≠ []) :
    k.name.length + 1 + value.length ≤ piece.length := by
  obtain ⟨-, hkey, rfl⟩ := readPair_eq_some.mp h
  have hrest : (partition piece ':').2.2 ≠ [] := by
    intro hnil
    rw [hnil] at hvalue
    exact hvalue (by decide)
  have hsplit := length_partition hrest
  have hk := (strip_isInfix (partition piece ':').1).length_le
  have hv := (strip_isInfix (partition piece ':').2.2).length_le
  rw [hkey] at hk
  omega

theorem Printable.nul_not_mem (h : Printable o) :
    '\x00' ∉ fedBackText (createOptionsLogText o) := by
  have hoption : '\x00' ∉ logOption o := by
    cases htype : o.logType with
    | toFile =>
      rw [logOption, htype]
      exact (h.logFile htype).nul
    | _ =>
      simp only [logOption, htype]
      decide
  have hlog : '\x00' ∉ printedLine (.log, logOption o) :=
    not_mem_printedLine (by decide) hoption
  have htext : '\x00' ∉ createOptionsLogText o := by
    rw [createOptionsLogText_eq, List.mem_append, List.mem_append, not_or, not_or]
    refine ⟨fun hmem => ?_, hlog, by decide⟩
    obtain ⟨line, hline, hc⟩ := List.mem_flatten.mp hmem
    obtain ⟨line, hlines, rfl⟩ := List.mem_map.mp hline
    have hc : '\x00' ∈ line := by simpa using hc
    simp only [List.mem_cons, List.mem_map] at hlines
    obtain rfl | rfl | ⟨pair, hpair, rfl⟩ := hlines
    · cases hc
    · revert hc
      decide
    · exact not_mem_printedLine (by decide) (h.readBack pair hpair).nul hc
  intro hmem
  obtain hcomma | ⟨text, hpairs, hc⟩ := mem_intercalate hmem
  · cases hcomma
  · obtain ⟨line, hline, hpair⟩ := List.mem_filterMap.mp hpairs
    exact htext ((infix_of_mem_splitOn hline).subset (mem_of_mem_pairOfLine hpair hc))

/-- If the name of a log file is read back, it comes from one piece of its own. -/
theorem exists_piece_of_fedBack (h : Printable o) (hfile : o.logType = .toFile)
    (hback : FedBack o {}) :
    ∃ piece ∈ split (fedBackText (createOptionsLogText o)) ',',
      readPair (lower piece) = some (.log, o.logFile) := by
  obtain ⟨hok, hsame⟩ := hback
  have hstring := cString_of_not_mem h.nul_not_mem
  generalize fedBackText (createOptionsLogText o) = text at hok hsame hstring ⊢
  have hne : cString text ≠ [] := by
    intro hnil
    rw [parseOptions_empty (by simpa using hnil)] at hok
    cases hok
  rw [parseOptions_some hne] at hok hsame
  obtain ⟨pairs, hpairs⟩ := parsePairs_none_iff.mp hok
  rw [parsePairs_of_accepted hpairs] at hsame
  have htype : (storePairs pairs {}).logType = .toFile := hsame.logType.trans hfile
  have hlast := (lastWins pairs {}).logType
  cases hvalue : lastValue .log pairs with
  | none =>
    rw [htype, hvalue] at hlast
    cases hlast
  | some value =>
    obtain ⟨first, rest, rfl, hrest⟩ := exists_of_lastValue hvalue
    obtain ⟨hlogType, hlogFile⟩ := log_storePairs {} first value hrest
    have hpath := logTypeOf_eq_toFile.mp (hlogType.symm.trans htype)
    have hsaved : value = o.logFile := (hlogFile hpath).symm.trans (hsame.logFile hfile)
    obtain ⟨piece, hpiece, hread, -⟩ := exists_of_mem_forall₂ hpairs
      (List.mem_append_right first List.mem_cons_self)
    rw [hstring, split_lower (by decide)] at hpiece
    obtain ⟨piece, hmem, rfl⟩ := List.mem_map.mp hpiece
    exact ⟨piece, hmem, hsaved ▸ hread⟩

theorem mem_split_fedBackText (h : Printable o)
    (hpiece : piece ∈ split (fedBackText (createOptionsLogText o)) ',') :
    (∃ pair ∈ printedPairs o, piece = pairText pair) ∨
      ∃ maxsplit, piece ∈
        splitLoop ',' (maxsplit + 1) [] ([','].intercalate (logPairs (logOption o))) := by
  have hcomma : ∀ text ∈ (printedPairs o).map pairText, ',' ∉ text := by
    intro text htext
    obtain ⟨pair, hpair, rfl⟩ := List.mem_map.mp htext
    exact (h.readBack pair hpair).not_mem (by decide)
  rw [fedBackText_eq h, split, splitLoop_intercalate_append hcomma (logPairs_ne_nil _)
    (by simp [printedPairs, maxInt])] at hpiece
  obtain hprinted | hpiece := List.mem_append.mp hpiece
  · obtain ⟨pair, hpair, rfl⟩ := List.mem_map.mp hprinted
    exact .inl ⟨pair, hpair, rfl⟩
  · exact .inr ⟨maxInt - 6, hpiece⟩

/-- A piece that is as long as the pair for the log is this pair, which was not cut. -/
theorem eq_of_mem_splitLoop_logPairs {maxsplit : Nat}
    (hpiece : piece ∈ splitLoop ',' (maxsplit + 1) [] ([','].intercalate (logPairs f)))
    (hlong : (pairText (.log, f)).length ≤ piece.length) :
    '\n' ∉ f ∧ ',' ∉ f ∧ piece = pairText (.log, f) := by
  have hnewline : '\n' ∉ f := by
    intro hmem
    have hshort := length_logPairs hmem
    have hle := (infix_of_mem_splitLoop hpiece).length_le
    exact absurd (hlong.trans hle) (Nat.not_le.mpr hshort)
  rw [logPairs_of_not_mem hnewline, List.intercalate_singleton] at hpiece
  have hname := Key.log.not_mem_name (c := ',') (by decide)
  have hcomma : ',' ∉ f := by
    intro hmem
    obtain ⟨f₁, f₂, rfl, hf₁⟩ := List.eq_append_cons_of_mem hmem
    have htext : pairText (.log, f₁ ++ ',' :: f₂) = pairText (.log, f₁) ++ ',' :: f₂ := by
      simp [pairText]
    have hfirst : ',' ∉ pairText (.log, f₁) := by simp [pairText, hname, hf₁]
    rw [htext, List.length_append, List.length_cons] at hlong
    rw [htext, splitLoop_append_cons hfirst] at hpiece
    obtain rfl | hrest := List.mem_cons.mp hpiece
    · rw [List.nil_append] at hlong
      omega
    · have hle : piece.length ≤ f₂.length := (infix_of_mem_splitLoop hrest).length_le
      omega
  have hwhole : ',' ∉ pairText (.log, f) := by simp [pairText, hname, hcomma]
  rw [splitLoop_of_not_mem hwhole] at hpiece
  exact ⟨hnewline, hcomma, List.mem_singleton.mp hpiece⟩

theorem logReadable_of_fedBack (h : Printable o) (hback : FedBack o {}) : LogReadable o := by
  refine ⟨fun hdisabled => not_fedBack_disabled h hdisabled hback, fun hfile => ?_⟩
  have hstored := h.logFile hfile
  have hoption : logOption o = o.logFile := by rw [logOption, hfile]
  have hname : Key.log.name.length = 3 := rfl
  obtain ⟨piece, hpiece, hread⟩ := exists_piece_of_fedBack h hfile hback
  have hlong := length_of_readPair hread hstored.nonempty
  rw [length_lower] at hlong
  obtain ⟨pair, hpair, rfl⟩ | ⟨maxsplit, hpiece⟩ := mem_split_fedBackText h hpiece
  · -- the other options have other keys
    rw [lower_pairText] at hread
    have hkey : pair.1 = .log := (congrArg Prod.fst (readPair_pairText hread)).symm
    revert hkey
    simp only [printedPairs, List.mem_cons, List.not_mem_nil, or_false] at hpair
    obtain rfl | rfl | rfl | rfl | rfl := hpair <;> simp
  · rw [hoption] at hpiece
    obtain ⟨hnewline, hcomma, rfl⟩ := eq_of_mem_splitLoop_logPairs hpiece (by
      rw [length_pairText_log]
      omega)
    have hwhole : readPair (pairText (.log, o.logFile)) = some (.log, strip o.logFile) := by
      rw [hstored.strip, ← hread, lower_pairText, hstored.lower]
    have hsize := readPair_pairText_iff.mp hwhole
    rw [length_pairText_log, hname] at hsize
    exact ⟨hnewline, hcomma, by omega⟩

/-- The printed options of a state that was set by the parser can be fed back into every state, if
and only if the log is neither disabled nor a file whose name is cut or overlooked. -/
theorem fedBack_iff {calls : List Str} (hrun : exec setOptions {} calls = some o) :
    (∀ other, FedBack o other) ↔ LogReadable o :=
  ⟨fun hback => logReadable_of_fedBack (exec_printable hrun) (hback {}),
    fun hlog _ => fedBack_of_logReadable (exec_printable hrun) hlog⟩

theorem fedBack_iff_sample :
    FedBack { haltOnError := true, logType := .toFile, logFile := "a:b.txt".toList }
      { logType := .disabled } := by
  have hrun : exec setOptions {} ["halt_on_error:1,log:a:b.txt".toList] =
      some { haltOnError := true, logType := .toFile, logFile := "a:b.txt".toList } := by
    decide +kernel
  exact (fedBack_iff hrun).mpr ⟨by decide, fun _ => by decide⟩ _

/-- A disabled log is printed as `disabled`, which is read as the name of a file. -/
theorem disabled_not_fedBack :
    exec setOptions {} ["log:disable".toList] = some { logType := .disabled } ∧
      ¬ FedBack { logType := .disabled } {} := by
  have hrun : exec setOptions {} ["log:disable".toList] = some { logType := .disabled } := by
    decide +kernel
  exact ⟨hrun, not_fedBack_disabled (exec_printable hrun) rfl⟩

end OptionsParser
end CppGuard
