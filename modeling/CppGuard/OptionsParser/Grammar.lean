import CppGuard.OptionsParser.Stored

/-!
# The option grammar

A piece between commas denotes a key and a value: its text before and after the first colon, in
lower case and trimmed. The parser accepts the strings whose pieces all denote pairs with accepted
values, and the last pair of a key wins.
-/
namespace CppGuard
open Pystring Separated

namespace OptionsParser

/-- The piece is written as a pair of the key and the value, which is accepted. -/
def Denotes (piece : Str) (pair : Key × Str) : Prop :=
  ∃ before after, piece = before ++ ':' :: after ∧ ':' ∉ before ∧
    trim isspace (lower before) = pair.1.name ∧ trim isspace (lower after) = pair.2 ∧
    pair.1.Accepts pair.2

/-- The piece has the key, whatever its value. -/
def HasKey (piece : Str) (k : Key) : Prop :=
  trim isspace (lower (piece.takeWhile (· ≠ ':'))) = k.name

instance (piece : Str) (k : Key) : Decidable (HasKey piece k) :=
  inferInstanceAs (Decidable (_ = _))

/-- Every member has the value of the last pair with its key. -/
structure LastWins (pairs : List (Key × Str)) (o o' : RuntimeOptionsT) : Prop where
  logType : o'.logType = ((lastValue .log pairs).map logTypeOf).getD o.logType
  useOutputdebugstring : o'.useOutputdebugstring =
    ((lastValue .outputdebugstring pairs).map fun v => decide (v = ['1'])).getD
      o.useOutputdebugstring
  haltOnError : o'.haltOnError =
    ((lastValue .haltOnError pairs).map fun v => decide (v = ['1'])).getD o.haltOnError
  overrideProcessExitCodeOnError : o'.overrideProcessExitCodeOnError =
    ((lastValue .failProcessInCaseOfError pairs).map fun v => decide (v = ['1'])).getD
      o.overrideProcessExitCodeOnError
  threadWatchdogEnabled : o'.threadWatchdogEnabled =
    ((lastValue .threadWatchdog pairs).map fun v => decide (v = ['1'])).getD
      o.threadWatchdogEnabled
  threadWatchdogMaxDurationSec : o'.threadWatchdogMaxDurationSec =
    ((lastValue .threadWatchdogMaxDurationSec pairs).map Key.number).getD
      o.threadWatchdogMaxDurationSec
  exitCode : o'.exitCode =
    ((lastValue .exitCode pairs).map fun v => (Key.number v : Int)).getD o.exitCode

variable {o o' : RuntimeOptionsT} {s piece : Str} {pair : Key × Str}
  {pairs pairs' : List (Key × Str)}

theorem lastWins (pairs : List (Key × Str)) (o : RuntimeOptionsT) :
    LastWins pairs o (storePairs pairs o) where
  logType := storePairs_lastValue (f := (·.logType)) (fun _ _ h => h.1)
    fun _ _ => logType_store_log
  useOutputdebugstring := storePairs_lastValue (f := (·.useOutputdebugstring))
    (k := .outputdebugstring) (fun _ _ h => h) fun _ _ => rfl
  haltOnError := storePairs_lastValue (f := (·.haltOnError)) (k := .haltOnError)
    (fun _ _ h => h) fun _ _ => rfl
  overrideProcessExitCodeOnError := storePairs_lastValue (f := (·.overrideProcessExitCodeOnError))
    (k := .failProcessInCaseOfError) (fun _ _ h => h) fun _ _ => rfl
  threadWatchdogEnabled := storePairs_lastValue (f := (·.threadWatchdogEnabled))
    (k := .threadWatchdog) (fun _ _ h => h) fun _ _ => rfl
  threadWatchdogMaxDurationSec := storePairs_lastValue (f := (·.threadWatchdogMaxDurationSec))
    (k := .threadWatchdogMaxDurationSec) (fun _ _ h => h) fun _ _ => rfl
  exitCode := storePairs_lastValue (f := (·.exitCode)) (k := .exitCode)
    (fun _ _ h => h) fun _ _ => rfl

/-- What the parser reads from a piece with a colon. -/
theorem readPair_lower {before after : Str} (hbefore : ':' ∉ before)
    (hlen : (before ++ ':' :: after).length < 2 ^ 31) :
    readPair (lower (before ++ ':' :: after)) = some pair ↔
      trim isspace (lower before) = pair.1.name ∧ trim isspace (lower after) = pair.2 := by
  have hlower : lower (before ++ ':' :: after) = lower before ++ ':' :: lower after := by
    simp [lower_eq_map, (toLower_eq_iff (c := ':') (d := ':') (by decide)).mpr rfl]
  have hsplit : (lower before ++ ':' :: lower after).length < 2 ^ 31 := by
    rwa [← hlower, length_lower]
  have hpartition : partition (lower before ++ ':' :: lower after) ':' =
      (lower before, [':'], lower after) :=
    partition_of_lt ((mem_lower (by decide)).not.mpr hbefore) hsplit
  simp only [List.length_append, List.length_cons] at hsplit
  obtain ⟨k, value⟩ := pair
  rw [hlower, readPair_eq_some, hpartition]
  dsimp only
  rw [strip_of_lt (by omega), strip_of_lt (by omega)]
  simp

/-- The parser accepts a piece if and only if it is written as a pair that is accepted. -/
theorem accepted_lower_iff (hlen : piece.length < 2 ^ 31) :
    Accepted (lower piece) pair ↔ Denotes piece pair := by
  constructor
  · rintro ⟨hread, haccepts⟩
    by_cases hcolon : ':' ∈ piece
    · obtain ⟨before, after, rfl, hbefore⟩ := List.eq_append_cons_of_mem hcolon
      obtain ⟨hkey, hvalue⟩ := (readPair_lower hbefore hlen).mp hread
      exact ⟨before, after, rfl, hbefore, hkey, hvalue, haccepts⟩
    · have hnone : ':' ∉ lower piece := (mem_lower (by decide)).not.mpr hcolon
      have hsep := (readPair_eq_some.mp hread).1
      rw [partition_of_not_mem hnone] at hsep
      cases hsep
  · rintro ⟨before, after, rfl, hbefore, hkey, hvalue, haccepts⟩
    exact ⟨(readPair_lower hbefore hlen).mpr ⟨hkey, hvalue⟩, haccepts⟩

/-- What comes before and after the first colon. -/
theorem takeWhile_colon {before after : Str} (hbefore : ':' ∉ before) :
    (before ++ ':' :: after).takeWhile (· ≠ ':') = before := by
  rw [List.takeWhile_append_of_pos (by grind)]
  simp

theorem Denotes.hasKey_iff (h : Denotes piece pair) (k : Key) : HasKey piece k ↔ pair.1 = k := by
  obtain ⟨before, after, rfl, hbefore, hkey, -⟩ := h
  rw [HasKey, takeWhile_colon hbefore, hkey]
  exact Key.name_injective.eq_iff

theorem denotes_unique : Relator.RightUnique Denotes := by
  rintro _ ⟨k, value⟩ ⟨k', value'⟩ ⟨before, after, rfl, hbefore, hkey, hvalue, -⟩
    ⟨before', after', hpiece, hbefore', hkey', hvalue', -⟩
  have htake := congrArg (List.takeWhile (· ≠ ':')) hpiece
  rw [takeWhile_colon hbefore, takeWhile_colon hbefore'] at htake
  subst htake
  obtain rfl : after = after' := by simpa using hpiece
  rw [Prod.mk.injEq]
  exact ⟨Key.name_injective (hkey.symm.trans hkey'), hvalue.symm.trans hvalue'⟩

theorem forall₂_accepted_iff (hlen : s.length < 2 ^ 31) :
    List.Forall₂ Accepted (split (lower s) ',') pairs ↔
      List.Forall₂ Denotes (s.splitOn ',') pairs := by
  have hpiece (piece : Str) (h : piece ∈ s.splitOn ',') : piece.length < 2 ^ 31 :=
    (infix_of_mem_splitOn h).length_le.trans_lt hlen
  rw [split_lower (by decide), split_of_lt hlen, List.forall₂_map_left_iff]
  constructor <;> intro h
  · exact (List.forall₂_and_left _ _ |>.mpr ⟨hpiece, h⟩).imp fun _ _ hboth =>
      (accepted_lower_iff hboth.1).mp hboth.2
  · exact (List.forall₂_and_left _ _ |>.mpr ⟨hpiece, h⟩).imp fun _ _ hboth =>
      (accepted_lower_iff hboth.1).mpr hboth.2

theorem parseOptions_of_denotes (hnul : '\x00' ∉ s) (hlen : s.length < 2 ^ 31) (hne : s ≠ [])
    (h : List.Forall₂ Denotes (s.splitOn ',') pairs) :
    parseOptions o (some s) = (storePairs pairs o, none) := by
  have hstring := cString_of_not_mem hnul
  rw [parseOptions_some (by rwa [hstring]), hstring]
  exact parsePairs_of_accepted ((forall₂_accepted_iff hlen).mpr h)

theorem parseOptions_none_iff (hnul : '\x00' ∉ s) (hlen : s.length < 2 ^ 31) :
    (parseOptions o (some s)).2 = none ↔
      s ≠ [] ∧ ∃ pairs, List.Forall₂ Denotes (s.splitOn ',') pairs := by
  have hstring := cString_of_not_mem hnul
  by_cases hne : s = []
  · subst hne
    exact ⟨nofun, fun h => absurd rfl h.1⟩
  · rw [parseOptions_some (by rwa [hstring]), hstring, parsePairs_none_iff]
    simp only [forall₂_accepted_iff hlen, ne_eq, hne, not_false_eq_true, true_and]

/-- Reordering the pieces, the pieces of each key in their order. -/
theorem parseOptions_perm {pieces : List Str} (hnul : '\x00' ∉ s) (hlen : s.length < 2 ^ 31)
    (hne : s ≠ []) (h : List.Forall₂ Denotes (s.splitOn ',') pairs)
    (hperm : pieces.Perm (s.splitOn ','))
    (horder : ∀ k : Key, pieces.filter (HasKey · k) = (s.splitOn ',').filter (HasKey · k)) :
    parseOptions o (some ([','].intercalate pieces)) = parseOptions o (some s) := by
  have hpieces : pieces ≠ [] := by
    rintro rfl
    simp at hperm
  have hmem {piece : Str} (hpiece : piece ∈ pieces) : piece ∈ s.splitOn ',' :=
    hperm.mem_iff.mp hpiece
  have hsplit : ([','].intercalate pieces).splitOn ',' = pieces :=
    List.splitOn_intercalate ',' (fun piece hpiece => not_mem_of_mem_splitOn (hmem hpiece)) hpieces
  have hlength : ([','].intercalate pieces).length = s.length := by
    rw [length_intercalate_perm hperm, List.intercalate_splitOn]
  have hnul' : '\x00' ∉ [','].intercalate pieces := by
    intro hin
    obtain hcomma | ⟨piece, hpiece, hc⟩ := mem_intercalate hin
    · cases hcomma
    · exact hnul ((infix_of_mem_splitOn (hmem hpiece)).subset hc)
  obtain ⟨pairs', h'⟩ : ∃ pairs', List.Forall₂ Denotes pieces pairs' :=
    exists_forall₂_iff.mpr fun piece hpiece => exists_forall₂_iff.mp ⟨pairs, h⟩ _ (hmem hpiece)
  have hfilter (k : Key) : pairs'.filter (·.1 = k) = pairs.filter (·.1 = k) := by
    have hkey {piece : Str} {pair : Key × Str} (hd : Denotes piece pair) :
        (decide (HasKey piece k) = true) ↔ decide (pair.1 = k) = true := by
      simpa using hd.hasKey_iff k
    have hnew := List.rel_filter (fun _ _ hd => hkey hd) h'
    have hold := List.rel_filter (fun _ _ hd => hkey hd) h
    rw [horder k] at hnew
    exact List.right_unique_forall₂' denotes_unique hnew hold
  rw [parseOptions_of_denotes hnul hlen hne h,
    parseOptions_of_denotes hnul' (hlength ▸ hlen) (fun hnil => hne ?_) (hsplit.symm ▸ h'),
    storePairs_congr hfilter]
  simpa [hnil, eq_comm] using hlength

/-- The parser accepts exactly the grammar, the last pair of a key wins, what has no pair is
unchanged, and pairs with different keys may be permuted. -/
theorem parse_iff_grammar (o : RuntimeOptionsT) (hnul : '\x00' ∉ s) (hlen : s.length < 2 ^ 31) :
    ((parseOptions o (some s)).2 = none ↔
        s ≠ [] ∧ ∀ piece ∈ s.splitOn ',', ∃ pair, Denotes piece pair) ∧
      ∀ pairs, s ≠ [] → List.Forall₂ Denotes (s.splitOn ',') pairs →
        LastWins pairs o (parseOptions o (some s)).1 ∧
        (∀ k : Key, (∀ pair ∈ pairs, pair.1 ≠ k) →
          k.SameMember o (parseOptions o (some s)).1) ∧
        ∀ pieces : List Str, pieces.Perm (s.splitOn ',') →
          (∀ k : Key, pieces.filter (HasKey · k) = (s.splitOn ',').filter (HasKey · k)) →
          parseOptions o (some ([','].intercalate pieces)) = parseOptions o (some s) := by
  refine ⟨by rw [parseOptions_none_iff hnul hlen, exists_forall₂_iff], fun pairs hne h => ?_⟩
  have hresult : (parseOptions o (some s)).1 = storePairs pairs o := by
    rw [parseOptions_of_denotes hnul hlen hne h]
  rw [hresult]
  exact ⟨lastWins pairs o, fun k => sameMember_storePairs,
    fun pieces hperm horder => parseOptions_perm hnul hlen hne h hperm horder⟩

theorem parse_iff_grammar_sample :
    (parseOptions {} (some "Exit_code: 007,exit_code:42".toList)).1.exitCode = 42 := by
  have hpieces : "Exit_code: 007,exit_code:42".toList.splitOn ',' =
      ["Exit_code: 007".toList, "exit_code:42".toList] := by decide
  have hfirst : Denotes "Exit_code: 007".toList (.exitCode, "007".toList) :=
    ⟨"Exit_code".toList, " 007".toList, by decide, by decide, by decide, by decide, by decide⟩
  have hlast : Denotes "exit_code:42".toList (.exitCode, "42".toList) :=
    ⟨"exit_code".toList, "42".toList, by decide, by decide, by decide, by decide, by decide⟩
  have hdenotes : List.Forall₂ Denotes ("Exit_code: 007,exit_code:42".toList.splitOn ',')
      [(.exitCode, "007".toList), (.exitCode, "42".toList)] :=
    hpieces ▸ .cons hfirst (.cons hlast .nil)
  have hspec := (parse_iff_grammar {} (by decide) (by decide)).2 _ (by decide) hdenotes
  exact hspec.1.exitCode

end OptionsParser
end CppGuard
