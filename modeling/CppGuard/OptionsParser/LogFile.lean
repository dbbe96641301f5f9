import CppGuard.OptionsParser.Stored

/-!
# The name of the log file

The whole option string is put in lower case before it is split, and with it the name of the log
file.
-/
namespace CppGuard
open Pystring Separated

namespace OptionsParser

variable {o : RuntimeOptionsT} {s p value : Str} {pairs : List (Key × Str)}
  {before after : List Str}

theorem logTypeOf_eq_toFile : logTypeOf value = .toFile ↔ isPath value = true := by
  unfold logTypeOf isPath
  split_ifs <;> simp_all

/-- The last pair with the key `log` decides about the log. -/
theorem log_storePairs (o : RuntimeOptionsT) (pairs : List (Key × Str)) (value : Str)
    {after : List (Key × Str)} (hafter : ∀ pair ∈ after, pair.1 ≠ .log) :
    (storePairs (pairs ++ (.log, value) :: after) o).logType = logTypeOf value ∧
      (isPath value = true → (storePairs (pairs ++ (.log, value) :: after) o).logFile = value) := by
  have hstore : storePairs (pairs ++ (.log, value) :: after) o =
      storePairs after (Key.log.store value (storePairs pairs o)) := by simp [storePairs]
  have hsame := sameMember_storePairs (o := Key.log.store value (storePairs pairs o)) hafter
  rw [hstore, hsame.1, hsame.2, logType_store_log, logFile_store_log]
  exact ⟨rfl, fun hpath => if_pos hpath⟩

theorem exists_of_lastValue {k : Key} (h : lastValue k pairs = some value) :
    ∃ first rest, pairs = first ++ (k, value) :: rest ∧ ∀ pair ∈ rest, pair.1 ≠ k := by
  unfold lastValue at h
  induction pairs using List.reverseRecOn with
  | nil => cases h
  | append_singleton pairs pair ih =>
    obtain ⟨l, w⟩ := pair
    by_cases hl : l = k
    · subst hl
      obtain rfl : w = value := by simpa using h
      exact ⟨pairs, [], rfl, by simp⟩
    · obtain ⟨first, rest, rfl, hrest⟩ := ih (by simpa [hl] using h)
      refine ⟨first, rest ++ [(l, w)], by simp, fun pair hpair => ?_⟩
      obtain hpair | hpair := List.mem_append.mp hpair
      · exact hrest pair hpair
      · obtain rfl := List.mem_singleton.mp hpair
        exact hl

/-- What is stored for a list with `log:p` as its last pair for the log. -/
theorem log_of_last (hok : (parseOptions o (some s)).2 = none)
    (hsplit : split (cString s) ',' = before ++ ("log:".toList ++ p) :: after)
    (hlast : ∀ piece ∈ after, ∀ value, readPair (lower piece) ≠ some (.log, value)) :
    (parseOptions o (some s)).1.logType = logTypeOf (lower (strip p)) ∧
      (isPath (lower (strip p)) = true →
        (parseOptions o (some s)).1.logFile = lower (strip p)) := by
  have hne : cString s ≠ [] := by
    intro hnil
    rw [parseOptions_empty (by simpa using hnil)] at hok
    cases hok
  rw [parseOptions_some hne] at hok ⊢
  obtain ⟨pairs, hpairs⟩ := parsePairs_none_iff.mp hok
  rw [parsePairs_of_accepted hpairs]
  have hlog : lower ("log:".toList ++ p) = pairText (.log, lower p) :=
    (lower_pairText : lower (pairText (.log, p)) = _)
  rw [split_lower (by decide), hsplit, List.map_append, List.map_cons, hlog] at hpairs
  obtain ⟨first, pair, rest, rfl, -, hpair, hrest⟩ := exists_forall₂_append_cons hpairs
  obtain rfl := readPair_pairText hpair.1
  rw [← strip_lower]
  refine log_storePairs _ _ _ fun pair hmem hlog => ?_
  obtain ⟨piece, hpiece, hread, -⟩ := exists_of_mem_forall₂ hrest hmem
  obtain ⟨piece, hafter, rfl⟩ := List.mem_map.mp hpiece
  obtain ⟨k, value⟩ := pair
  obtain rfl : k = .log := hlog
  exact hlast piece hafter value hread

/-- The path of the last pair for the log is taken as written if and only if it has no letters in
upper case, and `strip` leaves it alone; it does so up to 2^32 bytes. -/
theorem log_as_written_iff (hok : (parseOptions o (some s)).2 = none)
    (hsplit : split (cString s) ',' = before ++ ("log:".toList ++ p) :: after)
    (hlast : ∀ piece ∈ after, ∀ value, readPair (lower piece) ≠ some (.log, value))
    (hends : trim isspace p = p) (hpath : isPath (lower p) = true) :
    ((parseOptions o (some s)).1.logType = .toFile ∧ (parseOptions o (some s)).1.logFile = p ↔
        (∀ c ∈ p, ¬ c.isUpper = true) ∧ strip p = p) ∧
      (p.length < 2 ^ 32 → strip p = p) := by
  obtain ⟨htype, hfile⟩ := log_of_last hok hsplit hlast
  refine ⟨?_, strip_of_trim hends⟩
  rw [htype, logTypeOf_eq_toFile, ← lower_eq_self]
  constructor
  · rintro ⟨hvalue, hstored⟩
    have hlower : lower (strip p) = p := (hfile hvalue).symm.trans hstored
    have hstrip : strip p = p :=
      (strip_isInfix p).eq_of_length (by simpa using congrArg List.length hlower)
    rw [hstrip] at hlower
    exact ⟨hlower, hstrip⟩
  · rintro ⟨hlower, hstrip⟩
    rw [hstrip] at hfile ⊢
    exact ⟨hpath, (hfile hpath).trans hlower⟩

theorem log_as_written_iff_sample :
    (parseOptions {} (some "log:c:/my logs/a.txt,exit_code:1".toList)).1.logFile =
      "c:/my logs/a.txt".toList := by
  have hsplit : split (cString "log:c:/my logs/a.txt,exit_code:1".toList) ',' =
      [] ++ ("log:".toList ++ "c:/my logs/a.txt".toList) :: ["exit_code:1".toList] := by
    decide +kernel
  have hspec := log_as_written_iff (o := {}) (by decide +kernel) hsplit ?_ (by decide) (by decide)
  · exact (hspec.1.mpr ⟨lower_eq_self.mp (by decide), by decide⟩).2
  · intro piece hpiece value
    obtain rfl := List.mem_singleton.mp hpiece
    have hread : readPair (lower "exit_code:1".toList) = some (.exitCode, ['1']) := by
      decide +kernel
    rw [hread]
    nofun

/-- A path with a letter in upper case. -/
theorem upperCase_not_as_written :
    (parseOptions {} (some "log:/tmp/Foo.log".toList)).2 = none ∧
      ¬ ((parseOptions {} (some "log:/tmp/Foo.log".toList)).1.logType = .toFile ∧
        (parseOptions {} (some "log:/tmp/Foo.log".toList)).1.logFile = "/tmp/Foo.log".toList) := by
  decide +kernel

end OptionsParser
end CppGuard
