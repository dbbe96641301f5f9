import CppGuard.OptionsParser.Pairs

/-!
# Exceptions of the parser

`cppguard_set_options` catches `std::invalid_argument`. A number that does not fit an `int` makes
`std::stoi` throw something else.
-/
namespace CppGuard
open Pystring

namespace OptionsParser

variable {o o' : RuntimeOptionsT} {bytes : Option Str} {s : Str} {e : Exception}

theorem cString_of_not_mem (h : '\x00' ∉ s) : cString s = s :=
  List.takeWhile_eq_self_iff.mpr fun _ hc => decide_eq_true fun heq => h (heq ▸ hc)

theorem parseOptions_empty (h : ∀ s ∈ bytes, cString s = []) :
    parseOptions o bytes = (o, some (.invalidArgument "p_options is null or empty".toList)) := by
  unfold parseOptions
  cases bytes with
  | none => rfl
  | some s => simp [h s rfl]

theorem parseOptions_some (h : cString s ≠ []) :
    parseOptions o (some s) = parsePairs o (split (lower (cString s)) ',') := by
  unfold parseOptions
  rw [Option.map_some]
  split
  · contradiction
  · simp_all
  · rename_i options _ hoptions
    obtain rfl := Option.some.inj hoptions
    exact if_neg split_ne_nil

/-- An empty string has one piece, which is no pair. -/
theorem readPair_nil : readPair [] = none := by decide

/-- A number that does not fit an `int`, with only accepted pairs before it. -/
def ReachesOverflow (bytes : Option Str) : Prop :=
  ∃ s ∈ bytes, ∃ before piece after pairs,
    split (lower (cString s)) ',' = before ++ piece :: after ∧
      List.Forall₂ Accepted before pairs ∧ Overflowing piece

theorem parsePairs_outOfRange_iff {pieces : List Str} :
    (parsePairs o pieces).2 = some .outOfRange ↔ ∃ before piece after pairs,
      pieces = before ++ piece :: after ∧ List.Forall₂ Accepted before pairs ∧
        Overflowing piece := by
  constructor
  · intro h
    obtain ⟨pairs, haccepted⟩ |
        ⟨before, piece, after, pairs, e, hpieces, hbefore, herror, hresult⟩ :=
      parsePairs_cases o pieces
    · simp [parsePairs_of_accepted haccepted] at h
    · obtain rfl : e = .outOfRange := by simpa [hresult] using h
      exact ⟨before, piece, after, pairs, hpieces, hbefore, parsePair_outOfRange_iff.mp herror⟩
  · rintro ⟨before, piece, after, pairs, rfl, hbefore, hoverflow⟩
    rw [parsePairs_append hbefore]
    simp only [parsePairs, parsePair_outOfRange_iff.mpr hoverflow]

theorem parseOptions_outOfRange_iff :
    (parseOptions o bytes).2 = some .outOfRange ↔ ReachesOverflow bytes := by
  by_cases hempty : ∀ s ∈ bytes, cString s = []
  · rw [parseOptions_empty hempty]
    refine ⟨nofun, ?_⟩
    rintro ⟨s, hs, before, piece, after, pairs, hpieces, hbefore, k, value, hread, -⟩
    rw [hempty s hs] at hpieces
    have hone : [[]] = before ++ piece :: after := hpieces
    obtain ⟨rfl, rfl, rfl⟩ : before = [] ∧ piece = [] ∧ after = [] := by
      cases before <;> simp_all
    cases readPair_nil.symm.trans hread
  · push Not at hempty
    obtain ⟨s, rfl, hne⟩ := hempty
    rw [parseOptions_some hne, parsePairs_outOfRange_iff]
    simp [ReachesOverflow]

theorem mem_formatError {size : Nat} (what : Str) (h : 50 ≤ size) :
    '\x00' ∈ formatError size what := by
  have hroom : 0 < size -
      (("Invalid argument: '".toList ++ what ++ "'".toList).take (size - 1)).length := by
    simp only [List.length_take]
    omega
  exact List.mem_append_right _ (List.mem_replicate.mpr ⟨hroom.ne', rfl⟩)

/-- `cppguard_set_options` returns, and a text that it returns is terminated. -/
def Returns (result : RuntimeOptionsT × Except Exception (Nat × Option Str)) : Prop :=
  (∃ text, result.2 = .ok (1, text)) ∨ ∃ text, result.2 = .ok (0, some text) ∧ '\x00' ∈ text

/-- The parser completes or throws `std::invalid_argument`. -/
def Completes (result : RuntimeOptionsT × Option Exception) : Prop :=
  result.2 = none ∨ ∃ what, result.2 = some (.invalidArgument what)

theorem completes_iff : Completes (parseOptions o bytes) ↔ ¬ ReachesOverflow bytes := by
  rw [← parseOptions_outOfRange_iff (o := o), Completes]
  obtain ⟨_, _ | _ | _⟩ := parseOptions o bytes <;> simp

theorem returns_iff {buffer : Str} (hsize : 50 ≤ buffer.length) :
    Returns (cppguardSetOptions o bytes (some buffer)) ↔ Completes (parseOptions o bytes) := by
  have hmem (what : Str) := mem_formatError what hsize
  simp only [cppguardSetOptions, if_neg (Nat.not_lt.mpr hsize), Returns, Completes]
  obtain ⟨_, _ | what | _⟩ := parseOptions o bytes <;> simp [hmem]

/-- The parser throws nothing but `std::invalid_argument`, and `cppguard_set_options` returns, if
and only if no number that does not fit an `int` is reached. -/
theorem returns_iff_no_overflow (o : RuntimeOptionsT) (bytes : Option Str) :
    (Completes (parseOptions o bytes) ↔ ¬ ReachesOverflow bytes) ∧
      ∀ buffer : Str, 50 ≤ buffer.length →
        (Returns (cppguardSetOptions o bytes (some buffer)) ↔ ¬ ReachesOverflow bytes) :=
  ⟨completes_iff, fun _ hsize => (returns_iff hsize).trans completes_iff⟩

theorem returns_iff_no_overflow_sample :
    Returns (cppguardSetOptions {} (some "exit_code:7,log".toList)
      (some (List.replicate 50 'x'))) := by
  have hspec := returns_iff_no_overflow {} (some "exit_code:7,log".toList)
  have hinvalid : (parseOptions {} (some "exit_code:7,log".toList)).2 =
      some (.invalidArgument "No valid key-value pair: 'log'".toList) := by decide +kernel
  exact (hspec.2 _ (by decide)).mpr (hspec.1.mp (.inr ⟨_, hinvalid⟩))

/-- An exit code that does not fit an `int`. -/
theorem exitCode_overflow_not_returns :
    ¬ Completes (parseOptions {} (some "exit_code:99999999999".toList)) ∧
      ¬ Returns (cppguardSetOptions {} (some "exit_code:99999999999".toList)
        (some (List.replicate 50 'x'))) := by
  have hthrown : (parseOptions {} (some "exit_code:99999999999".toList)).2 = some .outOfRange := by
    decide +kernel
  have hnot : ¬ Completes (parseOptions {} (some "exit_code:99999999999".toList)) := by
    unfold Completes
    rw [hthrown]
    simp
  exact ⟨hnot, fun h => hnot ((returns_iff (by simp)).mp h)⟩

end OptionsParser
end CppGuard
