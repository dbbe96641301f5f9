import CppGuard.OptionsParser.Exceptions

/-!
# What is stored

A member has the value of the last pair that writes to it. An exception ends the loop, and the pairs
before it stay stored.
-/
namespace CppGuard
open Pystring

namespace OptionsParser

/-- The value of the last pair with a key. -/
def lastValue (k : Key) (pairs : List (Key × Str)) : Option Str :=
  (pairs.filter (·.1 = k)).getLast?.map Prod.snd

/-- A value of `log` that is no keyword. -/
def isPath (value : Str) : Bool :=
  value ≠ "disable".toList && value ≠ "stdout".toList && value ≠ "stderr".toList

def logTypeOf (value : Str) : LogType :=
  if value = "disable".toList then .disabled
  else if value = "stdout".toList then .toStdout
  else if value = "stderr".toList then .toStderr
  else .toFile

/-- The members that a key writes to. -/
def Key.SameMember (o o' : RuntimeOptionsT) : Key → Prop
  | log => o'.logType = o.logType ∧ o'.logFile = o.logFile
  | outputdebugstring => o'.useOutputdebugstring = o.useOutputdebugstring
  | haltOnError => o'.haltOnError = o.haltOnError
  | failProcessInCaseOfError => o'.overrideProcessExitCodeOnError = o.overrideProcessExitCodeOnError
  | threadWatchdog => o'.threadWatchdogEnabled = o.threadWatchdogEnabled
  | threadWatchdogMaxDurationSec => o'.threadWatchdogMaxDurationSec = o.threadWatchdogMaxDurationSec
  | exitCode => o'.exitCode = o.exitCode

section Fields

variable {o : RuntimeOptionsT} {k : Key} {value : Str} {pairs : List (Key × Str)}

theorem logType_store_log : (Key.log.store value o).logType = logTypeOf value := by
  unfold Key.store logTypeOf
  dsimp only
  split_ifs <;> rfl

theorem logFile_store_log :
    (Key.log.store value o).logFile = if isPath value then value else o.logFile := by
  unfold Key.store isPath
  dsimp only
  split_ifs <;> simp_all

/-- A key writes to its own members only. -/
theorem Key.sameMember_store {l : Key} (hne : l ≠ k) : k.SameMember o (l.store value o) := by
  cases k <;> cases l <;> first
    | exact absurd rfl hne
    | rfl
    | exact ⟨rfl, rfl⟩
    | (unfold SameMember store; dsimp only; split_ifs <;> rfl)

theorem Key.sameMember_refl (k : Key) (o : RuntimeOptionsT) : k.SameMember o o := by
  cases k <;> simp [SameMember]

theorem Key.SameMember.trans {o₁ o₂ o₃ : RuntimeOptionsT} (h : k.SameMember o₁ o₂)
    (h' : k.SameMember o₂ o₃) : k.SameMember o₁ o₃ := by
  cases k <;> simp_all [SameMember]

/-- Members whose keys do not occur keep their values. -/
theorem sameMember_storePairs (h : ∀ pair ∈ pairs, pair.1 ≠ k) :
    k.SameMember o (storePairs pairs o) := by
  induction pairs generalizing o with
  | nil => exact k.sameMember_refl o
  | cons pair pairs ih =>
    refine (Key.sameMember_store (h pair (by simp))).trans (ih fun pair hpair => ?_)
    exact h pair (List.mem_cons_of_mem _ hpair)

theorem storePairs_concat {pair : Key × Str} :
    storePairs (pairs ++ [pair]) o = pair.1.store pair.2 (storePairs pairs o) := by
  simp [storePairs]

/-- A member of one key has the value of the last pair with this key. -/
theorem storePairs_lastValue {β : Type} {f : RuntimeOptionsT → β} {g : Str → β}
    (hsame : ∀ o o', k.SameMember o o' → f o' = f o)
    (hset : ∀ value o, f (k.store value o) = g value) :
    f (storePairs pairs o) = ((lastValue k pairs).map g).getD (f o) := by
  unfold lastValue
  induction pairs using List.reverseRecOn with
  | nil => rfl
  | append_singleton pairs pair ih =>
    obtain ⟨l, value⟩ := pair
    rw [storePairs_concat, List.filter_append]
    by_cases hl : l = k
    · subst hl
      simp [hset]
    · have hstore : f (l.store value (storePairs pairs o)) = f (storePairs pairs o) :=
        hsame _ _ (Key.sameMember_store hl)
      simp [hl, hstore, ih]

theorem Key.SameMember.store {o' : RuntimeOptionsT} (h : k.SameMember o o') (value : Str) :
    k.SameMember (k.store value o) (k.store value o') := by
  cases k with
  | log =>
    unfold SameMember at h ⊢
    simp only [logType_store_log, logFile_store_log, h.2, and_self]
  | _ => rfl

/-- The members of a key depend on the pairs with this key only. -/
theorem sameMember_filter {o' : RuntimeOptionsT} (h : k.SameMember o o') :
    k.SameMember (storePairs (pairs.filter (·.1 = k)) o) (storePairs pairs o') := by
  induction pairs generalizing o o' with
  | nil => exact h
  | cons pair pairs ih =>
    obtain ⟨l, value⟩ := pair
    by_cases hl : l = k
    · subst hl
      simpa [storePairs] using ih (h.store value)
    · have hstore : k.SameMember o (l.store value o') := h.trans (Key.sameMember_store hl)
      simpa [storePairs, hl] using ih hstore

theorem Key.SameMember.symm {o' : RuntimeOptionsT} (h : k.SameMember o o') :
    k.SameMember o' o := by
  cases k <;> simp_all [SameMember]

theorem eq_of_sameMember {o' : RuntimeOptionsT} (h : ∀ k : Key, k.SameMember o o') : o' = o := by
  obtain ⟨⟨_, _, _, _⟩, _, _, _, _⟩ := o
  obtain ⟨⟨_, _, _, _⟩, _, _, _, _⟩ := o'
  have hlog := h .log
  have houtput := h .outputdebugstring
  have hhalt := h .haltOnError
  have hfail := h .failProcessInCaseOfError
  have hwatchdog := h .threadWatchdog
  have hmax := h .threadWatchdogMaxDurationSec
  have hexit := h .exitCode
  simp_all [Key.SameMember]

/-- Only the order of pairs with the same key matters. -/
theorem storePairs_congr {pairs' : List (Key × Str)}
    (h : ∀ k : Key, pairs'.filter (·.1 = k) = pairs.filter (·.1 = k)) :
    storePairs pairs' o = storePairs pairs o := by
  refine eq_of_sameMember fun k => ?_
  have hfilter : ∀ pairs, k.SameMember (storePairs (pairs.filter (·.1 = k)) o)
      (storePairs pairs o) := fun pairs => sameMember_filter (k.sameMember_refl o)
  exact (hfilter pairs).symm.trans (h k ▸ hfilter pairs')

end Fields

variable {o o' : RuntimeOptionsT} {bytes : Option Str} {e : Exception}

/-- When the parser throws, exactly the pairs before the one that it throws for are stored, which is
nothing for a string that is null or empty; members whose keys are not among them keep their
values. `cppguard_set_options` leaves the same options behind. -/
theorem stored_of_exception (h : parseOptions o bytes = (o', some e)) :
    ∃ before pairs, List.Forall₂ Accepted before pairs ∧
      ((∀ s ∈ bytes, cString s = []) ∧ before = [] ∨
        ∃ s ∈ bytes, ∃ piece after, split (lower (cString s)) ',' = before ++ piece :: after ∧
          ¬ ∃ pair, Accepted piece pair) ∧
      o' = storePairs pairs o ∧
      (∀ k : Key, (∀ pair ∈ pairs, pair.1 ≠ k) → k.SameMember o o') ∧
      ∀ buffer : Str, 50 ≤ buffer.length →
        (cppguardSetOptions o bytes (some buffer)).1 = storePairs pairs o := by
  have hset (pairs) (ho' : o' = storePairs pairs o) (buffer : Str) (hsize : 50 ≤ buffer.length) :
      (cppguardSetOptions o bytes (some buffer)).1 = storePairs pairs o := by
    simp only [cppguardSetOptions, if_neg (Nat.not_lt.mpr hsize), h]
    cases e <;> exact ho'
  by_cases hempty : ∀ s ∈ bytes, cString s = []
  · rw [parseOptions_empty hempty] at h
    obtain ⟨rfl, -⟩ := Prod.mk.inj h
    exact ⟨[], [], .nil, .inl ⟨hempty, rfl⟩, rfl, fun k _ => k.sameMember_refl _, hset [] rfl⟩
  · push Not at hempty
    obtain ⟨s, rfl, hne⟩ := hempty
    rw [parseOptions_some hne] at h
    obtain ⟨pairs, haccepted⟩ |
        ⟨before, piece, after, pairs, e', hpieces, hbefore, herror, hresult⟩ :=
      parsePairs_cases o (split (lower (cString s)) ',')
    · simp [parsePairs_of_accepted haccepted] at h
    · obtain ⟨rfl, -⟩ := Prod.mk.inj (hresult.symm.trans h)
      refine ⟨before, pairs, hbefore, .inr ⟨s, rfl, piece, after, hpieces, ?_⟩, rfl,
        fun k => sameMember_storePairs, hset pairs rfl⟩
      rintro ⟨pair, haccepted⟩
      cases herror.symm.trans (parsePair_ok haccepted)

theorem stored_of_exception_sample :
    ∃ before pairs, List.Forall₂ Accepted before pairs ∧
      ((∀ s ∈ some "exit_code:7,log".toList, cString s = []) ∧ before = [] ∨
        ∃ s ∈ some "exit_code:7,log".toList, ∃ piece after,
          split (lower (cString s)) ',' = before ++ piece :: after ∧
            ¬ ∃ pair, Accepted piece pair) ∧
      { exitCode := 7 } = storePairs pairs {} ∧
      (∀ k : Key, (∀ pair ∈ pairs, pair.1 ≠ k) → k.SameMember {} { exitCode := 7 }) ∧
      ∀ buffer : Str, 50 ≤ buffer.length →
        (cppguardSetOptions {} (some "exit_code:7,log".toList) (some buffer)).1 =
          storePairs pairs {} :=
  stored_of_exception (e := .invalidArgument "No valid key-value pair: 'log'".toList)
    (by decide +kernel)

/-- The call fails, and the process will be terminated at the next error. -/
theorem haltOnError_stored_of_exception :
    (parseOptions {} (some "halt_on_error:1,foo:1".toList)).2 =
        some (.invalidArgument "Option 'foo' is not known".toList) ∧
      (parseOptions {} (some "halt_on_error:1,foo:1".toList)).1 ≠ {} := by
  decide +kernel

end OptionsParser
end CppGuard
