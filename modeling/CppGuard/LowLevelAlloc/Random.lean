import CppGuard.Library.LinearCongruential
import CppGuard.LowLevelAlloc

/-!
# `Random`

The loop of `Random` ends, because the bit that it waits for is turned over again and again. So the
generator of the source is one that the allocator can be given.
-/
namespace CppGuard
open Function LinearCongruential

/-- A step of the generator, with words of 32 bits. -/
def lcg (r : Nat) : Nat := (r * 1103515245 + 12345) % 2 ^ 32

theorem randomFrom_succ (fuel r : Nat) : randomFrom (fuel + 1) r =
    if (lcg r).testBit 30 = true then some (1, lcg r)
    else (randomFrom fuel (lcg r)).map fun (result, r) => (result + 1, r) := by
  have hbit : (lcg r).testBit 30 = true ↔ ¬ (lcg r >>> 30) &&& 1 = 0 := by
    rw [Nat.testBit, Nat.and_comm, bne_iff_ne]
  simp only [hbit, ite_not]
  rfl

/-- The loop ends when the bit is set. -/
theorem randomFrom_isSome {n r fuel : Nat} (h : (lcg^[n] (lcg r)).testBit 30 = true)
    (hfuel : n < fuel) : (randomFrom fuel r).isSome = true := by
  induction fuel generalizing n r with
  | zero => cases hfuel
  | succ fuel ih =>
    rw [randomFrom_succ]
    split_ifs with hbit
    · rfl
    · cases n with
      | zero =>
        rw [iterate_zero, id_eq] at h
        exact absurd h hbit
      | succ n =>
        rw [iterate_succ_apply] at h
        rw [Option.isSome_map]
        exact ih h (Nat.lt_of_succ_lt_succ hfuel)

theorem testBit_lcg (n r : Nat) : (lcg^[n] (lcg r)).testBit 30 =
    ((fun x => 1103515245 * x + 12345)^[n] (1103515245 * r + 12345)).testBit 30 := by
  have hstep : lcg = fun x => (1103515245 * x + 12345) % 2 ^ 32 := by
    funext x
    rw [lcg, Nat.mul_comm]
  rw [hstep, iterate_mod, Nat.testBit_mod_two_pow]
  simp

/-- `Random` returns. -/
theorem random_isSome (state : Nat) : (random state).isSome = true := by
  obtain ⟨n, hn, hbit⟩ :=
    exists_testBit (a := 1103515245) (c := 12345) (by decide) (by decide) 30 state
  rw [← testBit_lcg] at hbit
  rw [random]
  exact randomFrom_isSome hbit (Nat.lt_of_le_of_lt hn (by decide))

theorem randomFrom_pos {fuel r : Nat} {p : Nat × Nat} (h : randomFrom fuel r = some p) :
    1 ≤ p.1 := by
  cases fuel with
  | zero => cases h
  | succ fuel =>
    rw [randomFrom_succ] at h
    split_ifs at h
    · cases h
      exact Nat.le_refl 1
    · obtain ⟨q, -, rfl⟩ := Option.map_eq_some_iff.mp h
      exact Nat.le_add_left 1 q.1

theorem random_pos {state : Nat} {p : Nat × Nat} (h : random state = some p) : 1 ≤ p.1 := by
  rw [random] at h
  exact randomFrom_pos h

namespace Platform

/-- The number that `Random` returns, and the new state. -/
def draw (state : Nat) : Nat × Nat := (CppGuard.random state).get (random_isSome state)

theorem draw_pos (state : Nat) : 1 ≤ (draw state).1 :=
  CppGuard.random_pos (Option.some_get (random_isSome state)).symm

/-- A platform with the generator of the source, which starts with 0. -/
def standard (pagesize : Nat) (hpagesize : ∃ k ≤ 59, pagesize = 2 ^ k) (storage : Nat)
    (assertions : Bool) : Platform Nat where
  pagesize := pagesize
  pagesize_eq := hpagesize
  random := draw
  random_pos := draw_pos
  seed := 0
  storage := storage
  assertions := assertions

end Platform
end CppGuard
