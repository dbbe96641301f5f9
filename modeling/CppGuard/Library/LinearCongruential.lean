import Mathlib.Algebra.Ring.Nat
import Mathlib.Logic.Function.Iterate
import Mathlib.Tactic.Ring

/-!
# Linear congruential generators

With an odd increment and a multiplier that is 1 modulo 4, `2 ^ k` steps of `x ↦ a * x + c` turn
over bit `k`. So no bit keeps its value for long.
-/
namespace LinearCongruential
open Function

variable {a c : Nat}

/-- What a power of two of the steps does. -/
theorem iterate_two_pow (ha : a % 4 = 1) (hc : c % 2 = 1) (k : Nat) : ∃ u v, ∀ x,
    (fun x => a * x + c)^[2 ^ k] x = (1 + 2 ^ (k + 2) * u) * x + 2 ^ k * (2 * v + 1) := by
  induction k with
  | zero =>
    refine ⟨a / 4, c / 2, fun x => ?_⟩
    have hmul : 1 + 2 ^ (0 + 2) * (a / 4) = a := by omega
    have hadd : 2 ^ 0 * (2 * (c / 2) + 1) = c := by omega
    rw [hmul, hadd]
    rfl
  | succ k ih =>
    obtain ⟨u, v, h⟩ := ih
    -- the two halves of the steps are the same affine map
    refine ⟨u + 2 ^ (k + 1) * u ^ 2, v + 2 ^ k * u * (2 * v + 1), fun x => ?_⟩
    rw [Nat.pow_succ, Nat.mul_two, iterate_add_apply, h, h]
    ring

theorem testBit_iterate_two_pow (ha : a % 4 = 1) (hc : c % 2 = 1) (k x : Nat) :
    ((fun x => a * x + c)^[2 ^ k] x).testBit k = !x.testBit k := by
  obtain ⟨u, v, h⟩ := iterate_two_pow ha hc k
  have hsplit : (1 + 2 ^ (k + 2) * u) * x + 2 ^ k * (2 * v + 1) =
      x + 2 ^ k * (2 * (2 * u * x + v) + 1) := by
    ring
  rw [h, hsplit, Nat.testBit_eq_decide_div_mod_eq, Nat.testBit_eq_decide_div_mod_eq,
    Nat.add_mul_div_left _ _ (Nat.two_pow_pos k)]
  have hparity : (x / 2 ^ k + (2 * (2 * u * x + v) + 1)) % 2 = 1 ↔ ¬ x / 2 ^ k % 2 = 1 := by omega
  rw [decide_eq_decide.mpr hparity, decide_not]

/-- A bit is set after one step, or after `2 ^ k` more. -/
theorem exists_testBit (ha : a % 4 = 1) (hc : c % 2 = 1) (k x : Nat) :
    ∃ n ≤ 2 ^ k, ((fun x => a * x + c)^[n] (a * x + c)).testBit k = true := by
  cases hbit : (a * x + c).testBit k with
  | true => exact ⟨0, Nat.zero_le _, hbit⟩
  | false =>
    refine ⟨2 ^ k, Nat.le_refl _, ?_⟩
    rw [testBit_iterate_two_pow ha hc, hbit]
    rfl

/-- The same with words of `w` bits. -/
theorem iterate_mod (w n x : Nat) :
    (fun x => (a * x + c) % 2 ^ w)^[n] (x % 2 ^ w) = (fun x => a * x + c)^[n] x % 2 ^ w := by
  induction n generalizing x with
  | zero => rfl
  | succ n ih =>
    rw [iterate_succ_apply, iterate_succ_apply, ← ih]
    congr 1
    simp only [Nat.add_mod, Nat.mul_mod, Nat.mod_mod]

end LinearCongruential
