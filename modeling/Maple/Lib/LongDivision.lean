import Mathlib.Algebra.Order.Group.Nat
import Mathlib.Tactic.Ring

/-!
# Digits of a long division

In base `β`, a digit of a quotient is estimated from the leading digit of the divisor and the part
of the dividend from the same weight on.
-/

namespace LongDivision

/-- The estimate of the digit `A / D`, where `d` is the leading digit of `D` and `M` its weight. -/
def trialDigit (β M d A : Nat) : Nat := min (A / M / d) (β - 1)

variable {β M d A D : Nat}

lemma div_le_trialDigit (hd : 0 < d) (hM : 0 < M) (hD : d * M ≤ D) (hA : A < D * β) :
    A / D ≤ trialDigit β M d A := by
  have hpos : 0 < D := lt_of_lt_of_le (Nat.mul_pos hd hM) hD
  have hlt : A / D < β := Nat.div_lt_of_lt_mul hA
  refine le_min ?_ (Nat.le_sub_one_of_lt hlt)
  rw [Nat.div_div_eq_div_mul, Nat.mul_comm]
  exact Nat.div_le_div_left hD (Nat.mul_pos hd hM)

lemma trialDigit_le (hd : 0 < d) (hM : 0 < M) (hnorm : β ≤ 2 * d) (hlow : d * M ≤ D)
    (hhigh : D < (d + 1) * M) : trialDigit β M d A ≤ A / D + 2 := by
  by_contra! hgt
  have hpos : 0 < D := lt_of_lt_of_le (Nat.mul_pos hd hM) hlow
  have hβ : trialDigit β M d A ≤ β - 1 := min_le_right _ _
  have hdiv : trialDigit β M d A ≤ A / (d * M) := by
    rw [Nat.mul_comm, ← Nat.div_div_eq_div_mul]
    exact min_le_left _ _
  have hle : (A / D + 3) * (d * M) ≤ A :=
    (Nat.mul_le_mul_right _ hgt).trans
      ((Nat.le_div_iff_mul_le (Nat.mul_pos hd hM)).mp hdiv)
  have hlt : A < (A / D + 1) * ((d + 1) * M) := by
    calc A < (A / D + 1) * D := Nat.lt_mul_of_div_lt (Nat.lt_succ_self _) hpos
      _ ≤ (A / D + 1) * ((d + 1) * M) := Nat.mul_le_mul_left _ hhigh.le
  -- the error of three digits is more than the rest of the divisor can make up for
  have hmul : (A / D + 3) * d * M < (A / D + 1) * (d + 1) * M := by
    calc (A / D + 3) * d * M = (A / D + 3) * (d * M) := Nat.mul_assoc _ _ _
      _ < (A / D + 1) * ((d + 1) * M) := lt_of_le_of_lt hle hlt
      _ = (A / D + 1) * (d + 1) * M := (Nat.mul_assoc _ _ _).symm
  have hdigit : (A / D + 3) * d < (A / D + 1) * (d + 1) := Nat.lt_of_mul_lt_mul_right hmul
  have hdigit' : 2 * d < A / D + 1 := by
    rw [Nat.add_mul, Nat.add_mul, Nat.mul_add, Nat.mul_add] at hdigit
    omega
  omega

end LongDivision
