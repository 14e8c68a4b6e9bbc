import Mathlib.Order.Defs.LinearOrder
import Mathlib.Algebra.Order.Ring.Int

/-!
# Comparison opcodes
-/

namespace Maple

/-- The opcodes for which `IsCompareHasReverseOp` holds. -/
inductive CmpOp where
  | eq | ne | lt | le | gt | ge
  deriving DecidableEq, Repr

namespace CmpOp

/-- The truth value of a comparison of two operand values. -/
def eval : CmpOp → Int → Int → Bool
  | eq, a, b => a == b
  | ne, a, b => a != b
  | lt, a, b => decide (a < b)
  | le, a, b => decide (a ≤ b)
  | gt, a, b => decide (b < a)
  | ge, a, b => decide (b ≤ a)

lemma eval_add_right (op : CmpOp) (x t d : Int) : op.eval x (t + d) = op.eval (x - d) t := by
  rw [Bool.eq_iff_iff]
  cases op <;> simp [eval] <;> omega

end CmpOp
end Maple
