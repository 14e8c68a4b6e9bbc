import Maple.Lib.Int64Cast
import Maple.IR.PrimType

/-!
# Overflow of constant additions and subtractions
-/

namespace Maple

/-- `OP_add` and `OP_sub`. -/
inductive AddSubOp where
  | add | sub
  deriving DecidableEq, Repr

namespace AddSubOp

/-- The result before it is cut down to a type. -/
def eval : AddSubOp → Int → Int → Int
  | add, a, b => a + b
  | sub, a, b => a - b

/-- The operation on `int64` (or, with the same bits, on `uint64`). -/
def evalInt64 : AddSubOp → Int64 → Int64 → Int64
  | add, a, b => a + b
  | sub, a, b => a - b

lemma toInt_evalInt64 (op : AddSubOp) {a b : Int64} (hlo : -2 ^ 63 ≤ op.eval a.toInt b.toInt)
    (hhi : op.eval a.toInt b.toInt < 2 ^ 63) :
    (op.evalInt64 a b).toInt = op.eval a.toInt b.toInt := by
  cases op with
  | add => exact Int64.toInt_add_eq hlo hhi
  | sub => exact Int64.toInt_sub_eq hlo hhi

lemma asUInt64_evalInt64 (op : AddSubOp) (a b : Int64) :
    ((op.evalInt64 a b).asUInt64 : Int) = op.eval a.toInt b.toInt % 2 ^ 64 := by
  cases op with
  | add => exact Int64.asUInt64_add a b
  | sub => exact Int64.asUInt64_sub a b

end AddSubOp

namespace ConstantFold

variable [Target]

/-- The bits of a constant from the sign bit of the type on. -/
def signFlag (t : PrimType) (c : Int64) : Nat := c.asUInt64 >>> (t.bitSize - 1)

def integerOpIsOverflow (op : AddSubOp) (t : PrimType) (cstA cstB : Int64) : Bool :=
  match op with
  | .add =>
    let res := cstA + cstB
    if t.isUnsignedInteger then res.asUInt64 < cstA.asUInt64
    else signFlag t res != signFlag t cstA && signFlag t res != signFlag t cstB
  | .sub =>
    -- the constants are compared as signed numbers for an unsigned type, too
    if t.isUnsignedInteger then cstA < cstB
    else
      let res := cstA - cstB
      signFlag t cstA != signFlag t cstB && signFlag t res != signFlag t cstA

/-! ### When the prediction is right -/

/-- The number that a constant of a type encodes. -/
def number (t : PrimType) (c : Int64) : Int := if t.isSignedInteger then c.toInt else c.asUInt64

/-- The overflow is reported exactly if the result is no number of the type. -/
def PredictsOverflow (op : AddSubOp) (t : PrimType) (a b : Int64) : Prop :=
  integerOpIsOverflow op t a b = true ↔ ¬ t.format.Mem (op.eval (number t a) (number t b))

/-- Nothing is wrong with a signed type. A sum in an unsigned type of less than 64 bits is never
reported, and a difference is reported by the order of signed numbers. -/
def OverflowCondition (op : AddSubOp) (t : PrimType) (a b : Int64) : Prop :=
  t.isSignedInteger = true ∨
    match op with
    | .add => t.format.width = 64 ∨ t.format.Mem (number t a + number t b)
    | .sub => a < 0 ↔ b < 0

lemma signFlag_eq (t : PrimType) (c : Int64) :
    (signFlag t c : Int) = (c.asUInt64 : Int) / 2 ^ (t.bitSize - 1) := by
  rw [signFlag, Nat.shiftRight_eq_div_pow]
  push_cast
  rfl

lemma signBit_cases {t : PrimType} (hint : t.isPrimitiveInteger = true) (h64 : t.format.width ≤ 64)
    (hs : t.isSignedInteger = true) :
    ∃ H : Int, (H = 2 ^ 7 ∨ H = 2 ^ 15 ∨ H = 2 ^ 31 ∨ H = 2 ^ 63) ∧
      2 ^ (t.bitSize - 1) = H ∧ t.format.minValue = -H ∧ t.format.maxValue = H - 1 := by
  cases t with
  | i8 => exact ⟨2 ^ 7, by simp, rfl, (by decide : (IntFormat.mk 8 true).minValue = _),
      (by decide : (IntFormat.mk 8 true).maxValue = _)⟩
  | i16 => exact ⟨2 ^ 15, by simp, rfl, (by decide : (IntFormat.mk 16 true).minValue = _),
      (by decide : (IntFormat.mk 16 true).maxValue = _)⟩
  | i32 => exact ⟨2 ^ 31, by simp, rfl, (by decide : (IntFormat.mk 32 true).minValue = _),
      (by decide : (IntFormat.mk 32 true).maxValue = _)⟩
  | i64 => exact ⟨2 ^ 63, by simp, rfl, (by decide : (IntFormat.mk 64 true).minValue = _),
      (by decide : (IntFormat.mk 64 true).maxValue = _)⟩
  | i128 => exact absurd h64 (by change ¬ 128 ≤ 64; decide)
  | _ => first | exact absurd hs Bool.false_ne_true | exact absurd hint Bool.false_ne_true

omit [Target] in
lemma sign_quotient {H : Int} (hH : H = 2 ^ 7 ∨ H = 2 ^ 15 ∨ H = 2 ^ 31 ∨ H = 2 ^ 63) :
    ∃ K, 0 < K ∧ ∀ s, -(2 * H) ≤ s → s < 2 * H → s % 2 ^ 64 / H =
      if s < -H then K - 1 else if s < 0 then K else if s < H then 0 else 1 := by
  refine ⟨2 ^ 64 / H - 1, ?_, ?_⟩
  · rcases hH with rfl | rfl | rfl | rfl <;> decide
  · intro s hlo hhi
    rcases hH with rfl | rfl | rfl | rfl <;> omega

lemma integerOpIsOverflow_of_signed {t : PrimType} (hint : t.isPrimitiveInteger = true)
    (h64 : t.format.width ≤ 64) (hs : t.isSignedInteger = true) (op : AddSubOp) {a b : Int64}
    (ha : t.format.Mem a.toInt) (hb : t.format.Mem b.toInt) :
    integerOpIsOverflow op t a b = false ↔ t.format.Mem (op.eval a.toInt b.toInt) := by
  have hun : t.isUnsignedInteger = false := by
    rw [PrimType.isSignedInteger, Bool.and_eq_true, Bool.not_eq_true'] at hs
    rw [PrimType.isUnsignedInteger, hs.1, Bool.false_and]
  have hfa := signFlag_eq t a
  have hfb := signFlag_eq t b
  obtain ⟨H, hcases, hH, hmin, hmax⟩ := signBit_cases hint h64 hs
  obtain ⟨K, hK, hquot⟩ := sign_quotient hcases
  unfold IntFormat.Mem at ha hb ⊢
  rw [hmin, hmax] at ha hb ⊢
  rw [hH, Int64.asUInt64_eq, hquot _ (by omega) (by omega)] at hfa hfb
  cases op with
  | add =>
    have hfadd := signFlag_eq t (a + b)
    rw [hH, Int64.asUInt64_add, hquot _ (by omega) (by omega)] at hfadd
    simp only [integerOpIsOverflow, hun, Bool.false_eq_true, ↓reduceIte, AddSubOp.eval,
      Bool.and_eq_false_iff, bne_eq_false_iff_eq]
    omega
  | sub =>
    have hfsub := signFlag_eq t (a - b)
    rw [hH, Int64.asUInt64_sub, hquot _ (by omega) (by omega)] at hfsub
    simp only [integerOpIsOverflow, hun, Bool.false_eq_true, ↓reduceIte, AddSubOp.eval,
      Bool.and_eq_false_iff, bne_eq_false_iff_eq]
    omega

lemma integerOpIsOverflow_add_of_isUnsignedInteger {t : PrimType} (hu : t.isUnsignedInteger)
    (a b : Int64) :
    integerOpIsOverflow .add t a b = true ↔ 2 ^ 64 ≤ a.asUInt64 + b.asUInt64 := by
  have hsum := Int64.asUInt64_add a b
  have ha := Int64.asUInt64_eq a
  have hb := Int64.asUInt64_eq b
  simp only [integerOpIsOverflow, hu, ↓reduceIte, decide_eq_true_eq]
  omega

lemma integerOpIsOverflow_sub_of_isUnsignedInteger {t : PrimType} (hu : t.isUnsignedInteger)
    (a b : Int64) : integerOpIsOverflow .sub t a b = true ↔ a < b := by
  simp [integerOpIsOverflow, hu]

lemma mem_format_iff_of_unsigned {t : PrimType} (hs : t.isSignedInteger = false) (v : Int) :
    t.format.Mem v ↔ 0 ≤ v ∧ v < 2 ^ t.format.width := by
  have hsigned : t.format.signed = false := hs
  have hmod : ((t.format.modulus : Nat) : Int) = 2 ^ t.format.width := by
    rw [IntFormat.modulus]
    push_cast
    rfl
  rw [IntFormat.Mem, IntFormat.minValue, IntFormat.maxValue, hsigned, if_neg Bool.false_ne_true,
    if_neg Bool.false_ne_true, hmod, Int.le_sub_one_iff]

section Unsigned

variable {t : PrimType} {a b : Int64} (hs : t.isSignedInteger = false)
  (hu : t.isUnsignedInteger = true) (ha : t.format.Mem (number t a))

include hs hu ha

lemma predictsOverflow_add_iff_of_unsigned (h64 : t.format.width ≤ 64)
    (hb : t.format.Mem (number t b)) :
    PredictsOverflow .add t a b ↔
      t.format.width = 64 ∨ t.format.Mem (number t a + number t b) := by
  have hnum : ∀ c, number t c = c.asUInt64 := fun c => by
    rw [number, if_neg (by simp [hs])]
  rw [mem_format_iff_of_unsigned hs, hnum] at ha hb
  rw [PredictsOverflow, integerOpIsOverflow_add_of_isUnsignedInteger hu, AddSubOp.eval,
    mem_format_iff_of_unsigned hs, hnum, hnum]
  by_cases hfull : t.format.width = 64
  · rw [hfull]
    omega
  · -- the sum of two numbers of less than 64 bits is one of 64 bits
    have hpow : (2 : Int) ^ t.format.width ≤ 2 ^ 63 := pow_le_pow_right₀ (by decide) (by omega)
    rw [or_iff_right hfull]
    generalize (2 : Int) ^ t.format.width = m at *
    omega

lemma predictsOverflow_sub_iff_of_unsigned :
    PredictsOverflow .sub t a b ↔ (a < 0 ↔ b < 0) := by
  have hnum : ∀ c, number t c = c.asUInt64 := fun c => by
    rw [number, if_neg (by simp [hs])]
  have heqa := Int64.asUInt64_eq a
  have heqb := Int64.asUInt64_eq b
  have hlta := a.toInt_lt
  have hltb := b.toInt_lt
  have hlea := a.le_toInt
  have hleb := b.le_toInt
  rw [mem_format_iff_of_unsigned hs, hnum] at ha
  rw [PredictsOverflow, integerOpIsOverflow_sub_of_isUnsignedInteger hu, AddSubOp.eval,
    mem_format_iff_of_unsigned hs, hnum, hnum, Int64.lt_iff_toInt_lt, Int64.lt_iff_toInt_lt,
    Int64.lt_iff_toInt_lt, Int64.toInt_zero]
  generalize (2 : Int) ^ t.format.width = m at *
  omega

end Unsigned

/-- The overflow is predicted in signed types, for sums of 64 bits and sums that do not overflow,
and for differences of numbers in the same half of the unsigned ones. -/
theorem predictsOverflow_iff (op : AddSubOp) {t : PrimType} {a b : Int64}
    (hint : t.isPrimitiveInteger = true) (h64 : t.format.width ≤ 64)
    (ha : t.format.Mem (number t a)) (hb : t.format.Mem (number t b)) :
    PredictsOverflow op t a b ↔ OverflowCondition op t a b := by
  by_cases hs : t.isSignedInteger = true
  · have hnum : ∀ c, number t c = c.toInt := fun c => if_pos hs
    rw [hnum] at ha hb
    have hiff := integerOpIsOverflow_of_signed hint h64 hs op ha hb
    refine iff_of_true ?_ (Or.inl hs)
    rw [PredictsOverflow, hnum, hnum, ← hiff, Bool.not_eq_false]
  · rw [Bool.not_eq_true] at hs
    have hu : t.isUnsignedInteger = true := by
      rw [PrimType.isPrimitiveInteger, Bool.and_eq_true] at hint
      rw [PrimType.isSignedInteger, hint.1, Bool.and_true, Bool.not_eq_false'] at hs
      rw [PrimType.isUnsignedInteger, hs, hint.1, Bool.true_and]
    cases op with
    | add =>
      rw [predictsOverflow_add_iff_of_unsigned hs hu ha h64 hb]
      exact (or_iff_right (by simp [hs])).symm
    | sub =>
      rw [predictsOverflow_sub_iff_of_unsigned hs hu ha]
      exact (or_iff_right (by simp [hs])).symm

omit [Target] in
theorem predictsOverflow_iff_i32 :
    letI := Target.lp64
    PredictsOverflow .add .i32 2147483647 1 ↔ OverflowCondition .add .i32 2147483647 1 := by
  let _ := Target.lp64
  exact predictsOverflow_iff .add rfl (by decide) (by decide) (by decide)

omit [Target] in
/-- The sum 256 of 8 unsigned bits is not reported, and the difference of the largest number of 64
unsigned bits and zero is. -/
theorem not_predictsOverflow_unsigned :
    letI := Target.lp64
    ¬PredictsOverflow .add .u8 255 1 ∧ ¬PredictsOverflow .sub .u64 (-1) 0 := by
  let _ := Target.lp64
  constructor
  · unfold PredictsOverflow
    decide
  · unfold PredictsOverflow
    decide

end ConstantFold
end Maple
