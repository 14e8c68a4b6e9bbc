import Maple.ME.ValueRange.Constant
import Maple.MPL2MPL.ConstantFold.Overflow

/-!
# Sums and differences of constants

`AddOrSubWithConstant` computes with the constants of one type and gives up on an overflow.
-/

namespace Maple

variable [Target]

namespace ConstantFold

lemma integerOpIsOverflow_of_isSignedInteger {t : PrimType} (hn : t.isNeeded)
    (hs : t.isSignedInteger) (op : AddSubOp) {a b : Int64} (ha : t.InType a) (hb : t.InType b) :
    integerOpIsOverflow op t a b = false ↔ t.format.Mem (op.eval a.toInt b.toInt) := by
  have hu := t.not_isUint64_of_isSignedInteger hs
  rw [PrimType.inType_iff_mem hn hu] at ha hb
  have hint : t.isPrimitiveInteger = true := by
    cases t <;> first | rfl | exact absurd hn Bool.false_ne_true
  have h64 : t.format.width ≤ 64 := by
    cases t <;> first | exact absurd hn Bool.false_ne_true | exact absurd hs Bool.false_ne_true |
      exact Nat.le_of_ble_eq_true rfl
  exact integerOpIsOverflow_of_signed hint h64 hs op ha hb

end ConstantFold

namespace ValueRangePropagation

def addOrSubWithConstant (t : PrimType) (op : AddSubOp) (lhs rhs : Int64) : Option Int64 :=
  if !t.isNeeded then none
  else if ConstantFold.integerOpIsOverflow op t lhs rhs then none
  else if t.isUint64 then some (op.evalInt64 lhs rhs)
  else
    let outOfLimits := match op with
      | .add => (0 < rhs && t.maxNumber - rhs < lhs) || (rhs < 0 && lhs < t.minNumber - rhs)
      | .sub => (rhs < 0 && t.maxNumber + rhs < lhs) || (0 < rhs && lhs < t.minNumber + rhs)
    if outOfLimits then none else some (op.evalInt64 lhs rhs)

omit [Target] in
lemma pos_iff_toInt (c : Int64) : 0 < c ↔ 0 < c.toInt := by
  rw [Int64.lt_iff_toInt_lt, Int64.toInt_zero]

omit [Target] in
lemma neg_iff_toInt (c : Int64) : c < 0 ↔ c.toInt < 0 := by
  rw [Int64.lt_iff_toInt_lt, Int64.toInt_zero]

lemma toInt_limits {t : PrimType} (hn : t.isNeeded) (hu : ¬ t.isUint64) :
    t.minNumber.toInt = t.format.minValue ∧ t.maxNumber.toInt = t.format.maxValue := by
  have hmin := PrimType.minNumber_spec hn
  have hmax := PrimType.maxNumber_spec hn
  rw [PrimType.read_of_inType hu hmin.1] at hmin
  rw [PrimType.read_of_inType hu hmax.1] at hmax
  exact ⟨hmin.2, hmax.2⟩

/-- Below 64 unsigned bits, without machine arithmetic: a result is refused when an overflow is
reported or when it is beyond the limits and the first operand is nearer to them. -/
lemma addOrSubWithConstant_eq {t : PrimType} (hn : t.isNeeded) (hu : ¬ t.isUint64)
    (op : AddSubOp) (lhs : Int64) {rhs : Int64} (hr : t.InType rhs) :
    addOrSubWithConstant t op lhs rhs =
      if ConstantFold.integerOpIsOverflow op t lhs rhs = true ∨
        (lhs.toInt < op.eval lhs.toInt rhs.toInt ∧
          t.format.maxValue < op.eval lhs.toInt rhs.toInt) ∨
        (op.eval lhs.toInt rhs.toInt < lhs.toInt ∧
          op.eval lhs.toInt rhs.toInt < t.format.minValue) then none
      else some (op.evalInt64 lhs rhs) := by
  have hlim := toInt_limits hn hu
  have hrange := PrimType.format_of_not_isUint64 hn hu
  have hmin := t.format.minValue_nonpos
  have hmax := t.format.maxValue_nonneg
  rw [PrimType.inType_iff_mem hn hu] at hr
  unfold IntFormat.Mem at hr
  simp only [addOrSubWithConstant, hn, hu, Bool.not_true, Bool.false_eq_true, ↓reduceIte]
  by_cases hover : ConstantFold.integerOpIsOverflow op t lhs rhs
  · simp [hover]
  rw [if_neg hover]
  refine if_congr ?_ rfl rfl
  cases op with
  | add =>
    have hup : (0 < rhs ∧ t.maxNumber - rhs < lhs) ↔
        0 < rhs.toInt ∧ t.format.maxValue < lhs.toInt + rhs.toInt := by
      rw [pos_iff_toInt, and_congr_right_iff]
      intro hpos
      rw [Int64.lt_iff_toInt_lt, Int64.toInt_sub_eq] <;> omega
    have hdown : (rhs < 0 ∧ lhs < t.minNumber - rhs) ↔
        rhs.toInt < 0 ∧ lhs.toInt + rhs.toInt < t.format.minValue := by
      rw [neg_iff_toInt, and_congr_right_iff]
      intro hneg
      rw [Int64.lt_iff_toInt_lt, Int64.toInt_sub_eq] <;> omega
    simp only [Bool.or_eq_true, Bool.and_eq_true, decide_eq_true_eq, hup, hdown, hover, false_or,
      AddSubOp.eval, Bool.false_eq_true]
    omega
  | sub =>
    have hup : (rhs < 0 ∧ t.maxNumber + rhs < lhs) ↔
        rhs.toInt < 0 ∧ t.format.maxValue < lhs.toInt - rhs.toInt := by
      rw [neg_iff_toInt, and_congr_right_iff]
      intro hneg
      rw [Int64.lt_iff_toInt_lt, Int64.toInt_add_eq] <;> omega
    have hdown : (0 < rhs ∧ lhs < t.minNumber + rhs) ↔
        0 < rhs.toInt ∧ lhs.toInt - rhs.toInt < t.format.minValue := by
      rw [pos_iff_toInt, and_congr_right_iff]
      intro hpos
      rw [Int64.lt_iff_toInt_lt, Int64.toInt_add_eq] <;> omega
    simp only [Bool.or_eq_true, Bool.and_eq_true, decide_eq_true_eq, hup, hdown, hover, false_or,
      AddSubOp.eval, Bool.false_eq_true]
    omega

/-- Below 64 unsigned bits a result is the exact one, also for a first operand that is an offset
to a variable and not a value of the type. -/
lemma toInt_of_addOrSubWithConstant {t : PrimType} (hn : t.isNeeded) (hu : ¬ t.isUint64)
    {op : AddSubOp} {lhs rhs res : Int64} (hr : t.InType rhs)
    (h : addOrSubWithConstant t op lhs rhs = some res) :
    res.toInt = op.eval lhs.toInt rhs.toInt := by
  have hrange := PrimType.format_of_not_isUint64 hn hu
  have hlo := lhs.le_toInt
  have hhi := lhs.toInt_lt
  rw [addOrSubWithConstant_eq hn hu op lhs hr] at h
  split_ifs at h with hout
  simp only [not_or, not_and, not_lt] at hout
  cases h
  apply op.toInt_evalInt64
  · by_contra hlt
    have := hout.2.2 (by omega)
    omega
  · by_contra hge
    have := hout.2.1 (by omega)
    omega

lemma addOrSubWithConstant_of_mem {t : PrimType} (hn : t.isNeeded) (hu : ¬ t.isUint64)
    {op : AddSubOp} {lhs rhs : Int64} (hl : t.InType lhs) (hr : t.InType rhs) :
    addOrSubWithConstant t op lhs rhs =
      if t.format.Mem (op.eval lhs.toInt rhs.toInt) then some (op.evalInt64 lhs rhs)
      else none := by
  rw [addOrSubWithConstant_eq hn hu op lhs hr, ← ite_not]
  refine if_congr ?_ rfl rfl
  have hl' := (PrimType.inType_iff_mem hn hu lhs).mp hl
  have hr' := (PrimType.inType_iff_mem hn hu rhs).mp hr
  rcases t.signed_or_unsigned hn with ⟨hs, -⟩ | ⟨hun, -⟩
  · have hov := ConstantFold.integerOpIsOverflow_of_isSignedInteger hn hs op hl hr
    rw [← Bool.not_eq_true] at hov
    unfold IntFormat.Mem at hl' hov ⊢
    rw [← not_iff_not, not_not] at hov
    rw [hov]
    omega
  · have hmin := t.minValue_of_isUnsignedInteger hun
    have hrange := PrimType.format_of_not_isUint64 hn hu
    have hlu := Int64.asUInt64_eq lhs
    have hru := Int64.asUInt64_eq rhs
    unfold IntFormat.Mem at hl' hr' ⊢
    cases op with
    | add =>
      rw [ConstantFold.integerOpIsOverflow_add_of_isUnsignedInteger hun]
      simp only [AddSubOp.eval]
      omega
    | sub =>
      rw [ConstantFold.integerOpIsOverflow_sub_of_isUnsignedInteger hun, Int64.lt_iff_toInt_lt]
      simp only [AddSubOp.eval]
      omega

lemma addOrSubWithConstant_of_isUint64 {t : PrimType} (hu : t.isUint64) (op : AddSubOp)
    (lhs rhs : Int64) :
    addOrSubWithConstant t op lhs rhs =
      if ConstantFold.integerOpIsOverflow op t lhs rhs then none
      else some (op.evalInt64 lhs rhs) := by
  simp only [addOrSubWithConstant, t.isNeeded_of_isUint64 hu, hu, Bool.not_true,
    Bool.false_eq_true, ↓reduceIte]

lemma addOrSubWithConstant_add_of_isUint64 {t : PrimType} (hu : t.isUint64) (lhs rhs : Int64) :
    addOrSubWithConstant t .add lhs rhs =
      if t.read lhs + t.read rhs < 2 ^ 64 then some (lhs + rhs) else none := by
  rw [addOrSubWithConstant_of_isUint64 hu, PrimType.read_of_isUint64 hu,
    PrimType.read_of_isUint64 hu, ← Int64.asUInt64_eq, ← Int64.asUInt64_eq, ← ite_not]
  refine if_congr ?_ rfl rfl
  rw [ConstantFold.integerOpIsOverflow_add_of_isUnsignedInteger
    (t.isUnsignedInteger_of_isUint64 hu)]
  omega

lemma addOrSubWithConstant_sub_of_isUint64 {t : PrimType} (hu : t.isUint64) (lhs rhs : Int64) :
    addOrSubWithConstant t .sub lhs rhs = if lhs < rhs then none else some (lhs - rhs) := by
  rw [addOrSubWithConstant_of_isUint64 hu]
  refine if_congr ?_ rfl rfl
  exact ConstantFold.integerOpIsOverflow_sub_of_isUnsignedInteger
    (t.isUnsignedInteger_of_isUint64 hu) lhs rhs

lemma inType_one {t : PrimType} (hn : t.isNeeded) : t.InType 1 := by
  rw [PrimType.inType_iff_mem_of_nonneg hn (by decide)]
  have hmin := t.format.minValue_nonpos
  have hmax := PrimType.one_le_maxValue hn
  exact ⟨by change t.format.minValue ≤ 1; omega, hmax⟩

lemma read_of_isUint64_of_some {t : PrimType} (hu : t.isUint64) {op : AddSubOp}
    {lhs rhs res : Int64} (h : addOrSubWithConstant t op lhs rhs = some res) :
    t.read res = op.eval lhs.toInt rhs.toInt % 2 ^ 64 := by
  rw [addOrSubWithConstant_of_isUint64 hu] at h
  split_ifs at h
  cases h
  rw [PrimType.read_of_isUint64 hu, ← Int64.asUInt64_eq, op.asUInt64_evalInt64]

lemma read_of_add {t : PrimType} (hn : t.isNeeded) {lhs rhs res : Int64} (hl : t.InType lhs)
    (hr : t.InType rhs) (h : addOrSubWithConstant t .add lhs rhs = some res) :
    t.InType res ∧ t.read res = t.read lhs + t.read rhs := by
  by_cases hu : t.isUint64
  · have hread := read_of_isUint64_of_some hu h
    rw [addOrSubWithConstant_add_of_isUint64 hu] at h
    split_ifs at h with hfit
    refine ⟨PrimType.inType_of_isUint64 hu res, ?_⟩
    rw [hread]
    simp only [PrimType.read_of_isUint64 hu, AddSubOp.eval] at hfit ⊢
    omega
  · have hto := toInt_of_addOrSubWithConstant hn hu hr h
    rw [addOrSubWithConstant_of_mem hn hu hl hr] at h
    split_ifs at h with hmem
    have hin : t.InType res := by
      rw [PrimType.inType_iff_mem hn hu, hto]
      exact hmem
    refine ⟨hin, ?_⟩
    rw [PrimType.read_of_inType hu hin, PrimType.read_of_inType hu hl,
      PrimType.read_of_inType hu hr, hto]
    rfl

lemma read_of_sub {t : PrimType} (hn : t.isNeeded) {lhs rhs res : Int64} (hl : t.InType lhs)
    (hr : t.InType rhs) (h : addOrSubWithConstant t .sub lhs rhs = some res) :
    t.InType res ∧ (t.format.Mem (t.read lhs - t.read rhs) →
      t.read res = t.read lhs - t.read rhs) := by
  by_cases hu : t.isUint64
  · have hread := read_of_isUint64_of_some hu h
    refine ⟨PrimType.inType_of_isUint64 hu res, ?_⟩
    rw [hread, PrimType.format_of_isUint64 hu, PrimType.read_of_isUint64 hu,
      PrimType.read_of_isUint64 hu]
    intro hmem
    have hmem' : 0 ≤ lhs.toInt % 2 ^ 64 - rhs.toInt % 2 ^ 64 := hmem.1
    simp only [AddSubOp.eval]
    omega
  · have hto := toInt_of_addOrSubWithConstant hn hu hr h
    rw [addOrSubWithConstant_of_mem hn hu hl hr] at h
    split_ifs at h with hmem
    have hin : t.InType res := by
      rw [PrimType.inType_iff_mem hn hu, hto]
      exact hmem
    refine ⟨hin, fun _ => ?_⟩
    rw [PrimType.read_of_inType hu hin, PrimType.read_of_inType hu hl,
      PrimType.read_of_inType hu hr, hto]
    rfl

lemma toInt_of_sub_nonneg {t : PrimType} (hn : t.isNeeded) {lhs rhs res : Int64}
    (hr : t.InType rhs) (hnonneg : 0 ≤ rhs.toInt)
    (h : addOrSubWithConstant t .sub lhs rhs = some res) :
    res.toInt = lhs.toInt - rhs.toInt := by
  by_cases hu : t.isUint64
  · rw [addOrSubWithConstant_sub_of_isUint64 hu] at h
    split_ifs at h with hlt
    rw [Int64.lt_iff_toInt_lt] at hlt
    have := lhs.toInt_lt
    cases h
    exact Int64.toInt_sub_eq (by omega) (by omega)
  · exact toInt_of_addOrSubWithConstant hn hu hr h

lemma toInt_of_add_nonneg_le {t : PrimType} (hn : t.isNeeded) {lhs rhs res : Int64}
    (hr : t.InType rhs) (hnonneg : 0 ≤ rhs.toInt)
    (h : addOrSubWithConstant t .add lhs rhs = some res) :
    res.toInt ≤ lhs.toInt + rhs.toInt := by
  by_cases hu : t.isUint64
  · rw [addOrSubWithConstant_add_of_isUint64 hu] at h
    split_ifs at h
    cases h
    have := lhs.le_toInt
    have hmod := Int64.asUInt64_add lhs rhs
    have hres := Int64.asUInt64_eq (lhs + rhs)
    have := (lhs + rhs).toInt_lt
    omega
  · exact le_of_eq (toInt_of_addOrSubWithConstant hn hu hr h)

lemma inType_of_between {t : PrimType} (hn : t.isNeeded) {lower upper c : Int64}
    (hl : t.InType lower) (hu : t.InType upper) (hlo : lower ≤ c) (hhi : c ≤ upper) :
    t.InType c := by
  by_cases h64 : t.isUint64
  · exact PrimType.inType_of_isUint64 h64 c
  · rw [PrimType.inType_iff_mem hn h64] at hl hu ⊢
    rw [Int64.le_iff_toInt_le] at hlo hhi
    exact ⟨le_trans hl.1 hlo, le_trans hhi hu.2⟩

end ValueRangePropagation
end Maple
