import Maple.MPL2MPL.ConstantFold.Extractbits

/-!
# The value range of an expression

`GetExprValueRangePtyp` (`constantfold.cpp`) looks for a type between whose limits an expression
stays. It counts the sizes of operands in bytes, and the size of the type it returns in bits.
-/

namespace Maple
namespace ExprValueRange

open FoldExtractbits (ExtractOp)

/-- An expression over leaves and the operators that the function does not tell apart. -/
inductive Expr (ω ν : Type) where
  | leaf (primType : PrimType) (e : ω)
  | typeCvt (primType fromType : PrimType) (opnd : Expr ω ν)
  | extract (op : ExtractOp) (primType : PrimType) (bitsSize : Nat) (opnd : Expr ω ν)
  | other (primType : PrimType) (op : ν) (opnds : List (Expr ω ν))

variable {ω ν : Type}

def isPrimitiveFloat (t : PrimType) : Bool := t == .f32 || t == .f64 || t == .f128

def getNearestSizePtyp (bitSize : Nat) (ptyp : PrimType) : PrimType :=
  let isSigned := ptyp.isSignedInteger
  let isFloat := isPrimitiveFloat ptyp
  if bitSize = 1 then .u1
  else if bitSize ≤ 8 then if isSigned then .i8 else .u8
  else if bitSize ≤ 16 then if isSigned then .i16 else .u16
  else if bitSize ≤ 32 then if isFloat then .f32 else if isSigned then .i32 else .u32
  else if bitSize ≤ 64 then if isFloat then .f64 else if isSigned then .i64 else .u64
  else if bitSize ≤ 128 then if isFloat then .f128 else if isSigned then .i128 else .u128
  else ptyp

/-- The default case of the source is a fatal check. -/
def getIntPrimTypeMax : PrimType → Option Int
  | .u1 => some 1
  | .u8 => some (2 ^ 8 - 1)
  | .i8 => some (2 ^ 7 - 1)
  | .u16 => some (2 ^ 16 - 1)
  | .i16 => some (2 ^ 15 - 1)
  | .u32 => some (2 ^ 32 - 1)
  | .i32 => some (2 ^ 31 - 1)
  | .u64 => some (2 ^ 64 - 1)
  | .i64 => some (2 ^ 63 - 1)
  | _ => none

def getIntPrimTypeMin (ptyp : PrimType) : Option Int :=
  if ptyp.isUnsignedInteger then some 0
  else
    match ptyp with
    | .i8 => some (-2 ^ 7)
    | .i16 => some (-2 ^ 15)
    | .i32 => some (-2 ^ 31)
    | .i64 => some (-2 ^ 63)
    | _ => none

namespace Expr

def getPrimType : Expr ω ν → PrimType
  | leaf t _ | typeCvt t _ _ | extract _ t _ _ | other t _ _ => t

variable [Target]

mutual

def getExprValueRangePtyp : Expr ω ν → PrimType
  | leaf ptyp _ => ptyp
  | typeCvt ptyp fromType opnd =>
    if fromType.size < ptyp.size then opnd.getExprValueRangePtyp else ptyp
  | extract _ ptyp bitsSize _ => getNearestSizePtyp bitsSize ptyp
  | other ptyp _ opnds =>
    match findMaxTypeSize ptyp.size 1 opnds with
    | some maxTypeSize => getNearestSizePtyp maxTypeSize ptyp
    | none => ptyp

/-- The loop over the operands, `none` if it returns the type of the node. -/
def findMaxTypeSize (ptypSize maxTypeSize : Nat) : List (Expr ω ν) → Option Nat
  | [] => some maxTypeSize
  | opnd :: opnds =>
    let opndSize := opnd.getExprValueRangePtyp.size
    if ptypSize ≤ opndSize then none
    else if maxTypeSize < opndSize then
      if opndSize = 8 then some opndSize else findMaxTypeSize ptypSize opndSize opnds
    else findMaxTypeSize ptypSize maxTypeSize opnds

end

variable (sem : ν → List Int → Int) (ρ : ω → Int)

mutual

/-- The value of an expression, where an environment gives those of the leaves, and `sem` the
results of the other operators, which are made numbers of the type. -/
def eval : Expr ω ν → Int
  | leaf _ e => ρ e
  | typeCvt t _ opnd => t.format.wrap opnd.eval
  | extract op t bitsSize opnd =>
    t.format.wrap ((⟨bitsSize, op.isSigned t⟩ : IntFormat).wrap (opnd.eval / 2 ^ op.bitsOffset))
  | other t op opnds => t.format.wrap (sem op (evals opnds))

def evals : List (Expr ω ν) → List Int
  | [] => []
  | opnd :: opnds => opnd.eval :: evals opnds

end

/-- An integer expression over an environment with values of the types of the leaves. -/
def WellTyped : Expr ω ν → Prop
  | leaf t e => t.isPrimitiveInteger = true ∧ t.format.Mem (ρ e)
  | typeCvt t fromType opnd =>
    t.isPrimitiveInteger = true ∧ opnd.getPrimType = fromType ∧ opnd.WellTyped
  | extract _ t bitsSize opnd =>
    t.isPrimitiveInteger = true ∧ 0 < bitsSize ∧ bitsSize ≤ t.format.width ∧ opnd.WellTyped
  | other t _ _ => t.isPrimitiveInteger = true

end Expr

variable [Target]

/-- A value lies between the limits of a type. -/
def InRange (ptyp : PrimType) (v : Int) : Prop :=
  ∃ min max, getIntPrimTypeMin ptyp = some min ∧ getIntPrimTypeMax ptyp = some max ∧
    min ≤ v ∧ v ≤ max

/-- The types for which the limits are known. -/
def HasLimits (t : PrimType) : Prop :=
  t = .u1 ∨ t = .u8 ∨ t = .i8 ∨ t = .u16 ∨ t = .i16 ∨ t = .u32 ∨ t = .i32 ∨ t = .u64 ∨ t = .i64

/-- The field keeps its number in the nearest type, or is cut down to its width: the sign bit is
clear, or means in the type what it means in the field. -/
def KeepsField (op : ExtractOp) (t : PrimType) (bitsSize : Nat) (v : Int) : Prop :=
  v % 2 ^ bitsSize < 2 ^ (bitsSize - 1) ∨
    (getNearestSizePtyp bitsSize t).format.width = t.format.width ∨
    if op.isSigned t then t.isSignedInteger = true ∧ bitsSize ≠ 1
    else t.isSignedInteger = true → bitsSize = 1 ∨ ¬bitsSize ∈ [8, 16, 32, 64]

/-- When the value of an expression is in the range. A conversion to a larger type keeps it, if no
negative number becomes unsigned. For an operator over smaller operands, the type has one bit if
they have one byte, and eight bits otherwise. -/
def Expr.Condition (sem : ν → List Int → Int) (ρ : ω → Int) : Expr ω ν → Prop
  | .leaf t _ => HasLimits t
  | .typeCvt t fromType opnd =>
    if fromType.size < t.size then
      (t.isSignedInteger = true ∨ 0 ≤ opnd.eval sem ρ) ∧ opnd.Condition sem ρ
    else HasLimits t
  | .extract op t bitsSize opnd =>
    bitsSize ≤ 64 ∧ KeepsField op t bitsSize (opnd.eval sem ρ / 2 ^ op.bitsOffset)
  | .other t op opnds =>
    let v := (Expr.other t op opnds).eval sem ρ
    match Expr.findMaxTypeSize t.size 1 opnds with
    | none => HasLimits t
    | some 1 => 0 ≤ v ∧ v < 2
    | some _ => if t.isSignedInteger then -2 ^ 7 ≤ v ∧ v < 2 ^ 7 else 0 ≤ v ∧ v < 2 ^ 8

/-! ### The limits of a type -/

lemma limits_eq {t : PrimType} (h : HasLimits t) :
    getIntPrimTypeMin t = some t.format.minValue ∧
      getIntPrimTypeMax t = some t.format.maxValue := by
  rcases h with rfl | rfl | rfl | rfl | rfl | rfl | rfl | rfl | rfl <;>
    simp [getIntPrimTypeMin, getIntPrimTypeMax, IntFormat.minValue, IntFormat.maxValue,
      IntFormat.modulus, PrimType.format, PrimType.actualBitSize, PrimType.size,
      PrimType.isSignedInteger, PrimType.isUnsignedInteger, PrimType.isUnsigned,
      PrimType.isInteger]

omit [Target] in
lemma hasLimits_of_max {t : PrimType} {max : Int} (h : getIntPrimTypeMax t = some max) :
    HasLimits t := by
  unfold getIntPrimTypeMax at h
  split at h
  all_goals first | (simp [HasLimits]; done) | cases h

lemma inRange_iff_mem (t : PrimType) (v : Int) : InRange t v ↔ HasLimits t ∧ t.format.Mem v := by
  constructor
  · rintro ⟨min, max, hmin, hmax, hle, hge⟩
    have hlimits := hasLimits_of_max hmax
    obtain ⟨hmin', hmax'⟩ := limits_eq hlimits
    obtain rfl := Option.some.inj (hmin'.symm.trans hmin)
    obtain rfl := Option.some.inj (hmax'.symm.trans hmax)
    exact ⟨hlimits, hle, hge⟩
  · rintro ⟨hlimits, hle, hge⟩
    exact ⟨_, _, (limits_eq hlimits).1, (limits_eq hlimits).2, hle, hge⟩

omit [Target] in
lemma inRange_of_limits {t : PrimType} {lo hi : Int} (hmin : getIntPrimTypeMin t = some lo)
    (hmax : getIntPrimTypeMax t = some hi) (v : Int) : InRange t v ↔ lo ≤ v ∧ v ≤ hi := by
  simp [InRange, hmin, hmax]

omit [Target] in
lemma inRange_u1_iff (v : Int) : InRange .u1 v ↔ 0 ≤ v ∧ v < 2 := by
  have hlimits : InRange .u1 v ↔ 0 ≤ v ∧ v ≤ 1 := inRange_of_limits rfl rfl v
  rw [hlimits]
  omega

omit [Target] in
lemma inRange_i8_iff (v : Int) : InRange .i8 v ↔ -2 ^ 7 ≤ v ∧ v < 2 ^ 7 := by
  have hlimits : InRange .i8 v ↔ -2 ^ 7 ≤ v ∧ v ≤ 2 ^ 7 - 1 := inRange_of_limits rfl rfl v
  rw [hlimits]
  omega

omit [Target] in
lemma inRange_u8_iff (v : Int) : InRange .u8 v ↔ 0 ≤ v ∧ v < 2 ^ 8 := by
  have hlimits : InRange .u8 v ↔ 0 ≤ v ∧ v ≤ 2 ^ 8 - 1 := inRange_of_limits rfl rfl v
  rw [hlimits]
  omega

/-- The number of bits of the nearest type. -/
def nearestWidth (bitSize : Nat) : Nat :=
  if bitSize = 1 then 1 else if bitSize ≤ 8 then 8 else if bitSize ≤ 16 then 16
  else if bitSize ≤ 32 then 32 else 64

lemma getNearestSizePtyp_spec {t : PrimType} (ht : t.isPrimitiveInteger = true) {s : Nat}
    (hs : s ≤ 64) : HasLimits (getNearestSizePtyp s t) ∧
      (getNearestSizePtyp s t).format = ⟨nearestWidth s, decide (s ≠ 1) && t.isSignedInteger⟩ := by
  have hfloat : isPrimitiveFloat t = false := by
    cases t <;> first | rfl | cases ht
  by_cases h1 : s = 1
  · subst h1
    exact ⟨Or.inl rfl, rfl⟩
  simp only [getNearestSizePtyp, nearestWidth, h1, hfloat, hs, if_true, if_false,
    Bool.false_eq_true]
  cases t.isSignedInteger <;> split_ifs <;>
    simp [h1, HasLimits, PrimType.format, PrimType.actualBitSize, PrimType.size,
      PrimType.isSignedInteger, PrimType.isUnsigned, PrimType.isInteger] at *

omit [Target] in
lemma getNearestSizePtyp_of_le (t : PrimType) {s : Nat} (hs : 1 ≤ s ∧ s ≤ 8) :
    getNearestSizePtyp s t =
      if s = 1 then .u1 else if t.isSignedInteger then .i8 else .u8 := by
  simp [getNearestSizePtyp, hs.2]

omit [Target] in
lemma not_hasLimits_getNearestSizePtyp {t : PrimType} (ht : t.isPrimitiveInteger = true) {s : Nat}
    (hs : 64 < s) (hs' : s ≤ 128) : ¬HasLimits (getNearestSizePtyp s t) := by
  have hfloat : isPrimitiveFloat t = false := by
    cases t <;> first | rfl | cases ht
  simp only [getNearestSizePtyp, hfloat, show s ≠ 1 by omega, show ¬s ≤ 8 by omega,
    show ¬s ≤ 16 by omega, show ¬s ≤ 32 by omega, show ¬s ≤ 64 by omega, hs', if_false, if_true,
    Bool.false_eq_true]
  split <;> simp [HasLimits]

/-! ### Conversions -/

lemma size_cases (t : PrimType) : t.size ≤ 4 ∨ t.size = 8 ∨ t.size = 16 := by
  have hptr := Target.pointerSize_eq
  cases t <;> simp [PrimType.size]
  all_goals omega

lemma width_le (t : PrimType) : t.format.width ≤ 8 * t.size := by
  simp only [PrimType.format, PrimType.actualBitSize]
  split
  · next h =>
    subst h
    simp [PrimType.size]
  · omega

lemma one_le_size {t : PrimType} (ht : t.isPrimitiveInteger = true) : 1 ≤ t.size := by
  have hcases := PrimType.width_cases ht
  have hle := width_le t
  omega

lemma width_eq_of_one_lt {t : PrimType} (h : 1 < t.size) : t.format.width = 8 * t.size := by
  have hne : t ≠ .u1 := by
    rintro rfl
    simp [PrimType.size] at h
  rw [PrimType.format, PrimType.actualBitSize, if_neg hne, Nat.mul_comm]

omit [Target] in
lemma mem_bounds {f : IntFormat} {v : Int} (h : f.Mem v) :
    -2 ^ f.width ≤ v ∧ v < 2 ^ f.width := by
  have hpos := f.modulus_pos'
  have hpow : (f.modulus : Int) = 2 ^ f.width := by simp [IntFormat.modulus]
  obtain ⟨hmin, hmax⟩ := h
  unfold IntFormat.minValue at hmin
  unfold IntFormat.maxValue at hmax
  rw [hpow] at hpos hmin hmax
  generalize (2 : Int) ^ f.width = m at *
  constructor
  · split at hmin <;> omega
  · split at hmax <;> omega

/-- A number is kept in a larger type unless it is negative and becomes unsigned. Then it is beyond
the limits of all smaller types. -/
lemma inRange_wrap_iff {t f t' : PrimType} (hf : f.isPrimitiveInteger = true)
    (hsize : f.size < t.size) (hsize' : t'.size ≤ f.size) {v : Int} (hv : f.format.Mem v) :
    InRange t' (t.format.wrap v) ↔ (t.isSignedInteger = true ∨ 0 ≤ v) ∧ InRange t' v := by
  have hone := one_le_size hf
  have hW := width_eq_of_one_lt (show 1 < t.size by omega)
  have hw := width_le f
  have hw' := width_le t'
  have hpow : (2 : Int) ^ f.format.width ≤ 2 ^ (t.format.width - 1) :=
    pow_le_pow_right₀ (by decide) (by omega)
  have hpow' : (2 : Int) ^ t'.format.width ≤ 2 ^ (t.format.width - 2) :=
    pow_le_pow_right₀ (by decide) (by omega)
  have hpow'' : (2 : Int) ^ f.format.width ≤ 2 ^ (t.format.width - 2) :=
    pow_le_pow_right₀ (by decide) (by omega)
  have hhalf : (2 : Int) ^ t.format.width = 4 * 2 ^ (t.format.width - 2) := by
    rw [show t.format.width = t.format.width - 2 + 2 by omega, pow_add]
    simp [mul_comm]
  have hquarter : (2 : Int) ^ (t.format.width - 1) = 2 * 2 ^ (t.format.width - 2) := by
    rw [show t.format.width - 1 = t.format.width - 2 + 1 by omega, pow_succ, mul_comm]
  have hpos : (0 : Int) < 2 ^ (t.format.width - 2) := by positivity
  obtain ⟨hlo, hhi⟩ := mem_bounds hv
  by_cases hsigned : t.isSignedInteger = true
  · have hmem : t.format.Mem v := by
      have hformat : t.format = ⟨t.format.width, true⟩ := by
        simp [PrimType.format, hsigned]
      rw [hformat, IntFormat.mem_signed_iff (show 0 < t.format.width by omega)]
      omega
    simp [hsigned, IntFormat.wrap_of_mem _ hmem]
  have hformat : t.format = ⟨t.format.width, false⟩ := by
    simp [PrimType.format, hsigned]
  by_cases hneg : 0 ≤ v
  · have hmem : t.format.Mem v := by
      rw [hformat, IntFormat.mem_unsigned_iff]
      omega
    simp [hneg, IntFormat.wrap_of_mem _ hmem]
  have hwrap : t.format.wrap v = v + 2 ^ t.format.width := by
    have hmod : (t.format.modulus : Int) = 2 ^ t.format.width := by simp [IntFormat.modulus]
    rw [IntFormat.wrap_of_lt, hmod]
    · rw [hformat]
      simpa [IntFormat.minValue] using hneg
    · rw [hmod, hformat]
      simp only [IntFormat.minValue, Bool.false_eq_true, if_false]
      omega
  simp only [hsigned, hneg, Bool.false_eq_true, or_self, false_and, iff_false]
  intro hrange
  have hmem := ((inRange_iff_mem t' _).mp hrange).2
  have hlt := (mem_bounds hmem).2
  omega

/-! ### Extractions -/

omit [Target] in
lemma le_nearestWidth {s : Nat} (hs : s ≤ 64) : s ≤ nearestWidth s := by
  unfold nearestWidth
  split_ifs <;> omega

lemma nearestWidth_le {t : PrimType} (ht : t.isPrimitiveInteger = true) {s : Nat} (hs : 0 < s)
    (hs' : s ≤ t.format.width) (hs'' : s ≤ 64) : nearestWidth s ≤ t.format.width := by
  have hcases := PrimType.width_cases ht
  unfold nearestWidth
  split_ifs <;> omega

omit [Target] in
lemma nearestWidth_eq_iff {s : Nat} (hs : s ≠ 1) (hs' : s ≤ 64) :
    nearestWidth s = s ↔ s ∈ [8, 16, 32, 64] := by
  simp only [List.mem_cons, List.not_mem_nil, or_false]
  unfold nearestWidth
  split_ifs <;> omega

omit [Target] in
lemma wrap_field {s : Nat} (hs : 0 < s) (signed : Bool) (x : Int) :
    (⟨s, signed⟩ : IntFormat).wrap x =
      if signed = true ∧ ¬x % 2 ^ s < 2 ^ (s - 1) then x % 2 ^ s - 2 ^ s else x % 2 ^ s := by
  have hhalf : (2 : Int) ^ s = 2 * 2 ^ (s - 1) := by
    rw [← pow_succ', Nat.sub_add_cancel hs]
  have hmod : ((⟨s, signed⟩ : IntFormat).modulus : Int) = 2 ^ s := by simp [IntFormat.modulus]
  cases signed with
  | false => simp [IntFormat.wrap, hmod]
  | true =>
    have hcond : (2 ^ s + 1) / 2 = (2 : Int) ^ (s - 1) := by omega
    simp only [IntFormat.wrap, if_true, true_and, Int.bmod, hmod, hcond]
    split_ifs <;> rfl

lemma format_eq_of_width_eq {t : PrimType} {s : Nat} (h : nearestWidth s = t.format.width) :
    (⟨nearestWidth s, decide (s ≠ 1) && t.isSignedInteger⟩ : IntFormat) = t.format := by
  by_cases hs : s = 1
  · have ht : t = .u1 := by
      by_contra hne
      simp only [hs, nearestWidth, if_true, PrimType.format, PrimType.actualBitSize, hne,
        if_false] at h
      omega
    subst hs ht
    rfl
  · rw [h]
    simp [hs, PrimType.format]

lemma inRange_field_iff {t : PrimType} (ht : t.isPrimitiveInteger = true) (op : ExtractOp)
    {s : Nat} (hs : 0 < s) (hle : s ≤ t.format.width) (x : Int) :
    InRange (getNearestSizePtyp s t)
        (t.format.wrap ((⟨s, op.isSigned t⟩ : IntFormat).wrap x)) ↔
      s ≤ 64 ∧ KeepsField op t s x := by
  have hcases := PrimType.width_cases ht
  by_cases hs64 : s ≤ 64
  swap
  · have hno := not_hasLimits_getNearestSizePtyp ht (show 64 < s by omega) (by omega)
    simp [inRange_iff_mem, hno, hs64]
  obtain ⟨hlimits, hformat⟩ := getNearestSizePtyp_spec ht hs64
  have hN := le_nearestWidth hs64
  have hNW := nearestWidth_le ht hs hle hs64
  simp only [inRange_iff_mem, hlimits, hs64, true_and, KeepsField, hformat]
  rcases hNW.eq_or_lt with heq | hlt
  · rw [format_eq_of_width_eq heq]
    simp [heq, IntFormat.wrap_mem]
  have hhalf : (2 : Int) ^ s = 2 * 2 ^ (s - 1) := by
    rw [← pow_succ', Nat.sub_add_cancel hs]
  have hpos : (0 : Int) < 2 ^ (s - 1) := by positivity
  have hu := Int.emod_nonneg x (show (2 : Int) ^ s ≠ 0 by positivity)
  have hu' := Int.emod_lt_of_pos x (show (0 : Int) < 2 ^ s by positivity)
  have hsN : (2 : Int) ^ s ≤ 2 ^ nearestWidth s := pow_le_pow_right₀ (by decide) hN
  have hNW' : (2 : Int) ^ nearestWidth s ≤ 2 ^ (t.format.width - 1) :=
    pow_le_pow_right₀ (by decide) (by omega)
  rw [wrap_field hs]
  generalize hx : x % 2 ^ s = u at *
  cases hsigned : t.isSignedInteger with
  | true =>
    have hkeep : ∀ v : Int, -2 ^ s ≤ v → v < 2 ^ s → t.format.wrap v = v := by
      intro v hlo hhi
      apply IntFormat.wrap_of_mem
      have hformat : t.format = ⟨t.format.width, true⟩ := by
        simp [PrimType.format, hsigned]
      rw [hformat, IntFormat.mem_signed_iff (show 0 < t.format.width by omega)]
      omega
    rw [hkeep _ (by split_ifs <;> omega) (by split_ifs <;> omega)]
    by_cases hone : s = 1
    · subst hone
      cases op.isSigned t <;>
        simp [nearestWidth, IntFormat.mem_unsigned_iff] at hu' hlt ⊢
      · omega
      · split_ifs <;> omega
    have hP : (2 : Int) ^ (s - 1) ≤ 2 ^ (nearestWidth s - 1) :=
      pow_le_pow_right₀ (by decide) (by omega)
    simp only [hone, ne_eq, not_false_eq_true, decide_true, Bool.and_true, true_implies, false_or,
      and_true, ← nearestWidth_eq_iff hone hs64,
      IntFormat.mem_signed_iff (show 0 < nearestWidth s by omega)]
    cases op.isSigned t with
    | true =>
      simp only [true_and, if_true, or_true, iff_true]
      split_ifs <;> omega
    | false =>
      simp only [Bool.false_eq_true, false_and, if_false]
      rcases hN.eq_or_lt with heq | hlt'
      · rw [← heq] at hlt ⊢
        omega
      · have hle' : (2 : Int) ^ s ≤ 2 ^ (nearestWidth s - 1) :=
          pow_le_pow_right₀ (by decide) (by omega)
        simp only [hlt'.ne', not_false_eq_true, or_true, iff_true]
        omega
  | false =>
    simp only [Bool.and_false, IntFormat.mem_unsigned_iff, Bool.false_eq_true, false_implies,
      false_and]
    have hformat : t.format = ⟨t.format.width, false⟩ := by
      simp [PrimType.format, hsigned]
    have hmod : (t.format.modulus : Int) = 2 ^ t.format.width := by simp [IntFormat.modulus]
    have hW : (2 : Int) ^ t.format.width = 2 * 2 ^ (t.format.width - 1) := by
      rw [← pow_succ', Nat.sub_add_cancel (by omega)]
    by_cases hclear : op.isSigned t = true ∧ ¬u < 2 ^ (s - 1)
    · have hwrap : t.format.wrap (u - 2 ^ s) = u - 2 ^ s + 2 ^ t.format.width := by
        rw [IntFormat.wrap_of_lt, hmod]
        · rw [hformat]
          simp only [IntFormat.minValue, Bool.false_eq_true, if_false]
          omega
        · rw [hmod, hformat]
          simp only [IntFormat.minValue, Bool.false_eq_true, if_false]
          omega
      rw [if_pos hclear, hwrap]
      simp [hclear.1, hclear.2, hlt.ne]
      omega
    · have hwrap : t.format.wrap u = u := by
        apply IntFormat.wrap_of_mem
        rw [hformat, IntFormat.mem_unsigned_iff]
        omega
      rw [if_neg hclear, hwrap]
      rw [not_and_not_right] at hclear
      refine iff_of_true (by omega) ?_
      cases hop : op.isSigned t with
      | true => exact Or.inl (hclear hop)
      | false => exact Or.inr (Or.inr (by simp))

/-! ### The range of an expression -/

section

variable (sem : ν → List Int → Int) {ρ : ω → Int}

lemma Expr.isPrimitiveInteger_of_wellTyped {e : Expr ω ν} (h : e.WellTyped ρ) :
    e.getPrimType.isPrimitiveInteger = true := by
  cases e with
  | other => exact h
  | _ => exact h.1

lemma Expr.eval_mem {e : Expr ω ν} (h : e.WellTyped ρ) :
    e.getPrimType.format.Mem (e.eval sem ρ) := by
  cases e with
  | leaf => exact h.2
  | typeCvt => exact IntFormat.wrap_mem _ _
  | extract => exact IntFormat.wrap_mem _ _
  | other => exact IntFormat.wrap_mem _ _

lemma le_of_findMaxTypeSize {p m n : Nat} (hm : 1 ≤ m ∧ m ≤ 8) (hp : p ≤ 16)
    {opnds : List (Expr ω ν)} (h : Expr.findMaxTypeSize p m opnds = some n) : 1 ≤ n ∧ n ≤ 8 := by
  induction opnds generalizing m with
  | nil =>
    rw [Expr.findMaxTypeSize] at h
    cases h
    exact hm
  | cons opnd opnds ih =>
    have hsize := size_cases opnd.getExprValueRangePtyp
    rw [Expr.findMaxTypeSize] at h
    split_ifs at h
    · cases h
      omega
    · exact ih ⟨by omega, by omega⟩ h
    · exact ih hm h

omit ν ω in
lemma size_getNearestSizePtyp_le {t : PrimType} (ht : t.isPrimitiveInteger = true) {s : Nat}
    (hs : s ≤ t.format.width) : (getNearestSizePtyp s t).size ≤ t.size := by
  have hcases := PrimType.width_cases ht
  have hle := width_le t
  have hfloat : isPrimitiveFloat t = false := by
    cases t <;> first | rfl | cases ht
  simp only [getNearestSizePtyp, hfloat, Bool.false_eq_true, if_false]
  generalize hsize : t.size = size at hle ⊢
  split_ifs <;> try simp only [PrimType.size]
  all_goals omega

lemma size_getExprValueRangePtyp_le :
    ∀ {e : Expr ω ν}, e.WellTyped ρ → e.getExprValueRangePtyp.size ≤ e.getPrimType.size
  | .leaf _ _, _ => by
    rw [Expr.getExprValueRangePtyp, Expr.getPrimType]
  | .typeCvt t fromType opnd, h => by
    have hopnd := size_getExprValueRangePtyp_le h.2.2
    rw [h.2.1] at hopnd
    rw [Expr.getExprValueRangePtyp, Expr.getPrimType]
    split <;> omega
  | .extract _ t bitsSize _, h => by
    rw [Expr.getExprValueRangePtyp]
    exact size_getNearestSizePtyp_le h.1 h.2.2.1
  | .other t op opnds, h => by
    rw [Expr.getExprValueRangePtyp, Expr.getPrimType]
    split
    · next maxTypeSize hfind =>
      have hsize := size_cases t
      have hone := one_le_size h
      have hmax := le_of_findMaxTypeSize ⟨le_rfl, by decide⟩ (by omega) hfind
      rw [getNearestSizePtyp_of_le t hmax]
      split_ifs <;> exact hone
    · exact le_rfl

lemma hasLimits_iff (t : PrimType) {v : Int} (h : t.format.Mem v) :
    InRange t v ↔ HasLimits t := by
  simp [inRange_iff_mem, h]

end

end ExprValueRange
end Maple
