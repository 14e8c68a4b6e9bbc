import Maple.ME.ValueRange.Constant
import Maple.IR.Opcode

/-!
# Bounds of value ranges

A bound is an optional variable with an `int64` constant, read in a primitive type.
-/

namespace Maple

structure Bound (Var : Type) where
  var : Option Var
  constant : Int64
  primType : PrimType
  deriving DecidableEq, Repr

namespace Bound

variable {Var : Type} [Target]

def isEqualAfterCVT (b : Bound Var) (fromType toType : PrimType) : Bool :=
  if !fromType.isNeeded || !toType.isNeeded then false
  else if fromType = toType then true
  else if fromType.isSignedInteger && toType.isUnsignedInteger && b.constant < 0 then false
  else if fromType.isUnsignedInteger && toType.isSignedInteger then
    if fromType.size < toType.size then true
    else b.constant.asUInt64 ≤ toType.maxNumber.asUInt64
  else PrimType.realValue b.constant fromType == PrimType.realValue b.constant toType

/-- The comparisons of two bounds in a type, which all fail if one of them changes its value in
that type. -/
def compare (op : CmpOp) (a b : Bound Var) (t : PrimType) : Bool :=
  (a.isEqualAfterCVT a.primType t && b.isEqualAfterCVT b.primType t) &&
    if t.isUint64 then op.eval a.constant.asUInt64 b.constant.asUInt64
    else op.eval (PrimType.realValue a.constant t).toInt (PrimType.realValue b.constant t).toInt

def isGreaterThan (a b : Bound Var) (t : PrimType) : Bool := compare .gt a b t

def isLessThanOrEqualTo (a b : Bound Var) (t : PrimType) : Bool := compare .le a b t

def isLessThan (a b : Bound Var) (t : PrimType) : Bool := compare .lt a b t

def isGreaterThanOrEqualTo (a b : Bound Var) (t : PrimType) : Bool := compare .ge a b t

def isEqual (a b : Bound Var) (t : PrimType) : Bool := compare .eq a b t

def isEqualToMax (b : Bound Var) (t : PrimType) : Bool :=
  b.isEqualAfterCVT b.primType t &&
    if t.isUint64 then b.constant.asUInt64 == t.maxNumber.asUInt64
    else PrimType.realValue b.constant t == PrimType.realValue t.maxNumber t

def isEqualToMin (b : Bound Var) (t : PrimType) : Bool :=
  b.isEqualAfterCVT b.primType t &&
    if t.isUint64 then b.constant.asUInt64 == t.minNumber.asUInt64
    else PrimType.realValue b.constant t == PrimType.realValue t.minNumber t

def minBound (t : PrimType) : Bound Var := ⟨none, t.minNumber, t⟩

def maxBound (t : PrimType) : Bound Var := ⟨none, t.maxNumber, t⟩

/-! ### Meaning -/

/-- The value of a bound: that of its constant, or the value of its variable shifted by the
(signed) constant. -/
def value (env : Var → Int) (b : Bound Var) : Int :=
  match b.var with
  | none => b.primType.read b.constant
  | some x => env x + b.constant.toInt

/-- The bound is one of type `t`, and if it is constant, it is a value of `t`. -/
structure OfType (b : Bound Var) (t : PrimType) : Prop where
  primType_eq : b.primType = t
  inType : b.var = none → t.InType b.constant

lemma value_of_var_eq_none {env : Var → Int} {b : Bound Var} (h : b.var = none) :
    b.value env = b.primType.read b.constant := by
  rw [value, h]

lemma value_of_var_eq_some {env : Var → Int} {b : Bound Var} {x : Var} (h : b.var = some x) :
    b.value env = env x + b.constant.toInt := by
  rw [value, h]

lemma OfType.value_eq_read {b : Bound Var} {t : PrimType} (hb : b.OfType t) (hvar : b.var = none)
    (env : Var → Int) : b.value env = t.read b.constant := by
  rw [value_of_var_eq_none hvar, hb.primType_eq]

lemma compare_eq (op : CmpOp) (a b : Bound Var) (t : PrimType) :
    compare op a b t = ((a.isEqualAfterCVT a.primType t && b.isEqualAfterCVT b.primType t) &&
      op.eval (t.read a.constant) (t.read b.constant)) := by
  unfold compare PrimType.read
  split <;> rfl

lemma isEqualAfterCVT_iff {fromType toType : PrimType} (hf : fromType.isNeeded)
    (ht : toType.isNeeded) {b : Bound Var} (hin : fromType.InType b.constant) :
    b.isEqualAfterCVT fromType toType ↔
      toType.read b.constant = fromType.read b.constant := by
  have hneg : b.constant < 0 ↔ b.constant.toInt < 0 := by
    rw [Int64.lt_iff_toInt_lt, Int64.toInt_zero]
  have hreal : PrimType.realValue b.constant fromType == PrimType.realValue b.constant toType ↔
      toType.InType b.constant := by
    rw [beq_iff_eq, hin, PrimType.InType, eq_comm]
  simp only [isEqualAfterCVT, hf, ht, Bool.not_true, Bool.or_self, Bool.false_eq_true, ↓reduceIte]
  by_cases hsame : fromType = toType
  · simp [hsame]
  rw [if_neg hsame, PrimType.read_eq_read_iff ht hin]
  rcases fromType.signed_or_unsigned hf with ⟨hfs, hfu⟩ | ⟨hfu, hfs⟩ <;>
    rcases toType.signed_or_unsigned ht with ⟨hts, htu⟩ | ⟨htu, hts⟩ <;>
    simp only [hfs, hfu, hts, htu, Bool.false_and, Bool.true_and, Bool.false_eq_true, ↓reduceIte,
      decide_eq_true_eq]
  · -- both signed
    rw [hreal, PrimType.inType_iff_mem ht (toType.not_isUint64_of_isSignedInteger hts),
      PrimType.read_of_inType (fromType.not_isUint64_of_isSignedInteger hfs) hin]
  · -- signed to unsigned: a negative constant changes, any other one does not need a sign
    rw [PrimType.read_of_inType (fromType.not_isUint64_of_isSignedInteger hfs) hin]
    by_cases hc : b.constant < 0
    · have hmin := toType.minValue_of_isUnsignedInteger htu
      rw [if_pos hc, IntFormat.Mem]
      rw [hneg] at hc
      simp only [Bool.false_eq_true, false_iff]
      omega
    · rw [if_neg hc, hreal]
      exact PrimType.inType_iff_mem_of_nonneg ht (not_lt.mp (mt hneg.mpr hc))
  · -- unsigned to signed
    rw [PrimType.read_of_isUnsignedInteger hf hfu hin]
    have hmin := toType.format.minValue_nonpos
    by_cases hsize : fromType.size < toType.size
    · have hle := PrimType.maxValue_le_of_size_lt ht hfu hts hsize
      have hmem := PrimType.read_mem hf b.constant
      rw [PrimType.read_of_isUnsignedInteger hf hfu hin] at hmem
      unfold IntFormat.Mem at hmem ⊢
      rw [if_pos hsize]
      simp only [true_iff]
      omega
    · rw [if_neg hsize, decide_eq_true_eq, IntFormat.Mem]
      have hmax := PrimType.asUInt64_maxNumber ht hts
      omega
  · -- both unsigned
    rw [hreal, PrimType.read_of_isUnsignedInteger hf hfu hin]
    exact PrimType.inType_iff_mem_asUInt64 ht htu _

/-! ### Constant bounds -/

/-- The bound is a constant of the type. -/
structure IsConst (b : Bound Var) (t : PrimType) : Prop where
  var_eq : b.var = none
  ofType : b.OfType t

variable {t : PrimType} {b : Bound Var}

lemma IsConst.inType (h : b.IsConst t) : t.InType b.constant := h.ofType.inType h.var_eq

lemma IsConst.value_eq (env : Var → Int) (h : b.IsConst t) : b.value env = t.read b.constant :=
  h.ofType.value_eq_read h.var_eq env

lemma isConst_minBound (hn : t.isNeeded) : (minBound t : Bound Var).IsConst t :=
  ⟨rfl, rfl, fun _ => (PrimType.minNumber_spec hn).1⟩

lemma isConst_maxBound (hn : t.isNeeded) : (maxBound t : Bound Var).IsConst t :=
  ⟨rfl, rfl, fun _ => (PrimType.maxNumber_spec hn).1⟩

lemma IsConst.mem (env : Var → Int) (hn : t.isNeeded) (h : b.IsConst t) :
    t.format.Mem (b.value env) :=
  (h.value_eq env) ▸ PrimType.read_mem hn b.constant

lemma value_minBound (env : Var → Int) (hn : t.isNeeded) :
    (minBound t : Bound Var).value env = t.format.minValue :=
  (PrimType.minNumber_spec hn).2

lemma value_maxBound (env : Var → Int) (hn : t.isNeeded) :
    (maxBound t : Bound Var).value env = t.format.maxValue :=
  (PrimType.maxNumber_spec hn).2

end Bound
end Maple
