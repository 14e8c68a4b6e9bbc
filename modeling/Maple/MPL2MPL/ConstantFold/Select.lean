import Maple.IR.FloatConst
import Maple.IR.PrimType
import Maple.Util.IntVal.Extremal

/-!
# Folding of `select`

`ConstantFold::FoldTernary` and `ConstantFold::SimplifyCondGotoSelect` (`constantfold.cpp`). A
select of one and zero becomes its condition, and a select of zero and one the comparison of its
condition with zero.
-/

namespace Maple
namespace FoldTernary

open IntVal (Shape shapeOf shapeOf_eq)

/-- A value: an integer, or the pattern of what is no integer. -/
inductive Value where
  | int (v : Int)
  | pattern (bits : Nat)
  deriving DecidableEq, Repr

namespace Value

def toInt : Value → Int
  | int v => v
  | pattern bits => bits

/-- The values of a type. -/
def OfType (t : PrimType) : Value → Prop
  | int _ => t.isPrimitiveInteger = true
  | pattern _ => t.isPrimitiveInteger = false

@[simp] lemma toInt_int (v : Int) : (int v).toInt = v := rfl

variable [Target]

/-- A value in a type. -/
def cast (t : PrimType) : Value → Value
  | int v => int (t.format.wrap v)
  | pattern bits => pattern bits

@[simp] lemma cast_int (t : PrimType) (v : Int) : (int v).cast t = int (t.format.wrap v) := rfl

@[simp] lemma cast_pattern (t : PrimType) (bits : Nat) : (pattern bits).cast t = pattern bits := rfl

end Value

/-- The constants that the folding tells apart. -/
inductive MIRConst where
  | int (value : IntVal)
  | float (value : MIRFloatConst)
  | double (value : MIRDoubleConst)
  | other (value : Value)

namespace MIRConst

def value : MIRConst → Value
  | int value => .int value.toInt
  | float value => .pattern value.intValue.toNat
  | double value => .pattern value.intValue.toNat
  | other value => value

/-- The constants of a type. -/
def OfType (t : PrimType) : MIRConst → Prop
  | int value => t.isPrimitiveInteger = true ∧ value.Canonical ∧ value.shape.IsPrim
  | float _ => t = .f32
  | double _ => t = .f64
  | other _ => t.isPrimitiveInteger = false ∧ t ≠ .f32 ∧ t ≠ .f64

end MIRConst

/-- The expressions that the folding looks at or builds. -/
inductive Expr (ω : Type) where
  | other (primType : PrimType) (e : ω)
  | constval (primType : PrimType) (constVal : MIRConst)
  | neg (primType : PrimType) (opnd : Expr ω)
  | add (primType : PrimType) (opnd0 opnd1 : Expr ω)
  | sub (primType : PrimType) (opnd0 opnd1 : Expr ω)
  | eq (primType opndType : PrimType) (opnd0 opnd1 : Expr ω)
  | cvt (primType fromType : PrimType) (opnd : Expr ω)
  | select (primType : PrimType) (opnd0 opnd1 opnd2 : Expr ω)

/-- The formats of `f32` and `f64`. -/
def floatFormat : PrimType → Option BinaryFormat
  | .f32 => some single
  | .f64 => some double
  | _ => none

variable {ω : Type}

namespace Expr

def getPrimType : Expr ω → PrimType
  | other t _ | constval t _ | neg t _ | add t _ _ | sub t _ _ | eq t _ _ _ | cvt t _ _
  | select t _ _ _ => t

variable [Target]

/-- The value of an expression, where an environment gives those of the other ones. -/
def eval (ρ : ω → Value) : Expr ω → Value
  | other _ e => ρ e
  | constval _ constVal => constVal.value
  | neg t opnd => .int (t.format.wrap (-(opnd.eval ρ).toInt))
  | add t opnd0 opnd1 => .int (t.format.wrap ((opnd0.eval ρ).toInt + (opnd1.eval ρ).toInt))
  | sub t opnd0 opnd1 => .int (t.format.wrap ((opnd0.eval ρ).toInt - (opnd1.eval ρ).toInt))
  | eq _ _ opnd0 opnd1 => .int (if (opnd0.eval ρ).toInt = (opnd1.eval ρ).toInt then 1 else 0)
  | cvt t _ opnd =>
    match floatFormat t with
    | some F => .pattern (F.ofInt (opnd.eval ρ).toInt)
    | none => .int (t.format.wrap (opnd.eval ρ).toInt)
  | select t opnd0 opnd1 opnd2 =>
    if (opnd0.eval ρ).toInt ≠ 0 then (opnd1.eval ρ).cast t else (opnd2.eval ρ).cast t

end Expr

/-- What `DispatchFold` returns: an expression and a constant that is to be added to it. -/
abbrev Pair (ω : Type) := Expr ω × Option IntVal

variable [Target]

/-! ### Pairs -/

def createIntConst (val : UInt64) (t : PrimType) : Option (Expr ω) := do
  let type ← shapeOf t.format.width t.format.signed
  return .constval t (.int (IntVal.ofNumber type val))

/-- The test of `PairToExpr` whether the constant is added; otherwise its negation is
subtracted. -/
def isAdded (resultType : PrimType) (val : IntVal) : Option Bool :=
  if !val.getSignBit && decide (0 < (val.getSXTValue resultType.bitSize).toInt) then some true
  else do
    let type ← shapeOf resultType.format.width resultType.format.signed
    let inType ← val.truncOrExtend type
    return inType.isMinValue || val.getSXTValue 0 == Int64.minValue

/-- The sum that `PairToExpr` builds. -/
def sumToExpr (resultType : PrimType) (e : Expr ω) (val : IntVal) : Option (Expr ω) := do
  if ← isAdded resultType val then
    -- +-a, 5 -> a + 5
    return .add resultType e (← createIntConst (val.getExtValue 0).toUInt64 resultType)
  else
    -- +-a, -5 -> a + -5
    return .sub resultType e (← createIntConst (val.neg.getExtValue 0).toUInt64 resultType)

def pairToExpr (resultType : PrimType) (pair : Pair ω) : Option (Expr ω) :=
  match pair.2 with
  | none => some pair.1
  | some val =>
    if val.eqNumber 0 then some pair.1
    else
      match pair.1 with
      | .neg t a =>
        if !val.getSignBit then
          -- -a, 5 -> 5 - a
          (createIntConst (val.getExtValue 0).toUInt64 resultType).map (.sub resultType · a)
        else sumToExpr resultType (.neg t a) val
      | e => sumToExpr resultType e val

/-! ### `FoldTernary` -/

/-- What the two arms are compared with. -/
inductive Arms where
  | oneZero | zeroOne | others
  deriving DecidableEq, Repr

/-- The numbers `dconst1` and `dconst2`; a cast to the class of the other constant is a null
pointer. -/
def dconsts (ptyp : PrimType) (c1 c2 : MIRConst) :
    Option (BinaryFormat.Datum × BinaryFormat.Datum) :=
  match c1, c2 with
  | .int v1, .int v2 =>
    some (double.datum (double.ofInt (v1.getExtValue 0).toInt),
      double.datum (double.ofInt (v2.getExtValue 0).toInt))
  | _, _ =>
    if ptyp = .f64 then
      match c1, c2 with
      | .double d1, .double d2 =>
        some (double.datum d1.intValue.toNat, double.datum d2.intValue.toNat)
      | _, _ => none
    else if ptyp = .f32 then
      match c1, c2 with
      | .float f1, .float f2 =>
        -- the conversion to double is exact
        some (single.datum f1.intValue.toNat, single.datum f2.intValue.toNat)
      | _, _ => none
    else some (.finite false 0, .finite false 0)

/-- The comparisons of the two numbers. -/
def compareArms (dconst1 dconst2 : BinaryFormat.Datum) : Arms :=
  if dconst1.beq (.finite false 1) && dconst2.beq (.finite false 0) then .oneZero
  else if dconst1.beq (.finite false 0) && dconst2.beq (.finite false 1) then .zeroOne
  else .others

/-- The arms after folding. Only two constants are compared. -/
def armsOf (e1 e2 : Expr ω) : Option Arms :=
  match e1, e2 with
  | .constval ptyp c1, .constval _ c2 =>
    (dconsts ptyp c1 c2).map fun dconst => compareArms dconst.1 dconst.2
  | _, _ => some .others

section Fold

variable (dispatchFold : Expr ω → Pair ω)

/-- The comparison `lnot`. -/
def lnotOf (t0 : PrimType) (p0 : Pair ω) : Option (Expr ω) := do
  return .eq t0 t0 (← pairToExpr t0 p0) (← createIntConst 0 t0)

/-- What `FoldTernary` makes of a select whose condition is not constant. Where no operand changes,
the node is returned, which is then the one that would be built. -/
def foldArms (primType : PrimType) (opnd0 opnd1 opnd2 : Expr ω) (arms : Arms) : Option (Expr ω) :=
  let t0 := opnd0.getPrimType
  let t1 := opnd1.getPrimType
  let t2 := opnd2.getPrimType
  let p0 := dispatchFold opnd0
  let foldedPrimType := if t1.isPrimitiveInteger then t1 else t2
  match arms with
  | .oneZero =>
    if foldedPrimType.isPrimitiveInteger then pairToExpr foldedPrimType p0
    else (pairToExpr t0 p0).map (.cvt foldedPrimType t0)
  | .zeroOne => do
    let pairTemp := dispatchFold (← lnotOf t0 p0)
    if foldedPrimType.isPrimitiveInteger then pairToExpr foldedPrimType pairTemp
    else (pairToExpr t0 pairTemp).map (.cvt foldedPrimType t0)
  | .others => do
    let e0 ← pairToExpr t0 p0
    let e1 ← pairToExpr t1 (dispatchFold opnd1)
    let e2 ← pairToExpr t2 (dispatchFold opnd2)
    return .select primType e0 e1 e2

/-- `FoldTernary` on a select. -/
def foldTernary (primType : PrimType) (opnd0 opnd1 opnd2 : Expr ω) : Option (Expr ω) :=
  let p1 := dispatchFold opnd1
  let p2 := dispatchFold opnd2
  match (dispatchFold opnd0).1 with
  | .constval _ (.int intConst0) =>
    if intConst0.eqNumber 0 then pairToExpr opnd2.getPrimType p2
    else pairToExpr opnd1.getPrimType p1
  | .constval _ _ => none
  | _ => do foldArms dispatchFold primType opnd0 opnd1 opnd2 (← armsOf p1.1 p2.1)

end Fold

/-! ### `SimplifyCondGotoSelect` -/

inductive CondGotoOp where
  | brtrue | brfalse
  deriving DecidableEq, Repr

structure CondGotoNode (ω : Type) where
  op : CondGotoOp
  opnd : Expr ω

/-- Whether the branch is taken. -/
def CondGotoNode.Taken (ρ : ω → Value) (node : CondGotoNode ω) : Prop :=
  match node.op with
  | .brtrue => (node.opnd.eval ρ).toInt ≠ 0
  | .brfalse => (node.opnd.eval ρ).toInt = 0

def simplifyCondGotoSelect (node : CondGotoNode ω) : Option (CondGotoNode ω) :=
  match node.opnd with
  | .select _ opnd0 (.constval _ c1) (.constval _ c2) =>
    match c1, c2 with
    | .int intConst1, .int intConst2 =>
      if intConst1.eqNumber 1 && intConst2.eqNumber 0 then some { node with opnd := opnd0 }
      else if intConst1.eqNumber 0 && intConst2.eqNumber 1 then
        some ⟨if node.op = .brfalse then .brtrue else .brfalse, opnd0⟩
      else some node
    | _, _ => none
  | _ => some node

/-! ### When the value is kept -/

/-- Nothing is to be added to the expression of a pair. -/
def NoSplit (pair : Pair ω) : Prop := ∀ val ∈ pair.2, val.eqNumber 0 = true

/-- The types of operands that can stand in one place. -/
def Compatible (t t' : PrimType) : Prop :=
  t.isPrimitiveInteger = true ∧ t'.isPrimitiveInteger = true ∨ t = t'

/-- The pair of an expression has its value, and a constant is all of a pair. -/
structure Folds (ρ : ω → Value) (e : Expr ω) (pair : Pair ω) : Prop where
  value : ∃ e', pairToExpr e.getPrimType pair = some e' ∧ e'.eval ρ = e.eval ρ
  const : ∀ t c, pair.1 = .constval t c → c.OfType t ∧ Compatible t e.getPrimType ∧ NoSplit pair
  split : ∀ val ∈ pair.2, val.Canonical ∧ val.shape.IsPrim

/-- A select of the types that the verifier of the IR asks for. Its operands are folded right, and
the fold of a comparison splits no constant off. -/
structure FoldsOperands (dispatchFold : Expr ω → Pair ω) (ρ : ω → Value) (primType : PrimType)
    (opnd0 opnd1 opnd2 : Expr ω) : Prop where
  isInteger : opnd0.getPrimType.isPrimitiveInteger = true
  value0 : (opnd0.eval ρ).OfType opnd0.getPrimType
  value1 : (opnd1.eval ρ).OfType opnd1.getPrimType
  value2 : (opnd2.eval ρ).OfType opnd2.getPrimType
  compatible1 : Compatible opnd1.getPrimType primType
  compatible2 : Compatible opnd2.getPrimType primType
  const1 : ∀ t c, opnd1 = .constval t c → c.OfType t
  const2 : ∀ t c, opnd2 = .constval t c → c.OfType t
  folds0 : Folds ρ opnd0 (dispatchFold opnd0)
  folds1 : Folds ρ opnd1 (dispatchFold opnd1)
  folds2 : Folds ρ opnd2 (dispatchFold opnd2)
  lnot : ∀ lnot, lnotOf opnd0.getPrimType (dispatchFold opnd0) = some lnot →
    Folds ρ lnot (dispatchFold lnot) ∧ NoSplit (dispatchFold lnot)

/-- The number that is made of a word in a type. -/
def wordNumber (t : PrimType) (word : Int64) : Int :=
  (⟨64, t.format.signed⟩ : IntFormat).wrap word.toInt

/-- The number that `PairToExpr` adds. -/
def addend (t : PrimType) (val : IntVal) : Int :=
  if val.getSignBit = false ∧ 0 < (val.getSXTValue t.bitSize).toInt ∨
      t.format.wrap val.toInt = t.format.minValue ∨ val.getSXTValue 0 = Int64.minValue then
    wordNumber t (val.getExtValue 0)
  else -wordNumber t (val.neg.getExtValue 0)

/-- The number of a pair that is put together in a type. -/
def pairNumber (ρ : ω → Value) (t : PrimType) (pair : Pair ω) : Int :=
  match pair.2 with
  | none => (pair.1.eval ρ).toInt
  | some val =>
    if val.eqNumber 0 then (pair.1.eval ρ).toInt
    else
      match pair.1 with
      | .neg t' a =>
        if val.getSignBit = false then
          t.format.wrap (wordNumber t (val.getExtValue 0) - (a.eval ρ).toInt)
        else t.format.wrap (((Expr.neg t' a).eval ρ).toInt + addend t val)
      | e => t.format.wrap ((e.eval ρ).toInt + addend t val)

/-- What is returned has the value of the operand that the condition selects, and so has the branch
that is left of a branch on the select. -/
def PreservesValue (dispatchFold : Expr ω → Pair ω) (ρ : ω → Value) (primType : PrimType)
    (opnd0 opnd1 opnd2 : Expr ω) : Prop :=
  (∃ e, foldTernary dispatchFold primType opnd0 opnd1 opnd2 = some e ∧
    (e.eval ρ).cast primType = (Expr.select primType opnd0 opnd1 opnd2).eval ρ) ∧
  (primType.isPrimitiveInteger = true → ∀ op, ∃ node,
    simplifyCondGotoSelect ⟨op, .select primType opnd0 opnd1 opnd2⟩ = some node ∧
      (node.Taken ρ ↔ (CondGotoNode.mk op (.select primType opnd0 opnd1 opnd2)).Taken ρ))

/-- If the folded arms look like one and zero, the condition has to be one of the two, also where a
constant that has been split off is added in the type of the arms, and zero must not be negative.
If they look like zero and one, they have to be these numbers. -/
def Condition (dispatchFold : Expr ω → Pair ω) (ρ : ω → Value) (primType : PrimType)
    (opnd0 opnd1 opnd2 : Expr ω) : Prop :=
  let p0 := dispatchFold opnd0
  let t1 := opnd1.getPrimType
  let c := (opnd0.eval ρ).toInt
  let v1 := opnd1.eval ρ
  let v2 := opnd2.eval ρ
  let wrap := primType.format.wrap
  (∀ t cst, p0.1 ≠ .constval t cst) →
    match armsOf (dispatchFold opnd1).1 (dispatchFold opnd2).1 with
    | some .oneZero =>
      if t1.isPrimitiveInteger then
        (c ≠ 0 → wrap (pairNumber ρ t1 p0) = wrap v1.toInt) ∧
          (c = 0 → wrap (pairNumber ρ t1 p0) = wrap v2.toInt)
      else (c ≠ 0 → c = 1) ∧ (c = 0 → v2 = .pattern 0)
    | some .zeroOne =>
      if t1.isPrimitiveInteger then
        (c ≠ 0 → wrap v1.toInt = 0) ∧ (c = 0 → wrap v2.toInt = wrap 1)
      else c ≠ 0 → v1 = .pattern 0
    | _ => True

/-! ### Pairs -/

lemma exists_shape {t : PrimType} (h : t.isPrimitiveInteger = true) :
    ∃ s, shapeOf t.format.width t.format.signed = some s ∧ s.format = t.format ∧ s.IsPrim := by
  have hwidth := PrimType.width_cases h
  obtain ⟨s, hs, hw, hsign⟩ := shapeOf_eq (n := t.format.width) (by omega) (by omega)
    t.format.signed
  have hprim : s.width ≤ 64 ∨ s.width = 128 := by omega
  refine ⟨s, hs, ?_, hprim⟩
  rw [Shape.format, hw, hsign]

lemma createIntConst_spec {t : PrimType} (h : t.isPrimitiveInteger = true) (word : Int64)
    (ρ : ω → Value) :
    ∃ e : Expr ω, createIntConst word.toUInt64 t = some e ∧
      e.eval ρ = .int (t.format.wrap (wordNumber t word)) := by
  obtain ⟨s, hs, hformat, hprim⟩ := exists_shape h
  refine ⟨.constval t (.int (IntVal.ofNumber s word.toUInt64)), ?_, ?_⟩
  · rw [createIntConst, hs]
    rfl
  · have hrep := IntVal.ofNumber_represents hprim word.toUInt64
    have hsign : s.sign = t.format.signed := congrArg IntFormat.signed hformat
    have hword : (⟨64, s.sign⟩ : IntFormat).wrap word.toUInt64.toNat = wordNumber t word := by
      have hnat := Int64.asUInt64_eq word
      rw [Int64.asUInt64] at hnat
      rw [wordNumber, hsign, IntFormat.wrap_eq_wrap_iff, hnat]
      exact Int.emod_emod_of_dvd _ (dvd_refl _)
    rw [Expr.eval, MIRConst.value, hrep.toInt_eq, hformat, hword]

lemma isAdded_spec {t : PrimType} (h : t.isPrimitiveInteger = true) {val : IntVal}
    (hcanon : val.Canonical) (hprim : val.shape.IsPrim) :
    isAdded t val = some (decide (val.getSignBit = false ∧ 0 < (val.getSXTValue t.bitSize).toInt ∨
      t.format.wrap val.toInt = t.format.minValue ∨ val.getSXTValue 0 = Int64.minValue)) := by
  obtain ⟨s, hs, hformat, hsprim⟩ := exists_shape h
  have hcap : val.width ≤ val.storageBits := by
    rw [← IntVal.capacity_shape]
    exact hprim.width_le
  obtain ⟨r, hr, hrep⟩ := IntVal.truncOrExtend_represents hcanon hcap hsprim
  have hmin := IntVal.isMinValue_iff_toInt hrep.canonical hrep.width_le_storageBits
  rw [hrep.toInt_eq, hrep.shape_eq, hformat] at hmin
  rw [isAdded, hs]
  split_ifs with hpos
  · simp only [Bool.and_eq_true, Bool.not_eq_true', decide_eq_true_eq] at hpos
    rw [decide_eq_true (Or.inl hpos)]
  · simp only [Bool.and_eq_true, Bool.not_eq_true', decide_eq_true_eq] at hpos
    simp only [Option.bind_eq_bind, Option.bind_some, hr, Option.pure_def, Option.some.injEq]
    rw [Bool.eq_iff_iff, decide_eq_true_iff, or_iff_right hpos, Bool.or_eq_true, hmin, beq_iff_eq]

lemma sumToExpr_spec {t : PrimType} (h : t.isPrimitiveInteger = true) (ρ : ω → Value)
    (e : Expr ω) {val : IntVal} (hcanon : val.Canonical) (hprim : val.shape.IsPrim) :
    ∃ e', sumToExpr t e val = some e' ∧
      e'.eval ρ = .int (t.format.wrap ((e.eval ρ).toInt + addend t val)) := by
  rw [sumToExpr, isAdded_spec h hcanon hprim, addend]
  split_ifs with hadd
  · obtain ⟨c, hc, hval⟩ := createIntConst_spec (ω := ω) h (val.getExtValue 0) ρ
    refine ⟨.add t e c, ?_, ?_⟩
    · simp [hadd, hc]
    · rw [Expr.eval, hval, Value.toInt_int, IntFormat.wrap_add_wrap]
  · obtain ⟨c, hc, hval⟩ := createIntConst_spec (ω := ω) h (val.neg.getExtValue 0) ρ
    refine ⟨.sub t e c, ?_, ?_⟩
    · simp [hadd, hc]
    · rw [Expr.eval, hval, Value.toInt_int, IntFormat.wrap_sub_wrap, sub_eq_add_neg]

lemma pairToExpr_spec {t : PrimType} (h : t.isPrimitiveInteger = true) (ρ : ω → Value)
    {pair : Pair ω} (hsplit : ∀ val ∈ pair.2, val.Canonical ∧ val.shape.IsPrim) :
    ∃ e, pairToExpr t pair = some e ∧
      (NoSplit pair ∧ e = pair.1 ∧ pairNumber ρ t pair = (pair.1.eval ρ).toInt ∨
        e.eval ρ = .int (pairNumber ρ t pair)) := by
  obtain ⟨first, second⟩ := pair
  cases second with
  | none => exact ⟨first, rfl, Or.inl ⟨by simp [NoSplit], rfl, rfl⟩⟩
  | some val =>
    obtain ⟨hcanon, hprim⟩ := hsplit val rfl
    by_cases hzero : val.eqNumber 0 = true
    · refine ⟨first, if_pos hzero, Or.inl ⟨?_, rfl, if_pos hzero⟩⟩
      intro val' hval
      cases hval
      exact hzero
    · have hsum := sumToExpr_spec h ρ first hcanon hprim
      cases first with
      | neg t' a =>
        by_cases hsign : val.getSignBit = false
        · obtain ⟨c, hc, hval⟩ := createIntConst_spec (ω := ω) h (val.getExtValue 0) ρ
          refine ⟨.sub t c a, ?_, Or.inr ?_⟩
          · simp [pairToExpr, hzero, hsign, hc]
          · simp only [pairNumber, hzero, Bool.false_eq_true, if_false, hsign, if_true]
            rw [Expr.eval, hval, Value.toInt_int, IntFormat.wrap_wrap_sub]
        · obtain ⟨e', he', hval⟩ := hsum
          refine ⟨e', ?_, Or.inr ?_⟩
          · simpa [pairToExpr, hzero, hsign] using he'
          · simpa [pairNumber, hzero, hsign] using hval
      | _ =>
        obtain ⟨e', he', hval⟩ := hsum
        refine ⟨e', (if_neg hzero).trans he', Or.inr ?_⟩
        rw [hval]
        exact congrArg Value.int (if_neg hzero).symm

lemma pairToExpr_of_noSplit {pair : Pair ω} (h : NoSplit pair) (t : PrimType) :
    pairToExpr t pair = some pair.1 := by
  obtain ⟨first, second⟩ := pair
  cases second with
  | none => rfl
  | some val => exact if_pos (h val rfl)

lemma Folds.eval_fst {ρ : ω → Value} {e : Expr ω} {pair : Pair ω} (h : Folds ρ e pair)
    (hns : NoSplit pair) : pair.1.eval ρ = e.eval ρ := by
  obtain ⟨e', he', heval⟩ := h.value
  rw [pairToExpr_of_noSplit hns, Option.some.injEq] at he'
  rw [he', heval]

/-! ### Arms -/

omit [Target] in
lemma Compatible.symm {t t' : PrimType} (h : Compatible t t') : Compatible t' t :=
  h.imp And.symm Eq.symm

omit [Target] in
lemma Compatible.trans {t t' t'' : PrimType} (h : Compatible t t') (h' : Compatible t' t'') :
    Compatible t t'' := by
  rcases h with ⟨ht, ht'⟩ | rfl
  · rcases h' with ⟨-, ht''⟩ | rfl
    · exact Or.inl ⟨ht, ht''⟩
    · exact Or.inl ⟨ht, ht'⟩
  · exact h'

omit [Target] in
lemma Compatible.isPrimitiveInteger_eq {t t' : PrimType} (h : Compatible t t') :
    t.isPrimitiveInteger = t'.isPrimitiveInteger := by
  rcases h with ⟨ht, ht'⟩ | rfl
  · rw [ht, ht']
  · rfl

omit [Target] in
lemma Compatible.eq_of_not {t t' : PrimType} (h : Compatible t t')
    (hnot : t.isPrimitiveInteger = false) : t = t' := by
  rcases h with ⟨ht, -⟩ | rfl
  · rw [hnot] at ht
    exact absurd ht Bool.false_ne_true
  · rfl

omit [Target] in
lemma MIRConst.OfType.exists_int {t : PrimType} {c : MIRConst} (h : c.OfType t)
    (ht : t.isPrimitiveInteger = true) :
    ∃ v, c = .int v ∧ v.Canonical ∧ v.shape.IsPrim := by
  cases c with
  | int v => exact ⟨v, rfl, h.2⟩
  | float f =>
    cases h
    exact absurd ht (by decide)
  | double d =>
    cases h
    exact absurd ht (by decide)
  | other v =>
    rw [h.1] at ht
    exact absurd ht Bool.false_ne_true

omit [Target] in
lemma compareArms_eq_one {F : BinaryFormat} (hF : 2 ≤ F.expBits) {n1 n2 : Nat}
    (h1 : n1 < 2 ^ (F.expBits + F.fracBits + 1)) (h2 : n2 < 2 ^ (F.expBits + F.fracBits + 1)) :
    (compareArms (F.datum n1) (F.datum n2) = .oneZero → n1 = F.one) ∧
      (compareArms (F.datum n1) (F.datum n2) = .zeroOne → n2 = F.one) := by
  rw [compareArms]
  split_ifs with hone hzero
  · rw [Bool.and_eq_true, BinaryFormat.beq_one_iff hF h1] at hone
    exact ⟨fun _ => hone.1, by simp⟩
  · rw [Bool.and_eq_true, BinaryFormat.beq_one_iff hF h2] at hzero
    exact ⟨by simp, fun _ => hzero.2⟩
  · simp

/-- What the arms of a floating point type are taken for. -/
structure ArmsFit (t : PrimType) (v1 v2 : Value) (arms : Arms) : Prop where
  one1 : t.isPrimitiveInteger = false → arms = .oneZero →
    ∃ F, floatFormat t = some F ∧ 2 ≤ F.expBits ∧ v1 = .pattern F.one
  one2 : t.isPrimitiveInteger = false → arms = .zeroOne →
    ∃ F, floatFormat t = some F ∧ 2 ≤ F.expBits ∧ v2 = .pattern F.one

omit [Target] in
lemma armsFit_others (t : PrimType) (v1 v2 : Value) : ArmsFit t v1 v2 .others := ⟨by simp, by simp⟩

omit [Target] in
lemma armsOf_constval {t t' : PrimType} {c1 c2 : MIRConst} (h1 : c1.OfType t) (h2 : c2.OfType t')
    (ht : Compatible t t') :
    ∃ a, armsOf (.constval t c1 : Expr ω) (.constval t' c2) = some a ∧
      ArmsFit t c1.value c2.value a := by
  by_cases hint : t.isPrimitiveInteger = true
  · obtain ⟨v1, rfl, -⟩ := h1.exists_int hint
    obtain ⟨v2, rfl, -⟩ := h2.exists_int (ht.isPrimitiveInteger_eq ▸ hint)
    exact ⟨_, rfl, by simp [hint], by simp [hint]⟩
  · obtain rfl := ht.eq_of_not (by simpa using hint)
    cases c1 with
    | int v1 => exact absurd h1.1 hint
    | float f1 =>
      cases h1
      cases c2 with
      | float f2 =>
        have hone := compareArms_eq_one (F := single) (by decide) f1.intValue.toNat_lt
          f2.intValue.toNat_lt
        refine ⟨_, rfl, ?_, ?_⟩
        · exact fun _ ha => ⟨single, rfl, by decide, congrArg _ (hone.1 ha)⟩
        · exact fun _ ha => ⟨single, rfl, by decide, congrArg _ (hone.2 ha)⟩
      | int v2 => exact absurd h2.1 hint
      | double d2 => cases h2
      | other v2 => exact absurd rfl h2.2.1
    | double d1 =>
      cases h1
      cases c2 with
      | double d2 =>
        have hone := compareArms_eq_one (F := double) (by decide) d1.intValue.toNat_lt
          d2.intValue.toNat_lt
        refine ⟨_, rfl, ?_, ?_⟩
        · exact fun _ ha => ⟨double, rfl, by decide, congrArg _ (hone.1 ha)⟩
        · exact fun _ ha => ⟨double, rfl, by decide, congrArg _ (hone.2 ha)⟩
      | int v2 => exact absurd h2.1 hint
      | float f2 => cases h2
      | other v2 => exact absurd rfl h2.2.2
    | other v1 =>
      have hzero : compareArms (.finite false 0) (.finite false 0) = .others := by
        simp [compareArms, BinaryFormat.Datum.beq]
      refine ⟨.others, ?_, armsFit_others _ _ _⟩
      simp [armsOf, dconsts, h1.2.1, h1.2.2, hzero]

/-! ### The fold -/

section Fold

variable {dispatchFold : Expr ω → Pair ω} {ρ : ω → Value} {primType : PrimType}
  {opnd0 opnd1 opnd2 : Expr ω}

lemma foldTernary_of_const {t : PrimType} {v : IntVal}
    (hfirst : (dispatchFold opnd0).1 = .constval t (.int v)) :
    foldTernary dispatchFold primType opnd0 opnd1 opnd2 =
      if v.eqNumber 0 then pairToExpr opnd2.getPrimType (dispatchFold opnd2)
      else pairToExpr opnd1.getPrimType (dispatchFold opnd1) := by
  simp [foldTernary, hfirst]

lemma foldTernary_of_arms (hfirst : ∀ t c, (dispatchFold opnd0).1 ≠ .constval t c) {a : Arms}
    (ha : armsOf (dispatchFold opnd1).1 (dispatchFold opnd2).1 = some a) :
    foldTernary dispatchFold primType opnd0 opnd1 opnd2 =
      foldArms dispatchFold primType opnd0 opnd1 opnd2 a := by
  cases h0 : (dispatchFold opnd0).1 with
  | constval t c => exact absurd h0 (hfirst t c)
  | _ => simp [foldTernary, h0, ha]

section Value

lemma cast_select (c v1 v2 : Value) :
    (if c.toInt ≠ 0 then v1.cast primType else v2.cast primType) =
      (if c.toInt ≠ 0 then v1 else v2).cast primType := by
  split_ifs <;> rfl

@[simp] lemma cast_cast (v : Value) : (v.cast primType).cast primType = v.cast primType := by
  cases v with
  | int v => simp
  | pattern bits => rfl

lemma eval_select :
    (Expr.select primType opnd0 opnd1 opnd2).eval ρ =
      if (opnd0.eval ρ).toInt = 0 then (opnd2.eval ρ).cast primType
      else (opnd1.eval ρ).cast primType := by
  rw [Expr.eval, ite_not]

end Value

variable (h : FoldsOperands dispatchFold ρ primType opnd0 opnd1 opnd2)

include h

lemma exists_arms :
    ∃ a, armsOf (dispatchFold opnd1).1 (dispatchFold opnd2).1 = some a ∧
      ArmsFit primType (opnd1.eval ρ) (opnd2.eval ρ) a := by
  cases h1 : (dispatchFold opnd1).1 with
  | constval t c1 =>
    cases h2 : (dispatchFold opnd2).1 with
    | constval t' c2 =>
      obtain ⟨hc1, ht, hns⟩ := h.folds1.const t c1 h1
      obtain ⟨hc2, ht', hns'⟩ := h.folds2.const t' c2 h2
      have htype := ht.trans h.compatible1
      obtain ⟨a, ha, hfit⟩ := armsOf_constval (ω := ω) hc1 hc2
        (htype.trans (h.compatible2.symm.trans ht'.symm))
      have hv1 := h.folds1.eval_fst hns
      have hv2 := h.folds2.eval_fst hns'
      rw [h1] at hv1
      rw [h2] at hv2
      refine ⟨a, ha, ?_⟩
      rw [← hv1, ← hv2]
      constructor
      · intro hnot hone
        rw [← htype.isPrimitiveInteger_eq] at hnot
        rw [← htype.eq_of_not hnot]
        exact hfit.one1 hnot hone
      · intro hnot hone
        rw [← htype.isPrimitiveInteger_eq] at hnot
        rw [← htype.eq_of_not hnot]
        exact hfit.one2 hnot hone
    | _ => exact ⟨.others, rfl, armsFit_others _ _ _⟩
  | _ => exact ⟨.others, by simp [armsOf], armsFit_others _ _ _⟩

lemma foldTernary_spec_of_const {t : PrimType} {c : MIRConst}
    (hfirst : (dispatchFold opnd0).1 = .constval t c) :
    ∃ e, foldTernary dispatchFold primType opnd0 opnd1 opnd2 = some e ∧
      (e.eval ρ).cast primType = (Expr.select primType opnd0 opnd1 opnd2).eval ρ := by
  obtain ⟨hc, ht, hns⟩ := h.folds0.const t c hfirst
  obtain ⟨v, rfl, hcanon, hprim⟩ := hc.exists_int (ht.isPrimitiveInteger_eq.trans h.isInteger)
  have heval : (opnd0.eval ρ).toInt = v.toInt := by
    rw [← h.folds0.eval_fst hns, hfirst]
    rfl
  have hzero : v.eqNumber 0 = true ↔ v.toInt = 0 := IntVal.eqNumber_iff hcanon hprim (le_refl 0)
  obtain ⟨e1, he1, hv1⟩ := h.folds1.value
  obtain ⟨e2, he2, hv2⟩ := h.folds2.value
  rw [foldTernary_of_const hfirst, Expr.eval, heval]
  by_cases hv : v.toInt = 0
  · refine ⟨e2, by rw [if_pos (hzero.mpr hv), he2], ?_⟩
    rw [if_neg (not_not.mpr hv), hv2]
  · refine ⟨e1, by rw [if_neg (mt hzero.mp hv), he1], ?_⟩
    rw [if_pos hv, hv1]

lemma foldArms_others :
    ∃ e, foldArms dispatchFold primType opnd0 opnd1 opnd2 .others = some e ∧
      (e.eval ρ).cast primType = (Expr.select primType opnd0 opnd1 opnd2).eval ρ := by
  obtain ⟨e0, he0, hv0⟩ := h.folds0.value
  obtain ⟨e1, he1, hv1⟩ := h.folds1.value
  obtain ⟨e2, he2, hv2⟩ := h.folds2.value
  refine ⟨.select primType e0 e1 e2, by simp [foldArms, he0, he1, he2], ?_⟩
  rw [Expr.eval, Expr.eval, hv0, hv1, hv2, cast_select, cast_cast]

omit [Target] h in
lemma Value.OfType.exists_int {t : PrimType} {v : Value} (h : v.OfType t)
    (ht : t.isPrimitiveInteger = true) : ∃ n, v = .int n := by
  cases v with
  | int n => exact ⟨n, rfl⟩
  | pattern bits =>
    rw [h] at ht
    exact absurd ht Bool.false_ne_true

omit [Target] h in
lemma Value.OfType.exists_pattern {t : PrimType} {v : Value} (h : v.OfType t)
    (ht : t.isPrimitiveInteger = false) : ∃ n, v = .pattern n := by
  cases v with
  | int n =>
    rw [h] at ht
    exact absurd ht.symm Bool.false_ne_true
  | pattern bits => exact ⟨bits, rfl⟩

lemma exists_cond {t : PrimType} (ht : t.isPrimitiveInteger = true) :
    ∃ e, pairToExpr t (dispatchFold opnd0) = some e ∧
      e.eval ρ = .int (pairNumber ρ t (dispatchFold opnd0)) := by
  obtain ⟨e, he, ⟨hns, rfl, hnum⟩ | hval⟩ := pairToExpr_spec ht ρ h.folds0.split
  · obtain ⟨c, hc⟩ := h.value0.exists_int h.isInteger
    refine ⟨_, he, ?_⟩
    rw [hnum, h.folds0.eval_fst hns, hc, Value.toInt_int]
  · exact ⟨e, he, hval⟩

lemma exists_lnot :
    ∃ lnot, lnotOf opnd0.getPrimType (dispatchFold opnd0) = some lnot ∧
      lnot.getPrimType = opnd0.getPrimType ∧
      lnot.eval ρ = .int (if (opnd0.eval ρ).toInt = 0 then 1 else 0) := by
  obtain ⟨e0, he0, hv0⟩ := h.folds0.value
  obtain ⟨z, hz, hzero⟩ := createIntConst_spec (ω := ω) h.isInteger 0 ρ
  refine ⟨.eq opnd0.getPrimType opnd0.getPrimType e0 z, ?_, rfl, ?_⟩
  · have hz' : createIntConst (ω := ω) 0 opnd0.getPrimType = some z := hz
    simp [lnotOf, he0, hz']
  · have hword : wordNumber opnd0.getPrimType 0 = 0 := IntFormat.wrap_zero _
    rw [Expr.eval, hv0, hzero, hword, IntFormat.wrap_zero]
    rfl

lemma foldArms_oneZero_iff (hfit : ArmsFit primType (opnd1.eval ρ) (opnd2.eval ρ) .oneZero) :
    (∃ e, foldArms dispatchFold primType opnd0 opnd1 opnd2 .oneZero = some e ∧
      (e.eval ρ).cast primType = (Expr.select primType opnd0 opnd1 opnd2).eval ρ) ↔
    if opnd1.getPrimType.isPrimitiveInteger then
      ((opnd0.eval ρ).toInt ≠ 0 →
        primType.format.wrap (pairNumber ρ opnd1.getPrimType (dispatchFold opnd0)) =
          primType.format.wrap (opnd1.eval ρ).toInt) ∧
        ((opnd0.eval ρ).toInt = 0 →
          primType.format.wrap (pairNumber ρ opnd1.getPrimType (dispatchFold opnd0)) =
            primType.format.wrap (opnd2.eval ρ).toInt)
    else ((opnd0.eval ρ).toInt ≠ 0 → (opnd0.eval ρ).toInt = 1) ∧
      ((opnd0.eval ρ).toInt = 0 → opnd2.eval ρ = .pattern 0) := by
  by_cases hint : opnd1.getPrimType.isPrimitiveInteger = true
  · have hint2 := (h.compatible1.trans h.compatible2.symm).isPrimitiveInteger_eq.symm.trans hint
    obtain ⟨v1, hv1⟩ := h.value1.exists_int hint
    obtain ⟨v2, hv2⟩ := h.value2.exists_int hint2
    obtain ⟨e, he, heval⟩ := exists_cond h hint
    have hfold : foldArms dispatchFold primType opnd0 opnd1 opnd2 .oneZero = some e := by
      simp [foldArms, hint, he]
    simp only [hfold, Option.some.injEq, exists_eq_left', hint, if_true]
    rw [heval, eval_select, hv1, hv2]
    split_ifs with hc
    · simp [hc]
    · simp [hc]
  · have hnot1 : opnd1.getPrimType.isPrimitiveInteger = false := by simpa using hint
    have hnot : primType.isPrimitiveInteger = false :=
      h.compatible1.isPrimitiveInteger_eq.symm.trans hnot1
    have htype2 : opnd2.getPrimType = primType := (h.compatible2.symm.eq_of_not hnot).symm
    obtain ⟨F, hF, hexp, hone⟩ := hfit.one1 hnot rfl
    obtain ⟨n2, hv2⟩ := h.value2.exists_pattern (htype2 ▸ hnot)
    obtain ⟨e0, he0, hv0⟩ := h.folds0.value
    have hfold : foldArms dispatchFold primType opnd0 opnd1 opnd2 .oneZero =
        some (.cvt primType opnd0.getPrimType e0) := by
      simp [foldArms, hnot1, htype2, hnot, he0]
    have heval : (Expr.cvt primType opnd0.getPrimType e0).eval ρ =
        .pattern (F.ofInt (opnd0.eval ρ).toInt) := by
      rw [Expr.eval, hF, hv0]
    simp only [hfold, Option.some.injEq, exists_eq_left', hint, Bool.false_eq_true, if_false]
    rw [heval, eval_select, hone, hv2]
    split_ifs with hc
    · simp [hc, BinaryFormat.ofInt, eq_comm]
    · simp [hc, BinaryFormat.ofInt_eq_one_iff hexp]

lemma foldArms_zeroOne_iff (hfit : ArmsFit primType (opnd1.eval ρ) (opnd2.eval ρ) .zeroOne) :
    (∃ e, foldArms dispatchFold primType opnd0 opnd1 opnd2 .zeroOne = some e ∧
      (e.eval ρ).cast primType = (Expr.select primType opnd0 opnd1 opnd2).eval ρ) ↔
    if opnd1.getPrimType.isPrimitiveInteger then
      ((opnd0.eval ρ).toInt ≠ 0 → primType.format.wrap (opnd1.eval ρ).toInt = 0) ∧
        ((opnd0.eval ρ).toInt = 0 →
          primType.format.wrap (opnd2.eval ρ).toInt = primType.format.wrap 1)
    else (opnd0.eval ρ).toInt ≠ 0 → opnd1.eval ρ = .pattern 0 := by
  obtain ⟨lnot, hlnot, htype, heval⟩ := exists_lnot h
  obtain ⟨hfolds, hns⟩ := h.lnot lnot hlnot
  have htemp : (dispatchFold lnot).1.eval ρ = _ := (hfolds.eval_fst hns).trans heval
  by_cases hint : opnd1.getPrimType.isPrimitiveInteger = true
  · have hint2 := (h.compatible1.trans h.compatible2.symm).isPrimitiveInteger_eq.symm.trans hint
    obtain ⟨v1, hv1⟩ := h.value1.exists_int hint
    obtain ⟨v2, hv2⟩ := h.value2.exists_int hint2
    have hfold : foldArms dispatchFold primType opnd0 opnd1 opnd2 .zeroOne =
        some (dispatchFold lnot).1 := by
      simp [foldArms, hlnot, hint, pairToExpr_of_noSplit hns]
    simp only [hfold, Option.some.injEq, exists_eq_left', hint, if_true]
    rw [htemp, eval_select, hv1, hv2]
    split_ifs with hc
    · simp [hc, eq_comm]
    · simp [hc, eq_comm]
  · have hnot1 : opnd1.getPrimType.isPrimitiveInteger = false := by simpa using hint
    have hnot : primType.isPrimitiveInteger = false :=
      h.compatible1.isPrimitiveInteger_eq.symm.trans hnot1
    have htype1 : opnd1.getPrimType = primType := h.compatible1.eq_of_not hnot1
    have htype2 : opnd2.getPrimType = primType := (h.compatible2.symm.eq_of_not hnot).symm
    obtain ⟨F, hF, hexp, hone⟩ := hfit.one2 hnot rfl
    obtain ⟨n1, hv1⟩ := h.value1.exists_pattern hnot1
    have hfold : foldArms dispatchFold primType opnd0 opnd1 opnd2 .zeroOne =
        some (.cvt primType opnd0.getPrimType (dispatchFold lnot).1) := by
      simp [foldArms, hlnot, hnot1, htype2, hnot, pairToExpr_of_noSplit hns]
    have hcvt : (Expr.cvt primType opnd0.getPrimType (dispatchFold lnot).1).eval ρ =
        .pattern (F.ofInt (if (opnd0.eval ρ).toInt = 0 then 1 else 0)) := by
      rw [Expr.eval, hF, htemp]
      rfl
    simp only [hfold, Option.some.injEq, exists_eq_left', hint, Bool.false_eq_true, if_false]
    rw [hcvt, eval_select, hone, hv1]
    split_ifs with hc
    · simp [hc, (BinaryFormat.ofInt_eq_one_iff hexp 1).mpr rfl]
    · simp [hc, BinaryFormat.ofInt, eq_comm]

lemma foldTernary_iff :
    (∃ e, foldTernary dispatchFold primType opnd0 opnd1 opnd2 = some e ∧
      (e.eval ρ).cast primType = (Expr.select primType opnd0 opnd1 opnd2).eval ρ) ↔
    Condition dispatchFold ρ primType opnd0 opnd1 opnd2 := by
  rw [Condition]
  by_cases hfirst : ∃ t c, (dispatchFold opnd0).1 = .constval t c
  · obtain ⟨t, c, hfirst⟩ := hfirst
    exact iff_of_true (foldTernary_spec_of_const h hfirst) fun hnot => absurd hfirst (hnot t c)
  · have hnot : ∀ t c, (dispatchFold opnd0).1 ≠ .constval t c := fun t c h => hfirst ⟨t, c, h⟩
    obtain ⟨a, ha, hfit⟩ := exists_arms h
    rw [foldTernary_of_arms hnot ha]
    simp only [ha, hnot, ne_eq, not_false_eq_true, implies_true, true_imp_iff]
    cases a with
    | oneZero => exact foldArms_oneZero_iff h hfit
    | zeroOne => exact foldArms_zeroOne_iff h hfit
    | others => exact iff_of_true (foldArms_others h) trivial

/-! ### The branch -/

omit h in
lemma wrap_one_ne_zero {t : PrimType} (ht : t.isPrimitiveInteger = true) : t.format.wrap 1 ≠ 0 := by
  have hwidth := PrimType.width_cases ht
  have hmod : 1 < t.format.modulus := Nat.one_lt_two_pow (by omega)
  rw [← IntFormat.wrap_zero t.format, ne_eq, IntFormat.wrap_eq_wrap_iff,
    Int.emod_eq_of_lt (by decide) (by exact_mod_cast hmod)]
  simp

lemma simplifyCondGotoSelect_spec (hint : primType.isPrimitiveInteger = true) (op : CondGotoOp) :
    ∃ node, simplifyCondGotoSelect ⟨op, .select primType opnd0 opnd1 opnd2⟩ = some node ∧
      (node.Taken ρ ↔
        (CondGotoNode.mk op (.select primType opnd0 opnd1 opnd2)).Taken ρ) := by
  by_cases hconst : ∃ t1 c1 t2 c2, opnd1 = .constval t1 c1 ∧ opnd2 = .constval t2 c2
  · obtain ⟨t1, c1, t2, c2, rfl, rfl⟩ := hconst
    have hint1 := h.compatible1.isPrimitiveInteger_eq.trans hint
    have hint2 := h.compatible2.isPrimitiveInteger_eq.trans hint
    obtain ⟨v1, rfl, hcanon1, hprim1⟩ := (h.const1 t1 c1 rfl).exists_int hint1
    obtain ⟨v2, rfl, hcanon2, hprim2⟩ := (h.const2 t2 c2 rfl).exists_int hint2
    have hone := wrap_one_ne_zero hint
    have hone1 : v1.eqNumber 1 = true ↔ v1.toInt = 1 :=
      IntVal.eqNumber_iff hcanon1 hprim1 (by decide)
    have hzero1 : v1.eqNumber 0 = true ↔ v1.toInt = 0 :=
      IntVal.eqNumber_iff hcanon1 hprim1 (by decide)
    have hone2 : v2.eqNumber 1 = true ↔ v2.toInt = 1 :=
      IntVal.eqNumber_iff hcanon2 hprim2 (by decide)
    have hzero2 : v2.eqNumber 0 = true ↔ v2.toInt = 0 :=
      IntVal.eqNumber_iff hcanon2 hprim2 (by decide)
    rw [simplifyCondGotoSelect]
    dsimp only
    by_cases h10 : (v1.eqNumber 1 && v2.eqNumber 0) = true
    · refine ⟨_, if_pos h10, ?_⟩
      rw [Bool.and_eq_true, hone1, hzero2] at h10
      by_cases hc : (opnd0.eval ρ).toInt = 0 <;> cases op <;>
        simp [CondGotoNode.Taken, Expr.eval, MIRConst.value, Value.toInt_int, h10, hc, hone]
    rw [if_neg h10]
    by_cases h01 : (v1.eqNumber 0 && v2.eqNumber 1) = true
    · refine ⟨_, if_pos h01, ?_⟩
      rw [Bool.and_eq_true, hzero1, hone2] at h01
      by_cases hc : (opnd0.eval ρ).toInt = 0 <;> cases op <;>
        simp [CondGotoNode.Taken, Expr.eval, MIRConst.value, Value.toInt_int, h01, hc, hone]
    · exact ⟨_, if_neg h01, Iff.rfl⟩
  · refine ⟨_, ?_, Iff.rfl⟩
    unfold simplifyCondGotoSelect
    split
    · rename_i heq
      simp only [Expr.select.injEq] at heq
      exact absurd ⟨_, _, _, _, heq.2.2.1, heq.2.2.2⟩ hconst
    · rfl

end Fold

/-! ### A select of one and zero -/

lemma folds_self {ρ : ω → Value} {e : Expr ω} (h : ∀ t c, e = .constval t c → c.OfType t) :
    Folds ρ e (e, none) where
  value := ⟨e, rfl, rfl⟩
  const := by
    rintro t c rfl
    exact ⟨h t c rfl, Or.inr rfl, by simp [NoSplit]⟩
  split := by simp

/-- The constant of a number of type `i32`. -/
def i32Const (val : UInt64) : Expr ω :=
  .constval .i32 (.int (IntVal.ofNumber ⟨32, true, Shape.pos_32, Shape.numWords_32⟩ val))

omit [Target] in
lemma ofType_i32Const {val : UInt64} :
    ∀ t c, (i32Const val : Expr ω) = .constval t c → c.OfType t := by
  rintro t c heq
  cases heq
  have hprim : (⟨32, true, by decide, by decide⟩ : Shape).IsPrim := by decide
  exact ⟨rfl, (IntVal.ofNumber_represents hprim val).canonical, hprim⟩

lemma foldsOperands_oneZero (v : Int) :
    FoldsOperands (fun e : Expr Unit => (e, none)) (fun _ => .int v) .i32 (.other .i32 ())
      (i32Const 1) (i32Const 0) where
  isInteger := rfl
  value0 := rfl
  value1 := rfl
  value2 := rfl
  compatible1 := Or.inr rfl
  compatible2 := Or.inr rfl
  const1 := ofType_i32Const
  const2 := ofType_i32Const
  folds0 := folds_self (by simp)
  folds1 := folds_self ofType_i32Const
  folds2 := folds_self ofType_i32Const
  lnot := by
    intro lnot hlnot
    refine ⟨folds_self ?_, by simp [NoSplit]⟩
    rintro t c rfl
    simp [lnotOf, Option.bind_eq_some_iff] at hlnot

omit [Target] in
lemma armsOf_oneZero : armsOf (i32Const 1 : Expr ω) (i32Const 0) = some .oneZero := by
  have hone : ((IntVal.ofNumber ⟨32, true, by decide, by decide⟩ 1).getExtValue 0).toInt = 1 := by
    decide
  have hzero : ((IntVal.ofNumber ⟨32, true, by decide, by decide⟩ 0).getExtValue 0).toInt = 0 := by
    decide
  have hexp : 2 ≤ double.expBits := by decide
  have hbeq1 : (double.datum (double.ofInt 1)).beq (.finite false 1) = true :=
    (BinaryFormat.beq_one_iff hexp (BinaryFormat.ofInt_lt hexp 1)).mpr
      ((BinaryFormat.ofInt_eq_one_iff hexp 1).mpr rfl)
  have hbeq0 : (double.datum (double.ofInt 0)).beq (.finite false 0) = true :=
    (BinaryFormat.beq_zero_iff hexp).mpr ((BinaryFormat.magnitude_ofInt_eq_zero hexp 0).mpr rfl)
  simp [armsOf, i32Const, dconsts, compareArms, hone, hzero, hbeq1, hbeq0]

end FoldTernary
end Maple
