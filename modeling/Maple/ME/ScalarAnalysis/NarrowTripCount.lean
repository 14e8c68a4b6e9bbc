import Maple.ME.ScalarAnalysis.TripCountExact
import Maple.ME.ValueRange.Bound

/-!
# Trip counts of loops over narrow variables

`CanComputeTripCountWithCvtOpnd` takes the 64-bit trip count for a loop whose variable has at most
32 bits and is compared as it is or after a conversion.
-/

namespace Maple
namespace TripCount

open PrimType

variable [Target]

/-- The integer types of at most 32 bits. -/
def isNarrow : PrimType → Bool
  | i8 | i16 | i32 | u8 | u16 | u32 => true
  | _ => false

/-- The integer types of at most 64 bits. -/
def isIntType : PrimType → Bool
  | i8 | i16 | i32 | i64 | u8 | u16 | u32 | u64 => true
  | _ => false

/-- `Bound(c, toType).IsEqual(Bound(c, fromType), toType)`. -/
def isEqualInBoth (c : Int64) (toType fromType : PrimType) : Bool :=
  (⟨none, c, toType⟩ : Bound Unit).isEqual ⟨none, c, fromType⟩ toType

/-- `CanComputeTripCountWithCvtOpnd` with the trip count if it returns true. `cvt` has the types
`toType` and `fromType` of a converted operand. -/
def canComputeTripCountWithCvtOpnd (opndType : PrimType) (cvt : Option (PrimType × PrimType))
    (op : CmpOp) (initConst strideConst exitConst : Int64) : Option Nat :=
  match computeTripCountWithSimpleConstCR op opndType.isSignedInteger exitConst initConst
    strideConst with
  | none => none
  | some tripCountResult =>
    match cvt with
    | none => some tripCountResult
    | some (toType, fromType) =>
      if toType.isUnsignedInteger ∧ fromType.isUnsignedInteger ∧
          fromType.bitSize < toType.bitSize then some tripCountResult
      else if isEqualInBoth initConst toType fromType ∧
          isEqualInBoth strideConst toType fromType ∧
          isEqualInBoth exitConst toType fromType ∧
          isEqualInBoth (Int64.ofNat tripCountResult) toType fromType then some tripCountResult
      else none

/-! ### The loop -/

/-- Every value of `s` is one of `t`. -/
def Represents (t s : PrimType) : Prop :=
  t.format.minValue ≤ s.format.minValue ∧ s.format.maxValue ≤ t.format.maxValue

/-- The variable is compared in a type of its values, or after a conversion from such a type to
another integer type. -/
def WellTyped (varType opndType : PrimType) : Option (PrimType × PrimType) → Prop
  | none => isNarrow varType ∧ isIntType opndType ∧ Represents opndType varType
  | some (toType, fromType) =>
    isNarrow varType ∧ isIntType fromType ∧ isIntType toType ∧ Represents fromType varType ∧
      opndType = toType

/-- The operand of the comparison for a value of the variable. -/
def operand (opndType : PrimType) : Option (PrimType × PrimType) → Int → Int
  | none, v => opndType.format.wrap v
  | some (toType, fromType), v =>
    opndType.format.wrap (toType.format.wrap (fromType.format.wrap v))

/-- The constants and types of a loop over a narrow variable. -/
structure NarrowLoop where
  varType : PrimType
  opndType : PrimType
  cvt : Option (PrimType × PrimType)
  op : CmpOp
  initConst : Int64
  strideConst : Int64
  exitConst : Int64
  wellTyped : WellTyped varType opndType cvt
  init_inType : varType.InType initConst
  exit_inType : opndType.InType exitConst

namespace NarrowLoop

variable (l : NarrowLoop)

/-- The loop variable after `k` additions. -/
def value (k : Nat) : Int :=
  l.varType.format.stepped (l.varType.read l.initConst) l.strideConst.toInt k

/-- The test of the loop for a value of the variable. -/
def test (v : Int) : Bool := l.op.eval (operand l.opndType l.cvt v) (l.opndType.read l.exitConst)

/-- The additions that the loop executes do not overflow. -/
def NoOverflow : Prop :=
  ∀ k, (∀ j ≤ k, l.test (l.value j) = true) →
    l.varType.format.Mem (l.value k + l.strideConst.toInt)

end NarrowLoop

/-- The number that the variable has reached, without a limit, when the 64-bit loop is left. -/
def lastNumber (op : CmpOp) (init exit stride : Int) : Int :=
  if op.eval init exit = false then init
  else
    match op with
    | .eq => init + stride
    | .ne => exit
    | .lt | .le =>
      if 0 < stride then init + additions op (exit - init) stride * stride
      else init + strides false (-init) stride * stride
    | .gt | .ge =>
      if stride < 0 then init + additions op (exit - init) stride * stride else init

end TripCount
end Maple
