import Maple.IR.PrimType
import Maple.Lib.RoundUp
import Mathlib.Data.Int.Init

/-!
# Locating the parameters of a call

`AArch64CallConvImpl`, which gives every parameter of a call its registers or its place on the
stack, for little endian code.
-/

namespace Maple
namespace AArch64

/-- The registers that pass parameters, and the number that stands for no register. -/
inductive Reg where
  | kRinvalid
  | r (n : Nat)
  | v (n : Nat)
  deriving DecidableEq, Repr

def kNumIntParmRegs : Nat := 8
def kNumFloatParmRegs : Nat := 8

def kIntParmRegs (n : Nat) : Reg := .r n
def kFloatParmRegs (n : Nat) : Reg := .v n
def kFloatReturnRegs (n : Nat) : Reg := .v n

/-- `CCLocInfo`, where a parameter is passed; `none` is the type `PTY_begin`. -/
structure CCLocInfo where
  reg0 : Reg := .kRinvalid
  reg1 : Reg := .kRinvalid
  reg2 : Reg := .kRinvalid
  reg3 : Reg := .kRinvalid
  memOffset : Int := 0
  memSize : Int := 0
  fpSize : Nat := 0
  regCount : Nat := 0
  primTypeOfReg0 : Option PrimType := none
  primTypeOfReg1 : Option PrimType := none
  primTypeOfReg2 : Option PrimType := none
  primTypeOfReg3 : Option PrimType := none
  deriving DecidableEq, Repr

/-- Conversion to `int32`. -/
def toInt32 (n : Nat) : Int := Int.bmod n (2 ^ 32)

/-- `RoundUp`, for an alignment that is a power of two. -/
def roundUp (offset align : Nat) : Nat :=
  if align = 0 then offset
  else (offset + align - 1) % 2 ^ 64 - (offset + align - 1) % 2 ^ 64 % align

def isPrimitiveFloat (t : PrimType) : Bool := t = .f32 || t = .f64 || t = .f128

def checkHomogeneousAggregatesBaseType (t : PrimType) : Bool := isPrimitiveFloat t || t.isVector

variable [Target]

/-- A struct or a union, as far as parameter passing reads it. The alignments are powers of two:
`alignLog` gives that of the type and `unadjustedLog` the greatest one of its members. -/
structure AggType where
  size : Nat
  alignLog : Nat
  unadjustedLog : Nat
  /-- The base type and the number of elements that `IsHomogeneousAggregates` finds. -/
  homogeneous : Option (PrimType × Nat)
  size_lt : size < 2 ^ 63
  alignLog_lt : alignLog < 32
  -- an array of no elements has an alignment, but nothing that needs a register pair
  empty_unadjusted : size = 0 → unadjustedLog ≤ 3
  homogeneous_size : ∀ base elemNum, homogeneous = some (base, elemNum) →
    checkHomogeneousAggregatesBaseType base ∧ 0 < elemNum ∧ elemNum ≤ 4 ∧
      size = base.size * elemNum

def AggType.align (a : AggType) : Nat := 2 ^ a.alignLog

def AggType.getUnadjustedAlign (a : AggType) : Nat := 2 ^ a.unadjustedLog

/-- `MIRType`: a type that has a primitive type of its own, or an aggregate. -/
inductive MIRType where
  | scalar (t : PrimType)
  | agg (a : AggType)

namespace MIRType

def getPrimType : MIRType → PrimType
  | scalar t => t
  | agg _ => .agg

def getSize : MIRType → Nat
  | scalar t => t.size
  | agg a => a.size

def getAlign : MIRType → Nat
  | scalar t => t.size
  | agg a => a.align

/-- The types of parameters: integers and pointers, floats, vectors and aggregates. -/
def IsParm : MIRType → Prop
  | scalar t => isPrimitiveFloat t ∨ t.isVector ∨ t.isPrimitiveInteger
  | agg _ => True

instance (ty : MIRType) : Decidable ty.IsParm :=
  match ty with
  | scalar t =>
    inferInstanceAs (Decidable (isPrimitiveFloat t ∨ t.isVector ∨ t.isPrimitiveInteger))
  | agg _ => inferInstanceAs (Decidable True)

end MIRType

structure AArch64CallConvImpl where
  nextGeneralRegNO : Nat := 0
  nextFloatRegNO : Nat := 0
  nextStackArgAdress : Nat := 0
  deriving DecidableEq, Repr

/-- What the choice of registers leaves to the rest of `LocateNextParm`. -/
structure Allocated where
  conv : AArch64CallConvImpl
  ploc : CCLocInfo
  typeAlign : Nat
  aggCopySize : Nat := 0

/-- `AllocateHomogeneousAggregatesRegister`, `none` if its check fails. -/
def allocateHomogeneousAggregatesRegister (ploc : CCLocInfo) (regList : Nat → Reg)
    (maxRegNum : Nat) (baseType : PrimType) (allocNum begin : Nat) : Option CCLocInfo :=
  if allocNum + begin - 1 < maxRegNum then
    let ploc := if 1 ≤ allocNum then
      { ploc with reg0 := regList begin, primTypeOfReg0 := baseType } else ploc
    let ploc := if 2 ≤ allocNum then
      { ploc with reg1 := regList (begin + 1), primTypeOfReg1 := baseType } else ploc
    let ploc := if 3 ≤ allocNum then
      { ploc with reg2 := regList (begin + 2), primTypeOfReg2 := baseType } else ploc
    let ploc := if 4 ≤ allocNum then
      { ploc with reg3 := regList (begin + 3), primTypeOfReg3 := baseType } else ploc
    some { ploc with regCount := allocNum }
  else none

def setupCCLocInfoRegCount (ploc : CCLocInfo) : CCLocInfo :=
  if ploc.reg0 = .kRinvalid then ploc
  else if ploc.reg1 = .kRinvalid then { ploc with regCount := 1 }
  else if ploc.reg2 = .kRinvalid then { ploc with regCount := 2 }
  else if ploc.reg3 = .kRinvalid then { ploc with regCount := 3 }
  else { ploc with regCount := 4 }

def MIRType.homogeneous : MIRType → Option (PrimType × Nat)
  | scalar _ => none
  | agg a => a.homogeneous

def MIRType.isReturnInMemory : MIRType → Bool
  | scalar _ => false
  | agg a => a.homogeneous = none && 16 < a.size

def getExactPtrPrimType : PrimType := if Target.pointerSize = 8 then .a64 else .a32

def setupToReturnThroughMemory (ploc : CCLocInfo) : CCLocInfo :=
  { ploc with regCount := 1, reg0 := .r 8, primTypeOfReg0 := getExactPtrPrimType }

namespace AArch64CallConvImpl

omit [Target] in
def initCCLocInfo (self : AArch64CallConvImpl) : CCLocInfo :=
  { memOffset := toInt32 self.nextStackArgAdress }

omit [Target] in
/-- `AllocateGPRegister()`: the next general register. -/
def allocateNextGPRegister (self : AArch64CallConvImpl) : Reg × AArch64CallConvImpl :=
  if self.nextGeneralRegNO < kNumIntParmRegs then
    (kIntParmRegs self.nextGeneralRegNO,
      { self with nextGeneralRegNO := self.nextGeneralRegNO + 1 })
  else (.kRinvalid, self)

omit [Target] in
def allocateSIMDFPRegister (self : AArch64CallConvImpl) : Reg × AArch64CallConvImpl :=
  if self.nextFloatRegNO < kNumFloatParmRegs then
    (kFloatParmRegs self.nextFloatRegNO,
      { self with nextFloatRegNO := self.nextFloatRegNO + 1 })
  else (.kRinvalid, self)

omit [Target] in
/-- The end of `AllocateGPRegister`, for a parameter that the registers left do not hold. -/
def exhaustGPRegisters (self : AArch64CallConvImpl) (ploc : CCLocInfo) :
    AArch64CallConvImpl × CCLocInfo :=
  ({ self with nextGeneralRegNO := kNumIntParmRegs }, { ploc with reg0 := .kRinvalid })

def allocateGPRegister (self : AArch64CallConvImpl) (mirType : MIRType) (ploc : CCLocInfo)
    (size align : Nat) : AArch64CallConvImpl × CCLocInfo :=
  if mirType.getPrimType.isPrimitiveInteger ∧ size ≤ 8 then
    let (reg0, self) := self.allocateNextGPRegister
    (self, { ploc with reg0 := reg0, primTypeOfReg0 := mirType.getPrimType })
  else
    let self := if align = 16 then
      { self with nextGeneralRegNO := (self.nextGeneralRegNO + 1) / 2 * 2 } else self
    if mirType.getPrimType = .i128 ∨ mirType.getPrimType = .u128 then
      if self.nextGeneralRegNO < kNumIntParmRegs - 1 then
        let (reg0, self) := self.allocateNextGPRegister
        let (reg1, self) := self.allocateNextGPRegister
        (self, { ploc with reg0 := reg0, primTypeOfReg0 := PrimType.u64,
                           reg1 := reg1, primTypeOfReg1 := PrimType.u64 })
      else self.exhaustGPRegisters ploc
    else if size ≤ 16 then
      let regNum := if size ≤ 8 then 1 else 2
      if self.nextGeneralRegNO + regNum - 1 < kNumIntParmRegs then
        let (reg0, self) := self.allocateNextGPRegister
        let ploc := { ploc with
          reg0 := reg0, primTypeOfReg0 := if size ≤ 4 then PrimType.u32 else PrimType.u64 }
        if regNum = 2 then
          let (reg1, self) := self.allocateNextGPRegister
          (self, { ploc with
            reg1 := reg1, primTypeOfReg1 := if size ≤ 12 then PrimType.u32 else PrimType.u64 })
        else (self, ploc)
      else self.exhaustGPRegisters ploc
    else self.exhaustGPRegisters ploc

/-- `AllocateRegisterForAgg`; a large struct keeps the alignment `align` of its type. -/
def allocateRegisterForAgg (self : AArch64CallConvImpl) (a : AggType) (ploc : CCLocInfo)
    (size align : Nat) : Option Allocated :=
  match a.homogeneous with
  | some (baseType, elemNum) =>
    if self.nextFloatRegNO + elemNum - 1 < kNumFloatParmRegs then
      (allocateHomogeneousAggregatesRegister ploc kFloatReturnRegs kNumFloatParmRegs baseType
        elemNum self.nextFloatRegNO).map fun ploc =>
          { conv := { self with nextFloatRegNO := self.nextFloatRegNO + elemNum }
            ploc := ploc, typeAlign := baseType.size }
    else
      some { conv := { self with nextFloatRegNO := kNumFloatParmRegs }
             ploc := { ploc with reg0 := .kRinvalid }, typeAlign := baseType.size }
  | none =>
    if size ≤ 16 then
      let align := if a.getUnadjustedAlign ≤ 8 then 8 else 16
      let (self, ploc) := self.allocateGPRegister (.agg a) ploc size align
      some { conv := self, ploc := ploc, typeAlign := align }
    else
      let (reg0, self) := self.allocateNextGPRegister
      some { conv := self, typeAlign := align, aggCopySize := roundUp size 8
             ploc := { ploc with reg0 := reg0, primTypeOfReg0 := PrimType.a64, memSize := 8 } }

/-- The part of `LocateNextParm` that chooses the registers, `none` for a type it does not know. -/
def allocateRegister (self : AArch64CallConvImpl) (mirType : MIRType) (ploc : CCLocInfo) :
    Option Allocated :=
  match mirType with
  | .scalar t =>
    if isPrimitiveFloat t || t.isVector then
      let (reg0, self) := self.allocateSIMDFPRegister
      some { conv := self, typeAlign := mirType.getAlign
             ploc := { ploc with reg0 := reg0, primTypeOfReg0 := t } }
    else if t.isPrimitiveInteger then
      let (self, ploc) := self.allocateGPRegister mirType ploc mirType.getSize mirType.getAlign
      some { conv := self, ploc := ploc, typeAlign := mirType.getAlign }
    else none
  | .agg a => self.allocateRegisterForAgg a ploc mirType.getSize mirType.getAlign

omit [Target] in
/-- The part of `LocateNextParm` for a parameter that is passed in memory. -/
def passInMemory (self : AArch64CallConvImpl) (ploc : CCLocInfo)
    (typeSize typeAlign aggCopySize : Nat) : AArch64CallConvImpl × CCLocInfo :=
  let typeAlign := if typeAlign ≤ 8 then 8 else typeAlign
  let address := roundUp self.nextStackArgAdress typeAlign
  ({ self with nextStackArgAdress :=
      (address + if aggCopySize ≠ 0 then 8 else typeSize) % 2 ^ 64 },
    { ploc with memOffset := toInt32 address })

/-- `LocateNextParm`: the next state, the location and the size of the copy. The flag tells that
this is the first argument of a function that returns a struct through it. -/
def locateNextParm (self : AArch64CallConvImpl) (mirType : MIRType)
    (firstArgReturn : Bool := false) : Option (AArch64CallConvImpl × CCLocInfo × Nat) :=
  let ploc := self.initCCLocInfo
  if mirType.getSize = 0 then some (self, ploc, 0)
  else if firstArgReturn then
    some (self, setupToReturnThroughMemory ploc, Target.pointerSize)
  else
    (self.allocateRegister mirType { ploc with memSize := toInt32 mirType.getSize }).map fun a =>
      let ploc := setupCCLocInfoRegCount a.ploc
      if ploc.reg0 = .kRinvalid then
        let (self, ploc) := a.conv.passInMemory ploc mirType.getSize a.typeAlign a.aggCopySize
        (self, ploc, a.aggCopySize)
      else (a.conv, ploc, a.aggCopySize)

/-- The locations that successive calls give to the parameters of a list. -/
def locateParms (self : AArch64CallConvImpl) : List MIRType → Option (List CCLocInfo)
  | [] => some []
  | ty :: tys =>
    match self.locateNextParm ty with
    | none => none
    | some (self, ploc, _) => (self.locateParms tys).map (ploc :: ·)

def locateRetVal (self : AArch64CallConvImpl) (retType : MIRType) : Option CCLocInfo :=
  let ploc := self.initCCLocInfo
  let retSize := retType.getSize
  let primType := retType.getPrimType
  if retSize = 0 then some ploc
  else if isPrimitiveFloat primType || primType.isVector then
    some { ploc with reg0 := kFloatReturnRegs 0, primTypeOfReg0 := primType, regCount := 1 }
  else if primType.isPrimitiveInteger ∧ primType.bitSize ≤ 64 then
    some { ploc with reg0 := .r 0, primTypeOfReg0 := primType, regCount := 1 }
  else
    match retType.homogeneous with
    | some (baseType, elemNum) =>
      allocateHomogeneousAggregatesRegister ploc kFloatReturnRegs kNumFloatParmRegs baseType
        elemNum 0
    | none =>
      if retSize ≤ 16 then
        let ploc := { ploc with
          reg0 := .r 0, primTypeOfReg0 := if retSize ≤ 4 then PrimType.u32 else PrimType.u64 }
        if 8 < retSize then
          some { ploc with
            reg1 := .r 1, primTypeOfReg1 := if retSize ≤ 12 then PrimType.u32 else PrimType.u64
            regCount := 2 }
        else some { ploc with regCount := 1 }
      else some ploc

end AArch64CallConvImpl

end AArch64
end Maple
