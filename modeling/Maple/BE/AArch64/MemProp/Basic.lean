import Maple.BE.AArch64.Imm.Basic

/-!
# Propagating address arithmetic into memory operands

`SelectReplaceMem` looks at the instruction that defines the base or the index of a memory operand
and builds the operand that does without it. Registers have 64 bits, and an instruction that writes
the low word of one clears the high word.
-/

namespace Maple
namespace AArch64
namespace MemProp

/-! ### Operands -/

/-- Whether the size of the frame is still to be added to an immediate. -/
inductive VaryType where
  | kNotVary
  | kUnAdjustVary
  | kAdjustVary
  deriving DecidableEq, Repr

structure RegOperand where
  regNo : RegNO
  size : Nat
  deriving DecidableEq, Repr

/-- `OfstOperand`, and the immediate of an instruction. -/
structure OfstOperand where
  value : BitVec 64
  vary : VaryType := .kNotVary
  deriving DecidableEq, Repr

inductive ExtendOp where
  | kUXTB
  | kUXTH
  | kUXTW
  | kUXTX
  | kSXTB
  | kSXTH
  | kSXTW
  | kSXTX
  deriving DecidableEq, Repr

/-- The operator comes after `kUXTX`. -/
def ExtendOp.isSigned : ExtendOp → Bool
  | kSXTB | kSXTH | kSXTW | kSXTX => true
  | _ => false

/-- The addressing modes with a base and an immediate, an index, an extended index or a shifted
index. -/
inductive Address where
  | kBOI (base : RegOperand) (offset : OfstOperand)
  | kBOR (base index : RegOperand)
  | kBOE (base index : RegOperand) (extendOp : ExtendOp) (amount : Nat)
  | kBOL (base index : RegOperand) (amount : Nat)
  deriving DecidableEq, Repr

def checkAmount (size amount : Nat) : Bool :=
  amount = 0 || size = 16 && amount = 1 || size = 32 && amount = 2 || size = 64 && amount = 3 ||
    size = 128 && amount = 4

/-- The `CHECK_FATAL`s of the constructors of `MemOperand`. -/
def Address.check (size : Nat) : Address → Bool
  | kBOI _ _ | kBOR _ _ => true
  | kBOE _ _ _ amount => checkAmount size amount
  | kBOL base index amount => index.size = base.size && checkAmount size amount

/-- A memory operand that its constructor has let through. -/
structure MemOperand where
  size : Nat
  address : Address
  checked : address.check size = true

/-- `CreateMemOperand`, without a result where a `CHECK_FATAL` fails. -/
def createMemOperand (size : Nat) (address : Address) : Option MemOperand :=
  if h : address.check size = true then some ⟨size, address, h⟩ else none

def checkNewAmount (size newAmount : Nat) : Bool :=
  newAmount = 0 || size = 16 && newAmount = 1 || size = 32 && newAmount = 2 ||
    size = 64 && newAmount = 3

namespace Address

def base : Address → RegOperand
  | kBOI base _ | kBOR base _ | kBOE base _ _ _ | kBOL base _ _ => base

/-- The offset if it is an immediate. -/
def immOffset : Address → Option OfstOperand
  | kBOI _ offset => some offset
  | _ => none

/-- The register whose definition is looked at: the base or the index. -/
def replacedReg : Address → RegOperand
  | kBOI base _ => base
  | kBOR _ index | kBOE _ index _ _ | kBOL _ index _ => index

end Address

/-! ### Defining instructions -/

/-- The defining instructions, in their 64- and 32-bit forms where they have both. -/
inductive DefInsn where
  | subrri12 (is64Bit : Bool) (dest src : RegOperand) (imm : OfstOperand)
  | addrri12 (is64Bit : Bool) (dest src : RegOperand) (imm : OfstOperand)
  | addrrr (is64Bit : Bool) (dest src src' : RegOperand)
  | movrr (is64Bit : Bool) (dest src : RegOperand)
  | movri (is64Bit : Bool) (dest : RegOperand) (imm : OfstOperand)
  | lslrri (is64Bit : Bool) (dest src : RegOperand) (shift : Nat)
  | xsxtw64 (dest src : RegOperand)
  | xuxtw64 (dest src : RegOperand)
  deriving DecidableEq, Repr

namespace DefInsn

def dest : DefInsn → RegOperand
  | subrri12 _ dest _ _ | addrri12 _ dest _ _ | addrrr _ dest _ _ | movrr _ dest _ |
    movri _ dest _ | lslrri _ dest _ _ | xsxtw64 dest _ | xuxtw64 dest _ => dest

/-- The registers that the instruction reads. -/
def sources : DefInsn → List RegNO
  | subrri12 _ _ src _ | addrri12 _ _ src _ | movrr _ _ src | lslrri _ _ src _ | xsxtw64 _ src |
    xuxtw64 _ src => [src.regNo]
  | addrrr _ _ src src' => [src.regNo, src'.regNo]
  | movri _ _ _ => []

end DefInsn

/-! ### The replacement -/

inductive PropMode where
  | kPropBase
  | kPropOffset
  | kPropSignedExtend
  | kPropUnsignedExtend
  | kPropShift
  deriving DecidableEq, Repr

/-- `SelectPropMode`: the mode and the amount. -/
def selectPropMode : Address → Option (PropMode × Nat)
  | .kBOI _ _ => some (.kPropBase, 0)
  | .kBOR _ _ => some (.kPropOffset, 0)
  | .kBOE _ _ extendOp amount =>
    some (if extendOp.isSigned then .kPropSignedExtend else .kPropUnsignedExtend, amount)
  | .kBOL _ _ amount => if amount = 0 then none else some (.kPropShift, amount)

section

variable (memSize : Nat) (propMode : PropMode) (amount : Nat)

def selectReplaceExt (newOffset base : RegOperand) (isSigned : Bool) :
    Option (Option MemOperand) :=
  if propMode = .kPropOffset then
    (createMemOperand memSize (.kBOR base newOffset)).map some
  else if propMode = .kPropSignedExtend && isSigned && checkNewAmount memSize amount then
    (createMemOperand memSize (.kBOE base newOffset .kSXTW amount)).map some
  else if propMode = .kPropUnsignedExtend && !isSigned && checkNewAmount memSize amount then
    (createMemOperand memSize (.kBOE base newOffset .kUXTW amount)).map some
  else if propMode = .kPropShift && checkNewAmount memSize amount then
    (createMemOperand memSize (.kBOL base newOffset amount)).map some
  else some none

def handleArithImmDef (replace : RegOperand) (oldOffset : Option OfstOperand) (defVal : BitVec 64)
    (varyType : VaryType) : Option (Option MemOperand) :=
  if propMode ≠ .kPropBase then some none
  else
    let newOffVal := match oldOffset with
      | none => defVal
      | some ofstOpnd => defVal + ofstOpnd.value
    (createMemOperand memSize (.kBOI replace ⟨newOffVal, varyType⟩)).map some

/-- `SelectReplaceMem` in the given mode. The result is missing where a `CHECK_FATAL` fails, and
`some none` stands for the null pointer. -/
def selectReplaceMemIn (isAdjacentBB : Bool) (isSPOrFP : RegNO → Bool) (base : RegOperand)
    (offset : Option OfstOperand) : DefInsn → Option (Option MemOperand)
  | .subrri12 _ _ replace immOpnd =>
    if !isAdjacentBB then some none
    else if immOpnd.vary = .kUnAdjustVary then none
    else handleArithImmDef memSize propMode replace offset (-immOpnd.value) .kNotVary
  | .addrri12 _ _ replace immOpnd =>
    handleArithImmDef memSize propMode replace offset immOpnd.value immOpnd.vary
  | .addrrr _ _ replace newOffset =>
    if propMode = .kPropBase then
      match offset with
      | none => none
      | some ofstOpnd =>
        if ofstOpnd.value ≠ 0 then some none
        else if replace.size ≠ newOffset.size then some none
        else (createMemOperand memSize (.kBOR replace newOffset)).map some
    else some none
  | .movrr _ _ replace =>
    if propMode = .kPropBase then
      match offset with
      | none => none
      | some offsetTmp => (createMemOperand memSize (.kBOI replace offsetTmp)).map some
    else if propMode = .kPropOffset then
      -- the stack pointer cannot be an index
      if isSPOrFP replace.regNo then (createMemOperand memSize (.kBOR replace base)).map some
      else (createMemOperand memSize (.kBOR base replace)).map some
    else some none
  | .movri _ _ imm =>
    if propMode = .kPropOffset then
      (createMemOperand memSize (.kBOI base ⟨imm.value, .kNotVary⟩)).map some
    else some none
  | .lslrri is64Bit _ newOffset shift =>
    if is64Bit && newOffset.size = 32 && propMode = .kPropOffset &&
        checkNewAmount memSize shift then
      (createMemOperand memSize (.kBOE base newOffset .kUXTW shift)).map some
    else if propMode = .kPropOffset then
      if checkNewAmount memSize shift then
        (createMemOperand memSize (.kBOL base newOffset shift)).map some
      else some none
    else if propMode = .kPropShift then
      if checkNewAmount memSize (shift + amount) then
        (createMemOperand memSize (.kBOL base newOffset (shift + amount))).map some
      else some none
    else some none
  | .xsxtw64 _ newOffset =>
    if propMode = .kPropUnsignedExtend || propMode = .kPropBase then some none
    else selectReplaceExt memSize .kPropSignedExtend amount newOffset base true
  | .xuxtw64 _ newOffset =>
    if propMode = .kPropSignedExtend || propMode = .kPropBase then some none
    else selectReplaceExt memSize .kPropUnsignedExtend amount newOffset base false

end

/-- `SelectPropMode` and `SelectReplaceMem` for the current memory operand. -/
def selectReplaceMem (isAdjacentBB : Bool) (isSPOrFP : RegNO → Bool) (defInsn : DefInsn)
    (currMemOpnd : MemOperand) : Option (Option MemOperand) :=
  match selectPropMode currMemOpnd.address with
  | none => none
  | some (propMode, amount) =>
    selectReplaceMemIn currMemOpnd.size propMode amount isAdjacentBB isSPOrFP
      currMemOpnd.address.base currMemOpnd.address.immOffset defInsn

/-! ### What instructions and addresses mean -/

/-- The low word of a register. -/
def lowWord (x : BitVec 64) : BitVec 64 := (x.setWidth 32).setWidth 64

/-- What an instruction writes into the register. -/
def written (is64Bit : Bool) (x : BitVec 64) : BitVec 64 := if is64Bit then x else lowWord x

/-- The immediate in a function with a frame of the given size. -/
def OfstOperand.read (frame : BitVec 64) (imm : OfstOperand) : BitVec 64 :=
  if imm.vary = .kUnAdjustVary then imm.value + frame else imm.value

/-- The register as an index: a 32-bit index is printed with `UXTW`. -/
def RegOperand.index (regOpnd : RegOperand) (x : BitVec 64) : BitVec 64 :=
  if regOpnd.size = 32 then lowWord x else x

def ExtendOp.extend (extendOp : ExtendOp) (x : BitVec 64) : BitVec 64 :=
  match extendOp with
  | kUXTB => (x.setWidth 8).setWidth 64
  | kUXTH => (x.setWidth 16).setWidth 64
  | kUXTW => lowWord x
  | kUXTX | kSXTX => x
  | kSXTB => (x.setWidth 8).signExtend 64
  | kSXTH => (x.setWidth 16).signExtend 64
  | kSXTW => (x.setWidth 32).signExtend 64

/-- The address that is accessed. -/
def Address.effectiveAddress (frame : BitVec 64) (regs : Regs) : Address → BitVec 64
  | kBOI base offset => regs base.regNo + offset.read frame
  | kBOR base index => regs base.regNo + index.index (regs index.regNo)
  | kBOE base index extendOp amount =>
    regs base.regNo + extendOp.extend (regs index.regNo) <<< amount
  | kBOL base index amount => regs base.regNo + index.index (regs index.regNo) <<< amount

namespace DefInsn

/-- The value that the instruction computes. -/
def value (frame : BitVec 64) (regs : Regs) : DefInsn → BitVec 64
  | subrri12 is64Bit _ src imm => written is64Bit (regs src.regNo - imm.read frame)
  | addrri12 is64Bit _ src imm => written is64Bit (regs src.regNo + imm.read frame)
  | addrrr is64Bit _ src src' => written is64Bit (regs src.regNo + regs src'.regNo)
  | movrr is64Bit _ src => written is64Bit (regs src.regNo)
  | movri is64Bit _ imm => written is64Bit (imm.read frame)
  | lslrri is64Bit _ src shift => written is64Bit (regs src.regNo <<< shift)
  | xsxtw64 _ src => ((regs src.regNo).setWidth 32).signExtend 64
  | xuxtw64 _ src => lowWord (regs src.regNo)

def exec (frame : BitVec 64) (defInsn : DefInsn) (regs : Regs) : Regs :=
  Function.update regs defInsn.dest.regNo (defInsn.value frame regs)

/-- The registers after the instruction, but those that it reads as it has read them. -/
def execKeepingSources (frame : BitVec 64) (defInsn : DefInsn) (regs : Regs) : Regs :=
  fun regNo => if regNo ∈ defInsn.sources then regs regNo else defInsn.exec frame regs regNo

end DefInsn

/-- The new address, with the registers that the instruction has read, is the old one after the
instruction. -/
def SameAddress (defInsn : DefInsn) (old new : Address) : Prop :=
  ∀ frame regs,
    new.effectiveAddress frame (defInsn.execKeepingSources frame regs) =
      old.effectiveAddress frame (defInsn.exec frame regs)

end MemProp
end AArch64
end Maple
