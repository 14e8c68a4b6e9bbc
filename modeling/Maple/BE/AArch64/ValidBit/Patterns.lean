import Maple.BE.AArch64.Imm.Exact

/-!
# Registers of the valid-bit patterns

The patterns of `AArch64ValidBitOpt` see how many of the lowest bits of a register may be set. The
values of the registers have 64 bits; a 32-bit instruction reads the low half of a register and
clears the high half of the register that it writes.
-/

namespace Maple
namespace AArch64
namespace ValidBit

/-- What a 32-bit or a 64-bit instruction reads of a register, and what it leaves. -/
def low (is64 : Bool) (v : BitVec 64) : BitVec 64 :=
  if is64 then v else (v.setWidth 32).setWidth 64

/-- The number of bits of an instruction. -/
def width (is64 : Bool) : Nat := if is64 then 64 else 32

lemma getLsbD_low (is64 : Bool) (v : BitVec 64) (k : Nat) :
    (low is64 v).getLsbD k = ((is64 || decide (k < 32)) && v.getLsbD k) := by
  cases is64
  · simp only [low, Bool.false_eq_true, if_false, BitVec.getLsbD_setWidth, Bool.false_or]
    by_cases hk : k < 64
    · simp [hk]
    · simp [hk, BitVec.getLsbD_of_ge v k (by omega)]
  · simp [low]

def isBitSizeImmediate (val : BitVec 64) (bitLen nLowerZeroBits : Nat) : Bool :=
  val &&& ((1#64 <<< nLowerZeroBits) - 1#64) = 0#64 &&
    (BitVec.allOnes 64 <<< bitLen) &&& (val >>> nLowerZeroBits) = 0#64

def imm12BitValid (value : BitVec 64) : Bool :=
  isBitSizeImmediate value 12 0 || isBitSizeImmediate value 12 12

end ValidBit
end AArch64
end Maple

/-! ### Patterns over valid bits

`AndValidBitPattern`, `ExtValidBitPattern`, `RSPattern`, `CmpCsetVBPattern` and `CmpBranchesPattern`:
what they look at, what they accept and what they put in place of an instruction. Immediates of
instructions are encodable.
-/

namespace Maple
namespace AArch64
namespace ValidBit

/-- `RegOperand`, the part that is read here. -/
structure RegOperand where
  size : Nat
  validBitsNum : Nat
  isPhysicalRegister : Bool
  isSSAForm : Bool
  deriving DecidableEq, Repr

/-- The value has no more bits than were recorded. -/
def RegOperand.Holds (r : RegOperand) (v : BitVec 64) : Prop := v.toNat < 2 ^ r.validBitsNum

/-! ### Bits of immediates -/

/-- The loop of `GetImmValidBit` with `n` iterations to go at the bit `i`. -/
def immValidBitLoop : (n i : Nat) → (value pos : Nat) → Nat
  | 0, _, _, pos => pos
  | n + 1, i, value, pos =>
    immValidBitLoop n (i + 1) (value / 2) (if value % 2 = 1 then i + 1 else pos)

def getImmValidBit (value : BitVec 64) (size : Nat) : Nat :=
  if value.toInt < 0 then size
  else if value = 0#64 then 1
  else immValidBitLoop 65 0 value.toNat 0

def popcountll (x : BitVec 64) : Nat := (List.range 64).countP fun i => x.getLsbD i

def getLogValueAtBase2 (val : BitVec 64) : Int := if popcountll val = 1 then ctzll val else -1

/-! ### `AndValidBitPattern` -/

/-- `MOP_wandrri12` or `MOP_xandrri13`. The immediate of the first is a number of 32 bits, signed or
unsigned. -/
structure AndInsn where
  is64 : Bool
  imm : BitVec 64
  src : RegOperand
  desIsSSAForm : Bool
  imm_fits : is64 = false → -2 ^ 31 ≤ imm.toInt ∧ imm.toInt < 2 ^ 32

def AndInsn.run (i : AndInsn) (v : BitVec 64) : BitVec 64 := low i.is64 (v &&& i.imm)

inductive ShiftOp where
  | asr | lsr
  deriving DecidableEq, Repr

/-- A shift by an immediate: `MOP_wasrrri5`, `MOP_xasrrri6`, `MOP_wlsrrri5` or `MOP_xlsrrri6`. -/
structure ShiftInsn where
  is64 : Bool
  op : ShiftOp
  imm : Nat
  imm_lt : imm < width is64

/-- A shift of `n` bits. -/
def ShiftOp.eval {n : Nat} : ShiftOp → BitVec n → Nat → BitVec n
  | asr, x, s => x.sshiftRight s
  | lsr, x, s => x >>> s

def ShiftInsn.run (i : ShiftInsn) (v : BitVec 64) : BitVec 64 :=
  if i.is64 then i.op.eval v i.imm else (i.op.eval (v.setWidth 32) i.imm).setWidth 64

/-- An instruction that uses the result, with what it computes from the register. -/
inductive AndUse where
  | shift (insn : ShiftInsn)
  | other (run : BitVec 64 → BitVec 64)

def AndUse.run : AndUse → BitVec 64 → BitVec 64
  | shift insn => insn.run
  | other run => run

def checkImmValidBit (andImm : BitVec 64) (andImmVB shiftImm : Nat) : Bool :=
  (List.range 32).find? (fun i => andImm.getLsbD i) == some shiftImm &&
    andImm >>> shiftImm == (1#64 <<< (andImmVB - shiftImm)) - 1#64

def AndInsn.checkCondition (i : AndInsn) (useInsns : List AndUse) : Bool :=
  let validBit := i.src.validBitsNum
  let desSize := width i.is64
  if validBit ≤ 8 ∧ i.imm = 0xff#64 then true
  else if validBit ≤ 16 ∧ i.imm = 0xffff#64 then true
  else if validBit ≤ 32 ∧ i.imm = 0xffffffff#64 then true
  else if desSize < i.src.size ∧ desSize < validBit then false
  else
    match useInsns with
    | [.shift s] =>
      let andImmVB := getImmValidBit i.imm desSize
      validBit == andImmVB && checkImmValidBit i.imm andImmVB s.imm
    | _ => false

/-- `AndValidBitPattern::Run`: the uses of the result become uses of the source. -/
def AndInsn.propagates (i : AndInsn) (useInsns : List AndUse) : Bool :=
  i.checkCondition useInsns && i.desIsSSAForm && i.src.isSSAForm

/-! ### `ExtValidBitPattern` -/

/-- An extension or a bit-field extract. -/
inductive ExtInsn where
  | xuxtb32 | xuxth32 | xuxtw64 | xsxtw64
  | ubfx (is64 : Bool) (lsb fieldWidth : Nat)
  | sbfx (is64 : Bool) (lsb fieldWidth : Nat)
  deriving DecidableEq, Repr

namespace ExtInsn

/-- The immediates of the bit fields are encodable. -/
def Encodable : ExtInsn → Prop
  | ubfx is64 lsb fieldWidth | sbfx is64 lsb fieldWidth =>
    1 ≤ fieldWidth ∧ lsb + fieldWidth ≤ width is64
  | _ => True

def run : ExtInsn → BitVec 64 → BitVec 64
  | xuxtb32, v => (v.setWidth 8).setWidth 64
  | xuxth32, v => (v.setWidth 16).setWidth 64
  | xuxtw64, v => (v.setWidth 32).setWidth 64
  | xsxtw64, v => (v.setWidth 32).signExtend 64
  | ubfx _ lsb fieldWidth, v => (v.extractLsb' lsb fieldWidth).setWidth 64
  | sbfx is64 lsb fieldWidth, v => low is64 ((v.extractLsb' lsb fieldWidth).signExtend 64)

/-- `ExtValidBitPattern::CheckCondition` with the instruction that it selects: `MOP_xmovrr` or
`MOP_wmovrr`. `byUses` says that `CheckRedundantUxtbUxth` or `CheckValidCvt` has found that the uses
do not need the extension. -/
def checkCondition (i : ExtInsn) (src : RegOperand) (byUses : Bool) : Option Bool :=
  match i with
  | xuxtb32 =>
    if byUses ∨ src.validBitsNum ≤ 8 ∧ ¬ src.isPhysicalRegister then some false else none
  | xuxth32 =>
    if byUses ∨ src.validBitsNum ≤ 16 ∧ ¬ src.isPhysicalRegister then some false else none
  | xuxtw64 =>
    if byUses ∨ src.validBitsNum ≤ 32 ∧ ¬ src.isPhysicalRegister then some false else none
  | xsxtw64 => if 32 ≤ src.validBitsNum then none else some true
  | ubfx is64 lsb fieldWidth =>
    if byUses then some true
    else if lsb ≠ 0 ∨ fieldWidth < src.validBitsNum ∨ src.isPhysicalRegister then none
    else some is64
  | sbfx is64 lsb fieldWidth =>
    if byUses then some true
    else if lsb ≠ 0 ∨ fieldWidth < src.validBitsNum ∨ src.isPhysicalRegister then none
    else if src.validBitsNum = fieldWidth then none
    else some is64

end ExtInsn

/-- What a register that was extended holds after `ExtValidBitPattern::Run`: its uses become uses of
the source, or a move stays. -/
def movResult (newMopIs64 : Bool) (src : RegOperand) (desIsSSAForm : Bool) (v : BitVec 64) :
    BitVec 64 :=
  if desIsSSAForm && src.isSSAForm then v else low newMopIs64 v

/-! ### `RSPattern` -/

/-- `RSPattern::CheckCondition`; `Run` puts `mov` of zero in place of the shift. -/
def ShiftInsn.isZeroByValidBits (i : ShiftInsn) (src : RegOperand) : Bool :=
  i.op = .asr && src.validBitsNum < i.imm

/-! ### `CmpCsetVBPattern` -/

/-- The conditions of `cset` that the pattern tells apart; the others come with what they test. -/
inductive CondCode where
  | eq | ne
  | other (holds : BitVec 64 → BitVec 64 → Bool)

def CondCode.holds : CondCode → BitVec 64 → BitVec 64 → Bool
  | eq, x, y => x == y
  | ne, x, y => x != y
  | other holds, x, y => holds x y

/-- The instruction that defines the compared register. -/
inductive DefInsn where
  | phi
  | csetrc
  | movri (is64 : Bool) (imm : BitVec 64)
  | movrr (is64 : Bool) (srcIsVirtual srcIsZero : Bool)
  | lsrrri (is64 : Bool) (shiftBits : Nat)
  | other
  deriving DecidableEq, Repr

/-- The values that the instruction may leave. -/
def DefInsn.Leaves : DefInsn → BitVec 64 → Prop
  | csetrc, v => v = 0#64 ∨ v = 1#64
  | movri is64 imm, v => v = low is64 imm
  | movrr _ _ srcIsZero, v => srcIsZero → v = 0#64
  | lsrrri is64 shiftBits, v => ∃ u, v = low is64 u >>> shiftBits
  | phi, _ | other, _ => True

/-- A `cset` behind a comparison of a register with an immediate. -/
structure CmpCset where
  isContinuousCmpCset : Bool
  is64 : Bool
  cmpReg : RegOperand
  cmpConst : BitVec 64
  ccUses : Nat
  defInsn : Option DefInsn
  cond : CondCode

namespace CmpCset

variable (c : CmpCset)

/-- The value that `cset` leaves. -/
def run (v : BitVec 64) : BitVec 64 :=
  if c.cond.holds (low c.is64 v) (low c.is64 c.cmpConst) then 1#64 else 0#64

def opndDefByOneValidBit : DefInsn → Bool
  | .phi => c.cmpReg.validBitsNum == 1 || c.cmpReg.validBitsNum == 0
  | .csetrc => true
  | .movri _ imm => imm == 0#64 || imm == 1#64
  | .movrr _ _ srcIsZero => srcIsZero
  | .lsrrri is64 shiftBits => shiftBits == width is64 - 1
  | .other => false

/-- `CmpCsetVBPattern::CheckCondition`, from the comparison on. -/
def checkCondition : Bool :=
  if c.isContinuousCmpCset then false
  else if 1 < c.ccUses then false
  else if c.cmpConst ≠ 0#64 ∧ c.cmpConst ≠ 1#64 then false
  else
    match c.defInsn with
    | none => false
    | some (.movrr _ false _) => false
    | some defInsn =>
      c.cmpReg.validBitsNum == 1 || c.cmpReg.validBitsNum == 0 || c.opndDefByOneValidBit defInsn

/-- `CmpCsetVBPattern::Run`: what the new `mov` or `eor` computes. -/
def newInsn : Option (BitVec 64 → BitVec 64) :=
  if c.checkCondition then
    match c.cond with
    | .ne =>
      if c.cmpConst = 0#64 then some (low (c.cmpReg.size == 64))
      else some fun v => low (c.cmpReg.size == 64) (v ^^^ 1#64)
    | .eq =>
      if c.cmpConst = 1#64 then some (low (c.cmpReg.size == 64))
      else some fun v => low (c.cmpReg.size == 64) (v ^^^ 1#64)
    | .other _ => none
  else none

end CmpCset

/-! ### `CmpBranchesPattern` -/

inductive BranchOp where
  | bge | blt | beq | bne
  deriving DecidableEq, Repr

/-- A branch behind a comparison of a register with an immediate. -/
structure CmpBranch where
  op : BranchOp
  is64 : Bool
  reg : RegOperand
  imm : BitVec 64
  imm_valid : imm12BitValid imm = true

/-- `tbnz`, `tbz`, `cbz` and `cbnz`. -/
inductive NewBranch where
  | tbnz (is64 : Bool) (bit : Nat)
  | tbz (is64 : Bool) (bit : Nat)
  | cbz (is64 : Bool)
  | cbnz (is64 : Bool)
  deriving DecidableEq, Repr

/-- The new branch is taken. -/
def NewBranch.taken : NewBranch → BitVec 64 → Bool
  | tbnz is64 bit, v => (low is64 v).getLsbD bit
  | tbz is64 bit, v => !(low is64 v).getLsbD bit
  | cbz is64, v => low is64 v == 0#64
  | cbnz is64, v => low is64 v != 0#64

/-- The comparison of the numbers, with signs. -/
def BranchOp.eval {n : Nat} : BranchOp → BitVec n → BitVec n → Bool
  | bge, x, y => y.sle x
  | blt, x, y => x.slt y
  | beq, x, y => x == y
  | bne, x, y => x != y

namespace CmpBranch

variable (b : CmpBranch)

/-- The branch is taken. -/
def taken (v : BitVec 64) : Bool :=
  if b.is64 then b.op.eval v b.imm else b.op.eval (v.setWidth 32) (b.imm.setWidth 32)

/-- `CmpBranchesPattern::CheckCondition`, `SelectNewMop` and `Run`. -/
def newBranch : Option NewBranch :=
  match b.op with
  | .beq =>
    if 1 < b.reg.validBitsNum ∨ b.imm ≠ 0#64 ∧ b.imm ≠ 1#64 then none
    else if b.imm = 0#64 then some (.cbz b.is64) else some (.cbnz b.is64)
  | .bne =>
    if 1 < b.reg.validBitsNum ∨ b.imm ≠ 0#64 ∧ b.imm ≠ 1#64 then none
    else if b.imm = 0#64 then some (.cbnz b.is64) else some (.cbz b.is64)
  | .bge =>
    let newImmVal := getLogValueAtBase2 b.imm
    if newImmVal < 0 ∨ (b.reg.validBitsNum : Int) ≠ newImmVal + 1 then none
    else some (.tbnz b.is64 newImmVal.toNat)
  | .blt =>
    let newImmVal := getLogValueAtBase2 b.imm
    if newImmVal < 0 ∨ (b.reg.validBitsNum : Int) ≠ newImmVal + 1 then none
    else some (.tbz b.is64 newImmVal.toNat)

end CmpBranch

end ValidBit
end AArch64
end Maple
