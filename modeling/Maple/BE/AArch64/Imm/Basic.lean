import Maple.IR.PrimType
import Mathlib.Logic.Function.Basic

/-!
# Moving immediates into registers

The two functions that select the instructions for an immediate, `SelectCopyImm` and
`SplitMovImmOpndInstruction`, the predicates on immediates they depend on, and what the selected
instructions do to the registers. An `int64` stands here for its 64 bits.
-/

namespace Maple
namespace AArch64

abbrev RegNO := Nat

/-- `ImmOperand`, the part that is read here. -/
structure ImmOperand where
  value : BitVec 64
  size : Nat
  deriving DecidableEq, Repr

/-! ### Instructions -/

/-- The instructions that are selected, with the operands of `BuildInsn` in its order. -/
inductive Insn where
  | wmovrr (dest src : RegNO)
  | xmovrr (dest src : RegNO)
  | wmovri32 (dest : RegNO) (imm : ImmOperand)
  | xmovri64 (dest : RegNO) (imm : ImmOperand)
  | wmovkri16 (dest : RegNO) (imm : ImmOperand) (lsl : Nat)
  | xmovzri16 (dest : RegNO) (imm : ImmOperand) (lsl : Nat)
  | xmovnri16 (dest : RegNO) (imm : ImmOperand) (lsl : Nat)
  | xmovkri16 (dest : RegNO) (imm : ImmOperand) (lsl : Nat)
  | xbfirri6i6 (dest src : RegNO) (lsb width : ImmOperand)
  deriving DecidableEq, Repr

/-- The contents of the 64-bit registers. -/
abbrev Regs := RegNO → BitVec 64

/-- The `width` lowest bits set, shifted to the bit `lsb`. -/
def field (lsb width : Nat) : BitVec 64 := (BitVec.allOnes 64 >>> (64 - width)) <<< lsb

/-- Put the `width` lowest bits of `y` at the bit `lsb` of `x`. -/
def insertField (x y : BitVec 64) (lsb width : Nat) : BitVec 64 :=
  (x &&& ~~~field lsb width) ||| ((y <<< lsb) &&& field lsb width)

namespace Insn

/-- What an instruction writes. A 32-bit register is the low half of its 64-bit register, and an
instruction that writes it clears the high half. -/
def run (insn : Insn) (regs : Regs) : Regs :=
  match insn with
  | wmovrr dest src => Function.update regs dest (((regs src).setWidth 32).setWidth 64)
  | xmovrr dest src => Function.update regs dest (regs src)
  | wmovri32 dest imm => Function.update regs dest ((imm.value.setWidth 32).setWidth 64)
  | xmovri64 dest imm => Function.update regs dest imm.value
  | wmovkri16 dest imm lsl =>
    Function.update regs dest (((insertField (regs dest) imm.value lsl 16).setWidth 32).setWidth 64)
  | xmovzri16 dest imm lsl =>
    Function.update regs dest ((imm.value.setWidth 16).setWidth 64 <<< lsl)
  | xmovnri16 dest imm lsl =>
    Function.update regs dest (~~~((imm.value.setWidth 16).setWidth 64 <<< lsl))
  | xmovkri16 dest imm lsl =>
    Function.update regs dest (insertField (regs dest) imm.value lsl 16)
  | xbfirri6i6 dest src lsb width =>
    Function.update regs dest
      (insertField (regs dest) (regs src) lsb.value.toNat width.value.toNat)

/-- What a sequence of instructions writes. -/
def runAll (insns : List Insn) (regs : Regs) : Regs :=
  insns.foldl (fun regs insn => insn.run regs) regs

end Insn

/-! ### Predicates on immediates -/

def isMoveWidableImmediate (val : BitVec 64) (bitLen : Nat) : Bool :=
  if bitLen = 64 then
    val &&& (0xffff#64 <<< 48) = val || val &&& (0xffff#64 <<< 32) = val ||
      val &&& (0xffff#64 <<< 16) = val || val &&& 0xffff#64 = val
  else
    let val := val &&& 0xffffffff#64
    val &&& (0xffff#64 <<< 16) = val || val &&& 0xffff#64 = val

/-- The copy of `IsMoveWidableImmediate` in `aarch64_imm_valid.h`. -/
def isMoveWidableImmediateCopy (val : BitVec 64) (bitLen : Nat) : Bool :=
  if val = 0#64 ∨ val = 0xffffffff#64 then true
  else if bitLen = 64 then
    val &&& (0xffff#64 <<< 48) = val || val &&& (0xffff#64 <<< 32) = val ||
      val &&& (0xffff#64 <<< 16) = val || val &&& 0xffff#64 = val
  else
    let val := val &&& 0xffffffff#64
    if val = 0#64 then false
    else val &&& (0xffff#64 <<< 16) = val || val &&& 0xffff#64 = val

def ctzll (x : BitVec 64) : Nat := ((List.range 64).find? fun i => x.getLsbD i).getD 64

def kBitmaskImmMultTable (n : Nat) : BitVec 64 :=
  [0x0000000100000001#64, 0x0001000100010001#64, 0x0101010101010101#64, 0x1111111111111111#64,
    0x5555555555555555#64].getD n 0#64

section

-- the table `valid_bitmask_imm.txt`
variable (validBitmaskImmSet : BitVec 64 → Bool)

def isBitmaskImmediate (val : BitVec 64) (bitLen : Nat) : Bool :=
  if bitLen = 32 ∧ val.setWidth 32 = BitVec.allOnes 32 then false
  else
    let twice (x : BitVec 64) : BitVec 64 :=
      if bitLen = 32 then (x <<< 32) ||| (x &&& 0xffffffff#64) else x
    let expectedOutcome := validBitmaskImmSet (twice val)
    let val := twice (if val.getLsbD 0 then ~~~val else val)
    let tmpVal := val + (val &&& (BitVec.allOnes 64 - val + 1#64))
    let tmpVal := tmpVal &&& (tmpVal - 1#64)
    if tmpVal = 0#64 then expectedOutcome
    else
      let diff := BitVec.ofInt 64 (ctzll tmpVal - ctzll val)
      if diff &&& (diff - 1#64) ≠ 0#64 then false
      else
        let logDiff := ctzll diff
        let pattern := val &&& ((1#64 <<< diff.toNat) - 1#64)
        val = pattern * kBitmaskImmMultTable (5 - logDiff)

def isSingleInstructionMovable64 (value : BitVec 64) : Bool :=
  isMoveWidableImmediateCopy value 64 || isMoveWidableImmediateCopy (~~~value) 64 ||
    isBitmaskImmediate validBitmaskImmSet value 64

namespace ImmOperand

def isSingleInstructionMovable (imm : ImmOperand) : Bool :=
  isMoveWidableImmediate imm.value imm.size || isMoveWidableImmediate (~~~imm.value) imm.size ||
    isBitmaskImmediate validBitmaskImmSet imm.value imm.size

def bitwiseNegate (imm : ImmOperand) : ImmOperand :=
  { imm with value := ~~~imm.value &&& ((1#64 <<< imm.size) - 1#64) }

end ImmOperand

/-! ### Selecting the instructions -/

/-- The chunk of 16 bits at the bit `sa`. -/
def chunkVal (val : BitVec 64) (sa : Nat) : BitVec 64 := (val >>> sa) &&& 0xffff#64

def betterUseMOVZ (val : BitVec 64) : Bool :=
  let chunks := [chunkVal val 0, chunkVal val 16, chunkVal val 32, chunkVal val 48]
  chunks.countP (· = 0#64) ≥ chunks.countP (· = 0xffff#64)

/-- The loop over the chunks that both functions contain: `loopTime` more chunks, from the bit
`sa`. -/
def movChunks (val : BitVec 64) (dest : RegNO) (useMovz : Bool) :
    (loopTime sa : Nat) → (useMovk : Bool) → List Insn
  | 0, _, _ => []
  | loopTime + 1, sa, useMovk =>
    let chunk := chunkVal val sa
    if chunk = (if useMovz then 0#64 else 0xffff#64) then
      movChunks val dest useMovz loopTime (sa + 16) useMovk
    else
      let src16 : ImmOperand := ⟨chunk, 16⟩
      let insn :=
        if useMovk then .xmovkri16 dest src16 sa
        else if useMovz then .xmovzri16 dest src16 sa
        else .xmovnri16 dest src16.bitwiseNegate sa
      insn :: movChunks val dest useMovz loopTime (sa + 16) true

def splitMovImmOpndInstruction (immVal : BitVec 64) (destReg : RegNO) : List Insn :=
  let useMovz := betterUseMOVZ immVal
  let chunkLval := immVal &&& 0xffffffff#64
  let chunkHval := (immVal >>> 32) &&& 0xffffffff#64
  if chunkLval = chunkHval then
    -- the low half is computed and then copied to the high half
    movChunks immVal destReg useMovz 2 0 false ++ [.xbfirri6i6 destReg destReg ⟨32, 8⟩ ⟨32, 8⟩]
  else movChunks immVal destReg useMovz 4 0 false

variable [Target]

/-- `PickMovBetweenRegs`, between registers of integer types of at most 64 bits. -/
def pickMovBetweenRegs (srcType : PrimType) (dest src : RegNO) : Insn :=
  if srcType.size ≤ 4 then .wmovrr dest src else .xmovrr dest src

/-- `SelectCopy` of a register to a register, for integer types. -/
def selectCopy (dest src : RegNO) (stype : PrimType) : List Insn :=
  if dest = src then [] else [pickMovBetweenRegs stype dest src]

/-- The operand after the truncation at the start of `SelectCopyImm`; the caller's operand is
changed too. -/
def truncateImm (src : ImmOperand) (dsize : Nat) : ImmOperand :=
  if dsize < src.size then { src with value := src.value &&& ((1#64 <<< dsize) - 1#64) } else src

/-- The part of `SelectCopyImm` for an immediate that one instruction does not move. -/
def selectMovMovk (srcVal : BitVec 64) (dtype : PrimType) (dest : RegNO) : List Insn :=
  let mov32 (srcVal : BitVec 64) : List Insn :=
    [.wmovri32 dest ⟨srcVal &&& 0xffff#64, 16⟩, .wmovkri16 dest ⟨chunkVal srcVal 16, 16⟩ 16]
  let mov16 (srcVal : BitVec 64) (isU16 : Bool) : List Insn :=
    if isU16 then [.wmovri32 dest ⟨srcVal &&& 0xffff#64, 16⟩]
    else mov32 ((srcVal <<< 48) >>> 48)
  if dtype.bitSize = 8 then mov16 ((srcVal <<< 56) >>> 56) (dtype = .u8)
  else if dtype.bitSize = 16 then mov16 srcVal (dtype = .u16)
  else if dtype.bitSize = 32 then mov32 srcVal
  else splitMovImmOpndInstruction srcVal dest

/-- `SelectCopyImm`, where `tempReg` is the number of the new virtual register. -/
def selectCopyImm (dest : RegNO) (src : ImmOperand) (dtype : PrimType) (tempReg : RegNO) :
    List Insn :=
  let dsize := dtype.bitSize
  let src := truncateImm src dsize
  if src.size = 32 ∧ dsize = 64 ∧ src.isSingleInstructionMovable validBitmaskImmSet then
    .wmovri32 tempReg src :: selectCopy dest tempReg .u32
  else if src.isSingleInstructionMovable validBitmaskImmSet then
    [if dsize ≤ 32 then .wmovri32 dest src else .xmovri64 dest src]
  else selectMovMovk src.value dtype dest

end

end AArch64
end Maple
