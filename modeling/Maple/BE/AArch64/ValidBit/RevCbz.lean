import Maple.BE.AArch64.ValidBit.Patterns

/-!
# Byte reversals before tests

`RevCbzToCbzPattern`: a chain of logical instructions on a byte-reversed value ends in a test
against zero or an immediate. The pattern drops the reversal and reverses the immediates. An `int64`
immediate stands here for its 64 bits.
-/

namespace Maple
namespace AArch64
namespace RevCbz

open ValidBit

/-- `MOP_wrevrr16`, `MOP_wrevrr` and `MOP_xrevrr`. -/
inductive RevOp where
  | wrevrr16 | wrevrr | xrevrr
  deriving DecidableEq, Repr

/-- The operations of `MOP_wandrri12`, `MOP_wiorrri12`, `MOP_weorrri12` and their 64-bit forms. -/
inductive LogicalOp where
  | and | orr | eor
  deriving DecidableEq, Repr

structure LogicalInsn where
  is64 : Bool
  op : LogicalOp
  imm : BitVec 64
  deriving DecidableEq, Repr

/-- An instruction that is the only use of the result before it. -/
inductive UseInsn where
  | logical (insn : LogicalInsn)
  | cmpri (is64 : Bool) (imm : BitVec 64)
  /-- `cbz`, or `cbnz` if it does not branch on zero. -/
  | cbz (is64 : Bool) (onZero : Bool)
  /-- `beq` or `bne`. -/
  | bcond (onEq : Bool)
  | other
  deriving DecidableEq, Repr

/-- The end of a chain. -/
inductive Test where
  | cbz (is64 : Bool) (onZero : Bool)
  | cmpri (is64 : Bool) (imm : BitVec 64) (onEq : Bool)
  deriving DecidableEq, Repr

/-- The instructions behind the reversal. -/
structure Chain where
  logical : List LogicalInsn
  test : Test
  deriving DecidableEq, Repr

/-! ### What the instructions compute -/

def byte (v : BitVec 64) (i : Nat) : BitVec 8 := v.extractLsb' (8 * i) 8

/-- `rev16`, `rev` of 32 bits and `rev` of 64 bits. -/
def RevOp.run : RevOp → BitVec 64 → BitVec 64
  | wrevrr16, v => (byte v 2 ++ byte v 3 ++ byte v 0 ++ byte v 1).setWidth 64
  | wrevrr, v => (byte v 0 ++ byte v 1 ++ byte v 2 ++ byte v 3).setWidth 64
  | xrevrr, v =>
    (byte v 0 ++ byte v 1 ++ byte v 2 ++ byte v 3 ++ byte v 4 ++ byte v 5 ++ byte v 6 ++
      byte v 7).setWidth 64

def LogicalOp.eval : LogicalOp → BitVec 64 → BitVec 64 → BitVec 64
  | and, x, y => x &&& y
  | orr, x, y => x ||| y
  | eor, x, y => x ^^^ y

def LogicalInsn.run (l : LogicalInsn) (v : BitVec 64) : BitVec 64 :=
  low l.is64 (l.op.eval v l.imm)

namespace Test

def is64 : Test → Bool
  | cbz is64 _ => is64
  | cmpri is64 _ _ => is64

/-- What the register is compared with. -/
def value : Test → BitVec 64
  | cbz _ _ => 0
  | cmpri _ imm _ => imm

def onEq : Test → Bool
  | cbz _ onZero => onZero
  | cmpri _ _ onEq => onEq

/-- The branch is taken. -/
def branches (t : Test) (v : BitVec 64) : Bool := (low t.is64 v == low t.is64 t.value) == t.onEq

end Test

namespace Chain

variable (c : Chain)

def run (v : BitVec 64) : BitVec 64 := c.logical.foldl (fun v l => l.run v) v

def branches (v : BitVec 64) : Bool := c.test.branches (c.run v)

end Chain

/-! ### The pattern -/

def setRevValue (mop : RevOp) (oldVal : BitVec 64) (isLogicalImm16 : Bool) : BitVec 64 :=
  match mop with
  | .wrevrr16 =>
    let newVal := ((oldVal &&& 0xff#64) <<< 8) ||| ((oldVal &&& 0xff00#64) >>> 8)
    -- make an immediate that a logical instruction can hold as often as possible
    if isLogicalImm16 then newVal ||| (newVal <<< 16) else newVal
  | .wrevrr =>
    ((oldVal &&& 0xff#64) <<< 24) ||| ((oldVal &&& 0xff00#64) <<< 8) |||
      ((oldVal &&& 0xff0000#64) >>> 8) ||| ((oldVal &&& 0xff000000#64) >>> 24)
  | .xrevrr =>
    ((oldVal &&& 0xff#64) <<< 56) ||| ((oldVal &&& 0xff00#64) <<< 40) |||
      ((oldVal &&& 0xff0000#64) <<< 24) ||| ((oldVal &&& 0xff000000#64) <<< 8) |||
      ((oldVal &&& 0xff00000000#64) >>> 8) ||| ((oldVal &&& 0xff0000000000#64) >>> 24) |||
      ((oldVal &&& 0xff000000000000#64) >>> 40) ||| ((oldVal &&& 0xff00000000000000#64) >>> 56)

/-- `CheckCondition`: the instructions that use the result of the reversal and of each other. -/
def checkCondition : List UseInsn → Option Chain
  | [.cbz is64 onZero] => some ⟨[], .cbz is64 onZero⟩
  | [.cmpri is64 imm, .bcond onEq] => some ⟨[], .cmpri is64 imm onEq⟩
  | .logical l :: useInsns =>
    (checkCondition useInsns).map fun c => { c with logical := l :: c.logical }
  | _ => none

section

-- the table `valid_bitmask_imm.txt`
variable (validBitmaskImmSet : BitVec 64 → Bool)

/-- `Imm12BitMaskValid` and `Imm13BitMaskValid`. -/
def immBitMaskValid (is64 : Bool) (value : BitVec 64) : Bool :=
  if value = 0#64 ∨ value = BitVec.allOnes 64 then false
  else isBitmaskImmediate validBitmaskImmSet value (if is64 then 64 else 32)

/-- The loop of `Run` for a logical instruction. -/
def newLogical (revMop : RevOp) (isValidBits16 : Bool) (l : LogicalInsn) : Option LogicalInsn :=
  let newValue := setRevValue revMop l.imm isValidBits16
  if immBitMaskValid validBitmaskImmSet l.is64 newValue then some { l with imm := newValue }
  else none

/-- The loop of `Run` for the comparison; `cbz` stays. -/
def newTest (revMop : RevOp) : Test → Option Test
  | .cbz is64 onZero => some (.cbz is64 onZero)
  | .cmpri is64 imm onEq =>
    let newValue := setRevValue revMop imm false
    if imm12BitValid newValue then some (.cmpri is64 newValue onEq) else none

/-- `Run` on the reversal of a register with `validBitsNum` valid bits: the chain that it puts on the
register itself. -/
def run (revMop : RevOp) (validBitsNum : Nat) (useInsns : List UseInsn) : Option Chain := do
  let c ← checkCondition useInsns
  let isValidBits16 := revMop == .wrevrr16 && decide (validBitsNum ≤ 16)
  let logical ← c.logical.mapM (newLogical validBitmaskImmSet revMop isValidBits16)
  let test ← newTest revMop c.test
  return ⟨logical, test⟩

end

end RevCbz
end AArch64
end Maple
