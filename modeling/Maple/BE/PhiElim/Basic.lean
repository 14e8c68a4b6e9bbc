import Mathlib.Logic.Function.Basic
import Mathlib.Data.List.Basic
import Mathlib.Algebra.Group.Nat.Defs

/-!
# Phi elimination

`PhiEliminate::TranslateTSSAToCSSA` with its AArch64 parts. Operands are values here, where the
source shares the objects of `vRegOperandTable`; the numbers that only feed the rematerialisation
are left out.
-/

namespace Maple
namespace PhiElim

inductive RegType
  | kRegTyUndef | kRegTyInt | kRegTyFloat | kRegTyCc | kRegTyX87 | kRegTyVary | kRegTyFpsc
  | kRegTyIndex
  deriving DecidableEq

structure RegOperand where
  regNO : Nat
  size : Nat
  regType : RegType
  isSSAForm : Bool
  deriving DecidableEq

def RegOperand.isOfFloatOrSIMDClass (o : RegOperand) : Bool := o.regType = .kRegTyFloat

def RegOperand.isOfCC (o : RegOperand) : Bool := o.regType = .kRegTyCc

/-- The number of the flags register. -/
def kRFLAG : Nat := 68

/-- The operations of the moves that `CreateMov` builds. -/
inductive MovOp
  | MOP_vmovvv | MOP_xvmovd | MOP_xmovrr | MOP_xvmovs | MOP_wmovrr
  deriving DecidableEq

def MovOp.isVectorOp (o : MovOp) : Bool := o = .MOP_vmovvv

/-- A phi: the register it defines and, for every predecessor, the register it reads. -/
structure PhiInsn where
  dest : RegOperand
  phiList : List (Nat × RegOperand)

/-- What the pass asks of an operation. -/
structure InsnDesc where
  isAsm : Bool := false
  isVectorOp : Bool := false
  isSpecialIntrinsic : Bool := false
  isAtomic : Bool := false

/-- An instruction. The registers of lists and of memory operands are spread out, and what a call
defines is with what it lists; a branch defines none. -/
inductive Insn (α : Type)
  | phi (p : PhiInsn)
  /-- A move with the mark `IsPhiMovInsn`. -/
  | phiMov (mOp : MovOp) (dest src : RegOperand)
  | machine (mOp : α) (desc : InsnDesc) (defs uses : List RegOperand)
  | branch (mOp : α) (uses : List RegOperand)
  /-- What is no machine instruction: comments, debug and frame information. -/
  | comment

/-- Whether a block has the kind `kBBFallthru`. -/
inductive BBKind
  | kBBFallthru | kBBOther
  deriving DecidableEq

structure BB (α : Type) where
  id : Nat
  kind : BBKind
  insns : List (Insn α)
  /-- `GetPhiInsns`, in the order of the map. -/
  phiInsns : List PhiInsn
  preds : List Nat

/-! ### What is known about the registers in SSA form -/

/-- The defining instruction of a version. -/
structure DefInsn where
  /-- The operand `GetBothDefUseOpnd` when it is one of those that define the version, with the
  number of times it does. -/
  bothDefUse : Option (Nat × RegOperand) := none
  isAsm : Bool := false
  asmInputList : List RegOperand := []
  regBinding : List (Nat × Nat) := []

structure VRegVersion where
  originalRegNO : Nat
  defInsn : Option DefInsn
  /-- The instructions of `GetAllUseInsns`. -/
  useInsns : List Nat

structure CGSSAInfo where
  /-- The versions by register number; a number that is only occupied has none. -/
  allSSAOperands : List (Nat × Option VRegVersion)
  noDefVRegs : List Nat
  ssaRegNObase : Nat

def CGSSAInfo.findSSAVersion (ssa : CGSSAInfo) (r : Nat) : Option VRegVersion :=
  (ssa.allSSAOperands.lookup r).join

def CGSSAInfo.occupied (ssa : CGSSAInfo) : List Nat := ssa.allSSAOperands.map (·.1)

/-! ### Temporary registers -/

/-- The fields of `PhiEliminate` that change. -/
structure Temps where
  tempRegNO : Nat
  replaceVreg : List (Nat × RegOperand)

/-- The loop of `GetAndIncreaseTempRegNO`; it ends before the numbers that are taken run out. -/
def skipOccupied (taken : List Nat) : Nat → Nat → Nat
  | 0, n => n
  | fuel + 1, n => if n ∈ taken then skipOccupied taken fuel (n + 1) else n

def getAndIncreaseTempRegNO (ssa : CGSSAInfo) (st : Temps) : Nat × Temps :=
  let ori := skipOccupied ssa.occupied ssa.occupied.length st.tempRegNO
  (ori, { st with tempRegNO := ori + 1 })

def createTempRegForCSSA (ssa : CGSSAInfo) (oriOpnd : RegOperand) (st : Temps) :
    RegOperand × Temps :=
  let r := getAndIncreaseTempRegNO ssa st
  (⟨r.1, oriOpnd.size, oriOpnd.regType, false⟩, r.2)

def makeRoomForNoDefVreg (ssa : CGSSAInfo) (conflictReg : RegOperand) (st : Temps) :
    RegOperand × Temps :=
  match st.replaceVreg.lookup conflictReg.regNO with
  | some r => (r, st)
  | none =>
    let r := createTempRegForCSSA ssa conflictReg st
    (r.1, { r.2 with replaceVreg := (conflictReg.regNO, r.1) :: r.2.replaceVreg })

/-! ### Moves in place of the phis -/

/-- The operation of the move that `CreateMov` builds, by the register it defines. -/
def movOpOf (destOpnd : RegOperand) : MovOp :=
  if destOpnd.size = 128 then .MOP_vmovvv
  else if destOpnd.size = 64 then
    if destOpnd.isOfFloatOrSIMDClass then .MOP_xvmovd else .MOP_xmovrr
  else if destOpnd.isOfFloatOrSIMDClass then .MOP_xvmovs else .MOP_wmovrr

variable {α : Type}

def createMov (destOpnd fromOpnd : RegOperand) : Insn α :=
  .phiMov (movOpOf destOpnd) destOpnd fromOpnd

/-- The loop of `AppendMovAfterLastVregDef` over the instructions from the last one, with those it
has passed: the place of the move, as what comes before it and what comes after it. -/
def lastVregDefPos : List (Insn α) → List (Insn α) → Option (List (Insn α) × List (Insn α)) →
    Option (List (Insn α) × List (Insn α))
  | [], _, pos => pos
  | .phi p :: before, passed, _ => some ((.phi p :: before).reverse, passed)
  | .comment :: before, passed, pos => lastVregDefPos before (.comment :: passed) pos
  | .branch o us :: before, passed, _ =>
    lastVregDefPos before (.branch o us :: passed) (some (before.reverse, .branch o us :: passed))
  | .machine _ _ _ _ :: _, _, pos => pos
  | .phiMov _ _ _ :: _, _, pos => pos

def appendMovAfterLastVregDef (insns : List (Insn α)) (movInsn : Insn α) :
    Option (List (Insn α)) :=
  (lastVregDefPos insns.reverse [] none).map fun pos => pos.1 ++ movInsn :: pos.2

def placeMov (bb : BB α) (movInsn : Insn α) : Option (BB α) :=
  if bb.kind = .kBBFallthru then some { bb with insns := bb.insns ++ [movInsn] }
  else (appendMovAfterLastVregDef bb.insns movInsn).map fun insns => { bb with insns }

/-- `PlaceMovInPredBB`: nothing when there is no such block or no place in it. -/
def placeMovInPredBB (movInsn : Insn α) (predBBId : Nat) : List (BB α) → Option (List (BB α))
  | [] => none
  | bb :: bbs =>
    if bb.id = predBBId then (placeMov bb movInsn).map (· :: bbs)
    else (placeMovInPredBB movInsn predBBId bbs).map (bb :: ·)

/-- The loop over the operands of a phi. -/
def placeMovs (tempMovDest : RegOperand) :
    List (Nat × RegOperand) → List (BB α) → Option (List (BB α))
  | [], bbs => some bbs
  | opnd :: opnds, bbs => do
    let bbs ← placeMovInPredBB (createMov tempMovDest opnd.2) opnd.1 bbs
    placeMovs tempMovDest opnds bbs

/-- `ReplaceInsn` of the phi, or `RemoveInsn` when it defines flags. -/
def replacePhi (p : PhiInsn) (tempMovDest : RegOperand) : Insn α → List (Insn α)
  | .phi q =>
    if q.dest.regNO = p.dest.regNO then
      if p.dest.isOfCC then [] else [createMov p.dest tempMovDest]
    else [.phi q]
  | i => [i]

/-- The body of the loop over the phis of the block `id`. -/
def eliminatePhi (ssa : CGSSAInfo) (id : Nat) (p : PhiInsn) (s : List (BB α) × Temps) :
    Option (List (BB α) × Temps) := do
  let t := createTempRegForCSSA ssa p.dest s.2
  let bbs ← placeMovs t.1 p.phiList s.1
  return (bbs.map fun bb =>
    if bb.id = id then { bb with insns := bb.insns.flatMap (replacePhi p t.1) } else bb, t.2)

/-- The loops over the blocks and their phis. -/
def eliminatePhis (ssa : CGSSAInfo) :
    List (Nat × PhiInsn) → List (BB α) × Temps → Option (List (BB α) × Temps)
  | [], s => some s
  | p :: ps, s => do
    let s ← eliminatePhi ssa p.1 p.2 s
    eliminatePhis ssa ps s

/-! ### Registers out of SSA form -/

/-- `RecursiveBothDU`, for at most `fuel` versions on the way. -/
def recursiveBothDU (ssa : CGSSAInfo) : Nat → RegOperand → Temps → Option (Nat × Temps)
  | 0, _, _ => none
  | fuel + 1, ssaOpnd, st =>
    if !ssaOpnd.isSSAForm then some (ssaOpnd.regNO, st)
    else do
      let ssaVersion ← ssa.findSSAVersion ssaOpnd.regNO
      let room :=
        if ssaOpnd.regNO ∈ ssa.noDefVRegs then makeRoomForNoDefVreg ssa ssaOpnd st
        else (ssaOpnd, st)
      match ssaVersion.defInsn with
      | none => some (ssaVersion.originalRegNO, room.2)
      | some defInsn =>
        match defInsn.bothDefUse with
        | some (count, preOpnd) =>
          if count = 1 then recursiveBothDU ssa fuel preOpnd room.2 else none
        | none =>
          if defInsn.isAsm ∨ ssaVersion.originalRegNO = kRFLAG then none
          else some (room.1.regNO, room.2)

/-- The number that a version defined by inline assembly gets. -/
def asmRegNO (ssa : CGSSAInfo) (ssaVersion : VRegVersion) (defInsn : DefInsn) (regNO : Nat) : Nat :=
  let sameOriginal := defInsn.asmInputList.find? fun inputReg =>
    (ssa.findSSAVersion inputReg.regNO).any (·.originalRegNO = ssaVersion.originalRegNO)
  match sameOriginal with
  | some inputReg => inputReg.regNO
  | none => (defInsn.regBinding.lookup ssaVersion.originalRegNO).getD regNO

/-- `GetCGVirtualOpearnd`: nothing for a version without uses, unless the instruction is of a kind
that may define such. -/
def getCGVirtualOpearnd (ssa : CGSSAInfo) (desc : InsnDesc) (ssaOpnd : RegOperand) (st : Temps) :
    Option (RegOperand × Temps) := do
  let ssaVersion ← ssa.findSSAVersion ssaOpnd.regNO
  if !desc.isAsm && !desc.isVectorOp && !desc.isSpecialIntrinsic && ssaVersion.useInsns.isEmpty &&
      !desc.isAtomic then none
  else
    let room :=
      if ssaOpnd.regNO ∈ ssa.noDefVRegs then makeRoomForNoDefVreg ssa ssaOpnd st else (ssaOpnd, st)
    match ssaVersion.defInsn with
    | none => some ({ room.1 with regNO := ssaVersion.originalRegNO, isSSAForm := false }, room.2)
    | some defInsn =>
      let both ← match defInsn.bothDefUse with
        | some (count, preOpnd) =>
          if count = 1 then recursiveBothDU ssa (ssa.occupied.length + 1) preOpnd room.2 else none
        | none => some (room.1.regNO, room.2)
      let regNO := if defInsn.isAsm then asmRegNO ssa ssaVersion defInsn both.1 else both.1
      let regNO := if ssaVersion.originalRegNO = kRFLAG then kRFLAG else regNO
      return ({ room.1 with regNO, isSSAForm := false }, both.2)

/-- A visit of `A64OperandPhiElmVisitor`. -/
def recreateOpnd (ssa : CGSSAInfo) (desc : InsnDesc) (o : RegOperand) (st : Temps) :
    Option (RegOperand × Temps) :=
  if o.isSSAForm then getCGVirtualOpearnd ssa desc o st else some (o, st)

/-- The operands of an instruction are visited from the last to the first. -/
def recreateOpnds (ssa : CGSSAInfo) (desc : InsnDesc) :
    List RegOperand → Temps → Option (List RegOperand × Temps)
  | [], st => some ([], st)
  | o :: os, st => do
    let os ← recreateOpnds ssa desc os st
    let o ← recreateOpnd ssa desc o os.2
    return (o.1 :: os.1, o.2)

/-- `ReCreateRegOperand`, with the check that no phi is left. -/
def reCreateRegOperand (ssa : CGSSAInfo) : Insn α → Temps → Option (Insn α × Temps)
  | .phi _, _ => none
  | .comment, st => some (.comment, st)
  | .phiMov o d s, st => do
    let s ← recreateOpnd ssa { isVectorOp := o.isVectorOp } s st
    let d ← recreateOpnd ssa { isVectorOp := o.isVectorOp } d s.2
    return (.phiMov o d.1 s.1, d.2)
  | .machine o desc defs uses, st => do
    let uses ← recreateOpnds ssa desc uses st
    let defs ← recreateOpnds ssa desc defs uses.2
    return (.machine o desc defs.1 uses.1, defs.2)
  | .branch o uses, st => do
    let uses ← recreateOpnds ssa {} uses st
    return (.branch o uses.1, uses.2)

def reCreateInsns (ssa : CGSSAInfo) :
    List (Insn α) → Temps → Option (List (Insn α) × Temps)
  | [], st => some ([], st)
  | i :: is, st => do
    let i ← reCreateRegOperand ssa i st
    let is ← reCreateInsns ssa is i.2
    return (i.1 :: is.1, is.2)

def Insn.isMachineInstruction : Insn α → Bool
  | .phi _ => false
  | .comment => false
  | .phiMov _ _ _ => true
  | .machine _ _ _ _ => true
  | .branch _ _ => true

/-- The second loop over the blocks; the phis of a block are forgotten at its first machine
instruction. -/
def reCreateBBs (ssa : CGSSAInfo) : List (BB α) → Temps → Option (List (BB α))
  | [], _ => some []
  | bb :: bbs, st => do
    let insns ← reCreateInsns ssa bb.insns st
    let bbs ← reCreateBBs ssa bbs insns.2
    let phiInsns := if bb.insns.any (·.isMachineInstruction) then [] else bb.phiInsns
    return { bb with insns := insns.1, phiInsns } :: bbs

/-- The phis of a function with their blocks, in the order of the loops. -/
def phisOf (bbs : List (BB α)) : List (Nat × PhiInsn) :=
  bbs.flatMap fun bb => bb.phiInsns.map (bb.id, ·)

/-- `TranslateTSSAToCSSA`; nothing is where a check of the pass ends the compilation. -/
def translateTSSAToCSSA (ssa : CGSSAInfo) (bbs : List (BB α)) : Option (List (BB α)) := do
  let s ← eliminatePhis ssa (phisOf bbs)
    (bbs, ⟨ssa.allSSAOperands.length + ssa.ssaRegNObase, []⟩)
  reCreateBBs ssa s.1 s.2

end PhiElim
end Maple
