import Maple.BE.PhiElim.Basic
import Maple.Lib.ParallelMoves

/-!
# Runs of a machine function

What the instructions of a function read along a path through its blocks, where the phis of a block
are evaluated at once when it is entered.
-/

namespace Maple
namespace PhiElim

variable {α μ : Type}

def MovOp.width : MovOp → Nat
  | .MOP_vmovvv => 128
  | .MOP_xvmovd => 64
  | .MOP_xmovrr => 64
  | .MOP_xvmovs => 32
  | .MOP_wmovrr => 32

/-- A move clears what its target has above the width of the move. -/
def MovOp.eval (o : MovOp) (v : Nat) : Nat := v % 2 ^ o.width

@[simp] lemma MovOp.eval_eval (o : MovOp) (v : Nat) : o.eval (o.eval v) = o.eval v :=
  Nat.mod_mod _ _

/-- The registers, and everything else an instruction may read or change. -/
structure State (μ : Type) where
  regs : Nat → Nat
  rest : μ

def values (regs : Nat → Nat) (uses : List RegOperand) : List Nat := uses.map (regs ·.regNO)

def writeAll : List RegOperand → List Nat → (Nat → Nat) → Nat → Nat
  | [], _, regs => regs
  | d :: ds, vals, regs =>
    writeAll ds vals.tail (Function.update regs d.regNO (vals.headD 0))

/-- What an operation does with the values it reads. -/
abbrev Exec (α μ : Type) := α → List Nat → μ → List Nat × μ

def phiMove (o : MovOp) (dest src : RegOperand) : RegMove Nat Nat := ⟨dest.regNO, src.regNO, o.eval⟩

def Insn.run (exec : Exec α μ) : Insn α → State μ → State μ
  | .machine o _ defs uses, s =>
    let r := exec o (values s.regs uses) s.rest
    ⟨writeAll defs r.1 s.regs, r.2⟩
  | .phiMov o dest src, s => { s with regs := (phiMove o dest src).run s.regs }
  | .branch _ _, s => s
  | .phi _, s => s
  | .comment, s => s

/-- What an instruction reads that is neither a phi nor a move in the place of one. -/
def Insn.reads : Insn α → (Nat → Nat) → List (α × List Nat)
  | .machine o _ _ uses, regs => [(o, values regs uses)]
  | .branch o uses, regs => [(o, values regs uses)]
  | .phi _, _ => []
  | .phiMov _ _ _, _ => []
  | .comment, _ => []

def runInsns (exec : Exec α μ) : List (Insn α) → State μ → State μ × List (α × List Nat)
  | [], s => (s, [])
  | i :: is, s =>
    let r := runInsns exec is (i.run exec s)
    (r.1, i.reads s.regs ++ r.2)

/-- The instructions of a block until its branch number `exit` is taken; all of them when it has
no such branch. -/
def untilBranch : Nat → List (Insn α) → List (Insn α)
  | _, [] => []
  | 0, .branch o us :: _ => [.branch o us]
  | exit + 1, .branch o us :: is => .branch o us :: untilBranch exit is
  | exit, i :: is => i :: untilBranch exit is

/-! ### The parts of a block -/

def Insn.phi? : Insn α → Option PhiInsn
  | .phi p => some p
  | _ => none

def Insn.isComment : Insn α → Bool
  | .comment => true
  | _ => false

def Insn.isBranch : Insn α → Bool
  | .branch _ _ => true
  | _ => false

def Insn.isMachine : Insn α → Bool
  | .machine _ _ _ _ => true
  | _ => false

/-- The instructions of a block that are no comments. -/
def code (is : List (Insn α)) : List (Insn α) := is.filter fun i => !i.isComment

def BB.phis (bb : BB α) : List PhiInsn := bb.insns.filterMap Insn.phi?

def BB.body (bb : BB α) : List (Insn α) := bb.insns.filter Insn.isMachine

def BB.branches (bb : BB α) : List (Insn α) := bb.insns.filter Insn.isBranch

/-! ### Paths -/

/-- The moves of the phis on the edge from the block `pred`. -/
def BB.phiMoves (bb : BB α) (pred : Nat) : List (RegMove Nat Nat) :=
  bb.phis.filterMap fun p => (p.phiList.lookup pred).map (phiMove (movOpOf p.dest) p.dest)

/-- The registers when the block is entered. -/
def BB.enter (bb : BB α) (pred : Option Nat) (regs : Nat → Nat) : Nat → Nat :=
  match pred with
  | some pred => RegMove.parallel (bb.phiMoves pred) regs
  | none => regs

def findBB (bbs : List (BB α)) (id : Nat) : Option (BB α) := bbs.find? (·.id = id)

/-- What is read along a path: blocks with the branch by which each is left, after the block
`pred`. -/
def runPath (exec : Exec α μ) (bbs : List (BB α)) :
    Option Nat → List (Nat × Nat) → State μ → State μ × List (α × List Nat)
  | _, [], s => (s, [])
  | pred, (id, exit) :: path, s =>
    match findBB bbs id with
    | none => (s, [])
    | some bb =>
      let r := runInsns exec (untilBranch exit bb.insns) { s with regs := bb.enter pred s.regs }
      let rest := runPath exec bbs (some id) path r.1
      (rest.1, r.2 ++ rest.2)

/-- A path follows the edges; where it starts no phi waits for one. -/
def IsPath (bbs : List (BB α)) : Option Nat → List (Nat × Nat) → Prop
  | _, [] => True
  | pred, (id, _) :: path =>
    ∃ bb, findBB bbs id = some bb ∧ (∀ p, pred = some p → p ∈ bb.preds) ∧
      (pred = none → bb.phis = []) ∧ IsPath bbs (some id) path

/-! ### The flags -/

def CGSSAInfo.isFlagsNO (ssa : CGSSAInfo) (r : Nat) : Bool :=
  (ssa.findSSAVersion r).any (·.originalRegNO = kRFLAG)

/-- A version of the flags register. -/
def CGSSAInfo.isFlags (ssa : CGSSAInfo) (o : RegOperand) : Bool :=
  o.isSSAForm && ssa.isFlagsNO o.regNO

/-- The version of the flags after registers are defined. -/
def CGSSAInfo.flagsAfterDefs (ssa : CGSSAInfo) : List RegOperand → Option Nat → Option Nat
  | [], cur => cur
  | d :: ds, cur => flagsAfterDefs ssa ds (if ssa.isFlags d then some d.regNO else cur)

def CGSSAInfo.flagsAfter (ssa : CGSSAInfo) : List (Insn α) → Option Nat → Option Nat
  | [], cur => cur
  | .machine _ _ defs _ :: is, cur => flagsAfter ssa is (ssa.flagsAfterDefs defs cur)
  | _ :: is, cur => flagsAfter ssa is cur

/-- Among the registers read, a version of the flags is the one defined last. -/
def CGSSAInfo.LastFlags (ssa : CGSSAInfo) (cur : Option Nat) (uses : List RegOperand) : Prop :=
  ∀ u ∈ uses, ssa.isFlags u → cur = some u.regNO

def CGSSAInfo.InsnsLastFlags (ssa : CGSSAInfo) : List (Insn α) → Option Nat → Prop
  | [], _ => True
  | .machine _ _ defs uses :: is, cur =>
    ssa.LastFlags cur uses ∧ InsnsLastFlags ssa is (ssa.flagsAfterDefs defs cur)
  | .branch _ uses :: is, cur => ssa.LastFlags cur uses ∧ InsnsLastFlags ssa is cur
  | _ :: is, cur => InsnsLastFlags ssa is cur

/-- Along the path every version of the flags is read before another one is defined. -/
def CGSSAInfo.PathLastFlags (ssa : CGSSAInfo) (bbs : List (BB α)) :
    List (Nat × Nat) → Option Nat → Prop
  | [], _ => True
  | (id, exit) :: path, cur => ∀ bb, findBB bbs id = some bb →
    ssa.InsnsLastFlags (untilBranch exit bb.insns) cur ∧
      PathLastFlags ssa bbs path (ssa.flagsAfter (untilBranch exit bb.insns) cur)

/-! ### Functions in SSA form -/

/-- The register operands of an instruction. -/
def Insn.registers : Insn α → List RegOperand
  | .phi p => p.dest :: p.phiList.map (·.2)
  | .phiMov _ dest src => [dest, src]
  | .machine _ _ defs uses => defs ++ uses
  | .branch _ uses => uses
  | .comment => []

/-- A register of the machine, or one in SSA form with a definition that is neither a use of the
same operand nor inline assembly. -/
def CGSSAInfo.Defined (ssa : CGSSAInfo) (o : RegOperand) : Prop :=
  if o.isSSAForm then ∃ v d, ssa.findSSAVersion o.regNO = some v ∧ v.defInsn = some d ∧
    d.bothDefUse = none ∧ d.isAsm = false
  else o.regNO < 100 ∧ o.regNO ≠ kRFLAG

/-- A register of a phi: in SSA form and no version of the flags. -/
def CGSSAInfo.PhiRegister (ssa : CGSSAInfo) (o : RegOperand) : Prop :=
  o.isSSAForm = true ∧ o.isOfCC = false ∧ ssa.isFlags o = false

/-- A function in SSA form where every register that is read has a definition, without operands
that are defined and used, inline assembly and phis of the flags. -/
structure SSAForm (ssa : CGSSAInfo) (bbs : List (BB α)) : Prop where
  ids_nodup : (bbs.map (·.id)).Nodup
  /-- The phis come first and the branches last. -/
  code_eq : ∀ bb ∈ bbs, code bb.insns = bb.phis.map .phi ++ bb.body ++ bb.branches
  fallthru : ∀ bb ∈ bbs, bb.kind = .kBBFallthru → bb.branches = []
  mem_phiInsns : ∀ bb ∈ bbs, ∀ p, p ∈ bb.phiInsns ↔ p ∈ bb.phis
  phi_dests_nodup : ((phisOf bbs).map (·.2.dest.regNO)).Nodup
  phiList_nodup : ∀ bb ∈ bbs, ∀ p ∈ bb.phis, (p.phiList.map (·.1)).Nodup
  /-- A phi has an operand for every edge into its block. -/
  preds_subset : ∀ bb ∈ bbs, ∀ p ∈ bb.phis, ∀ pred ∈ bb.preds, pred ∈ p.phiList.map (·.1)
  /-- The predecessors of a phi are blocks that fall through or end in a branch. -/
  phi_pred : ∀ bb ∈ bbs, ∀ p ∈ bb.phis, ∀ o ∈ p.phiList,
    ∃ pred ∈ bbs, pred.id = o.1 ∧ (pred.kind ≠ .kBBFallthru → pred.branches ≠ [])
  phi_dest : ∀ bb ∈ bbs, ∀ p ∈ bb.phis, ssa.PhiRegister p.dest
  phi_opnd : ∀ bb ∈ bbs, ∀ p ∈ bb.phis, ∀ o ∈ p.phiList, ssa.PhiRegister o.2
  defined : ∀ bb ∈ bbs, ∀ i ∈ bb.insns, ∀ o ∈ i.registers, ssa.Defined o
  noDefVRegs_eq : ssa.noDefVRegs = []
  le_ssaRegNObase : 100 ≤ ssa.ssaRegNObase
  /-- The versions have the numbers of virtual registers. -/
  le_of_version : ∀ r v, ssa.findSSAVersion r = some v → 100 ≤ r

/-- Every version in the function has a use. -/
def NoDeadVersion (ssa : CGSSAInfo) (bbs : List (BB α)) : Prop :=
  ∀ bb ∈ bbs, ∀ i ∈ bb.insns, ∀ o ∈ i.registers, o.isSSAForm →
    ∀ v, ssa.findSSAVersion o.regNO = some v → v.useInsns ≠ []

end PhiElim
end Maple
