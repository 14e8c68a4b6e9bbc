import Maple.Lib.While
import Mathlib.Data.Finset.Basic
import Mathlib.Data.List.Pairwise

/-!
# Live registers

`LiveAnalysis`: the defined and used registers of every block (`GetBBDefUse`), and the sweeps over
the blocks that compute what is live at their starts and ends (`BuildInOutforFunc`). The functions
have no phis, no exception edges and no cleanup block.
-/

namespace Maple
namespace Live

/-- A register operand with the flags of its description. -/
structure Opnd where
  reg : Nat
  isDef : Bool
  isUse : Bool
  deriving DecidableEq

/-- The register operands of an instruction in the order in which they are collected: what a call
defines comes first, and lists and memory operands are spread out. -/
structure Insn where
  opnds : List Opnd

/-- A function whose blocks are numbers. -/
structure CGFunc where
  /-- The blocks in the order of the layout. -/
  bbs : List Nat
  /-- The machine instructions of a block. -/
  insns : Nat → List Insn
  succs : Nat → List Nat
  unreachable : Nat → Bool
  /-- Whether a block is of the kind `kBBReturn`. -/
  isReturn : Nat → Bool
  /-- The register of the return value. -/
  returnReg : Option Nat

/-! ### Definitions and uses of a block -/

structure DefUse where
  defs : Finset Nat
  uses : Finset Nat

def collectLiveInfo (s : DefUse) (o : Opnd) : DefUse :=
  let s : DefUse :=
    if o.isDef then ⟨insert o.reg s.defs, if o.isUse then s.uses else s.uses.erase o.reg⟩ else s
  if o.isUse then ⟨s.defs.erase o.reg, insert o.reg s.uses⟩ else s

def collectInsn (i : Insn) (s : DefUse) : DefUse := i.opnds.foldl collectLiveInfo s

def generateReturnBBDefUse (returnReg : Option Nat) (s : DefUse) : DefUse :=
  match returnReg with
  | some r => collectLiveInfo s ⟨r, false, true⟩
  | none => s

/-- `GetBBDefUse`: instructions are collected from the last to the first. -/
def getBBDefUse (f : CGFunc) (b : Nat) : DefUse :=
  let s : DefUse :=
    if f.isReturn b then generateReturnBBDefUse f.returnReg ⟨∅, ∅⟩ else ⟨∅, ∅⟩
  if f.insns b = [] then s else (f.insns b).foldr collectInsn ⟨∅, ∅⟩

/-! ### The sweeps -/

/-- What the analysis keeps for a block. -/
structure BBInfo where
  liveIn : Finset Nat := ∅
  liveOut : Finset Nat := ∅
  liveInChange : Bool := true
  insertUse : Bool := false

/-- The information of all blocks; the default is what `InitBB` sets. -/
abbrev LiveState := Nat → BBInfo

/-- The live-out set that `GenerateLiveOut` leaves. -/
def generateLiveOut (f : CGFunc) (st : LiveState) (b : Nat) : Finset Nat :=
  (f.succs b).foldl
    (fun out succ =>
      if (st succ).liveInChange ∧ (st succ).liveIn ≠ ∅ then out ∪ (st succ).liveIn else out)
    (st b).liveOut

/-- The live-in set that `GenerateLiveIn` leaves, from the information with the new live-out set. -/
def generateLiveIn (f : CGFunc) (b : Nat) (info : BBInfo) : Finset Nat :=
  let liveIn := if info.insertUse then info.liveIn else (getBBDefUse f b).uses
  if info.liveOut = ∅ then liveIn else liveIn ∪ (info.liveOut \ (getBBDefUse f b).defs)

/-- The body of the loop over the blocks, with whether the live-in set changed. -/
def visitBB (f : CGFunc) (st : LiveState) (b : Nat) : LiveState × Bool :=
  if f.unreachable b then (st, false)
  else
    let liveOut := generateLiveOut f st b
    let info : BBInfo := { st b with liveOut }
    if liveOut = (st b).liveOut ∧ info.insertUse then (Function.update st b info, false)
    else
      let liveIn := generateLiveIn f b info
      let change := decide (liveIn ≠ (st b).liveIn)
      (Function.update st b { info with liveIn, liveInChange := change, insertUse := true }, change)

/-- A sweep over a list of blocks, with whether some live-in set changed. -/
def sweep (f : CGFunc) : List Nat → LiveState × Bool → LiveState × Bool
  | [], s => s
  | b :: bs, s => sweep f bs ((visitBB f s.1 b).1, s.2 || (visitBB f s.1 b).2)

/-- `BuildInOutforFunc` with less than `fuel` sweeps. -/
def buildInOutforFunc (f : CGFunc) : Nat → LiveState → Outcome LiveState
  | 0, _ => .outOfFuel
  | fuel + 1, st =>
    let s := sweep f f.bbs.reverse (st, false)
    if s.2 then buildInOutforFunc f fuel s.1 else .done s.1

/-- `AnalysisLive` without a cleanup block. -/
def analysisLive (f : CGFunc) (fuel : Nat) : Outcome LiveState := buildInOutforFunc f fuel fun _ => {}

/-! ### What is live -/

def Insn.Defines (i : Insn) (r : Nat) : Prop := ∃ o ∈ i.opnds, o.reg = r ∧ o.isDef

def Insn.Uses (i : Insn) (r : Nat) : Prop := ∃ o ∈ i.opnds, o.reg = r ∧ o.isUse

/-- Operands that are only defined are listed before those that are used. -/
def Insn.DefsFirst (i : Insn) : Prop :=
  i.opnds.Pairwise fun o o' => o.isUse → o'.isDef → o'.isUse

/-- Some path that starts before the instructions `is` of the block `b` and goes on in `code`
reaches a use of `r` without passing a definition of it first. -/
inductive LiveAt (code : Nat → List Insn) (succs : Nat → List Nat) (r : Nat) :
    List Insn → Nat → Prop
  | use {i is b} (h : i.Uses r) : LiveAt code succs r (i :: is) b
  | pass {i is b} (h : ¬ i.Defines r) (hlive : LiveAt code succs r is b) :
    LiveAt code succs r (i :: is) b
  | succ {b s} (h : s ∈ succs b) (hlive : LiveAt code succs r (code s) s) :
    LiveAt code succs r [] b

/-- The instructions of a block; the return from a block without instructions uses the register of
the return value. -/
def CGFunc.code (f : CGFunc) (b : Nat) : List Insn :=
  if f.insns b = [] ∧ f.isReturn b then
    match f.returnReg with
    | some r => [⟨[⟨r, false, true⟩]⟩]
    | none => []
  else f.insns b

/-- The blocks that can be reached from the first one. -/
inductive CGFunc.Reachable (f : CGFunc) : Nat → Prop
  | first {b bs} (h : f.bbs = b :: bs) : f.Reachable b
  | succ {b s} (h : f.Reachable b) (hs : s ∈ f.succs b) : f.Reachable s

/-- A layout without repetitions that contains the successors of its blocks; no block that can be
reached is marked as unreachable. -/
structure CGFunc.WellFormed (f : CGFunc) : Prop where
  nodup : f.bbs.Nodup
  succs_mem : ∀ b ∈ f.bbs, ∀ s ∈ f.succs b, s ∈ f.bbs
  reachable : ∀ b, f.Reachable b → f.unreachable b = false
  defsFirst : ∀ b, ∀ i ∈ f.insns b, i.DefsFirst

end Live
end Maple
