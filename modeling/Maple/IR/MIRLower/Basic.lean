import Maple.IR.PrimType
import Maple.Lib.Simulation

/-!
# Lowering of structured control flow

`MIRLower::LowerBlock` (`mir_lower.cpp`) turns `if`, `while`, `dowhile`, `doloop` and nested blocks
into labels and jumps. A null pointer that the code dereferences is `none`. Statements that are kept
as they are (assignments, calls) are values of a type parameter, and so are the expressions that the
lowering does not build itself. A label (`LabelIdx`) is an index of the label table of the function,
and a new one is the size of the table.
-/

namespace Maple
namespace MIRLower

/-- `GetDoVarStIdx` of a doloop, which holds a register if `IsPreg`. -/
inductive DoVar where
  | preg (regIdx : Nat)
  | symbol (stIdx : Nat)
  deriving DecidableEq, Repr

/-- Expressions; the lowering builds the sums. -/
inductive Expr (β : Type*) where
  | leaf (e : β)
  | regread (primType : PrimType) (regIdx : Nat)
  | dread (primType : PrimType) (stIdx : Nat)
  | add (primType : PrimType) (opnd0 opnd1 : Expr β)
  deriving DecidableEq, Repr

inductive CondGotoOp where
  | brtrue | brfalse
  deriving DecidableEq, Repr

variable (α β ρ : Type*)

mutual

/-- The statements of a body; `α` are the statements without control flow and `ρ` the operands of
`return`. -/
inductive Stmt where
  | simple (a : α)
  | goto (l : Nat)
  | ret (r : ρ)
  | label (l : Nat)
  | condGoto (op : CondGotoOp) (opnd : Expr β) (l : Nat)
  | ifStmt (opnd : Expr β) (thenPart elsePart : Part)
  | whileStmt (opnd : Expr β) (body : Block)
  | dowhile (body : Block) (opnd : Expr β)
  | doloop (doVar : DoVar) (startExpr condExpr incrExpr : Expr β) (doBody : Block)
  | block (b : Block)

/-- The statements of a `BlockNode`. -/
inductive Block where
  | nil
  | cons (stmt : Stmt) (rest : Block)

/-- The then part or the else part of an `if`, which may be null. -/
inductive Part where
  | null
  | block (b : Block)

end

/-- The statements of a lowered block. -/
inductive Flat where
  | simple (a : α)
  | eval (opnd : Expr β)
  | regassign (primType : PrimType) (regIdx : Nat) (opnd : Expr β)
  | dassign (stIdx : Nat) (rhs : Expr β)
  | goto (l : Nat)
  | ret (r : ρ)
  | label (l : Nat)
  | condGoto (op : CondGotoOp) (opnd : Expr β) (l : Nat)
  deriving DecidableEq, Repr

variable {α β ρ}

/-- `OpCodeNoFallThrough`; the other opcodes that it names (`switch`, `throw`, `gosub`, `retsub`)
are not those of the statements above. -/
def Flat.opCodeNoFallThrough : Flat α β ρ → Bool
  | goto _ | ret _ => true
  | _ => false

def Block.isEmpty : Block α β ρ → Bool
  | .nil => true
  | .cons _ _ => false

/-- `thenEmpty` and `elseEmpty`: the part is null or has no first statement. -/
def Part.isEmpty : Part α β ρ → Bool
  | .null => true
  | .block b => b.isEmpty

/-! ### If statements -/

/-- The part that `CreateCondGotoStmt` appends: the else part if the then part has no statement when
it is called. -/
def branchPart (thenPart elsePart : Option (List (Flat α β ρ))) : Option (List (Flat α β ρ)) :=
  match thenPart with
  | none | some [] => elsePart
  | some (x :: xs) => some (x :: xs)

/-- `CreateCondGotoStmt`: the new block, the label and the next label. -/
def createCondGotoStmt (op : CondGotoOp) (opnd : Expr β)
    (thenPart elsePart : Option (List (Flat α β ρ))) (next : Nat) :
    Option (List (Flat α β ρ) × Nat × Nat) := do
  let part ← branchPart thenPart elsePart
  return (.condGoto op opnd next :: part, next, next + 1)

/-- `CreateBrFalseStmt` and `CreateBrTrueStmt`. -/
def createBrStmt (op : CondGotoOp) (opnd : Expr β) (thenPart elsePart : Option (List (Flat α β ρ)))
    (next : Nat) : Option (List (Flat α β ρ) × Nat) := do
  let (blk, labelIdx, next) ← createCondGotoStmt op opnd thenPart elsePart next
  return (blk ++ [.label labelIdx], next)

/-- `IfStmtNoFallThrough`, which reads the last statement of the then part. -/
def ifStmtNoFallThrough (thenPart : Option (List (Flat α β ρ))) : Option Bool :=
  (thenPart.bind List.getLast?).map Flat.opCodeNoFallThrough

def createBrFalseAndGotoStmt (opnd : Expr β) (thenPart elsePart : Option (List (Flat α β ρ)))
    (next : Nat) : Option (List (Flat α β ρ) × Nat) := do
  let (blk, labelIdx, next) ← createCondGotoStmt .brfalse opnd thenPart elsePart next
  (ifStmtNoFallThrough thenPart).bind fun noFallThrough => do
    let elseStmts ← elsePart
    if noFallThrough then
      return (blk ++ .label labelIdx :: elseStmts, next)
    else
      return (blk ++ .goto next :: .label labelIdx :: (elseStmts ++ [.label next]), next + 1)

/-- `LowerIfStmt`, after its parts have been lowered. -/
def lowerIfStmt (opnd : Expr β) (thenEmpty elseEmpty : Bool)
    (thenPart elsePart : Option (List (Flat α β ρ))) (next : Nat) :
    Option (List (Flat α β ρ) × Nat) :=
  if thenEmpty && elseEmpty then some ([.eval opnd], next)
  else if elseEmpty then createBrStmt .brfalse opnd thenPart elsePart next
  else if thenEmpty then createBrStmt .brtrue opnd thenPart elsePart next
  else createBrFalseAndGotoStmt opnd thenPart elsePart next

/-! ### Loops -/

/-- `LowerWhileStmt`, after the body has been lowered. `keepWhile` is the test of the optimisation
level: `optLevel == 0` or `optForSize`. -/
def lowerWhileStmt (keepWhile : Bool) (opnd : Expr β) (body : List (Flat α β ρ))
    (next : Nat) : List (Flat α β ρ) × Nat :=
  if keepWhile then
    (.label (next + 1) :: .condGoto .brfalse opnd next ::
      (body ++ [.goto (next + 1), .label next]), next + 2)
  else
    (.condGoto .brfalse opnd next :: .label (next + 1) ::
      (body ++ [.condGoto .brtrue opnd (next + 1), .label next]), next + 2)

/-- `LowerDowhileStmt`, after the body has been lowered. -/
def lowerDowhileStmt (opnd : Expr β) (body : List (Flat α β ρ)) (next : Nat) :
    List (Flat α β ρ) × Nat :=
  (.label next :: (body ++ [.condGoto .brtrue opnd next]), next + 1)

/-- The assignment before a doloop. -/
def startAssign (doVarPType : DoVar → PrimType) (doVar : DoVar) (startExpr : Expr β) :
    Flat α β ρ :=
  match doVar with
  | .preg regIdx => .regassign (doVarPType doVar) regIdx startExpr
  | .symbol stIdx => .dassign stIdx startExpr

/-- The assignment at the end of the body of a doloop. -/
def endAssign (doVarPType : DoVar → PrimType) (doVar : DoVar) (incrExpr : Expr β) : Flat α β ρ :=
  let primType := doVarPType doVar
  match doVar with
  | .preg regIdx => .regassign primType regIdx (.add primType incrExpr (.regread primType regIdx))
  | .symbol stIdx => .dassign stIdx (.add primType (.dread primType stIdx) incrExpr)

/-- `LowerDoloopStmt`, after the body has been lowered. -/
def lowerDoloopStmt (doVarPType : DoVar → PrimType) (doVar : DoVar)
    (startExpr condExpr incrExpr : Expr β) (doBody : List (Flat α β ρ)) (next : Nat) :
    List (Flat α β ρ) × Nat :=
  (startAssign doVarPType doVar startExpr :: .condGoto .brfalse condExpr next ::
    .label (next + 1) :: (doBody ++ [endAssign doVarPType doVar incrExpr,
      .condGoto .brtrue condExpr (next + 1), .label next]), next + 2)

/-! ### LowerBlock -/

section LowerBlock

variable (doVarPType : DoVar → PrimType) (keepWhile : Bool)

mutual

/-- The case of `LowerBlock` for one statement, with the next label of the label table. -/
def lowerStmt : Stmt α β ρ → Nat → Option (List (Flat α β ρ) × Nat)
  | .simple a, next => some ([.simple a], next)
  | .goto l, next => some ([.goto l], next)
  | .ret r, next => some ([.ret r], next)
  | .label l, next => some ([.label l], next)
  | .condGoto op opnd l, next => some ([.condGoto op opnd l], next)
  | .ifStmt opnd thenPart elsePart, next => do
    let (thenStmts, next) ← lowerPart thenPart next
    let (elseStmts, next) ← lowerPart elsePart next
    lowerIfStmt opnd thenPart.isEmpty elsePart.isEmpty thenStmts elseStmts next
  | .whileStmt opnd body, next => do
    let (stmts, next) ← lowerBlock body next
    return lowerWhileStmt keepWhile opnd stmts next
  | .dowhile body opnd, next => do
    let (stmts, next) ← lowerBlock body next
    return lowerDowhileStmt opnd stmts next
  | .doloop doVar startExpr condExpr incrExpr doBody, next => do
    let (stmts, next) ← lowerBlock doBody next
    return lowerDoloopStmt doVarPType doVar startExpr condExpr incrExpr stmts next
  | .block b, next => lowerBlock b next

def lowerBlock : Block α β ρ → Nat → Option (List (Flat α β ρ) × Nat)
  | .nil, next => some ([], next)
  | .cons stmt rest, next => do
    let (stmts, next) ← lowerStmt stmt next
    let (restStmts, next) ← lowerBlock rest next
    return (stmts ++ restStmts, next)

/-- A part of an `if`, which is lowered if it is not null. -/
def lowerPart : Part α β ρ → Nat → Option (Option (List (Flat α β ρ)) × Nat)
  | .null, next => some (none, next)
  | .block b, next => do
    let (stmts, next) ← lowerBlock b next
    return (some stmts, next)

end

end LowerBlock

/-! ### What a body does -/

/-- The meaning of statements and expressions over a state. -/
structure Semantics (α β σ ν : Type*) where
  exec : α → σ → σ
  leaf : β → σ → ν
  isTrue : ν → Bool
  read : DoVar → σ → ν
  assign : DoVar → ν → σ → σ
  add : PrimType → ν → ν → ν
  add_comm : ∀ t x y, add t x y = add t y x

variable {σ ν : Type*}

def Semantics.eval (sem : Semantics α β σ ν) (s : σ) : Expr β → ν
  | .leaf e => sem.leaf e s
  | .regread _ regIdx => sem.read (.preg regIdx) s
  | .dread _ stIdx => sem.read (.symbol stIdx) s
  | .add t e e' => sem.add t (sem.eval s e) (sem.eval s e')

/-- Whether a conditional branch is taken. -/
def CondGotoOp.taken (op : CondGotoOp) (holds : Bool) : Bool :=
  match op with
  | .brtrue => holds
  | .brfalse => !holds

/-- What can be seen of a run: the statements, the conditions with their values, and the
assignments to the variables of doloops. -/
inductive Event (α β ν : Type*) where
  | stmt (a : α)
  | cond (e : Expr β) (v : ν)
  | assign (doVar : DoVar) (v : ν)

/-- How a body ends, with the last state: at its end, with a return, or with a jump to a label
outside. -/
inductive Exit (ρ σ : Type*) where
  | ends (s : σ)
  | returns (r : ρ) (s : σ)
  | jumps (l : Nat) (s : σ)

/-! ### Structured bodies -/

/-- What is left to do after a statement: other statements, the increment of a doloop, or another
round of a loop, which starts with its condition. -/
inductive Kont (α β ρ : Type*) where
  | done
  | seq (b : Block α β ρ) (k : Kont α β ρ)
  | incr (doVar : DoVar) (incrExpr : Expr β) (k : Kont α β ρ)
  | loop (incr : Option (DoVar × Expr β)) (opnd : Expr β) (body : Block α β ρ) (k : Kont α β ρ)

/-- What comes after the body of a loop. -/
def Kont.afterBody (incr : Option (DoVar × Expr β)) (opnd : Expr β) (body : Block α β ρ)
    (k : Kont α β ρ) : Kont α β ρ :=
  match incr with
  | none => .loop none opnd body k
  | some (doVar, incrExpr) => .incr doVar incrExpr (.loop (some (doVar, incrExpr)) opnd body k)

/-- The statements of a part; a null part has none. -/
def Part.toBlock : Part α β ρ → Block α β ρ
  | .null => .nil
  | .block b => b

mutual

/-- The place of a label in a statement before `k`: what is left to do from there. -/
def Stmt.findLabel (l : Nat) : Stmt α β ρ → Kont α β ρ → Option (Kont α β ρ)
  | .label l', k => if l' = l then some k else none
  | .ifStmt _ thenPart elsePart, k => (thenPart.findLabel l k).or (elsePart.findLabel l k)
  | .whileStmt opnd body, k => body.findLabel l (.loop none opnd body k)
  | .dowhile body opnd, k => body.findLabel l (.loop none opnd body k)
  | .doloop doVar _ condExpr incrExpr doBody, k =>
    doBody.findLabel l (.afterBody (some (doVar, incrExpr)) condExpr doBody k)
  | .block b, k => b.findLabel l k
  | .simple _, _ | .goto _, _ | .ret _, _ | .condGoto _ _ _, _ => none

def Block.findLabel (l : Nat) : Block α β ρ → Kont α β ρ → Option (Kont α β ρ)
  | .nil, _ => none
  | .cons stmt rest, k => (stmt.findLabel l (.seq rest k)).or (rest.findLabel l k)

def Part.findLabel (l : Nat) : Part α β ρ → Kont α β ρ → Option (Kont α β ρ)
  | .null, _ => none
  | .block b, k => b.findLabel l k

end

/-- A jump to a label of the body, or out of it. -/
def jump (body : Block α β ρ) (l : Nat) (s : σ) :
    Move (Kont α β ρ × σ) (Event α β ν) (Exit ρ σ) :=
  match body.findLabel l .done with
  | some k => .step [] (k, s)
  | none => .final (.jumps l s)

/-- The first step of a statement before `k`. A branch that is taken goes on as a `goto`. -/
def stmtMove (sem : Semantics α β σ ν) (body : Block α β ρ) (s : σ) (k : Kont α β ρ) :
    Stmt α β ρ → Move (Kont α β ρ × σ) (Event α β ν) (Exit ρ σ)
  | .simple a => .step [.stmt a] (k, sem.exec a s)
  | .goto l => jump body l s
  | .ret r => .final (.returns r s)
  | .label _ => .step [] (k, s)
  | .condGoto op opnd l =>
    let v := sem.eval s opnd
    .step [.cond opnd v]
      (if op.taken (sem.isTrue v) then .seq (.cons (.goto l) .nil) .done else k, s)
  | .ifStmt opnd thenPart elsePart =>
    let v := sem.eval s opnd
    .step [.cond opnd v]
      (if sem.isTrue v then .seq thenPart.toBlock k else .seq elsePart.toBlock k, s)
  | .whileStmt opnd b => .step [] (.loop none opnd b k, s)
  | .dowhile b opnd => .step [] (.seq b (.loop none opnd b k), s)
  | .doloop doVar startExpr condExpr incrExpr doBody =>
    let v := sem.eval s startExpr
    .step [.assign doVar v]
      (.loop (some (doVar, incrExpr)) condExpr doBody k, sem.assign doVar v s)
  | .block b => .step [] (.seq b k, s)

/-- The steps of a structured body. -/
def move (sem : Semantics α β σ ν) (doVarPType : DoVar → PrimType) (body : Block α β ρ) :
    Kont α β ρ × σ → Move (Kont α β ρ × σ) (Event α β ν) (Exit ρ σ)
  | (.done, s) => .final (.ends s)
  | (.seq .nil k, s) => .step [] (k, s)
  | (.seq (.cons stmt rest) k, s) => stmtMove sem body s (.seq rest k) stmt
  | (.incr doVar incrExpr k, s) =>
    let v := sem.add (doVarPType doVar) (sem.read doVar s) (sem.eval s incrExpr)
    .step [.assign doVar v] (k, sem.assign doVar v s)
  | (.loop incr opnd b k, s) =>
    let v := sem.eval s opnd
    .step [.cond opnd v] (if sem.isTrue v then .seq b (.afterBody incr opnd b k) else k, s)

/-! ### Flat code -/

/-- The code after a label. -/
def findFlat (l : Nat) : List (Flat α β ρ) → Option (List (Flat α β ρ))
  | [] => none
  | .label l' :: rest => if l' = l then some rest else findFlat l rest
  | _ :: rest => findFlat l rest

/-- The steps of flat code. -/
def flatMove (sem : Semantics α β σ ν) (code : List (Flat α β ρ)) :
    List (Flat α β ρ) × σ → Move (List (Flat α β ρ) × σ) (Event α β ν) (Exit ρ σ)
  | ([], s) => .final (.ends s)
  | (.simple a :: rest, s) => .step [.stmt a] (rest, sem.exec a s)
  | (.eval opnd :: rest, s) => .step [.cond opnd (sem.eval s opnd)] (rest, s)
  | (.regassign _ regIdx opnd :: rest, s) =>
    let v := sem.eval s opnd
    .step [.assign (.preg regIdx) v] (rest, sem.assign (.preg regIdx) v s)
  | (.dassign stIdx rhs :: rest, s) =>
    let v := sem.eval s rhs
    .step [.assign (.symbol stIdx) v] (rest, sem.assign (.symbol stIdx) v s)
  | (.goto l :: _, s) =>
    match findFlat l code with
    | some rest => .step [] (rest, s)
    | none => .final (.jumps l s)
  | (.ret r :: _, s) => .final (.returns r s)
  | (.label _ :: rest, s) => .step [] (rest, s)
  | (.condGoto op opnd l :: rest, s) =>
    let v := sem.eval s opnd
    .step [.cond opnd v] (if op.taken (sem.isTrue v) then [.goto l] else rest, s)

end MIRLower
end Maple
