import Maple.IR.Opcode
import Maple.Lib.IntFormat
import Maple.Lib.While

/-!
# Loop unrolling

`LfoUnrollOneLoop::Process` (`lfo_unroll.cpp`) replaces an innermost `doloop` whose body has no
labels and no control flow but `if`s. The loop variable has the type `ivPrimType`, given here as an
integer format; expressions of the source are trees over a type of leaves and a type of operations.
-/

namespace Maple
namespace LfoUnroll

section Syntax

variable (α β γ : Type*)

mutual

/-- Expressions; the sums, differences and remainders are those of `ivPrimType` that the unrolling
builds, `iv` reads the loop variable (`IsLoopIVNode`). -/
inductive Expr where
  | iv
  | const (v : Int)
  | leaf (e : β)
  | add (opnd0 opnd1 : Expr)
  | sub (opnd0 opnd1 : Expr)
  | rem (opnd0 opnd1 : Expr)
  | node (op : γ) (opnds : Exprs)

inductive Exprs where
  | nil
  | cons (opnd : Expr) (rest : Exprs)

end

mutual

/-- The statements of a body; an `else` part that is null has no statement. -/
inductive Stmt where
  | simple (a : α) (opnds : Exprs β γ)
  | ifStmt (opnd : Expr β γ) (thenPart elsePart : Block)
  | block (b : Block)

inductive Block where
  | nil
  | cons (stmt : Stmt) (rest : Block)

end

/-- A `DoloopNode` whose condition is a comparison. -/
structure Doloop where
  startExpr : Expr β γ
  condOp : CmpOp
  condOpnd0 : Expr β γ
  condOpnd1 : Expr β γ
  incrExpr : Expr β γ
  doBody : Block α β γ

/-- An operand of the new code: an expression or the new register. -/
inductive Operand where
  | expr (e : Expr β γ)
  | preg

/-- The statements of the new block. Copies of the body are given by what replaces the loop variable
in them, if it is replaced; they stand one after the other, alone or as the body of a loop over the
loop variable. -/
inductive Code where
  | copies (reps : List (Option (Expr β γ)))
  | regassign (rhs : Expr β γ)
  | doloop (startExpr : Operand β γ) (condOp : CmpOp) (condOpnd1 : Operand β γ)
    (incrExpr : Expr β γ) (reps : List (Option (Expr β γ)))

end Syntax

variable {α β γ : Type*}

/-! ### ReplaceIV -/

mutual

def Expr.replaceIV : Expr β γ → Expr β γ → Expr β γ
  | .iv, repNode => repNode
  | .const v, _ => .const v
  | .leaf e, _ => .leaf e
  | .add a b, repNode => .add (a.replaceIV repNode) (b.replaceIV repNode)
  | .sub a b, repNode => .sub (a.replaceIV repNode) (b.replaceIV repNode)
  | .rem a b, repNode => .rem (a.replaceIV repNode) (b.replaceIV repNode)
  | .node op opnds, repNode => .node op (opnds.replaceIV repNode)

def Exprs.replaceIV : Exprs β γ → Expr β γ → Exprs β γ
  | .nil, _ => .nil
  | .cons opnd rest, repNode => .cons (opnd.replaceIV repNode) (rest.replaceIV repNode)

end

mutual

def Stmt.replaceIV : Stmt α β γ → Expr β γ → Stmt α β γ
  | .simple a opnds, repNode => .simple a (opnds.replaceIV repNode)
  | .ifStmt opnd thenPart elsePart, repNode => .ifStmt (opnd.replaceIV repNode)
      (thenPart.replaceIV repNode) (elsePart.replaceIV repNode)
  | .block b, repNode => .block (b.replaceIV repNode)

def Block.replaceIV : Block α β γ → Expr β γ → Block α β γ
  | .nil, _ => .nil
  | .cons stmt rest, repNode => .cons (stmt.replaceIV repNode) (rest.replaceIV repNode)

end

/-! ### Process -/

mutual

/-- The share of a statement in `CountBlockStmts`. -/
def Stmt.count : Stmt α β γ → Nat
  | .simple _ _ => 1
  | .ifStmt _ thenPart elsePart => 1 + (3 + thenPart.count) + (3 + elsePart.count)
  | .block b => b.count

def Block.count : Block α β γ → Nat
  | .nil => 0
  | .cons stmt rest => stmt.count + rest.count

end

/-- The copies of an unrolled body after the first one: `base` plus a multiple of the step. -/
def adjustedCopies (base : Expr β γ) (stepAmount : Int) (n : Nat) : List (Option (Expr β γ)) :=
  (List.range n).map fun i : Nat => some (.add base (.const (stepAmount * (i + 1))))

def doFullUnroll (startExpr : Expr β γ) (stepAmount : Int) (tripCount : Nat) :
    List (Code β γ) :=
  [.copies (some startExpr :: adjustedCopies startExpr stepAmount (tripCount - 1))]

/-- The unrolled loop of `DoUnroll`. -/
def unrolledDoloop (doloop : Doloop α β γ) (stepAmount : Int) (times : Nat)
    (startExpr : Operand β γ) : Code β γ :=
  .doloop startExpr doloop.condOp (.expr doloop.condOpnd1) (.const (stepAmount * times))
    (none :: adjustedCopies .iv stepAmount (times - 1))

/-- The remainder loop of `DoUnroll`, a copy of the loop with another condition. -/
def remDoloop (doloop : Doloop α β γ) (terminationRHS : Operand β γ) : Code β γ :=
  .doloop (.expr doloop.startExpr) .lt terminationRHS doloop.incrExpr [none]

/-- What `DoUnroll` puts before the unrolled loop for a constant trip count. -/
def constRemainder (doloop : Doloop α β γ) (remainderTripCount : Nat) : List (Code β γ) :=
  if remainderTripCount = 0 then []
  else if remainderTripCount = 1 then [.copies [some doloop.startExpr]]
  else [remDoloop doloop (.expr (.add doloop.startExpr (.const remainderTripCount)))]

/-- The end of the remainder loop if the trip count is not a constant. -/
def remLoopEndExpr (doloop : Doloop α β γ) (times : Nat) : Expr β γ :=
  let trips := .sub doloop.condOpnd1 doloop.startExpr
  let trips := if doloop.condOp = .ge ∨ doloop.condOp = .le then .add trips (.const 1) else trips
  .add doloop.startExpr (.rem trips (.const times))

/-- `DoUnroll`; a trip count of zero stands for one that is not a constant. -/
def doUnroll (doloop : Doloop α β γ) (stepAmount : Int) (times tripCount : Nat) :
    List (Code β γ) :=
  if tripCount ≠ 0 then
    let remainderTripCount := tripCount % times
    let startExpr :=
      if remainderTripCount ≠ 0 then .add doloop.startExpr (.const remainderTripCount)
      else doloop.startExpr
    constRemainder doloop remainderTripCount ++
      [unrolledDoloop doloop stepAmount times (.expr startExpr)]
  else
    [.regassign (remLoopEndExpr doloop times), remDoloop doloop .preg,
      unrolledDoloop doloop stepAmount times .preg]

/-- The loop of `Process` that finds the unroll factor, with the factors that are left before
`unrollMax`. -/
def unrollTimesLoop (stmtCount : Nat) : Nat → Nat → Nat → Nat
  | 0, unrollTimes, _ => unrollTimes
  | left + 1, unrollTimes, unrolledStmtCount =>
    if unrolledStmtCount < 12 then
      unrollTimesLoop stmtCount left (unrollTimes + 1) (unrolledStmtCount + stmtCount)
    else unrollTimes

def unrollTimes (stmtCount : Nat) : Nat := unrollTimesLoop stmtCount 9 1 stmtCount

/-- The trip count of constant bounds: a `size_t` of which the bits of `ivPrimType` are kept. The
difference is that of two's complement. -/
def constTripCount (f : IntFormat) (condOp : CmpOp) (startVal endVal stepAmount : Int) : Nat :=
  let tripCount := (((endVal - startVal).tdiv stepAmount) % 2 ^ 64).toNat
  let tripCount := if condOp = .ge ∨ condOp = .le then (tripCount + 1) % 2 ^ 64 else tripCount
  let invalidBits := 64 - f.width
  (tripCount * 2 ^ invalidBits % 2 ^ 64) / 2 ^ invalidBits

/-- The trip count of a loop, or zero if it is not a constant. `GetExtValue` of a constant is its
value in the format. -/
def tripCount (f : IntFormat) (doloop : Doloop α β γ) (stepAmount : Int) : Nat :=
  match doloop.startExpr, doloop.condOpnd1 with
  | .const s, .const e => constTripCount f doloop.condOp (f.wrap s) (f.wrap e) stepAmount
  | _, _ => 0

def Expr.isIV : Expr β γ → Bool
  | .iv => true
  | _ => false

/-- `Process`: the new block, or none if the loop stays. -/
def process (f : IntFormat) (optLevel : Nat) (doloop : Doloop α β γ) :
    Option (List (Code β γ)) :=
  match doloop.incrExpr with
  | .const stepAmount =>
    let stmtCount := doloop.doBody.count
    let tripCount := tripCount f doloop stepAmount
    let times := unrollTimes stmtCount
    if stepAmount ≠ 1 then none
    else if stmtCount = 0 ∨ 16 < stmtCount then none
    else if doloop.condOp = .eq then none
    else if !doloop.condOpnd0.isIV then none
    else if tripCount ≠ 0 ∧ tripCount < times * 2 then
      some (doFullUnroll doloop.startExpr stepAmount tripCount)
    else if optLevel ≤ 2 ∨ times = 1 then none
    else some (doUnroll doloop stepAmount times tripCount)
  | _ => none

/-! ### Meaning -/

/-- The meaning of leaves, operations and simple statements over a state; these neither read nor
write the loop variable. -/
structure Semantics (α β γ σ : Type*) where
  leaf : β → σ → Int
  node : γ → List Int → σ → Int
  exec : α → List Int → σ → σ

variable {σ : Type*}

section Meaning

variable (f : IntFormat) (sem : Semantics α β γ σ) (iv : Int)

mutual

def Expr.eval (s : σ) : Expr β γ → Int
  | .iv => iv
  | .const v => f.wrap v
  | .leaf e => sem.leaf e s
  | .add a b => f.wrap (a.eval s + b.eval s)
  | .sub a b => f.wrap (a.eval s - b.eval s)
  | .rem a b => f.wrap ((a.eval s).tmod (b.eval s))
  | .node op opnds => sem.node op (opnds.eval s) s

def Exprs.eval (s : σ) : Exprs β γ → List Int
  | .nil => []
  | .cons opnd rest => opnd.eval s :: rest.eval s

end

mutual

def Stmt.exec : Stmt α β γ → σ → σ
  | .simple a opnds, s => sem.exec a (opnds.eval f sem iv s) s
  | .ifStmt opnd thenPart elsePart, s =>
    if opnd.eval f sem iv s ≠ 0 then thenPart.exec s else elsePart.exec s
  | .block b, s => b.exec s

def Block.exec : Block α β γ → σ → σ
  | .nil, s => s
  | .cons stmt rest, s => rest.exec (stmt.exec s)

end

end Meaning

/-- The loop variable, the new register, the rest of the state, and the values that the loop variable
had in the instances of the body so far. -/
structure State (σ : Type*) where
  iv : Int
  preg : Int
  env : σ
  trace : List Int

section Run

variable (f : IntFormat) (sem : Semantics α β γ σ) (body : Block α β γ)

/-- A copy of the body. -/
def copyBody : Option (Expr β γ) → Block α β γ
  | none => body
  | some rep => body.replaceIV rep

/-- The value of the loop variable in a copy. -/
def copyValue (t : State σ) : Option (Expr β γ) → Int
  | none => t.iv
  | some rep => rep.eval f sem t.iv t.env

/-- The run of a copy of the body. -/
def runCopy (t : State σ) (rep : Option (Expr β γ)) : State σ :=
  { t with
    env := (copyBody body rep).exec f sem t.iv t.env
    trace := t.trace ++ [copyValue f sem t rep] }

/-- Operands are read as values of `ivPrimType`. -/
def Operand.eval (t : State σ) : Operand β γ → Int
  | .expr e => f.wrap (e.eval f sem t.iv t.env)
  | .preg => f.wrap t.preg

/-- One round of a loop. -/
def runRound (incrExpr : Expr β γ) (reps : List (Option (Expr β γ))) (t : State σ) : State σ :=
  let t := reps.foldl (runCopy f sem body) t
  { t with iv := f.wrap (t.iv + incrExpr.eval f sem t.iv t.env) }

/-- The run of a statement, with a bound on the rounds of loops. -/
def runCode (fuel : Nat) (t : State σ) : Code β γ → Outcome (State σ)
  | .copies reps => .done (reps.foldl (runCopy f sem body) t)
  | .regassign rhs => .done { t with preg := rhs.eval f sem t.iv t.env }
  | .doloop startExpr condOp condOpnd1 incrExpr reps =>
    whileLoop (fun t => condOp.eval t.iv (condOpnd1.eval f sem t))
      (fun t => some (runRound f sem body incrExpr reps t)) fuel
      { t with iv := startExpr.eval f sem t }

/-- The run of a block. -/
def runBlock (fuel : Nat) : List (Code β γ) → State σ → Outcome (State σ)
  | [], t => .done t
  | code :: rest, t => (runCode f sem body fuel t code).bind fun t => runBlock fuel rest t

end Run

/-- The loop itself, when its condition compares the loop variable. -/
def Doloop.code (doloop : Doloop α β γ) : Code β γ :=
  .doloop (.expr doloop.startExpr) doloop.condOp (.expr doloop.condOpnd1) doloop.incrExpr [none]

end LfoUnroll
end Maple
