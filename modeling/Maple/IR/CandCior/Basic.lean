import Maple.IR.MIRLower.Basic
import Maple.Lib.While

/-!
# Lowering of short-circuit operators

`MIRLower::LowerCandCior` (`mir_lower.cpp`) on a flat block. A conditional branch on a `cand` or
`cior` becomes two branches, and elsewhere the operator becomes assignments to a new register with a
branch between them, in front of the statement. Operators other than these two evaluate all their
operands. A null pointer that the code dereferences is a failed assertion.
-/

namespace Maple
namespace CandCior

open MIRLower (CondGotoOp)

inductive LogicOp where
  | cand | cior
  deriving DecidableEq, Repr

variable (Ω ω : Type*)

mutual

/-- Expressions before the lowering; `Ω` are the other operators, with the leaves. -/
inductive Expr where
  | node (op : Ω) (opnds : Exprs)
  | logic (op : LogicOp) (primType : PrimType) (opnd0 opnd1 : Expr)

inductive Exprs where
  | nil
  | cons (e : Expr) (rest : Exprs)

end

mutual

/-- Expressions after the lowering, which read new registers. -/
inductive FlatExpr where
  | node (op : Ω) (opnds : FlatExprs)
  | regread (primType : PrimType) (pregIdx : Nat)

inductive FlatExprs where
  | nil
  | cons (e : FlatExpr) (rest : FlatExprs)

end

/-- Statements before the lowering; `ω` are those that are neither labels nor conditional
branches. -/
inductive Stmt where
  | label (l : Nat)
  | condGoto (op : CondGotoOp) (opnd : Expr Ω) (l : Nat)
  | other (a : ω) (opnds : Exprs Ω)

/-- Statements after the lowering. -/
inductive Flat where
  | label (l : Nat)
  | condGoto (op : CondGotoOp) (opnd : FlatExpr Ω) (l : Nat)
  | other (a : ω) (opnds : FlatExprs Ω)
  | regassign (primType : PrimType) (pregIdx : Nat) (opnd : FlatExpr Ω)

/-- The sizes of the label table and of the register table: `CreateLabel` and `CreatePreg` hand out
the next index. -/
structure Tabs where
  labels : Nat
  pregs : Nat
  deriving DecidableEq, Repr

variable {Ω ω}

/-! ### Embedded operators -/

/-- The branch to the end of an embedded operator. -/
def LogicOp.exitOp : LogicOp → CondGotoOp
  | cior => .brtrue
  | cand => .brfalse

mutual

/-- `LowerEmbeddedCandCior`: the statements that are inserted, and the new expression. -/
def Expr.lowerEmbedded : Expr Ω → Tabs → List (Flat Ω ω) × FlatExpr Ω × Tabs
  | .node op opnds, t =>
    let (code, opnds, t) := opnds.lowerEmbedded t
    (code, .node op opnds, t)
  | .logic op primType opnd0 opnd1, t =>
    let (code0, opnd0, t) := opnd0.lowerEmbedded t
    let pregIdx := t.pregs
    let labIdx := t.labels
    let (code1, opnd1, t) := opnd1.lowerEmbedded ⟨labIdx + 1, pregIdx + 1⟩
    (code0 ++ .regassign primType pregIdx opnd0 ::
        .condGoto op.exitOp (.regread primType pregIdx) labIdx ::
        (code1 ++ [.regassign primType pregIdx opnd1, .label labIdx]),
      .regread primType pregIdx, t)

def Exprs.lowerEmbedded : Exprs Ω → Tabs → List (Flat Ω ω) × FlatExprs Ω × Tabs
  | .nil, t => ([], .nil, t)
  | .cons e rest, t =>
    let (code0, e, t) := e.lowerEmbedded t
    let (code1, rest, t) := rest.lowerEmbedded t
    (code0 ++ code1, .cons e rest, t)

end

/-! ### The loop -/

def negate : CondGotoOp → CondGotoOp
  | .brfalse => .brtrue
  | .brtrue => .brfalse

/-- Whether the short-circuit target is the target of the branch. -/
def sameTarget (op : CondGotoOp) (cond : LogicOp) : Bool :=
  (op = .brfalse ∧ cond = .cand) ∨ (op = .brtrue ∧ cond = .cior)

/-- A block in the loop: the statements before `nextStmt`, and those from there on. -/
structure LoopState (Ω ω : Type*) where
  done : List (Flat Ω ω)
  todo : List (Stmt Ω ω)
  tabs : Tabs

/-- One round of the loop of `LowerCandCior`. -/
def lowerStmt (done : List (Flat Ω ω)) (stmt : Stmt Ω ω) (rest : List (Stmt Ω ω)) (tabs : Tabs) :
    Option (LoopState Ω ω) :=
  match stmt with
  | .condGoto op (.logic cond _ opnd0 opnd1) l =>
    if sameTarget op cond then
      some ⟨done, .condGoto op opnd0 l :: .condGoto op opnd1 l :: rest, tabs⟩
    else
      match rest with
      | [] => none
      | .label lIdx :: _ =>
        some ⟨done, .condGoto (negate op) opnd0 lIdx :: .condGoto op opnd1 l :: rest, tabs⟩
      | _ =>
        some ⟨done, .condGoto (negate op) opnd0 tabs.labels :: .condGoto op opnd1 l ::
          .label tabs.labels :: rest, { tabs with labels := tabs.labels + 1 }⟩
  | .condGoto op (.node o opnds) l =>
    let (code, e, tabs) := (Expr.node o opnds).lowerEmbedded tabs
    some ⟨done ++ code ++ [.condGoto op e l], rest, tabs⟩
  | .other a opnds =>
    let (code, opnds, tabs) := opnds.lowerEmbedded tabs
    some ⟨done ++ code ++ [.other a opnds], rest, tabs⟩
  | .label l => some ⟨done ++ [.label l], rest, tabs⟩

/-- `LowerCandCior` with less than `fuel` rounds. -/
def lowerLoop : Nat → LoopState Ω ω → Outcome (List (Flat Ω ω) × Tabs)
  | 0, _ => .outOfFuel
  | fuel + 1, st =>
    match st.todo with
    | [] => .done (st.done, st.tabs)
    | stmt :: rest =>
      match lowerStmt st.done stmt rest st.tabs with
      | none => .assertionFailed
      | some st => lowerLoop fuel st

def lowerCandCior (block : List (Stmt Ω ω)) (tabs : Tabs) (fuel : Nat) :
    Outcome (List (Flat Ω ω) × Tabs) :=
  lowerLoop fuel ⟨[], block, tabs⟩

/-! ### Execution -/

/-- Where control goes after a statement. -/
inductive Next where
  | fall
  | jump (l : Nat)
  | stop

/-- The meaning of the other operators, which may fail, and of the other statements. -/
structure Semantics (Ω ω σ : Type*) where
  eval : Ω → List Int → σ → Option Int
  exec : ω → List Int → σ → σ × Next

variable {σ : Type*}

def truth (v : Int) : Int := if v = 0 then 0 else 1

mutual

/-- The value of an expression. The right operand of `cand` and `cior` is not evaluated if the left
one decides. -/
def Expr.eval (sem : Semantics Ω ω σ) (s : σ) : Expr Ω → Option Int
  | .node op opnds => (opnds.eval sem s).bind fun vs => sem.eval op vs s
  | .logic .cand _ opnd0 opnd1 =>
    (opnd0.eval sem s).bind fun v => if v = 0 then some 0 else (opnd1.eval sem s).map truth
  | .logic .cior _ opnd0 opnd1 =>
    (opnd0.eval sem s).bind fun v => if v ≠ 0 then some 1 else (opnd1.eval sem s).map truth

def Exprs.eval (sem : Semantics Ω ω σ) (s : σ) : Exprs Ω → Option (List Int)
  | .nil => some []
  | .cons e rest =>
    (e.eval sem s).bind fun v => (rest.eval sem s).map fun vs => v :: vs

end

mutual

def FlatExpr.eval (sem : Semantics Ω ω σ) (s : σ) (regs : Nat → Int) : FlatExpr Ω → Option Int
  | .node op opnds => (opnds.eval sem s regs).bind fun vs => sem.eval op vs s
  | .regread _ pregIdx => some (regs pregIdx)

def FlatExprs.eval (sem : Semantics Ω ω σ) (s : σ) (regs : Nat → Int) :
    FlatExprs Ω → Option (List Int)
  | .nil => some []
  | .cons e rest =>
    (e.eval sem s regs).bind fun v => (rest.eval sem s regs).map fun vs => v :: vs

end

/-- What can be seen of a run: the labels of the block, and the statements with the values of their
operands. -/
inductive Event (ω : Type*) where
  | label (l : Nat)
  | stmt (a : ω) (vs : List Int)
  deriving DecidableEq

/-- How a block ends. -/
inductive Exit (σ : Type*) where
  | ends (s : σ)
  | jumps (l : Nat) (s : σ)
  | stops (s : σ)
  | fails

/-- A place in code: before some statements, at a jump, or at a stop. -/
inductive Place (τ : Type*) where
  | code (rest : List τ)
  | jump (l : Nat)
  | stop

def Next.place {τ : Type*} (rest : List τ) : Next → Place τ
  | fall => .code rest
  | jump l => .jump l
  | stop => .stop

/-- The code from a label on. -/
def findStmt (l : Nat) : List (Stmt Ω ω) → Option (List (Stmt Ω ω))
  | [] => none
  | .label l' :: rest => if l' = l then some (.label l' :: rest) else findStmt l rest
  | _ :: rest => findStmt l rest

def findFlat (l : Nat) : List (Flat Ω ω) → Option (List (Flat Ω ω))
  | [] => none
  | .label l' :: rest => if l' = l then some (.label l' :: rest) else findFlat l rest
  | _ :: rest => findFlat l rest

/-- The steps of a block before the lowering. -/
def move (sem : Semantics Ω ω σ) (block : List (Stmt Ω ω)) :
    Place (Stmt Ω ω) × σ → Move (Place (Stmt Ω ω) × σ) (Event ω) (Exit σ)
  | (.code [], s) => .final (.ends s)
  | (.code (.label l :: rest), s) => .step [.label l] (.code rest, s)
  | (.code (.condGoto op opnd l :: rest), s) =>
    match opnd.eval sem s with
    | none => .final .fails
    | some v => .step [] (if op.taken (v ≠ 0) then .jump l else .code rest, s)
  | (.code (.other a opnds :: rest), s) =>
    match opnds.eval sem s with
    | none => .final .fails
    | some vs =>
      let (s, next) := sem.exec a vs s
      .step [.stmt a vs] (next.place rest, s)
  | (.jump l, s) =>
    match findStmt l block with
    | none => .final (.jumps l s)
    | some rest => .step [] (.code rest, s)
  | (.stop, s) => .final (.stops s)

variable [Target]

/-- The steps of lowered code; labels from `first` on are new. -/
def flatMove (sem : Semantics Ω ω σ) (code : List (Flat Ω ω)) (first : Nat) :
    Place (Flat Ω ω) × σ × (Nat → Int) →
      Move (Place (Flat Ω ω) × σ × (Nat → Int)) (Event ω) (Exit σ)
  | (.code [], s, _) => .final (.ends s)
  | (.code (.label l :: rest), s, regs) =>
    .step (if l < first then [.label l] else []) (.code rest, s, regs)
  | (.code (.condGoto op opnd l :: rest), s, regs) =>
    match opnd.eval sem s regs with
    | none => .final .fails
    | some v => .step [] (if op.taken (v ≠ 0) then .jump l else .code rest, s, regs)
  | (.code (.other a opnds :: rest), s, regs) =>
    match opnds.eval sem s regs with
    | none => .final .fails
    | some vs =>
      let (s, next) := sem.exec a vs s
      .step [.stmt a vs] (next.place rest, s, regs)
  | (.code (.regassign primType pregIdx opnd :: rest), s, regs) =>
    match opnd.eval sem s regs with
    | none => .final .fails
    | some v => .step [] (.code rest, s, Function.update regs pregIdx (primType.format.wrap v))
  | (.jump l, s, regs) =>
    match findFlat l code with
    | none => .final (.jumps l s)
    | some rest => .step [] (.code rest, s, regs)
  | (.stop, s, _) => .final (.stops s)

/-! ### Operands that fit -/

mutual

/-- Where operators are embedded, the register keeps the truth of the left operand, and ends with 0
or 1 for the operand that decides. -/
def Expr.Fits (sem : Semantics Ω ω σ) (s : σ) : Expr Ω → Prop
  | .node _ opnds => opnds.Fits sem s
  | .logic .cand primType opnd0 opnd1 =>
    opnd0.Fits sem s ∧ ∀ v, opnd0.eval sem s = some v → v ≠ 0 →
      primType.format.wrap v ≠ 0 ∧ opnd1.Fits sem s ∧
        ∀ w, opnd1.eval sem s = some w → primType.format.wrap w = truth w
  | .logic .cior primType opnd0 opnd1 =>
    opnd0.Fits sem s ∧ ∀ v, opnd0.eval sem s = some v →
      if v ≠ 0 then primType.format.wrap v = 1
      else opnd1.Fits sem s ∧
        ∀ w, opnd1.eval sem s = some w → primType.format.wrap w = truth w

def Exprs.Fits (sem : Semantics Ω ω σ) (s : σ) : Exprs Ω → Prop
  | .nil => True
  | .cons e rest => e.Fits sem s ∧ rest.Fits sem s

end

/-- At the root of a condition only the operands that are not `cand` or `cior` have to fit. -/
def Expr.RootFits (sem : Semantics Ω ω σ) (s : σ) : Expr Ω → Prop
  | .node _ opnds => opnds.Fits sem s
  | .logic op _ opnd0 opnd1 =>
    opnd0.RootFits sem s ∧ ∀ v, opnd0.eval sem s = some v →
      (match op with | .cand => v ≠ 0 | .cior => v = 0) → opnd1.RootFits sem s

def Stmt.Fits (sem : Semantics Ω ω σ) (s : σ) : Stmt Ω ω → Prop
  | .label _ => True
  | .condGoto _ opnd _ => opnd.RootFits sem s
  | .other _ opnds => opnds.Fits sem s

/-- The operands of the statement that comes next fit. -/
def Fits (sem : Semantics Ω ω σ) : Place (Stmt Ω ω) × σ → Prop
  | (.code (stmt :: _), s) => stmt.Fits sem s
  | _ => True

end CandCior
end Maple
