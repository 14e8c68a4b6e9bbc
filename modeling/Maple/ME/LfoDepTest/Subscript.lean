import Maple.Lib.Int64Cast
import Mathlib.Tactic.Ring

/-!
# Array subscripts of a loop

The expressions of a loop body, which of them are loop invariant, and the descriptions that
`BuildOneSubscriptDesc` makes of the subscripts.
-/

namespace Maple
namespace LfoDepTest

/-- `MIRConst`: an integer with the bits of its type, or a constant of another kind. -/
inductive MIRConst where
  | int (value : Int64) (bits : Nat)
  | other (id : Nat)
  deriving DecidableEq, Repr

/-- A symbol with a field, or a pseudo register. -/
inductive Variable where
  | symbol (stIdx fieldID : Nat)
  | preg (regIdx : Nat)
  deriving DecidableEq, Repr

/-- `ScalarMeExpr`: a version of a variable, and the block that defines it. -/
structure Scalar where
  var : Variable
  version : Nat
  defBB : Option Nat
  deriving DecidableEq, Repr

/-- What `IvarMeExpr` has besides its base. `muDefBB` is the block that defines the version of the
memory. -/
structure Ivar where
  tyIdx : Nat
  fieldID : Nat
  hasMultipleMu : Bool
  muDefBB : Option Nat
  deriving DecidableEq, Repr

/-- The leaves that are loop invariant in every loop. -/
inductive Leaf where
  | addrof (id : Nat)
  | addroffunc (id : Nat)
  | conststr (id : Nat)
  | conststr16 (id : Nat)
  | sizeoftype (id : Nat)
  | fieldsdist (id : Nat)
  deriving DecidableEq, Repr

/-- Opcodes with one operand, with all that belongs to the node. -/
inductive UnaryOp where
  | cvt (primType fromType : Nat)
  | other (id : Nat)
  deriving DecidableEq, Repr

/-- Opcodes with two operands, with all that belongs to the node. -/
inductive BinaryOp where
  | add (primType : Nat)
  | sub (primType : Nat)
  | mul (primType : Nat)
  | other (id : Nat)
  deriving DecidableEq, Repr

/-- `MeExpr`. Equal expressions are one object. An expression with a list of operands is `nary`, to
which `arg` adds one operand after the other. -/
inductive MeExpr where
  | const (c : MIRConst)
  | leaf (l : Leaf)
  | scalar (s : Scalar)
  | ivar (v : Ivar) (base : MeExpr)
  | unary (op : UnaryOp) (opnd : MeExpr)
  | binary (op : BinaryOp) (opnd0 opnd1 : MeExpr)
  | nary (op : Nat)
  | arg (init : MeExpr) (opnd : MeExpr)
  | other (id : Nat)
  deriving DecidableEq

/-- `BaseNode`, with the expression that `GetMexpr` finds for it. -/
inductive BaseNode where
  | constval (x : Option MeExpr) (c : MIRConst)
  | leaf (x : Option MeExpr) (l : Leaf)
  | read (x : Option MeExpr) (v : Variable)
  | iread (x : Option MeExpr) (tyIdx fieldID : Nat) (base : BaseNode)
  | unary (x : Option MeExpr) (op : UnaryOp) (opnd : BaseNode)
  | binary (x : Option MeExpr) (op : BinaryOp) (opnd0 opnd1 : BaseNode)
  | nary (x : Option MeExpr) (op : Nat)
  | arg (x : Option MeExpr) (init : BaseNode) (opnd : BaseNode)
  | other (x : Option MeExpr) (id : Nat)

def BaseNode.getMexpr : BaseNode → Option MeExpr
  | constval x _ | leaf x _ | read x _ | iread x _ _ _ | unary x _ _ | binary x _ _ _ | nary x _
  | arg x _ _ | other x _ => x

/-- `EmitPreMeExpr`: every node is recorded with its expression. -/
def emitPreMeExpr : MeExpr → BaseNode
  | .const c => .constval (some (.const c)) c
  | .leaf l => .leaf (some (.leaf l)) l
  | .scalar s => .read (some (.scalar s)) s.var
  | .ivar v base => .iread (some (.ivar v base)) v.tyIdx v.fieldID (emitPreMeExpr base)
  | .unary op opnd => .unary (some (.unary op opnd)) op (emitPreMeExpr opnd)
  | .binary op opnd0 opnd1 =>
    .binary (some (.binary op opnd0 opnd1)) op (emitPreMeExpr opnd0) (emitPreMeExpr opnd1)
  | .nary op => .nary (some (.nary op)) op
  | .arg init opnd => .arg (some (.arg init opnd)) (emitPreMeExpr init) (emitPreMeExpr opnd)
  | .other id => .other (some (.other id)) id

/-- The loop: its variable and the blocks other than its own that dominate it. -/
structure Doloop where
  doVarStIdx : Nat
  dominatedBy : Nat → Bool

namespace Doloop

variable (loop : Doloop)

/-- Defined in no block or in one that dominates the loop. -/
def definedOutside (defBB : Option Nat) : Bool :=
  match defBB with
  | none => true
  | some bb => loop.dominatedBy bb

def isLoopInvariant : MeExpr → Bool
  | .const _ => true
  | .leaf _ => true
  | .scalar s => loop.definedOutside s.defBB
  | .ivar v base => !v.hasMultipleMu && isLoopInvariant base && loop.definedOutside v.muDefBB
  | .unary _ opnd => isLoopInvariant opnd
  | .binary _ opnd0 opnd1 => isLoopInvariant opnd0 && isLoopInvariant opnd1
  | .nary _ => true
  | .arg init opnd => isLoopInvariant init && isLoopInvariant opnd
  | .other _ => false

/-- `IsLoopInvariant2`. A node without an expression is invariant if its operands are. -/
def isLoopInvariant2 : BaseNode → Bool
  | .constval x _ | .leaf x _ | .read x _ | .nary x _ | .other x _ =>
    (x.map loop.isLoopInvariant).getD true
  | .iread x _ _ opnd | .unary x _ opnd => (x.map loop.isLoopInvariant).getD (isLoopInvariant2 opnd)
  | .binary x _ opnd0 opnd1 | .arg x opnd0 opnd1 =>
    (x.map loop.isLoopInvariant).getD (isLoopInvariant2 opnd0 && isLoopInvariant2 opnd1)

end Doloop

/-! ### Descriptions -/

/-- `SubscriptDesc`, without the node of the loop variable. -/
structure SubscriptDesc where
  subscriptX : Option MeExpr
  coeff : Int64 := 1
  additiveConst : Int64 := 0
  additiveLoopInvar : Option BaseNode := none
  tooMessy : Bool := false
  loopInvariant : Bool := false

/-- The constant that is added to or subtracted from the main term. -/
def splitAdditiveConst (subsX : BaseNode) : Int64 × BaseNode :=
  match subsX with
  | .binary _ (.add _) opnd0 (.constval _ (.int c _)) => (c, opnd0)
  | .binary _ (.sub _) opnd0 (.constval _ (.int c _)) => (-c, opnd0)
  | _ => (0, subsX)

/-- The loop invariant that is added to the main term; a sum of other terms is too messy. -/
def splitAdditiveLoopInvar (loop : Doloop) (mainTerm : BaseNode) :
    Option (Option BaseNode × BaseNode) :=
  match mainTerm with
  | .binary _ (.add _) opnd0 opnd1 =>
    if loop.isLoopInvariant2 opnd0 then some (some opnd0, opnd1)
    else if loop.isLoopInvariant2 opnd1 then some (some opnd1, opnd0)
    else none
  | _ => some (none, mainTerm)

/-- A `dread` or a `cvt`. -/
def isDreadOrCvt : BaseNode → Bool
  | .read _ (.symbol _ _) | .unary _ (.cvt _ _) _ => true
  | _ => false

/-- The constant factor of the variable; other products are too messy. -/
def splitCoeff (mainTerm : BaseNode) : Option (Int64 × BaseNode) :=
  match mainTerm with
  | .binary _ (.mul _) opnd0 opnd1 =>
    if isDreadOrCvt opnd0 then
      match opnd1 with
      | .constval _ (.int c _) => some (c, opnd0)
      | _ => none
    else none
  | _ => some (1, mainTerm)

def stripCvt (varNode : BaseNode) : BaseNode :=
  match varNode with
  | .unary _ (.cvt _ _) opnd => opnd
  | _ => varNode

/-- A `dread` of the loop variable. -/
def isDoVar (loop : Doloop) (varNode : BaseNode) : Bool :=
  match varNode with
  | .read _ (.symbol stIdx _) => stIdx == loop.doVarStIdx
  | _ => false

def buildOneSubscriptDesc (loop : Doloop) (subsX : BaseNode) : SubscriptDesc :=
  let desc : SubscriptDesc := { subscriptX := subsX.getMexpr }
  if loop.isLoopInvariant2 subsX then { desc with loopInvariant := true }
  else
    let (additiveConst, mainTerm) := splitAdditiveConst subsX
    let desc := { desc with additiveConst := additiveConst }
    match splitAdditiveLoopInvar loop mainTerm with
    | none => { desc with tooMessy := true }
    | some (additiveLoopInvar, mainTerm) =>
      let desc := { desc with additiveLoopInvar := additiveLoopInvar }
      match splitCoeff mainTerm with
      | none => { desc with tooMessy := true }
      | some (coeff, varNode) =>
        let desc := { desc with coeff := coeff }
        if isDoVar loop (stripCvt varNode) then desc else { desc with tooMessy := true }

/-- `ConstvalNode::IsSameContent`: integers may be equal in both types only. -/
def MIRConst.isSameContent : MIRConst → MIRConst → Bool
  | int a m, int b n =>
    (a.toInt - b.toInt) % 2 ^ m == 0 && (a.toInt - b.toInt) % 2 ^ n == 0
  | other a, other b => a == b
  | _, _ => false

/-- `IsSameContent`, with the comparison of the constants as a parameter. Nodes of other classes do
not even have the content of themselves. -/
def BaseNode.isSameContentBy (eqConst : MIRConst → MIRConst → Bool) : BaseNode → BaseNode → Bool
  | constval _ c, constval _ d => eqConst c d
  | leaf _ (.addrof a), leaf _ (.addrof b) => a == b
  | leaf _ (.addroffunc a), leaf _ (.addroffunc b) => a == b
  | leaf _ (.conststr a), leaf _ (.conststr b) => a == b
  | leaf _ (.conststr16 a), leaf _ (.conststr16 b) => a == b
  | read _ v, read _ w => v == w
  | iread _ t f a, iread _ t' f' b => t == t' && f == f' && isSameContentBy eqConst a b
  | unary _ o a, unary _ o' b => o == o' && isSameContentBy eqConst a b
  | binary _ o a b, binary _ o' a' b' =>
    o == o' && isSameContentBy eqConst a a' && isSameContentBy eqConst b b'
  | _, _ => false

def BaseNode.isSameContent : BaseNode → BaseNode → Bool :=
  isSameContentBy MIRConst.isSameContent

/-- Constants with the same value. -/
def MIRConst.isSameValue : MIRConst → MIRConst → Bool
  | int a _, int b _ => a == b
  | other a, other b => a == b
  | _, _ => false

/-! ### Values -/

/-- The values of variables and memory at the entry of the loop and in its iterations, and of all
operators that the descriptions leave alone. -/
structure Assignment where
  const : Nat → Int
  leaf : Leaf → Int
  entry : Variable → Int
  inLoop : Scalar → Int → Int
  entryMemory : Nat → Nat → Int → Int
  inLoopMemory : Ivar → Int → Int → Int
  unary : Nat → Int → Int
  binary : Nat → Int → Int → Int
  nary : Nat → Int
  arg : Int → Int → Int
  other : Nat → Int → Int
  deriving Inhabited

variable (loop : Doloop)

/-- The scalar is a version of the loop variable. -/
def Doloop.isDoVarScalar (s : Scalar) : Bool :=
  match s.var with
  | .symbol stIdx _ => stIdx == loop.doVarStIdx
  | .preg _ => false

/-- The value of a constant. -/
def Assignment.constValue (A : Assignment) : MIRConst → Int
  | .int c _ => c.toInt
  | .other id => A.const id

/-- The value of an expression in the iteration in which the loop variable is `i`. Subscripts are
integers, which arithmetic and conversions do not change. What is defined outside the loop has its
value at the entry. -/
def value (A : Assignment) (i : Int) : MeExpr → Int
  | .const c => A.constValue c
  | .leaf l => A.leaf l
  | .scalar s =>
    if loop.definedOutside s.defBB then A.entry s.var
    else if loop.isDoVarScalar s then i
    else A.inLoop s i
  | .ivar v base =>
    if !v.hasMultipleMu && loop.definedOutside v.muDefBB then
      A.entryMemory v.tyIdx v.fieldID (value A i base)
    else A.inLoopMemory v i (value A i base)
  | .unary (.cvt _ _) opnd => value A i opnd
  | .unary (.other op) opnd => A.unary op (value A i opnd)
  | .binary (.add _) opnd0 opnd1 => value A i opnd0 + value A i opnd1
  | .binary (.sub _) opnd0 opnd1 => value A i opnd0 - value A i opnd1
  | .binary (.mul _) opnd0 opnd1 => value A i opnd0 * value A i opnd1
  | .binary (.other op) opnd0 opnd1 => A.binary op (value A i opnd0) (value A i opnd1)
  | .nary op => A.nary op
  | .arg init opnd => A.arg (value A i init) (value A i opnd)
  | .other id => A.other id i

variable {loop}

lemma value_of_isLoopInvariant {e : MeExpr} (h : loop.isLoopInvariant e) (A : Assignment)
    (i j : Int) : value loop A i e = value loop A j e := by
  induction e with
  | const c => rfl
  | leaf l => rfl
  | scalar s =>
    rw [Doloop.isLoopInvariant] at h
    simp only [value, if_pos h]
  | ivar v base ih =>
    simp only [Doloop.isLoopInvariant, Bool.and_eq_true] at h
    have hv : (!v.hasMultipleMu && loop.definedOutside v.muDefBB) = true := by simp [h.1.1, h.2]
    simp only [value, if_pos hv, ih h.1.2]
  | unary op opnd ih =>
    rw [Doloop.isLoopInvariant] at h
    cases op <;> simp only [value, ih h]
  | binary op opnd0 opnd1 ih₀ ih₁ =>
    simp only [Doloop.isLoopInvariant, Bool.and_eq_true] at h
    cases op <;> simp only [value, ih₀ h.1, ih₁ h.2]
  | nary op => rfl
  | arg init opnd ih₀ ih₁ =>
    simp only [Doloop.isLoopInvariant, Bool.and_eq_true] at h
    simp only [value, ih₀ h.1, ih₁ h.2]
  | other id => simp [Doloop.isLoopInvariant] at h

@[simp] lemma getMexpr_emitPreMeExpr (e : MeExpr) : (emitPreMeExpr e).getMexpr = some e := by
  cases e <;> rfl

@[simp] lemma isLoopInvariant2_emitPreMeExpr (e : MeExpr) :
    loop.isLoopInvariant2 (emitPreMeExpr e) = loop.isLoopInvariant e := by
  cases e <;> rfl

lemma value_of_isSameContentBy {eqConst : MIRConst → MIRConst → Bool} {A : Assignment}
    (hconst : ∀ c d, eqConst c d → A.constValue c = A.constValue d) {a b : MeExpr}
    (h : (emitPreMeExpr a).isSameContentBy eqConst (emitPreMeExpr b))
    (ha : loop.isLoopInvariant a) (hb : loop.isLoopInvariant b) (i j : Int) :
    value loop A i a = value loop A j b := by
  induction a generalizing b with
  | const c =>
    cases b <;> simp only [emitPreMeExpr, BaseNode.isSameContentBy, Bool.false_eq_true] at h
    simp only [value]
    exact hconst _ _ h
  | leaf l =>
    cases b <;> try (cases l <;> simp [emitPreMeExpr, BaseNode.isSameContentBy] at h; done)
    rename_i m
    have hlm : l = m := by
      cases l <;> cases m <;> simp_all [emitPreMeExpr, BaseNode.isSameContentBy]
    rw [hlm]
    rfl
  | scalar s =>
    cases b <;> simp only [emitPreMeExpr, BaseNode.isSameContentBy, Bool.false_eq_true] at h
    rw [Doloop.isLoopInvariant] at ha hb
    rw [beq_iff_eq] at h
    simp only [value, if_pos ha, if_pos hb, h]
  | ivar v base ih =>
    cases b <;> simp only [emitPreMeExpr, BaseNode.isSameContentBy, Bool.false_eq_true] at h
    rename_i w base'
    simp only [Doloop.isLoopInvariant, Bool.and_eq_true] at ha hb
    simp only [Bool.and_eq_true, beq_iff_eq] at h
    have hv : (!v.hasMultipleMu && loop.definedOutside v.muDefBB) = true := by simp [ha.1.1, ha.2]
    have hw : (!w.hasMultipleMu && loop.definedOutside w.muDefBB) = true := by simp [hb.1.1, hb.2]
    simp only [value, if_pos hv, if_pos hw, h.1.1, h.1.2, ih h.2 ha.1.2 hb.1.2]
  | unary op opnd ih =>
    cases b <;> simp only [emitPreMeExpr, BaseNode.isSameContentBy, Bool.false_eq_true] at h
    rw [Doloop.isLoopInvariant] at ha hb
    simp only [Bool.and_eq_true, beq_iff_eq] at h
    obtain ⟨rfl, h⟩ := h
    cases op <;> simp only [value, ih h ha hb]
  | binary op opnd0 opnd1 ih₀ ih₁ =>
    cases b <;> simp only [emitPreMeExpr, BaseNode.isSameContentBy, Bool.false_eq_true] at h
    simp only [Doloop.isLoopInvariant, Bool.and_eq_true] at ha hb
    simp only [Bool.and_eq_true, beq_iff_eq] at h
    obtain ⟨⟨rfl, h₀⟩, h₁⟩ := h
    cases op <;> simp only [value, ih₀ h₀ ha.1 hb.1, ih₁ h₁ ha.2 hb.2]
  | nary op => cases b <;> simp [emitPreMeExpr, BaseNode.isSameContentBy] at h
  | arg init opnd ih₀ ih₁ => cases b <;> simp [emitPreMeExpr, BaseNode.isSameContentBy] at h
  | other id => cases b <;> simp [emitPreMeExpr, BaseNode.isSameContentBy] at h

/-! ### What a description says -/

/-- The expression does not subtract the smallest integer, whose negation overflows. -/
def NegatesExactly (e : MeExpr) : Prop :=
  ∀ t opnd0 bits, e ≠ .binary (.sub t) opnd0 (.const (.int Int64.minValue bits))

lemma toInt_neg {c : Int64} (h : c ≠ Int64.minValue) : (-c).toInt = -c.toInt := by
  have hne : c.toInt ≠ -2 ^ 63 := by
    intro hc
    exact h (Int64.toInt_inj.mp hc)
  have hle := c.le_toInt
  have hlt := c.toInt_lt
  rw [Int64.toInt_neg, Int.bmod_eq_of_le] <;> omega

lemma splitAdditiveConst_emitPreMeExpr (loop : Doloop) (e : MeExpr) :
    ∃ e', (splitAdditiveConst (emitPreMeExpr e)).2 = emitPreMeExpr e' ∧
      (loop.isLoopInvariant e' → loop.isLoopInvariant e) ∧
      (NegatesExactly e → ∀ A i, value loop A i e =
        value loop A i e' + (splitAdditiveConst (emitPreMeExpr e)).1.toInt) := by
  have hsame (h : splitAdditiveConst (emitPreMeExpr e) = (0, emitPreMeExpr e)) :
      ∃ e', (splitAdditiveConst (emitPreMeExpr e)).2 = emitPreMeExpr e' ∧
        (loop.isLoopInvariant e' → loop.isLoopInvariant e) ∧
        (NegatesExactly e → ∀ A i, value loop A i e =
          value loop A i e' + (splitAdditiveConst (emitPreMeExpr e)).1.toInt) := by
    rw [h]
    exact ⟨e, rfl, id, by simp⟩
  cases e with
  | binary op opnd0 opnd1 =>
    cases opnd1 with
    | const c =>
      cases c with
      | other id => cases op <;> exact hsame rfl
      | int c bits =>
        cases op with
        | add t => exact ⟨opnd0, rfl, by simp [Doloop.isLoopInvariant], fun _ A i => rfl⟩
        | sub t =>
          refine ⟨opnd0, rfl, by simp [Doloop.isLoopInvariant], ?_⟩
          intro hexact A i
          have hc : c ≠ Int64.minValue := by
            rintro rfl
            exact hexact t opnd0 bits rfl
          simp only [emitPreMeExpr, splitAdditiveConst, value, Assignment.constValue, toInt_neg hc]
          ring
        | mul t => exact hsame rfl
        | other id => exact hsame rfl
    | _ => cases op <;> exact hsame rfl
  | _ => exact hsame rfl

/-- The value of an invariant that may be missing. -/
def invarValue (loop : Doloop) (A : Assignment) (i : Int) : Option MeExpr → Int
  | none => 0
  | some e => value loop A i e

lemma splitAdditiveLoopInvar_emitPreMeExpr {e : MeExpr} {invar : Option BaseNode} {n : BaseNode}
    (h : splitAdditiveLoopInvar loop (emitPreMeExpr e) = some (invar, n)) :
    ∃ x e', invar = x.map emitPreMeExpr ∧ (∀ y, x = some y → loop.isLoopInvariant y) ∧
      n = emitPreMeExpr e' ∧ (loop.isLoopInvariant e' → loop.isLoopInvariant e) ∧
      ∀ A i, value loop A i e = value loop A i e' + invarValue loop A i x := by
  have hsame (h : splitAdditiveLoopInvar loop (emitPreMeExpr e) = some (none, emitPreMeExpr e))
      (h' : splitAdditiveLoopInvar loop (emitPreMeExpr e) = some (invar, n)) :
      ∃ x e', invar = x.map emitPreMeExpr ∧ (∀ y, x = some y → loop.isLoopInvariant y) ∧
        n = emitPreMeExpr e' ∧ (loop.isLoopInvariant e' → loop.isLoopInvariant e) ∧
        ∀ A i, value loop A i e = value loop A i e' + invarValue loop A i x := by
    rw [h] at h'
    cases h'
    exact ⟨none, e, rfl, by simp, rfl, id, by simp [invarValue]⟩
  cases e with
  | binary op opnd0 opnd1 =>
    cases op with
    | add t =>
      simp only [emitPreMeExpr, splitAdditiveLoopInvar, isLoopInvariant2_emitPreMeExpr] at h
      split_ifs at h with h₀ h₁
      · cases h
        refine ⟨some opnd0, opnd1, rfl, by simpa using h₀, rfl, ?_, ?_⟩
        · intro h₁
          simp [Doloop.isLoopInvariant, h₀, h₁]
        · intro A i
          simp only [value, invarValue]
          ring
      · cases h
        refine ⟨some opnd1, opnd0, rfl, by simpa using h₁, rfl, ?_, ?_⟩
        · intro h₀
          simp [Doloop.isLoopInvariant, h₀, h₁]
        · intro A i
          simp only [value, invarValue]
    | _ => exact hsame rfl h
  | _ => exact hsame rfl h

lemma splitCoeff_emitPreMeExpr (loop : Doloop) {e : MeExpr} {c : Int64} {n : BaseNode}
    (h : splitCoeff (emitPreMeExpr e) = some (c, n)) :
    ∃ e', n = emitPreMeExpr e' ∧ (loop.isLoopInvariant e' → loop.isLoopInvariant e) ∧
      ∀ A i, value loop A i e = c.toInt * value loop A i e' := by
  have hsame (h : splitCoeff (emitPreMeExpr e) = some (1, emitPreMeExpr e))
      (h' : splitCoeff (emitPreMeExpr e) = some (c, n)) :
      ∃ e', n = emitPreMeExpr e' ∧ (loop.isLoopInvariant e' → loop.isLoopInvariant e) ∧
        ∀ A i, value loop A i e = c.toInt * value loop A i e' := by
    rw [h] at h'
    cases h'
    exact ⟨e, rfl, id, by simp⟩
  cases e with
  | binary op opnd0 opnd1 =>
    cases op with
    | mul t =>
      simp only [emitPreMeExpr, splitCoeff] at h
      split_ifs at h
      cases opnd1 with
      | const c =>
        cases c with
        | int c bits =>
          cases h
          refine ⟨opnd0, rfl, by simp [Doloop.isLoopInvariant], ?_⟩
          intro A i
          simp only [value, Assignment.constValue]
          ring
        | other id => cases h
      | _ => cases h
    | _ => exact hsame rfl h
  | _ => exact hsame rfl h

lemma stripCvt_emitPreMeExpr (loop : Doloop) (e : MeExpr) :
    ∃ e', stripCvt (emitPreMeExpr e) = emitPreMeExpr e' ∧
      (loop.isLoopInvariant e' → loop.isLoopInvariant e) ∧
      ∀ A i, value loop A i e = value loop A i e' := by
  cases e with
  | unary op opnd =>
    cases op with
    | cvt t f => exact ⟨opnd, rfl, id, fun A i => rfl⟩
    | other o => exact ⟨_, rfl, id, fun A i => rfl⟩
  | _ => exact ⟨_, rfl, id, fun A i => rfl⟩

lemma value_of_isDoVar {e : MeExpr} (h : isDoVar loop (emitPreMeExpr e))
    (hinv : ¬ loop.isLoopInvariant e) (A : Assignment) (i : Int) : value loop A i e = i := by
  cases e with
  | scalar s =>
    rw [Doloop.isLoopInvariant] at hinv
    have hdo : loop.isDoVarScalar s := by
      unfold Doloop.isDoVarScalar
      simp only [emitPreMeExpr, isDoVar] at h
      split at h <;> simp_all
    simp only [value, if_neg hinv, if_pos hdo]
  | _ => simp [emitPreMeExpr, isDoVar] at h

lemma buildOneSubscriptDesc_value {e : MeExpr} {d : SubscriptDesc}
    (hd : buildOneSubscriptDesc loop (emitPreMeExpr e) = d) (hmessy : d.tooMessy = false)
    (hinvar : d.loopInvariant = false) (hexact : NegatesExactly e) :
    ∃ x : Option MeExpr, d.additiveLoopInvar = x.map emitPreMeExpr ∧
      (∀ y, x = some y → loop.isLoopInvariant y) ∧
      ∀ A i, value loop A i e =
        d.coeff.toInt * i + d.additiveConst.toInt + invarValue loop A i x := by
  obtain ⟨e₁, he₁, hinv₁, hvalue₁⟩ := splitAdditiveConst_emitPreMeExpr loop e
  unfold buildOneSubscriptDesc at hd
  simp only [isLoopInvariant2_emitPreMeExpr] at hd
  split at hd
  case isTrue => simp [← hd] at hinvar
  case isFalse hinv =>
    rw [he₁] at hd
    split at hd
    case h_1 => simp [← hd] at hmessy
    case h_2 invar n hsplit =>
      obtain ⟨x, e₂, rfl, hx, rfl, hinv₂, hvalue₂⟩ := splitAdditiveLoopInvar_emitPreMeExpr hsplit
      split at hd
      case h_1 => simp [← hd] at hmessy
      case h_2 c n hcoeff =>
        obtain ⟨e₃, rfl, hinv₃, hvalue₃⟩ := splitCoeff_emitPreMeExpr loop hcoeff
        obtain ⟨e₄, he₄, hinv₄, hvalue₄⟩ := stripCvt_emitPreMeExpr loop e₃
        rw [he₄] at hd
        split at hd
        case isFalse => simp [← hd] at hmessy
        case isTrue hdo =>
          subst hd
          refine ⟨x, rfl, hx, ?_⟩
          intro A i
          have hinv₀ : ¬ loop.isLoopInvariant e₄ := fun h => hinv (hinv₁ (hinv₂ (hinv₃ (hinv₄ h))))
          rw [hvalue₁ hexact, hvalue₂, hvalue₃, hvalue₄, value_of_isDoVar hdo hinv₀]
          ring

lemma buildOneSubscriptDesc_loopInvariant (e : MeExpr) :
    (buildOneSubscriptDesc loop (emitPreMeExpr e)).subscriptX = some e ∧
    ((buildOneSubscriptDesc loop (emitPreMeExpr e)).loopInvariant = loop.isLoopInvariant e) := by
  unfold buildOneSubscriptDesc
  simp only [isLoopInvariant2_emitPreMeExpr, getMexpr_emitPreMeExpr]
  cases hinv : loop.isLoopInvariant e with
  | true => simp
  | false =>
    simp only [Bool.false_eq_true, if_false]
    split
    · simp
    · split
      · simp
      · split_ifs <;> simp

end LfoDepTest
end Maple
