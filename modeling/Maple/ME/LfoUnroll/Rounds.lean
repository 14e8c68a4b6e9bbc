import Maple.ME.LfoUnroll.Basic
import Mathlib.Data.List.Forall2

/-!
# Copies of the body and rounds of loops

A copy of the body does what the body does for the value that replaces the loop variable, and a loop
over copies executes instances for consecutive values.
-/

namespace Maple
namespace LfoUnroll

variable {α β γ σ : Type*} {f : IntFormat} {sem : Semantics α β γ σ} {body : Block α β γ}

/-! ### ReplaceIV -/

section ReplaceIV

variable {rep : Expr β γ} {iv v : Int}

mutual

theorem Expr.eval_replaceIV (h : ∀ s, rep.eval f sem iv s = v) (s : σ) :
    ∀ e : Expr β γ, (e.replaceIV rep).eval f sem iv s = e.eval f sem v s
  | .iv => h s
  | .const _ => rfl
  | .leaf _ => rfl
  | .add a b => by
    simp only [Expr.replaceIV, Expr.eval, a.eval_replaceIV h s, b.eval_replaceIV h s]
  | .sub a b => by
    simp only [Expr.replaceIV, Expr.eval, a.eval_replaceIV h s, b.eval_replaceIV h s]
  | .rem a b => by
    simp only [Expr.replaceIV, Expr.eval, a.eval_replaceIV h s, b.eval_replaceIV h s]
  | .node op opnds => by
    simp only [Expr.replaceIV, Expr.eval, opnds.eval_replaceIV h s]

theorem Exprs.eval_replaceIV (h : ∀ s, rep.eval f sem iv s = v) (s : σ) :
    ∀ es : Exprs β γ, (es.replaceIV rep).eval f sem iv s = es.eval f sem v s
  | .nil => rfl
  | .cons opnd rest => by
    simp only [Exprs.replaceIV, Exprs.eval, opnd.eval_replaceIV h s, rest.eval_replaceIV h s]

end

mutual

theorem Stmt.exec_replaceIV (h : ∀ s, rep.eval f sem iv s = v) :
    ∀ (stmt : Stmt α β γ) (s : σ), (stmt.replaceIV rep).exec f sem iv s = stmt.exec f sem v s
  | .simple a opnds, s => by
    simp only [Stmt.replaceIV, Stmt.exec, opnds.eval_replaceIV h s]
  | .ifStmt opnd thenPart elsePart, s => by
    simp only [Stmt.replaceIV, Stmt.exec, Expr.eval_replaceIV h s opnd,
      thenPart.exec_replaceIV h s, elsePart.exec_replaceIV h s]
  | .block b, s => b.exec_replaceIV h s

/-- A block in which the loop variable is replaced does what the block does for the value of the
replacement, if no statement changes that value. -/
theorem Block.exec_replaceIV (h : ∀ s, rep.eval f sem iv s = v) :
    ∀ (b : Block α β γ) (s : σ), (b.replaceIV rep).exec f sem iv s = b.exec f sem v s
  | .nil, _ => rfl
  | .cons stmt rest, s => by
    simp only [Block.replaceIV, Block.exec, stmt.exec_replaceIV h s, rest.exec_replaceIV h]

end

end ReplaceIV

/-! ### Instances -/

section Instances

variable (f sem body)

/-- The state after an instance of the body. -/
def runInstance (t : State σ) (v : Int) : State σ :=
  { t with env := body.exec f sem v t.env, trace := t.trace ++ [v] }

def runInstances (t : State σ) (vs : List Int) : State σ := vs.foldl (runInstance f sem body) t

variable {f sem body}

lemma runInstances_cons (t : State σ) (v : Int) (vs : List Int) :
    runInstances f sem body t (v :: vs) =
      runInstances f sem body (runInstance f sem body t v) vs := rfl

lemma runInstances_eq (t : State σ) (vs : List Int) :
    runInstances f sem body t vs = { t with
      env := vs.foldl (fun s v => body.exec f sem v s) t.env
      trace := t.trace ++ vs } := by
  induction vs generalizing t with
  | nil => simp [runInstances]
  | cons v vs ih =>
    rw [runInstances_cons, ih]
    simp [runInstance]

@[simp] lemma runInstances_iv (t : State σ) (vs : List Int) :
    (runInstances f sem body t vs).iv = t.iv := by
  rw [runInstances_eq]

@[simp] lemma runInstances_preg (t : State σ) (vs : List Int) :
    (runInstances f sem body t vs).preg = t.preg := by
  rw [runInstances_eq]

@[simp] lemma runInstances_trace (t : State σ) (vs : List Int) :
    (runInstances f sem body t vs).trace = t.trace ++ vs := by
  rw [runInstances_eq]

lemma runInstances_env (t : State σ) (vs : List Int) :
    (runInstances f sem body t vs).env = vs.foldl (fun s v => body.exec f sem v s) t.env := by
  rw [runInstances_eq]

end Instances

section Copies

variable (f sem)

/-- A copy stands for the instance of the value `v` when the loop variable is `iv`. -/
def Reads (iv : Int) (rep : Option (Expr β γ)) (v : Int) : Prop :=
  match rep with
  | none => v = iv
  | some e => ∀ s, e.eval f sem iv s = v

end Copies

lemma runCopy_eq {t : State σ} {rep : Option (Expr β γ)} {v : Int} (h : Reads f sem t.iv rep v) :
    runCopy f sem body t rep = runInstance f sem body t v := by
  cases rep with
  | none =>
    have hv : v = t.iv := h
    subst hv
    rfl
  | some e =>
    have hv : ∀ s, e.eval f sem t.iv s = v := h
    simp only [runCopy, copyBody, copyValue, body.exec_replaceIV hv, hv, runInstance]

lemma foldl_runCopy_eq {reps : List (Option (Expr β γ))} {vs : List Int} {t : State σ}
    (h : List.Forall₂ (Reads f sem t.iv) reps vs) :
    reps.foldl (runCopy f sem body) t = runInstances f sem body t vs := by
  induction reps generalizing t vs with
  | nil =>
    cases h
    rfl
  | cons rep reps ih =>
    cases h with
    | cons hrep hreps =>
      rw [List.foldl_cons, runCopy_eq hrep, runInstances_cons]
      exact ih hreps

/-! ### Consecutive values -/

/-- The values from `v` on. -/
def iota (v : Int) (n : Nat) : List Int := (List.range n).map fun i : Nat => v + i

@[simp] lemma length_iota (v : Int) (n : Nat) : (iota v n).length = n := by simp [iota]

@[simp] lemma iota_zero (v : Int) : iota v 0 = [] := rfl

lemma iota_add (v : Int) (n m : Nat) : iota v (n + m) = iota v n ++ iota (v + n) m := by
  simp only [iota, List.range_add, List.map_append, List.map_map]
  congr 1
  apply List.map_congr_left
  intro i _
  simp only [Function.comp_apply]
  push_cast
  ring

lemma head?_iota (v : Int) {n : Nat} (h : 0 < n) : (iota v n).head? = some v := by
  obtain ⟨m, rfl⟩ : ∃ m, n = m + 1 := ⟨n - 1, by omega⟩
  simp [iota, List.range_succ_eq_map]

section Values

variable (f)

/-- The values of the loop variable in one round of a loop over `m` copies. -/
def roundValues (iv : Int) (m : Nat) : List Int := (List.range m).map fun i : Nat => f.wrap (iv + i)

variable {f}

@[simp] lemma length_roundValues (iv : Int) (m : Nat) : (roundValues f iv m).length = m := by
  simp [roundValues]

lemma head?_roundValues {iv : Int} (hiv : f.Mem iv) {m : Nat} (h : 0 < m) :
    (roundValues f iv m).head? = some iv := by
  obtain ⟨n, rfl⟩ : ∃ n, m = n + 1 := ⟨m - 1, by omega⟩
  simp [roundValues, List.range_succ_eq_map, f.wrap_of_mem hiv]

lemma roundValues_eq_iota {iv : Int} (hiv : f.Mem iv) {m : Nat} (hm : iv + m ≤ f.maxValue + 1) :
    roundValues f iv m = iota iv m := by
  apply List.map_congr_left
  intro i hi
  rw [List.mem_range] at hi
  apply f.wrap_of_mem
  have := hiv.1
  exact ⟨by omega, by omega⟩

end Values

/-! ### Loops -/

lemma reads_adjustedCopies {base : Expr β γ} {iv b : Int} (hbase : ∀ s, base.eval f sem iv s = b)
    (n : Nat) :
    List.Forall₂ (Reads f sem iv) (adjustedCopies base 1 n)
      ((List.range n).map fun i : Nat => f.wrap (b + (i + 1 : Nat))) := by
  rw [adjustedCopies, List.forall₂_map_left_iff, List.forall₂_map_right_iff, List.forall₂_same]
  intro i _ s
  simp only [Expr.eval, hbase, one_mul, f.wrap_add_wrap]
  push_cast
  rfl

lemma roundValues_succ {iv : Int} (hiv : f.Mem iv) (n : Nat) :
    roundValues f iv (n + 1) =
      iv :: (List.range n).map fun i : Nat => f.wrap (iv + (i + 1 : Nat)) := by
  simp [roundValues, List.range_succ_eq_map, f.wrap_of_mem hiv, Function.comp_def]

section Loops

variable (f sem body)

/-- Each round of a loop executes instances for the next `m` values. -/
def Rounds (incrExpr : Expr β γ) (reps : List (Option (Expr β γ))) (m : Nat) : Prop :=
  ∀ t : State σ, f.Mem t.iv → runRound f sem body incrExpr reps t =
    { runInstances f sem body t (roundValues f t.iv m) with iv := f.wrap (t.iv + m) }

/-- The value of an operand, also after instances and for other values of the loop variable. -/
def Fixed (rhs : Operand β γ) (x : Int) (t : State σ) : Prop :=
  ∀ vs iv, rhs.eval f sem { runInstances f sem body t vs with iv := iv } = x

variable {f sem body}

lemma rounds_unrolled {times : Nat} (h : 0 < times) :
    Rounds f sem body (.const (1 * times)) (none :: adjustedCopies .iv 1 (times - 1)) times := by
  obtain ⟨n, rfl⟩ : ∃ n, times = n + 1 := ⟨times - 1, by omega⟩
  intro t ht
  have hcopies : List.Forall₂ (Reads f sem t.iv) (none :: adjustedCopies .iv 1 n)
      (roundValues f t.iv (n + 1)) := by
    rw [roundValues_succ ht]
    exact .cons rfl (reads_adjustedCopies (fun _ => rfl) n)
  simp only [runRound, Nat.add_sub_cancel, foldl_runCopy_eq hcopies, runInstances_iv, Expr.eval,
    one_mul, f.wrap_add_wrap]

lemma rounds_single : Rounds f sem body (.const 1) [none] 1 := by
  have h : Rounds f sem body (.const (1 * (1 : Nat))) (none :: adjustedCopies .iv 1 (1 - 1)) 1 :=
    rounds_unrolled one_pos
  simpa [adjustedCopies] using h

lemma Fixed.eval {rhs : Operand β γ} {x : Int} {t : State σ} (h : Fixed f sem body rhs x t) :
    rhs.eval f sem t = x := h [] t.iv

lemma Fixed.runInstances {rhs : Operand β γ} {x : Int} {t : State σ}
    (h : Fixed f sem body rhs x t) (vs : List Int) (iv : Int) :
    Fixed f sem body rhs x { LfoUnroll.runInstances f sem body t vs with iv := iv } := by
  intro ws iv'
  have := h (vs ++ ws) iv'
  simpa [runInstances_eq] using this

lemma doloop_settles {condOp : CmpOp} {rhs : Operand β γ} {incrExpr : Expr β γ}
    {reps : List (Option (Expr β γ))} {m : Nat} {x : Int}
    (hrounds : Rounds f sem body incrExpr reps m) {t : State σ} (ht : f.Mem t.iv)
    (hx : Fixed f sem body rhs x t) (k : Nat) (hmax : t.iv + (k * m : Nat) ≤ f.maxValue)
    (htrue : ∀ j < k, condOp.eval (t.iv + (j * m : Nat)) x = true)
    (hfalse : condOp.eval (t.iv + (k * m : Nat)) x = false) :
    Outcome.Settles (fun fuel => whileLoop (fun t => condOp.eval t.iv (rhs.eval f sem t))
        (fun t => some (runRound f sem body incrExpr reps t)) fuel t)
      (.done { runInstances f sem body t (iota t.iv (k * m)) with
        iv := t.iv + (k * m : Nat) }) := by
  induction k generalizing t with
  | zero =>
    apply Outcome.Settles.of_succ
    have hcond : condOp.eval t.iv (rhs.eval f sem t) = false := by
      rw [hx.eval]
      simpa using hfalse
    simp only [whileLoop, hcond, Bool.false_eq_true, if_false, Nat.zero_mul, iota_zero,
      Nat.cast_zero, add_zero]
    exact Outcome.settles_const (by simp)
  | succ k ih =>
    have hcond : condOp.eval t.iv (rhs.eval f sem t) = true := by
      rw [hx.eval]
      simpa using htrue 0 (Nat.succ_pos k)
    have hle : t.iv + m ≤ f.maxValue := by
      have : (m : Int) ≤ ((k + 1) * m : Nat) := by
        exact_mod_cast Nat.le_mul_of_pos_left m (Nat.succ_pos k)
      omega
    have hmem : f.Mem (t.iv + m) := ⟨by have := ht.1; omega, hle⟩
    have hnext : runRound f sem body incrExpr reps t =
        { runInstances f sem body t (iota t.iv m) with iv := t.iv + m } := by
      rw [hrounds t ht, f.wrap_of_mem hmem, roundValues_eq_iota ht (by omega)]
    have hshift : ∀ j : Nat, t.iv + ((j + 1) * m : Nat) = t.iv + m + (j * m : Nat) := by
      intro j
      push_cast
      ring
    have hrec := ih (t := { runInstances f sem body t (iota t.iv m) with iv := t.iv + m }) hmem
      (hx.runInstances _ _) (by rw [← hshift]; exact hmax)
      (fun j hj => by rw [← hshift]; exact htrue (j + 1) (Nat.succ_lt_succ hj))
      (by rw [← hshift]; exact hfalse)
    apply Outcome.Settles.of_succ
    simp only [whileLoop, hcond, if_true, hnext]
    have hvals : iota t.iv ((k + 1) * m) = iota t.iv m ++ iota (t.iv + m) (k * m) := by
      rw [Nat.succ_mul, Nat.add_comm, iota_add]
    rw [hvals, hshift]
    simpa [runInstances_eq] using hrec

lemma doloop_done {condOp : CmpOp} {rhs : Operand β γ} {incrExpr : Expr β γ}
    {reps : List (Option (Expr β γ))} {m : Nat} {x : Int} (hm : 0 < m)
    (hrounds : Rounds f sem body incrExpr reps m) {fuel : Nat} {t t' : State σ} (ht : f.Mem t.iv)
    (hx : Fixed f sem body rhs x t)
    (h : whileLoop (fun t => condOp.eval t.iv (rhs.eval f sem t))
      (fun t => some (runRound f sem body incrExpr reps t)) fuel t = .done t') :
    ∃ vs, t'.trace = t.trace ++ vs ∧ m ∣ vs.length ∧
      (condOp.eval t.iv x = false → vs = []) ∧
      (condOp.eval t.iv x = true → vs.head? = some t.iv) := by
  induction fuel generalizing t with
  | zero => cases h
  | succ fuel ih =>
    unfold whileLoop at h
    rw [hx.eval] at h
    split_ifs at h with hcond
    · rw [hrounds t ht] at h
      obtain ⟨vs, htrace, hdvd, -, -⟩ := ih (f.wrap_mem _) (hx.runInstances _ _) h
      refine ⟨roundValues f t.iv m ++ vs, ?_, ?_, ?_, ?_⟩
      · simpa using htrace
      · rw [List.length_append, length_roundValues]
        exact Nat.dvd_add (Nat.dvd_refl m) hdvd
      · intro hfalse
        rw [hcond] at hfalse
        cases hfalse
      · intro _
        rw [List.head?_append, head?_roundValues ht hm]
        rfl
    · cases h
      exact ⟨[], by simp, by simp, fun _ => rfl, fun htrue => absurd htrue hcond⟩

end Loops

end LfoUnroll
end Maple
