import Mathlib.Data.BitVec

/-!
# Masked equality tests joined by and

`ExtConstantFold::ExtFoldXand` (`ext_constantfold.cpp`): `(x & m1) == c1 && (x & m2) == c2` becomes
`(x & (m1 | m2)) == (c1 | c2)` if no bit with the same mask has different constants, after the
operands have been folded in the same way. Masks and constants are what `GetExtValue` gives, and
the words of a type of less than 64 bits are its extended values, which the three bit operations
keep.
-/

namespace Maple
namespace ExtConstantFold

inductive XandOp where
  | cand | land
  deriving DecidableEq, Repr

/-- An expression as `ExtFoldXand` sees it: the test `eq (band (x, m), c)`, a node `cand` or `land`,
or another expression that stays as it is. -/
inductive Expr (ξ ω : Type*) where
  | test (x : ξ) (m c : BitVec 64)
  | xand (op : XandOp) (opnd0 opnd1 : Expr ξ ω)
  | other (e : ω)

variable {ξ ω : Type*}

/-- What an expression says of the values of the tested expressions; the operands have no side
effects, so that `cand` and `land` are the same. -/
def Expr.eval (value : ξ → BitVec 64) (truth : ω → Bool) : Expr ξ ω → Bool
  | .test x m c => value x &&& m == c
  | .xand _ opnd0 opnd1 => opnd0.eval value truth && opnd1.eval value truth
  | .other e => truth e

/-- The loop over the bits. -/
def isWorkable (lmVal lcVal rmVal rcVal : BitVec 64) : Bool :=
  (List.range 64).all fun i =>
    !(lmVal &&& 1#64 <<< i == rmVal &&& 1#64 <<< i && lcVal &&& 1#64 <<< i != rcVal &&& 1#64 <<< i)

/-- The end of `ExtFoldXand`, when both operands are folded. -/
def mergeTests [DecidableEq ξ] (op : XandOp) (lnode rnode : Expr ξ ω) : Expr ξ ω :=
  match lnode, rnode with
  | .test lx lmVal lcVal, .test rx rmVal rcVal =>
    if lx = rx ∧ isWorkable lmVal lcVal rmVal rcVal then
      .test lx (lmVal ||| rmVal) (lcVal ||| rcVal)
    else .xand op lnode rnode
  | _, _ => .xand op lnode rnode

/-- `DispatchFold` on these expressions, where `xand` is folded by `ExtFoldXand`. -/
def dispatchFold [DecidableEq ξ] : Expr ξ ω → Expr ξ ω
  | .test x m c => .test x m c
  | .xand op opnd0 opnd1 => mergeTests op (dispatchFold opnd0) (dispatchFold opnd1)
  | .other e => .other e

/-! ### Two tests -/

lemma and_shiftLeft_eq_iff (a b : BitVec 64) (i : Nat) (hi : i < 64) :
    a &&& 1#64 <<< i = b &&& 1#64 <<< i ↔ a.getLsbD i = b.getLsbD i := by
  constructor
  · intro h
    have hbit := congrArg (fun w => w.getLsbD i) h
    simpa [BitVec.getLsbD_and, BitVec.getLsbD_shiftLeft, hi] using hbit
  · intro h
    apply BitVec.eq_of_getLsbD_eq
    intro j hj
    simp only [BitVec.getLsbD_and, BitVec.getLsbD_shiftLeft, BitVec.getLsbD_one]
    by_cases hij : i = j
    · rw [← hij, h]
    · by_cases hlt : j < i
      · simp [hlt]
      · have hne : j - i ≠ 0 := by omega
        simp [hne]

lemma isWorkable_iff (m₁ c₁ m₂ c₂ : BitVec 64) :
    isWorkable m₁ c₁ m₂ c₂ = true ↔
      ∀ i < 64, m₁.getLsbD i = m₂.getLsbD i → c₁.getLsbD i = c₂.getLsbD i := by
  simp only [isWorkable, List.all_eq_true, List.mem_range, Bool.not_eq_true', Bool.and_eq_false_imp,
    beq_iff_eq, bne_eq_false_iff_eq]
  constructor
  · intro h i hi
    simpa only [and_shiftLeft_eq_iff _ _ i hi] using h i hi
  · intro h i hi
    simpa only [and_shiftLeft_eq_iff _ _ i hi] using h i hi

/-- The constant of a test has only bits of its mask. -/
def Within (m c : BitVec 64) : Prop := c &&& m = c

instance (m c : BitVec 64) : Decidable (Within m c) := inferInstanceAs (Decidable (_ = _))

lemma within_iff (m c : BitVec 64) :
    Within m c ↔ ∀ i < 64, c.getLsbD i = true → m.getLsbD i = true := by
  unfold Within
  constructor
  · intro h i _ hc
    rw [← h, BitVec.getLsbD_and, Bool.and_eq_true] at hc
    exact hc.2
  · intro h
    apply BitVec.eq_of_getLsbD_eq
    intro i hi
    have := h i hi
    rw [BitVec.getLsbD_and]
    cases hc : c.getLsbD i <;> simp_all

lemma and_eq_iff (v m c : BitVec 64) :
    v &&& m = c ↔ ∀ i < 64, (v.getLsbD i && m.getLsbD i) = c.getLsbD i := by
  constructor
  · intro h i _
    rw [← h, BitVec.getLsbD_and]
  · intro h
    apply BitVec.eq_of_getLsbD_eq
    intro i hi
    rw [BitVec.getLsbD_and, h i hi]

lemma exists_and_eq_iff (m c : BitVec 64) : (∃ v, v &&& m = c) ↔ Within m c := by
  constructor
  · rintro ⟨v, rfl⟩
    rw [Within, BitVec.and_assoc, BitVec.and_self]
  · intro h
    exact ⟨c, h⟩

lemma Within.or {m₁ c₁ m₂ c₂ : BitVec 64} (h₁ : Within m₁ c₁) (h₂ : Within m₂ c₂) :
    Within (m₁ ||| m₂) (c₁ ||| c₂) := by
  rw [within_iff] at h₁ h₂ ⊢
  intro i hi hc
  simp only [BitVec.getLsbD_or, Bool.or_eq_true] at hc ⊢
  exact hc.imp (h₁ i hi) (h₂ i hi)

lemma and_or_eq_iff {m₁ c₁ m₂ c₂ : BitVec 64} (hw : isWorkable m₁ c₁ m₂ c₂ = true)
    (h₁ : Within m₁ c₁) (h₂ : Within m₂ c₂) (v : BitVec 64) :
    v &&& (m₁ ||| m₂) = (c₁ ||| c₂) ↔ v &&& m₁ = c₁ ∧ v &&& m₂ = c₂ := by
  rw [isWorkable_iff] at hw
  rw [within_iff] at h₁ h₂
  simp only [and_eq_iff, BitVec.getLsbD_or, ← forall_and]
  refine forall₂_congr fun i hi => ?_
  have hw := hw i hi
  have h₁ := h₁ i hi
  have h₂ := h₂ i hi
  generalize v.getLsbD i = vi at *
  generalize m₁.getLsbD i = m₁i at *
  generalize m₂.getLsbD i = m₂i at *
  generalize c₁.getLsbD i = c₁i at *
  generalize c₂.getLsbD i = c₂i at *
  revert vi m₁i m₂i c₁i c₂i
  decide

lemma isWorkable_of_and_eq {m₁ c₁ m₂ c₂ v : BitVec 64} (h₁ : v &&& m₁ = c₁) (h₂ : v &&& m₂ = c₂) :
    isWorkable m₁ c₁ m₂ c₂ = true := by
  rw [isWorkable_iff]
  rw [and_eq_iff] at h₁ h₂
  intro i hi hm
  rw [← h₁ i hi, ← h₂ i hi, hm]

/-! ### Expressions whose tests can hold -/

/-- Every test of the expression has a constant with bits of its mask only. -/
def Expr.AllWithin : Expr ξ ω → Prop
  | .test _ m c => Within m c
  | .xand _ opnd0 opnd1 => opnd0.AllWithin ∧ opnd1.AllWithin
  | .other _ => True

section

variable [DecidableEq ξ] (value : ξ → BitVec 64) (truth : ω → Bool)

lemma mergeTests_of_within (op : XandOp) {lnode rnode : Expr ξ ω} (hl : lnode.AllWithin)
    (hr : rnode.AllWithin) :
    (mergeTests op lnode rnode).AllWithin ∧
      (mergeTests op lnode rnode).eval value truth =
        (lnode.eval value truth && rnode.eval value truth) := by
  unfold mergeTests
  split
  · rename_i lx lm lc rx rm rc
    split_ifs with h
    · obtain ⟨rfl, hw⟩ := h
      refine ⟨Within.or hl hr, ?_⟩
      rw [Bool.eq_iff_iff]
      simp only [Expr.eval, beq_iff_eq, Bool.and_eq_true]
      exact and_or_eq_iff hw hl hr _
    · exact ⟨⟨hl, hr⟩, rfl⟩
  · exact ⟨⟨hl, hr⟩, rfl⟩

/-- The fold keeps the meaning of every expression all of whose tests can hold. -/
theorem dispatchFold_of_within (e : Expr ξ ω) (he : e.AllWithin) :
    (dispatchFold e).AllWithin ∧ (dispatchFold e).eval value truth = e.eval value truth := by
  induction e with
  | test x m c => exact ⟨he, rfl⟩
  | other e => exact ⟨he, rfl⟩
  | xand op opnd0 opnd1 ih0 ih1 =>
    obtain ⟨hl, hleval⟩ := ih0 he.1
    obtain ⟨hr, hreval⟩ := ih1 he.2
    obtain ⟨hwithin, heval⟩ := mergeTests_of_within value truth op hl hr
    refine ⟨hwithin, ?_⟩
    rw [dispatchFold, heval, hleval, hreval, Expr.eval]

end

/-! ### Chains over one expression -/

/-- A chain of tests of one expression. -/
inductive Chain where
  | test (m c : BitVec 64)
  | xand (op : XandOp) (opnd0 opnd1 : Chain)

namespace Chain

def expr (x : ξ) : Chain → Expr ξ ω
  | test m c => .test x m c
  | xand op opnd0 opnd1 => .xand op (opnd0.expr x) (opnd1.expr x)

/-- The bits of all masks. -/
def masks : Chain → BitVec 64
  | test m _ => m
  | xand _ opnd0 opnd1 => opnd0.masks ||| opnd1.masks

/-- The bits of all constants. -/
def consts : Chain → BitVec 64
  | test _ c => c
  | xand _ opnd0 opnd1 => opnd0.consts ||| opnd1.consts

/-- The constant of every test has only bits of the mask of the test. -/
def AllWithin : Chain → Prop
  | test m c => Within m c
  | xand _ opnd0 opnd1 => opnd0.AllWithin ∧ opnd1.AllWithin

/-- The two sides of every node pass the check of the bits. -/
def Workable : Chain → Prop
  | test _ _ => True
  | xand _ opnd0 opnd1 => (opnd0.Workable ∧ opnd1.Workable) ∧
      isWorkable opnd0.masks opnd0.consts opnd1.masks opnd1.consts = true

variable (x : ξ) (value : ξ → BitVec 64) (truth : ω → Bool) (t : Chain)

lemma allWithin_expr : (t.expr x : Expr ξ ω).AllWithin ↔ t.AllWithin := by
  induction t with
  | test m c => rfl
  | xand op opnd0 opnd1 ih0 ih1 => exact and_congr ih0 ih1

lemma of_eval_expr (h : (t.expr x).eval value truth = true) :
    value x &&& t.masks = t.consts ∧ t.AllWithin ∧ t.Workable := by
  induction t with
  | test m c =>
    simp only [expr, Expr.eval, beq_iff_eq] at h
    exact ⟨h, (exists_and_eq_iff m c).mp ⟨_, h⟩, trivial⟩
  | xand op opnd0 opnd1 ih0 ih1 =>
    simp only [expr, Expr.eval, Bool.and_eq_true] at h
    obtain ⟨heq0, hwithin0, hwork0⟩ := ih0 h.1
    obtain ⟨heq1, hwithin1, hwork1⟩ := ih1 h.2
    refine ⟨?_, ⟨hwithin0, hwithin1⟩, ⟨hwork0, hwork1⟩, isWorkable_of_and_eq heq0 heq1⟩
    rw [masks, consts, ← heq0, ← heq1]
    apply BitVec.eq_of_getLsbD_eq
    intro i _
    simp only [BitVec.getLsbD_and, BitVec.getLsbD_or]
    cases (value x).getLsbD i <;> simp

lemma eval_expr_of_out (h : ¬t.Workable ∨ ¬Within t.masks t.consts) :
    (t.expr x).eval value truth = false := by
  rw [← Bool.not_eq_true]
  intro heval
  obtain ⟨hv, -, hwork⟩ := of_eval_expr x value truth t heval
  exact h.elim (fun h => h hwork) fun h => h ((exists_and_eq_iff _ _).mp ⟨_, hv⟩)

variable [DecidableEq ξ]

lemma dispatchFold_of_workable (h : t.Workable) :
    dispatchFold (t.expr x : Expr ξ ω) = .test x t.masks t.consts := by
  induction t with
  | test m c => rfl
  | xand op opnd0 opnd1 ih0 ih1 =>
    obtain ⟨⟨h0, h1⟩, hw⟩ := h
    rw [expr, dispatchFold, ih0 h0, ih1 h1, mergeTests, if_pos ⟨rfl, hw⟩]
    rfl

lemma dispatchFold_of_not_workable (h : ¬t.Workable) :
    ∃ op l r, dispatchFold (t.expr x : Expr ξ ω) = .xand op l r ∧
      (Expr.xand op l r).eval value truth = false := by
  induction t with
  | test m c => exact absurd trivial h
  | xand op opnd0 opnd1 ih0 ih1 =>
    rw [expr, dispatchFold]
    by_cases h0 : opnd0.Workable
    · rw [dispatchFold_of_workable x opnd0 h0]
      by_cases h1 : opnd1.Workable
      · rw [dispatchFold_of_workable x opnd1 h1]
        have hw : ¬isWorkable opnd0.masks opnd0.consts opnd1.masks opnd1.consts = true :=
          fun hw => h ⟨⟨h0, h1⟩, hw⟩
        rw [mergeTests, if_neg (by rintro ⟨-, h⟩; exact hw h)]
        refine ⟨op, _, _, rfl, ?_⟩
        rw [← Bool.not_eq_true]
        intro heval
        simp only [Expr.eval, Bool.and_eq_true, beq_iff_eq] at heval
        exact hw (isWorkable_of_and_eq heval.1 heval.2)
      · obtain ⟨op', l, r, hfold, heval⟩ := ih1 h1
        rw [hfold]
        refine ⟨op, _, _, rfl, ?_⟩
        rw [Expr.eval, heval, Bool.and_false]
    · obtain ⟨op', l, r, hfold, heval⟩ := ih0 h0
      rw [hfold]
      refine ⟨op, _, _, rfl, ?_⟩
      rw [Expr.eval, heval, Bool.false_and]

lemma eval_dispatchFold_of_out (h : ¬t.Workable ∨ ¬Within t.masks t.consts) :
    (dispatchFold (t.expr x)).eval value truth = false := by
  by_cases hwork : t.Workable
  · rw [dispatchFold_of_workable x t hwork, ← Bool.not_eq_true]
    simp only [Expr.eval, beq_iff_eq]
    intro hv
    exact h.elim (fun h => h hwork) fun h => h ((exists_and_eq_iff _ _).mp ⟨_, hv⟩)
  · obtain ⟨op, l, r, hfold, heval⟩ := dispatchFold_of_not_workable x value truth t hwork
    rw [hfold, heval]

/-- A chain and what it is folded to hold of the same values exactly if the constant of every test
has only bits of its mask, or some node is kept, or some constant has a bit of no mask at all. In
the last two cases neither holds of any value. -/
theorem dispatchFold_iff :
    (∀ (value : ξ → BitVec 64) (truth : ω → Bool),
      (dispatchFold (t.expr x)).eval value truth = (t.expr x).eval value truth) ↔
    t.AllWithin ∨ ¬t.Workable ∨ ¬Within t.masks t.consts := by
  constructor
  · intro h
    by_cases hwork : t.Workable
    · by_cases hwithin : Within t.masks t.consts
      · obtain ⟨v, hv⟩ := (exists_and_eq_iff t.masks t.consts).mpr hwithin
        have heval := h (fun _ => v) fun _ => false
        rw [dispatchFold_of_workable x t hwork, Expr.eval, hv, beq_self_eq_true] at heval
        exact Or.inl (of_eval_expr x _ _ t heval.symm).2.1
      · exact Or.inr (Or.inr hwithin)
    · exact Or.inr (Or.inl hwork)
  · rintro (hall | hout) value truth
    · exact (dispatchFold_of_within value truth _ ((allWithin_expr x t).mpr hall)).2
    · rw [eval_dispatchFold_of_out x value truth t hout, eval_expr_of_out x value truth t hout]

/-- The first test asks for a bit outside its mask and holds of no value, the merged one of 2. -/
theorem not_dispatchFold_bitOutsideMask :
    ¬∀ (x : Unit) (t : Chain) (value : Unit → BitVec 64) (truth : Empty → Bool),
      (dispatchFold (t.expr x)).eval value truth = (t.expr x).eval value truth := by
  intro h
  have := h () (xand .cand (test 1 2) (test 2 2)) (fun _ => 2) Empty.elim
  revert this
  decide

end Chain
end ExtConstantFold
end Maple
