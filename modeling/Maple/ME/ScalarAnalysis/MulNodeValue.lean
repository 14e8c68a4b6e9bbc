import Maple.ME.ScalarAnalysis.MulNode
import Mathlib.Algebra.BigOperators.Ring.List

/-!
# The value of a product of chains of recurrences

The rewritings of `c * (x / d)` are right where they keep the truncation of the division. Everything
else in `GetCRMulNode` keeps the value of the product.
-/

namespace Maple
namespace CRNode

variable {Var : Type} (S : TypeSort Var) (isCModule : Bool)

/-- The operands with which the search for a recurrence goes on. -/
def Cancellation.opnds (ns : List (CRNode Var)) : Cancellation Var → List (CRNode Var)
  | .rewritten _ _ _ ms => ms
  | _ => ns

/-- The product of `c` and the quotient of `x` by `d` is computed in another way in the call of
`GetCRMulNode` for `ns`, or in a call made by it. -/
inductive Rewrites : List (CRNode Var) → Int → CRNode Var → Int → Prop
  | here {ns front ms ls c x d} (h : mulStep S isCModule ns = .rest front ms)
      (hcancel : cancelDiv front ms = .rewritten c x d ls) : Rewrites ns c x d
  | products {ns front ps fuel ls c x d} (h : mulStep S isCModule ns = .products front ps)
      (hls : unfoldParts mulOpnds fuel ps = .done ls) (hrest : Rewrites (front ++ ls) c x d) :
      Rewrites ns c x d
  | left {ns c' y z c x d} (h : mulStep S isCModule ns = .distribute c' y z)
      (hrest : Rewrites [const c', y] c x d) : Rewrites ns c x d
  | right {ns c' y z c x d} (h : mulStep S isCModule ns = .distribute c' y z)
      (hrest : Rewrites [const c', z] c x d) : Rewrites ns c x d
  | coeff {ns front ms f coeffs after k c x d} (h : mulStep S isCModule ns = .rest front ms)
      (hsplit : splitRecurrence front.length ((cancelDiv front ms).opnds (front ++ ms)) =
        some (f, coeffs, after))
      (hk : k ∈ coeffs) (hrest : Rewrites (f ++ [k]) c x d) : Rewrites ns c x d

/-- All rewritings keep the truncation of the division. -/
def KeepsTruncation (env : Var → Int) (i : Nat) (ns : List (CRNode Var)) : Prop :=
  ∀ c x d, Rewrites S isCModule ns c x d → RewriteExact c d (value env i x)

lemma prodOf_unfoldParts {fuel : Nat} {ns ms : List (CRNode Var)}
    (h : unfoldParts mulOpnds fuel ns = .done ms) (env : Var → Int) (i : Nat) :
    prodOf env i ms = prodOf env i ns := by
  refine unfoldParts_invariant (fun ls => prodOf env i ls = prodOf env i ns) ?_ rfl h
  intro n opnds ls hpart hls
  rw [mulOpnds_eq_some_iff.mp hpart, prodOf_cons, value_mul] at hls
  rw [prodOf_append, ← hls, mul_comm]

lemma cancelDiv_ne_divisionByZero {front ns : List (CRNode Var)} (h : ∀ n ∈ ns, n.wellFormed) :
    cancelDiv front ns ≠ .divisionByZero := by
  unfold cancelDiv
  split
  case h_2 => simp
  case h_1 c x d after hdrop =>
    have hmem : div x (const d) ∈ ns :=
      List.dropWhile_subset (fun n => !n.isDiv) (hdrop ▸ List.mem_cons_self)
    have hwf := h _ hmem
    simp only [wellFormed, Bool.and_eq_true, bne_iff_ne] at hwf
    simp only [if_neg hwf.1]
    split_ifs <;> simp

/-! ### Recurrences -/

section Recurrence

variable {env : Var → Int} {i : Nat} {getMul : List (CRNode Var) → Outcome (CRNode Var)}
variable {front coeffs after : List (CRNode Var)}

lemma mulCoeffs_returns (hfront : crCounts front = 0)
    (h : ∀ k ∈ coeffs, Returns env i prodOf (front ++ [k]) (getMul (front ++ [k]))) :
    mulCoeffs getMul front coeffs ≠ .assertionFailed ∧
    ∀ ls, mulCoeffs getMul front coeffs = .done ls →
      ls.length = coeffs.length ∧ (∀ l ∈ ls, l.wellFormed) ∧ crCounts ls ≤ crCounts coeffs ∧
      ls.map (value env i) = (coeffs.map (value env i)).map (prodOf env i front * ·) := by
  induction coeffs with
  | nil => simp [mulCoeffs]
  | cons k coeffs ih =>
    rw [List.forall_mem_cons] at h
    obtain ⟨hfail, hdone⟩ := h.1
    obtain ⟨hfails, hdones⟩ := ih h.2
    rw [mulCoeffs]
    cases hn : getMul (front ++ [k]) with
    | assertionFailed => exact absurd hn hfail
    | outOfFuel => simp [Outcome.bind]
    | done n =>
      obtain ⟨hresult, hvalue⟩ := hdone n hn
      cases hls : mulCoeffs getMul front coeffs with
      | assertionFailed => exact absurd hls hfails
      | outOfFuel => simp [Outcome.bind]
      | done ls =>
        obtain ⟨hlength, hwf, hcount, hvalues⟩ := hdones ls hls
        have hncount := hresult.crCount_le
        simp only [crCounts_append, crCounts_cons, crCounts_nil] at hncount
        refine ⟨by simp, ?_⟩
        simp only [Outcome.bind_done, Outcome.done.injEq]
        rintro _ rfl
        refine ⟨by simp [hlength], ?_, ?_, ?_⟩
        · rw [List.forall_mem_cons]
          exact ⟨hresult.wellFormed, hwf⟩
        · simp only [crCounts_cons]
          omega
        · simp [hvalues, hvalue]

lemma value_cr_map_mul {ls : List (CRNode Var)} {a : Int}
    (h : ls.map (value env i) = (coeffs.map (value env i)).map (a * ·)) :
    value env i (cr ls) = a * value env i (cr coeffs) := by
  rw [value_cr, value_cr, h]
  exact newtonFrom_map_mul i 0 a _

lemma returns_mul {ns : List (CRNode Var)} (h : Admissible ns) :
    Returns env i prodOf ns (.done (mul ns)) :=
  returns_done ⟨wellFormed_mul_iff.mpr ⟨h.ne_nil, h.wellFormed⟩, by rw [crCount]⟩ (value_mul env i ns)

lemma mulRecurrence_returns {index : Nat} {ns : List (CRNode Var)} (hns : Admissible ns)
    (h : ∀ f coeffs after k, splitRecurrence index ns = some (f, coeffs, after) → k ∈ coeffs →
      Admissible (f ++ [k]) → Returns env i prodOf (f ++ [k]) (getMul (f ++ [k]))) :
    Returns env i prodOf ns (mulRecurrence getMul index ns) := by
  unfold mulRecurrence
  split
  case h_1 => exact returns_mul hns
  case h_3 => exact returns_mul hns
  case h_2 f coeffs after _ hsplit =>
    obtain rfl := splitRecurrence_eq hsplit
    have hwf := hns.wellFormed
    have hcount := hns.crCounts_le
    rw [crCounts_append, crCounts_cons, crCount] at hcount
    have hcoeffs := wellFormed_cr_iff.mp (hwf (cr coeffs) (by simp))
    have hcalls : ∀ k ∈ coeffs, Returns env i prodOf (f ++ [k]) (getMul (f ++ [k])) := by
      intro k hk
      refine h f coeffs after k hsplit hk ⟨by simp, ?_, ?_⟩
      · intro n hn
        rcases List.mem_append.mp hn with hn | hn
        · exact hwf n (by simp [hn])
        · rw [List.mem_singleton.mp hn]
          exact hcoeffs.2 k hk
      · have hle : crCount k ≤ crCounts coeffs := by
          rw [crCounts_eq_sum]
          exact List.single_le_sum (by simp) _ (List.mem_map_of_mem hk)
        simp only [crCounts_append, crCounts_cons, crCounts_nil]
        omega
    obtain ⟨hfail, hdone⟩ := mulCoeffs_returns (show crCounts f = 0 by omega) hcalls
    cases hls : mulCoeffs getMul f coeffs with
    | assertionFailed => exact absurd hls hfail
    | outOfFuel => exact returns_outOfFuel _ _
    | done ls =>
      obtain ⟨hlength, hlswf, hlscount, hvalues⟩ := hdone ls hls
      have hvalue := value_cr_map_mul hvalues
      have hcr : (cr ls).wellFormed := by
        rw [wellFormed_cr_iff]
        refine ⟨?_, hlswf⟩
        rintro rfl
        exact hcoeffs.1 (List.eq_nil_of_length_eq_zero hlength.symm)
      rw [Outcome.bind_done]
      split
      case h_1 =>
        refine returns_done ⟨hcr, ?_⟩ ?_
        · simp only [crCounts_append, crCounts_cons, crCounts_nil, crCount]
          omega
        · rw [hvalue, prodOf_append, prodOf_cons, prodOf_nil, mul_one]
      case h_2 =>
        refine returns_done ⟨?_, ?_⟩ ?_
        · rw [wellFormed_mul_iff, List.forall_mem_cons]
          exact ⟨by simp, hcr, fun m hm => hwf m (by simp [hm])⟩
        · simp only [crCounts_append, crCounts_cons, crCount]
          omega
        · rw [value_mul, prodOf_cons, hvalue, prodOf_append, prodOf_cons, mul_assoc]

end Recurrence

/-! ### Calls -/

section MulCalls

variable {S isCModule} {env : Var → Int} {i fuel : Nat} {m : CRNode Var} {ms : List (CRNode Var)}
variable (h : Admissible (m :: ms)) (hkeeps : KeepsTruncation S isCModule env i (m :: ms))

include h

lemma getCRMulNode_returns_ret {r : CRNode Var} (hr : mulStep S isCModule (m :: ms) = .ret r) :
    Returns env i prodOf (m :: ms) (getCRMulNode S isCModule (fuel + 1) (m :: ms)) := by
  have hstep := mulStep_correct S isCModule (List.cons_ne_nil m ms)
  rw [hr] at hstep
  obtain ⟨ls, hmerge, hls⟩ := hstep
  have hwf := hmerge.wellFormed h.wellFormed
  have hcount := hmerge.crCounts_le
  have hvalue := hmerge.prodOf_eq env i
  simp only [getCRMulNode, hr]
  rcases hls with rfl | ⟨rfl, hzero⟩
  · refine returns_done ⟨hwf r (by simp), by simpa using hcount⟩ ?_
    rw [← hvalue]
    simp
  · refine returns_done ⟨by rw [CRNode.wellFormed], by rw [crCount]; omega⟩ ?_
    rw [← hvalue, value_const, prodOf]
    exact (List.prod_eq_zero (List.mem_map.mpr ⟨_, hzero, value_const env i 0⟩)).symm

include hkeeps

lemma getCRMulNode_returns_products {front ps : List (CRNode Var)}
    (ih : ∀ ns, Admissible ns → KeepsTruncation S isCModule env i ns →
      Returns env i prodOf ns (getCRMulNode S isCModule fuel ns))
    (hr : mulStep S isCModule (m :: ms) = .products front ps) :
    Returns env i prodOf (m :: ms) (getCRMulNode S isCModule (fuel + 1) (m :: ms)) := by
  have hstep := mulStep_correct S isCModule (List.cons_ne_nil m ms)
  rw [hr] at hstep
  obtain ⟨hmerge, opnds, ps', rfl⟩ := hstep
  have hwf := hmerge.wellFormed h.wellFormed
  have hcount := hmerge.crCounts_le
  have hone := h.crCounts_le
  rw [crCounts_append] at hcount
  obtain ⟨hfail, hdone⟩ := unfoldParts_admissible mulOpnds_admissible
    (List.cons_ne_nil (mul opnds) ps') (fun n hn => hwf n (by simp [hn]))
  simp only [getCRMulNode, hr]
  cases hl : unfoldParts mulOpnds fuel (mul opnds :: ps') with
  | outOfFuel => exact returns_outOfFuel _ _
  | assertionFailed => exact absurd hl hfail
  | done l =>
    obtain ⟨hne, hlwf, hlcount⟩ := hdone l hl
    have hadm : Admissible (front ++ l) := by
      refine ⟨by simp [hne], ?_, ?_⟩
      · intro n hn
        rcases List.mem_append.mp hn with hn | hn
        · exact hwf n (by simp [hn])
        · exact hlwf n hn
      · rw [crCounts_append]
        omega
    refine (ih _ hadm fun c x d hrw => hkeeps c x d (.products hr hl hrw)).of_eq ?_ ?_
    · rw [crCounts_append]
      omega
    · rw [prodOf_append, prodOf_unfoldParts hl, ← prodOf_append, hmerge.prodOf_eq]

lemma getCRMulNode_returns_distribute {c : Int} {x y : CRNode Var}
    (ih : ∀ ns, Admissible ns → KeepsTruncation S isCModule env i ns →
      Returns env i prodOf ns (getCRMulNode S isCModule fuel ns))
    (hr : mulStep S isCModule (m :: ms) = .distribute c x y) :
    Returns env i prodOf (m :: ms) (getCRMulNode S isCModule (fuel + 1) (m :: ms)) := by
  have hmerge := mulStep_correct S isCModule (List.cons_ne_nil m ms)
  rw [hr] at hmerge
  have hsum := wellFormed_add_iff.mp (hmerge.wellFormed h.wellFormed (add [x, y]) (by simp))
  have hcount := hmerge.crCounts_le
  have hone := h.crCounts_le
  simp only [crCounts_cons, crCounts_nil, crCount] at hcount hone
  have hadm (z : CRNode Var) (hz : z.wellFormed) (hzcount : crCount z ≤ 1) :
      Admissible [const c, z] := by
    refine ⟨by simp, ?_, by simpa [crCount] using hzcount⟩
    rw [List.forall_mem_cons, List.forall_mem_singleton]
    exact ⟨by rw [CRNode.wellFormed], hz⟩
  simp only [getCRMulNode, hr]
  refine (ih [const c, x] (hadm x (hsum.2 x (by simp)) (by omega))
    fun c' x' d hrw => hkeeps c' x' d (.left hr hrw)).bind fun l _ hl hlvalue => ?_
  refine (ih [const c, y] (hadm y (hsum.2 y (by simp)) (by omega))
    fun c' x' d hrw => hkeeps c' x' d (.right hr hrw)).bind fun r _ hr hrvalue => ?_
  have hlcount := hl.crCount_le
  have hrcount := hr.crCount_le
  simp only [crCounts_cons, crCounts_nil, crCount] at hlcount hrcount
  have hlr : Admissible [l, r] := by
    refine ⟨by simp, ?_, ?_⟩
    · rw [List.forall_mem_cons, List.forall_mem_singleton]
      exact ⟨hl.wellFormed, hr.wellFormed⟩
    · simp only [crCounts_cons, crCounts_nil]
      omega
  refine (getCRAddNode_admissible S env i false fuel hlr).of_eq ?_ ?_
  · simp only [crCounts_cons, crCounts_nil]
    omega
  · rw [← hmerge.prodOf_eq env i]
    simp [hlvalue, hrvalue, mul_add]

lemma getCRMulNode_returns_rest {front ls : List (CRNode Var)}
    (ih : ∀ ns, Admissible ns → KeepsTruncation S isCModule env i ns →
      Returns env i prodOf ns (getCRMulNode S isCModule fuel ns))
    (hr : mulStep S isCModule (m :: ms) = .rest front ls) :
    Returns env i prodOf (m :: ms) (getCRMulNode S isCModule (fuel + 1) (m :: ms)) := by
  have hstep := mulStep_correct S isCModule (List.cons_ne_nil m ms)
  rw [hr] at hstep
  obtain ⟨hmerge, hne, hfront⟩ := hstep
  have hwf := hmerge.wellFormed h.wellFormed
  have hcount := hmerge.crCounts_le
  have hone := h.crCounts_le
  have hlswf : ∀ n ∈ ls, n.wellFormed := fun n hn => hwf n (by simp [hn])
  -- the calls for the coefficients, from the operands with or without the quotient
  have hrest {ks : List (CRNode Var)} (hks : Admissible ks)
      (hopnds : (cancelDiv front ls).opnds (front ++ ls) = ks)
      (hkscount : crCounts ks ≤ crCounts (m :: ms))
      (hvalue : prodOf env i ks = prodOf env i (m :: ms)) :
      Returns env i prodOf (m :: ms)
        (mulRecurrence (getCRMulNode S isCModule fuel) front.length ks) := by
    refine (mulRecurrence_returns hks ?_).of_eq hkscount hvalue
    intro f coeffs after k hsplit hk hadm
    exact ih _ hadm fun c x d hrw => hkeeps c x d (.coeff hr (hopnds ▸ hsplit) hk hrw)
  cases hcancel : cancelDiv front ls with
  | divisionByZero => exact absurd hcancel (cancelDiv_ne_divisionByZero hlswf)
  | none =>
    simp only [getCRMulNode, hr, hcancel]
    refine hrest ⟨by simp [hne], hwf, hcount.trans hone⟩ (by rw [hcancel]; rfl) hcount ?_
    exact hmerge.prodOf_eq env i
  | rewritten c x d ks =>
    obtain ⟨hksne, hkswf, hkscount⟩ := cancelDiv_admissible hcancel hlswf
    have hc : c ≠ 0 := by
      have hfc := (cancelDiv_cases hcancel).1
      rcases hfront with hnil | ⟨c', hc', hfront⟩
      · cases hnil.symm.trans hfc
      · cases hfront.symm.trans hfc
        exact hc'
    have hvalue : prodOf env i ks = prodOf env i (m :: ms) := by
      rw [← hmerge.prodOf_eq env i]
      exact cancelDiv_correct hcancel hc env i (hkeeps c x d (.here hr hcancel))
    have hreturns := hrest ⟨hksne, hkswf, hkscount.trans (hcount.trans hone)⟩ (by rw [hcancel]; rfl)
      (hkscount.trans hcount) hvalue
    rcases ks with _ | ⟨k, _ | ⟨k', ks⟩⟩ <;> simp only [getCRMulNode, hr, hcancel]
    · exact hreturns
    · refine returns_done ⟨hkswf k (by simp), ?_⟩ ?_
      · simpa using hkscount.trans hcount
      · rw [← hvalue]
        simp
    · exact hreturns

end MulCalls

lemma getCRMulNode_returns {env : Var → Int} {i : Nat} (fuel : Nat) {ns : List (CRNode Var)}
    (h : Admissible ns) (hkeeps : KeepsTruncation S isCModule env i ns) :
    Returns env i prodOf ns (getCRMulNode S isCModule fuel ns) := by
  induction fuel generalizing ns with
  | zero => exact returns_outOfFuel _ _
  | succ fuel ih =>
    cases ns with
    | nil => exact absurd rfl h.ne_nil
    | cons m ms =>
      cases hr : mulStep S isCModule (m :: ms) with
      | ret r => exact getCRMulNode_returns_ret h hr
      | products front ps => exact getCRMulNode_returns_products h hkeeps (fun _ => ih) hr
      | distribute c x y => exact getCRMulNode_returns_distribute h hkeeps (fun _ => ih) hr
      | rest front ls => exact getCRMulNode_returns_rest h hkeeps (fun _ => ih) hr

end CRNode
end Maple
