import Maple.ME.ScalarAnalysis.OneRecurrence
import Mathlib.Algebra.Order.BigOperators.Group.List
import Mathlib.Algebra.Order.Group.Unbundled.Int
import Mathlib.Tactic.LinearCombination

/-!
# Products of chains of recurrences

`GetCRMulNode` merges constants, unfolds products, distributes a constant over a sum, cancels it
against the divisor of a quotient and multiplies into the coefficients of a recurrence.
-/

namespace Maple
namespace CRNode

variable {Var : Type} (S : TypeSort Var) (isCModule : Bool)

/-- What `GetCRMulNode` finds in its operands before it looks for quotients. -/
inductive MulStep (Var : Type) where
  | ret (n : CRNode Var)
  | products (front ns : List (CRNode Var))
  | distribute (c : Int) (x y : CRNode Var)
  | rest (front ns : List (CRNode Var))

/-- The part behind the merged constants, which are `front`. -/
def mulRest (front ns : List (CRNode Var)) : MulStep Var :=
  match ns.dropWhile fun n => !n.isMul with
  | [] =>
    match front, ns with
    | [const c], [add [x, y]] => if isCModule then .distribute c x y else .rest front ns
    | _, _ => .rest front ns
  | products => .products (front ++ ns.takeWhile fun n => !n.isMul) products

/-- `GetCRMulNode` up to the first other call or the search for quotients. -/
def mulStep (ns : List (CRNode Var)) : MulStep Var :=
  match ns with
  | [n] => .ret n
  | _ =>
    match S.sort ns with
    | const c :: ns =>
      match mergeConsts (· * ·) c ns with
      | (c, []) => .ret (const c)
      | (c, ns) =>
        if c = 1 then
          match ns with
          | [n] => .ret n
          | _ => mulRest isCModule [] ns
        else if c = 0 then .ret (const 0)
        else mulRest isCModule [const c] ns
    | ns => mulRest isCModule [] ns

/-- `GetOrCreateCRDivNode` for a divisor that is a constant other than zero. -/
def getOrCreateCRDivNode (lhs : CRNode Var) (d : Int) : CRNode Var :=
  match lhs with
  | const c => if c.tmod d = 0 then const (c.tdiv d) else div (const c) (const d)
  | lhs => div lhs (const d)

/-- What happens to the product of a constant and a quotient. -/
inductive Cancellation (Var : Type) where
  | none
  | divisionByZero
  /-- The product of `c` and the quotient of `x` by `d` is computed in another way. -/
  | rewritten (c : Int) (x : CRNode Var) (d : Int) (ns : List (CRNode Var))

/-- The simplification of a constant in front of the operands and the first quotient. -/
def cancelDiv (front ns : List (CRNode Var)) : Cancellation Var :=
  match front, ns.dropWhile fun n => !n.isDiv with
  | [const c], div x (const d) :: after =>
    let others := (ns.takeWhile fun n => !n.isDiv) ++ after
    if d = 0 then .divisionByZero
    else if c = d then .rewritten c x d (others ++ [x])
    else if d < c then
      if c.tmod d = 0 then .rewritten c x d (others ++ [x, const (c.tdiv d)]) else .none
    else if d.tmod c = 0 then .rewritten c x d (others ++ [getOrCreateCRDivNode x (d.tdiv c)])
    else .none
  | _, _ => .none

/-- The products with the coefficients of a recurrence, computed by `getMul`. -/
def mulCoeffs (getMul : List (CRNode Var) → Outcome (CRNode Var)) (front : List (CRNode Var)) :
    List (CRNode Var) → Outcome (List (CRNode Var))
  | [] => .done []
  | c :: coeffs =>
    (getMul (front ++ [c])).bind fun n =>
      (mulCoeffs getMul front coeffs).bind fun ns => .done (n :: ns)

/-- The first recurrence from `index` on, with the operands before and behind it. -/
def splitRecurrence (index : Nat) (ns : List (CRNode Var)) :
    Option (List (CRNode Var) × List (CRNode Var) × List (CRNode Var)) :=
  match (ns.drop index).dropWhile fun n => !n.isCR with
  | cr coeffs :: after =>
    some (ns.take index ++ (ns.drop index).takeWhile fun n => !n.isCR, coeffs, after)
  | _ => none

/-- The end of `GetCRMulNode`. Products of two recurrences are not simplified. -/
def mulRecurrence (getMul : List (CRNode Var) → Outcome (CRNode Var)) (index : Nat)
    (ns : List (CRNode Var)) : Outcome (CRNode Var) :=
  match splitRecurrence index ns with
  | some ([], _, _) => .done (mul ns)
  | some (front, coeffs, after) =>
    (mulCoeffs getMul front coeffs).bind fun coeffs =>
      match after with
      | [] => .done (cr coeffs)
      | _ => .done (mul (cr coeffs :: after))
  | none => .done (mul ns)

/-- `GetCRMulNode`. The search for a recurrence starts behind the constant, also when it has been
cancelled. -/
def getCRMulNode : Nat → List (CRNode Var) → Outcome (CRNode Var)
  | 0, _ => .outOfFuel
  | _ + 1, [] => .assertionFailed
  | fuel + 1, ns =>
    match mulStep S isCModule ns with
    | .ret n => .done n
    | .products front ns =>
      (unfoldParts mulOpnds fuel ns).bind fun ns => getCRMulNode fuel (front ++ ns)
    | .distribute c x y =>
      (getCRMulNode fuel [const c, x]).bind fun l =>
        (getCRMulNode fuel [const c, y]).bind fun r => getCRAddNode S false fuel [l, r]
    | .rest front ns =>
      match cancelDiv front ns with
      | .divisionByZero => .assertionFailed
      | .none => mulRecurrence (getCRMulNode fuel) front.length (front ++ ns)
      | .rewritten _ _ _ [n] => .done n
      | .rewritten _ _ _ ns => mulRecurrence (getCRMulNode fuel) front.length ns

/-! ### One step -/

lemma mulOpnds_eq_some_iff {n : CRNode Var} {opnds : List (CRNode Var)} :
    mulOpnds n = some opnds ↔ n = mul opnds := by
  cases n <;> simp [mulOpnds]

/-- What a step says about its operands. -/
def MulStep.Correct (ns : List (CRNode Var)) : MulStep Var → Prop
  | .ret n => ∃ ms, Merges (· * ·) 1 ns ms ∧ (ms = [n] ∨ n = const 0 ∧ const 0 ∈ ms)
  | .products front ms => Merges (· * ·) 1 ns (front ++ ms) ∧ ∃ opnds ms', ms = mul opnds :: ms'
  | .distribute c x y => Merges (· * ·) 1 ns [const c, add [x, y]]
  | .rest front ms => Merges (· * ·) 1 ns (front ++ ms) ∧ ms ≠ [] ∧
      (front = [] ∨ ∃ c, c ≠ 0 ∧ front = [const c])

lemma mulRest_correct {ns : List (CRNode Var)} {front ms : List (CRNode Var)}
    (h : Merges (· * ·) 1 ns (front ++ ms)) (hne : ms ≠ [])
    (hfront : front = [] ∨ ∃ c, c ≠ 0 ∧ front = [const c]) :
    (mulRest isCModule front ms).Correct ns := by
  unfold mulRest
  split
  case h_1 =>
    split
    case h_1 c x y =>
      split_ifs
      · exact h
      · exact ⟨h, hne, hfront⟩
    case h_2 => exact ⟨h, hne, hfront⟩
  case h_2 hne =>
    refine ⟨?_, ?_⟩
    · rw [List.append_assoc, List.takeWhile_append_dropWhile]
      exact h
    · obtain ⟨n, after, hdrop, hn⟩ := exists_of_dropWhile_ne_nil hne
      cases n <;> simp [isMul] at hn
      exact ⟨_, _, hdrop⟩

lemma mulStep_correct {ns : List (CRNode Var)} (hne : ns ≠ []) :
    (mulStep S isCModule ns).Correct ns := by
  have hsort : Merges (· * ·) 1 ns (S.sort ns) := .perm (S.perm ns)
  have hsort_ne : S.sort ns ≠ [] := fun h => hne (List.nil_perm.mp (h ▸ S.perm ns))
  unfold mulStep
  split
  case h_1 n => exact ⟨[n], .refl _, Or.inl rfl⟩
  case h_2 =>
    split
    case h_1 c ms hms =>
      rw [hms] at hsort
      have hmerge := hsort.trans (mergeConsts_merges (· * ·) 1 c ms)
      split
      case h_1 d hd =>
        rw [hd] at hmerge
        exact ⟨[const d], hmerge, Or.inl rfl⟩
      case h_2 d ms' hms' hd =>
        rw [hd] at hmerge
        split_ifs with hone hzero
        · subst hone
          have hrest := hmerge.trans (.unit ms')
          split
          case h_1 => exact ⟨[_], hrest, Or.inl rfl⟩
          case h_2 => exact mulRest_correct isCModule hrest hms' (Or.inl rfl)
        · subst hzero
          exact ⟨_, hmerge, Or.inr ⟨rfl, List.mem_cons_self⟩⟩
        · exact mulRest_correct isCModule hmerge hms' (Or.inr ⟨d, hzero, rfl⟩)
    case h_2 => exact mulRest_correct isCModule hsort hsort_ne (Or.inl rfl)

/-! ### Cancelled divisors -/

/-- The rewriting of `c * (x / d)` keeps the truncation of the division. -/
def RewriteExact (c d x : Int) : Prop := d ∣ x ∨ c < d ∧ (x.tmod d).natAbs < (d.tdiv c).natAbs

lemma mul_tdiv_of_dvd {c d x : Int} (hd : d ≠ 0) (hc : c.tmod d = 0) (hx : d ∣ x) :
    x * c.tdiv d = c * x.tdiv d := by
  obtain ⟨k, rfl⟩ := hx
  obtain ⟨e, rfl⟩ := Int.dvd_of_tmod_eq_zero hc
  rw [Int.mul_tdiv_cancel_left k hd, Int.mul_tdiv_cancel_left e hd]
  ring

lemma tdiv_tdiv_eq_mul {c d x : Int} (hc : c ≠ 0) (hd : d ≠ 0) (hdc : d.tmod c = 0)
    (hx : (x.tmod d).natAbs < (d.tdiv c).natAbs) : x.tdiv (d.tdiv c) = c * x.tdiv d := by
  obtain ⟨e, rfl⟩ := Int.dvd_of_tmod_eq_zero hdc
  rw [Int.mul_tdiv_cancel_left e hc] at hx ⊢
  have he : e ≠ 0 := by
    rintro rfl
    simp at hd
  have hsplit := Int.tmod_add_mul_tdiv x (c * e)
  have hsplit' : x.tmod (c * e) + e * (c * x.tdiv (c * e)) = x := by
    have hmul : e * (c * x.tdiv (c * e)) = c * e * x.tdiv (c * e) := by ring
    rw [hmul, hsplit]
  rcases le_total 0 x with h | h
  · have hnonneg := Int.tmod_nonneg (c * e) h
    exact ((Int.tdiv_tmod_unique h he).mpr ⟨hsplit', hnonneg, by omega⟩).1
  · have hnonpos : x.tmod (c * e) ≤ 0 := by
      have := Int.tmod_nonneg (c * e) (show 0 ≤ -x by omega)
      rw [Int.neg_tmod] at this
      omega
    exact ((Int.tdiv_tmod_unique' h he).mpr ⟨hsplit', by omega, hnonpos⟩).1

lemma value_getOrCreateCRDivNode (x : CRNode Var) (d : Int) (env : Var → Int) (i : Nat) :
    value env i (getOrCreateCRDivNode x d) = (value env i x).tdiv d := by
  unfold getOrCreateCRDivNode
  split
  · split_ifs <;> simp
  · simp

lemma cancelDiv_correct {front ns ms : List (CRNode Var)} {c d : Int} {x : CRNode Var}
    (h : cancelDiv front ns = .rewritten c x d ms) (hc : c ≠ 0) (env : Var → Int) (i : Nat)
    (hexact : RewriteExact c d (value env i x)) :
    prodOf env i ms = prodOf env i (front ++ ns) := by
  unfold cancelDiv at h
  split at h
  case h_2 => cases h
  case h_1 c' x' d' after hdrop =>
    have hsplit := List.takeWhile_append_dropWhile (p := fun n : CRNode Var => !n.isDiv) (l := ns)
    rw [hdrop] at hsplit
    have hprod : prodOf env i ns = prodOf env i (ns.takeWhile fun n => !n.isDiv) *
        ((value env i x').tdiv d' * prodOf env i after) := by
      conv_lhs => rw [← hsplit]
      simp
    simp only at h
    split_ifs at h with hd heq hlt hmod hmod' <;> cases h
    · subst heq
      have hdvd : c ∣ value env i x := by
        rcases hexact with h | h
        · exact h
        · exact absurd h.1 (lt_irrefl c)
      have hx := Int.mul_tdiv_cancel' hdvd
      simp only [prodOf_append, prodOf_cons, prodOf_nil, value_const, hprod]
      linear_combination (-(prodOf env i (ns.takeWhile fun n => !n.isDiv) * prodOf env i after)) * hx
    · have hdvd : d ∣ value env i x := by
        rcases hexact with h | h
        · exact h
        · exact absurd h.1 (lt_asymm hlt)
      have hx := mul_tdiv_of_dvd hd hmod hdvd
      simp only [prodOf_append, prodOf_cons, prodOf_nil, value_const, hprod]
      linear_combination (prodOf env i (ns.takeWhile fun n => !n.isDiv) * prodOf env i after) * hx
    · have hsmall : ((value env i x).tmod d).natAbs < (d.tdiv c).natAbs := by
        rcases hexact with h | h
        · rw [Int.tmod_eq_zero_of_dvd h]
          obtain ⟨e, rfl⟩ := Int.dvd_of_tmod_eq_zero hmod'
          rw [Int.mul_tdiv_cancel_left e hc]
          have he : e ≠ 0 := by
            rintro rfl
            simp at hd
          omega
        · exact h.2
      have hx := tdiv_tdiv_eq_mul hc hd hmod' hsmall
      simp only [prodOf_append, prodOf_cons, prodOf_nil, value_const, hprod,
        value_getOrCreateCRDivNode, hx]
      ring

lemma cancelDiv_cases {front ns : List (CRNode Var)} {c d : Int} {x : CRNode Var}
    {ms : List (CRNode Var)} (h : cancelDiv front ns = .rewritten c x d ms) :
    front = [const c] ∧ d ≠ 0 ∧ ∃ before after n, ns = before ++ div x (const d) :: after ∧
      (ms = before ++ after ++ [x] ∨ ms = before ++ after ++ [x, const n] ∨
        n ≠ 0 ∧ ms = before ++ after ++ [getOrCreateCRDivNode x n]) := by
  unfold cancelDiv at h
  split at h
  case h_2 => cases h
  case h_1 c' x' d' after hdrop =>
    have hsplit := List.takeWhile_append_dropWhile (p := fun n : CRNode Var => !n.isDiv) (l := ns)
    rw [hdrop] at hsplit
    simp only at h
    split_ifs at h with hd heq hlt hmod hmod' <;> cases h
    · exact ⟨rfl, hd, _, after, 0, hsplit.symm, Or.inl rfl⟩
    · exact ⟨rfl, hd, _, after, _, hsplit.symm, Or.inr (Or.inl rfl)⟩
    · refine ⟨rfl, hd, _, after, _, hsplit.symm, Or.inr (Or.inr ⟨?_, rfl⟩)⟩
      intro h0
      have := Int.mul_tdiv_add_tmod d c
      rw [h0, hmod'] at this
      omega

/-! ### Products with at most one recurrence -/

lemma mulOpnds_admissible (n : CRNode Var) (opnds : List (CRNode Var)) (h : mulOpnds n = some opnds)
    (hn : n.wellFormed) :
    opnds ≠ [] ∧ (∀ m ∈ opnds, m.wellFormed) ∧ crCounts opnds = crCount n := by
  rw [mulOpnds_eq_some_iff.mp h, wellFormed_mul_iff] at hn
  exact ⟨hn.1, hn.2, by rw [mulOpnds_eq_some_iff.mp h, crCount]⟩


lemma wellFormed_getOrCreateCRDivNode {x : CRNode Var} {d : Int} (hx : x.wellFormed) (hd : d ≠ 0) :
    (getOrCreateCRDivNode x d).wellFormed ∧ crCount (getOrCreateCRDivNode x d) ≤ crCount x := by
  unfold getOrCreateCRDivNode
  split
  · split_ifs
    · simp [wellFormed, crCount]
    · simp [wellFormed, crCount, hd]
  · simp [wellFormed, crCount, hd, hx]

lemma cancelDiv_admissible {front ns ms : List (CRNode Var)} {c d : Int} {x : CRNode Var}
    (h : cancelDiv front ns = .rewritten c x d ms) (hns : ∀ n ∈ ns, n.wellFormed) :
    ms ≠ [] ∧ (∀ m ∈ ms, m.wellFormed) ∧ crCounts ms ≤ crCounts (front ++ ns) := by
  obtain ⟨-, hd, before, after, n, rfl, hms⟩ := cancelDiv_cases h
  have hdiv := hns (div x (const d)) (by simp)
  have hx : x.wellFormed := by
    simp only [wellFormed, Bool.and_eq_true] at hdiv
    exact hdiv.2
  have hothers : ∀ m ∈ before ++ after, m.wellFormed := by
    intro m hm
    rcases List.mem_append.mp hm with hm | hm
    · exact hns m (by simp [hm])
    · exact hns m (by simp [hm])
  have hcount : crCounts (front ++ (before ++ div x (const d) :: after)) =
      crCounts front + (crCounts (before ++ after) + crCount x) := by
    simp only [crCounts_append, crCounts_cons, crCount]
    omega
  rw [hcount]
  rcases hms with rfl | rfl | ⟨hn, rfl⟩
  · refine ⟨by simp, ?_, ?_⟩
    · intro m hm
      rcases List.mem_append.mp hm with hm | hm
      · exact hothers m hm
      · rw [List.mem_singleton.mp hm]
        exact hx
    · rw [crCounts_append, crCounts_cons, crCounts_nil]
      omega
  · refine ⟨by simp, ?_, ?_⟩
    · intro m hm
      rcases List.mem_append.mp hm with hm | hm
      · exact hothers m hm
      · simp only [List.mem_cons, List.not_mem_nil, or_false] at hm
        rcases hm with rfl | rfl
        · exact hx
        · rw [wellFormed]
    · rw [crCounts_append, crCounts_cons, crCounts_cons, crCounts_nil, crCount]
      omega
  · obtain ⟨hwf, hle⟩ := wellFormed_getOrCreateCRDivNode hx hn
    refine ⟨by simp, ?_, ?_⟩
    · intro m hm
      rcases List.mem_append.mp hm with hm | hm
      · exact hothers m hm
      · rw [List.mem_singleton.mp hm]
        exact hwf
    · rw [crCounts_append, crCounts_cons, crCounts_nil]
      omega

lemma splitRecurrence_eq {index : Nat} {ns front coeffs after : List (CRNode Var)}
    (h : splitRecurrence index ns = some (front, coeffs, after)) :
    ns = front ++ cr coeffs :: after := by
  unfold splitRecurrence at h
  split at h
  case h_2 => cases h
  case h_1 coeffs' after' hdrop =>
    cases h
    have hsplit := List.takeWhile_append_dropWhile (p := fun n : CRNode Var => !n.isCR)
      (l := ns.drop index)
    rw [hdrop] at hsplit
    rw [List.append_assoc, hsplit, List.take_append_drop]

/-! ### Termination -/

mutual

/-- The number of nodes. -/
def size : CRNode Var → Nat
  | const _ => 1
  | var _ => 1
  | add opnds => 1 + sizes opnds
  | mul opnds => 1 + sizes opnds
  | div lhs rhs => 1 + size lhs + size rhs
  | cr opnds => 1 + sizes opnds

def sizes : List (CRNode Var) → Nat
  | [] => 0
  | n :: ns => size n + sizes ns

end

lemma sizes_eq_sum (ns : List (CRNode Var)) : sizes ns = (ns.map size).sum := by
  induction ns with
  | nil => rw [sizes, List.map_nil, List.sum_nil]
  | cons n ns ih => rw [sizes, ih, List.map_cons, List.sum_cons]

@[simp] lemma sizes_nil : sizes ([] : List (CRNode Var)) = 0 := by simp [sizes_eq_sum]

@[simp] lemma sizes_cons (n : CRNode Var) (ns : List (CRNode Var)) :
    sizes (n :: ns) = size n + sizes ns := by simp [sizes_eq_sum]

@[simp] lemma sizes_append (ns ms : List (CRNode Var)) :
    sizes (ns ++ ms) = sizes ns + sizes ms := by simp [sizes_eq_sum]

lemma Merges.sizes_le {op : Int → Int → Int} {unit : Int} {ns ms : List (CRNode Var)}
    (h : Merges op unit ns ms) : sizes ms ≤ sizes ns := by
  rw [sizes_eq_sum, sizes_eq_sum]
  exact h.sum_map_le fun c => by rw [size]

lemma size_le_sizes {n : CRNode Var} {ns : List (CRNode Var)} (h : n ∈ ns) : size n ≤ sizes ns := by
  rw [sizes_eq_sum]
  exact List.single_le_sum (by simp) _ (List.mem_map_of_mem h)

lemma size_getOrCreateCRDivNode_le (x : CRNode Var) (d : Int) :
    size (getOrCreateCRDivNode x d) ≤ size x + 2 := by
  unfold getOrCreateCRDivNode
  split
  · split_ifs <;> simp [size]
  · simp only [size]
    omega

lemma cancelDiv_sizes_le {front ns ms : List (CRNode Var)} {c d : Int} {x : CRNode Var}
    (h : cancelDiv front ns = .rewritten c x d ms) : sizes ms ≤ sizes (front ++ ns) := by
  obtain ⟨-, -, before, after, n, rfl, hms⟩ := cancelDiv_cases h
  rcases hms with rfl | rfl | ⟨-, rfl⟩
  · simp only [sizes_append, sizes_cons, sizes_nil, size]
    omega
  · simp only [sizes_append, sizes_cons, sizes_nil, size]
    omega
  · have := size_getOrCreateCRDivNode_le x n
    simp only [sizes_append, sizes_cons, sizes_nil, size]
    omega

section MulTerminates

variable {run : Nat → List (CRNode Var) → Outcome (CRNode Var)}

lemma mulCoeffs_terminates {front coeffs : List (CRNode Var)}
    (hrun : ∀ k ∈ coeffs, Outcome.Terminates (run · (front ++ [k]))) :
    Outcome.Terminates fun fuel => mulCoeffs (run fuel) front coeffs := by
  induction coeffs with
  | nil => exact Outcome.terminates_const (by simp)
  | cons k coeffs ih =>
    rw [List.forall_mem_cons] at hrun
    refine hrun.1.bind (f := fun n fuel =>
      (mulCoeffs (run fuel) front coeffs).bind fun ns => .done (n :: ns)) fun n _ => ?_
    exact (ih hrun.2).bind (f := fun ns _ => .done (n :: ns)) fun ns _ =>
      Outcome.terminates_const (by simp)

lemma mulRecurrence_terminates {ns : List (CRNode Var)}
    (hrun : ∀ ms, sizes ms < sizes ns → Outcome.Terminates (run · ms)) (index : Nat) :
    Outcome.Terminates fun fuel => mulRecurrence (run fuel) index ns := by
  unfold mulRecurrence
  split
  case h_1 => exact Outcome.terminates_const (by simp)
  case h_2 front coeffs after _ hsplit =>
    have hns := splitRecurrence_eq hsplit
    have hcoeffs : Outcome.Terminates fun fuel => mulCoeffs (run fuel) front coeffs := by
      refine mulCoeffs_terminates fun k hk => hrun _ ?_
      have := size_le_sizes hk
      simp only [hns, sizes_append, sizes_cons, sizes_nil, size]
      omega
    exact hcoeffs.bind (f := fun coeffs _ => match after with
      | [] => .done (cr coeffs)
      | _ => .done (mul (cr coeffs :: after))) fun coeffs _ => by
        cases after <;> exact Outcome.terminates_const (by simp)
  case h_3 => exact Outcome.terminates_const (by simp)

end MulTerminates

lemma getCRMulNode_terminates (ns : List (CRNode Var)) :
    Outcome.Terminates (getCRMulNode S isCModule · ns) := by
  induction hk : sizes ns using Nat.strong_induction_on generalizing ns with
  | _ k ih =>
  subst hk
  have hrun (bound : Nat) (hbound : bound ≤ sizes ns) (ms : List (CRNode Var))
      (hms : sizes ms < bound) : Outcome.Terminates (getCRMulNode S isCModule · ms) :=
    ih _ (by omega) ms rfl
  apply Outcome.Terminates.of_succ
  cases ns with
  | nil => exact Outcome.terminates_const (by simp)
  | cons m ms =>
    have hstep := mulStep_correct S isCModule (List.cons_ne_nil m ms)
    cases hr : mulStep S isCModule (m :: ms) with
    | ret n =>
      simp only [getCRMulNode, hr]
      exact Outcome.terminates_const (by simp)
    | products front ps =>
      rw [hr] at hstep
      simp only [getCRMulNode, hr]
      obtain ⟨hmerge, opnds, ps', rfl⟩ := hstep
      have hle := hmerge.sizes_le
      obtain ⟨o, ho, hsizes⟩ := unfoldParts_settles mulOpnds size (by
        intro n opnds hn
        rw [mulOpnds_eq_some_iff.mp hn, size, sizes_eq_sum]
        omega) (mul opnds :: ps')
      refine Outcome.Terminates.bind ⟨o, ho⟩
        (f := fun ls fuel => getCRMulNode S isCModule fuel (front ++ ls)) fun ls hls => ?_
      have hlt := (hsizes ls (ho.unique hls)).2 _ _ rfl (by simp [mulOpnds])
      rw [← sizes_eq_sum, ← sizes_eq_sum] at hlt
      rw [sizes_append] at hle
      exact ih _ (by rw [sizes_append]; omega) (front ++ ls) rfl
    | distribute c x y =>
      rw [hr] at hstep
      simp only [getCRMulNode, hr]
      have hle := Merges.sizes_le hstep
      simp only [sizes_cons, sizes_nil, size] at hle
      have hx := ih _ (by simp only [sizes_cons, sizes_nil, size] at hle ⊢; omega) [const c, x] rfl
      have hy := ih _ (by simp only [sizes_cons, sizes_nil, size] at hle ⊢; omega) [const c, y] rfl
      refine hx.bind (f := fun l fuel => (getCRMulNode S isCModule fuel [const c, y]).bind fun r =>
        getCRAddNode S false fuel [l, r]) fun l _ => ?_
      refine hy.bind (f := fun r fuel => getCRAddNode S false fuel [l, r]) fun r _ => ?_
      obtain ⟨o, ho, -⟩ := getCRAddNode_settles S false [l, r]
      exact ⟨o, ho⟩
    | rest front ls =>
      rw [hr] at hstep
      have hle := hstep.1.sizes_le
      cases hcancel : cancelDiv front ls with
      | divisionByZero =>
        simp only [getCRMulNode, hr, hcancel]
        exact Outcome.terminates_const (by simp)
      | none =>
        simp only [getCRMulNode, hr, hcancel]
        exact mulRecurrence_terminates (hrun _ hle) front.length
      | rewritten c x d ks =>
        have hks := cancelDiv_sizes_le hcancel
        have hrest := mulRecurrence_terminates (hrun _ (hks.trans hle)) front.length
        rcases ks with _ | ⟨k, _ | ⟨k', ks⟩⟩ <;> simp only [getCRMulNode, hr, hcancel]
        · exact hrest
        · exact Outcome.terminates_const (by simp)
        · exact hrest

end CRNode
end Maple
