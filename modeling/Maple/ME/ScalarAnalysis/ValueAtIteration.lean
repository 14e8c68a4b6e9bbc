import Maple.ME.ScalarAnalysis.MulNode
import Mathlib.Data.Nat.Choose.Basic

/-!
# The value of a recurrence at an iteration

`ComputeValueAtIteration` sums the coefficients times binomial coefficients. Constants are `int64`
here, so that sums and products of constants wrap around.
-/

namespace Maple
namespace CRNode

variable {Var : Type} (S : TypeSort Var) (isCModule : Bool)

/-- A constant as an `int64`. -/
def asInt64 : CRNode Var → CRNode Var
  | const c => const (Int64.ofInt c).toInt
  | n => n

/-- `GetCRMulNode` of two operands. -/
def mulOfTwo (fuel : Nat) (lhs rhs : CRNode Var) : Outcome (CRNode Var) :=
  (getCRMulNode S isCModule fuel [lhs, rhs]).bind fun n => .done (asInt64 n)

/-- `GetCRAddNode` of two operands. -/
def addOfTwo (fuel : Nat) (lhs rhs : CRNode Var) : Outcome (CRNode Var) :=
  (getCRAddNode S false fuel [lhs, rhs]).bind fun n => .done (asInt64 n)

def changeNegative2MulCRNode (fuel : Nat) (n : CRNode Var) : Outcome (CRNode Var) :=
  mulOfTwo S isCModule fuel (const (-1)) n

/-- The factorial, as a `size_t`. -/
def factorialOfNum (num : Nat) : Nat :=
  (List.range' 2 (num - 1)).foldl (fun f i => f * i % 2 ^ 64) 1

/-- The loop of `GetPolynomialsValueAtITerm`, which multiplies `result` by `It - i` for the numbers
`i` of the list. -/
def fallingFactorial (fuel : Nat) (iterCRNode : CRNode Var) :
    List Nat → CRNode Var → Outcome (CRNode Var)
  | [], result => .done result
  | i :: is, result =>
    (changeNegative2MulCRNode S isCModule fuel (const i)).bind fun negative2Mul =>
      (addOfTwo S fuel iterCRNode negative2Mul).bind fun addResult =>
        (mulOfTwo S isCModule fuel result addResult).bind fun result =>
          fallingFactorial fuel iterCRNode is result

/-- `GetPolynomialsValueAtITerm`, with the check of its result: the quotient by zero is null. -/
def getPolynomialsValueAtITerm (fuel : Nat) (iterCRNode : CRNode Var) (num : Nat) :
    Outcome (CRNode Var) :=
  if num = 1 then .done iterCRNode
  else
    (fallingFactorial S isCModule fuel iterCRNode (List.range' 1 (num - 1)) iterCRNode).bind
      fun result =>
        let factorial := (Int64.ofNat (factorialOfNum num)).toInt
        if factorial = 0 then .assertionFailed
        else .done (asInt64 (getOrCreateCRDivNode result factorial))

/-- The loop of `ComputeValueAtIteration` from the coefficient `j` on. -/
def addTerms (fuel : Nat) (iterCRNode : CRNode Var) :
    Nat → List (CRNode Var) → CRNode Var → Outcome (CRNode Var)
  | _, [], result => .done result
  | j, opnd :: opnds, result =>
    (getPolynomialsValueAtITerm S isCModule fuel iterCRNode j).bind fun subResult =>
      (mulOfTwo S isCModule fuel opnd subResult).bind fun mulResult =>
        (addOfTwo S fuel result mulResult).bind fun result =>
          addTerms fuel iterCRNode (j + 1) opnds result

/-- `ComputeValueAtIteration` for the recurrence with the coefficients `opnds`. -/
def computeValueAtIteration (fuel : Nat) (i : UInt32) (opnds : List (CRNode Var)) :
    Outcome (CRNode Var) :=
  match opnds with
  | [] => .assertionFailed
  | start :: opnds => addTerms S isCModule fuel (const i.toNat) 1 opnds start

/-- The constants of `int64`. -/
def FitsInt64 (v : Int) : Prop := -2 ^ 63 ≤ v ∧ v < 2 ^ 63

instance (v : Int) : Decidable (FitsInt64 v) := inferInstanceAs (Decidable (_ ∧ _))

/-- No product on the way to the value at iteration `i` leaves `int64`. -/
structure ProductsFit (i : Nat) (coeffs : List Int64) : Prop where
  factorial : ∀ j ≤ coeffs.length, FitsInt64 j.factorial
  falling : ∀ j ≤ coeffs.length, FitsInt64 (i.descFactorial j)
  term : ∀ (j : Nat) (h : j < coeffs.length), FitsInt64 (coeffs[j].toInt * i.choose (j + 1))

/-! ### Constants -/

lemma toInt_ofInt_of_fits {v : Int} (h : FitsInt64 v) : (Int64.ofInt v).toInt = v :=
  Int64.toInt_ofInt_of_le h.1 h.2

lemma sort_pair (a b : CRNode Var) : S.sort [a, b] = [a, b] ∨ S.sort [a, b] = [b, a] := by
  have hperm := S.perm [a, b]
  have hlen := hperm.length_eq
  match hs : S.sort [a, b], hlen with
  | [x, y], _ =>
    rw [hs] at hperm
    have hmem := hperm.mem_iff.mp (List.mem_cons_self (a := x) (l := [y]))
    rcases List.mem_pair.mp hmem with rfl | rfl
    · left
      rw [List.singleton_perm.mp hperm.cons_inv]
    · right
      have hswap := hperm.trans (List.Perm.swap x a [])
      rw [List.singleton_perm.mp hswap.cons_inv]

variable {S isCModule}

lemma mulOfTwo_const (fuel : Nat) (a b : Int) :
    mulOfTwo S isCModule (fuel + 1) (const a) (const b) =
      .done (const (Int64.ofInt (a * b)).toInt) := by
  have hstep : mulStep S isCModule [const a, const b] = .ret (const (a * b)) := by
    rcases sort_pair S (const a) (const b) with hs | hs
    · simp [mulStep, hs, mergeConsts]
    · simp [mulStep, hs, mergeConsts, mul_comm b a]
  simp [mulOfTwo, getCRMulNode, hstep, asInt64]

lemma addOfTwo_const (fuel : Nat) (a b : Int) :
    addOfTwo S (fuel + 1) (const a) (const b) = .done (const (Int64.ofInt (a + b)).toInt) := by
  have hstep : addStep S [const a, const b] = .ret (const (a + b)) := by
    rcases sort_pair S (const a) (const b) with hs | hs
    · simp [addStep, hs, mergeConsts]
    · simp [addStep, hs, mergeConsts, add_comm b a]
  simp [addOfTwo, getCRAddNode, hstep, asInt64]

lemma factorialOfNum_succ (n : Nat) : factorialOfNum (n + 1) = (n + 1).factorial % 2 ^ 64 := by
  rw [factorialOfNum, Nat.add_sub_cancel]
  induction n with
  | zero => rfl
  | succ n ih =>
    rw [List.range'_concat, List.foldl_append, ih]
    simp only [List.foldl_cons, List.foldl_nil]
    rw [Nat.factorial_succ (n + 1), Nat.mod_mul_mod, mul_comm]
    ring_nf

lemma descFactorial_mul_sub (i m : Nat) :
    (i.descFactorial m : Int) * (i - m) = i.descFactorial (m + 1) := by
  rcases Nat.lt_or_ge i m with h | h
  · rw [Nat.descFactorial_eq_zero_iff_lt.mpr h, Nat.descFactorial_eq_zero_iff_lt.mpr (by omega)]
    simp
  · rw [Nat.descFactorial_succ]
    push_cast [h]
    ring

lemma fallingFactorial_const (fuel i : Nat) {n m : Nat} (hi : FitsInt64 i) (hn : FitsInt64 (m + n))
    (hfits : ∀ j ≤ m + n, FitsInt64 (i.descFactorial j)) :
    fallingFactorial S isCModule (fuel + 1) (const i) (List.range' m n)
        (const (i.descFactorial m)) =
      .done (const (i.descFactorial (m + n))) := by
  induction n generalizing m with
  | zero => simp [fallingFactorial]
  | succ n ih =>
    have hm : FitsInt64 (-m) := by
      unfold FitsInt64 at hn ⊢
      push_cast at hn
      omega
    have hsub : FitsInt64 (i - m) := by
      unfold FitsInt64 at hi hn ⊢
      push_cast at hn
      omega
    rw [List.range'_succ, fallingFactorial, changeNegative2MulCRNode, mulOfTwo_const,
      Outcome.bind_done, neg_one_mul, toInt_ofInt_of_fits hm, addOfTwo_const, Outcome.bind_done,
      ← sub_eq_add_neg, toInt_ofInt_of_fits hsub, mulOfTwo_const, Outcome.bind_done,
      descFactorial_mul_sub, toInt_ofInt_of_fits (hfits (m + 1) (by omega))]
    have hmn : m + (n + 1) = m + 1 + n := by omega
    rw [hmn] at hfits ⊢
    exact ih (by push_cast at hn ⊢; rwa [add_assoc, add_comm 1 (n : Int)]) hfits

lemma getPolynomialsValueAtITerm_const (fuel i j : Nat) (hi : FitsInt64 i)
    (hfactorial : FitsInt64 (j + 1).factorial)
    (hfits : ∀ m ≤ j + 1, FitsInt64 (i.descFactorial m)) :
    getPolynomialsValueAtITerm S isCModule (fuel + 1) (const i) (j + 1) =
      .done (const (i.choose (j + 1))) := by
  rw [getPolynomialsValueAtITerm]
  cases j with
  | zero => simp
  | succ j =>
    have hone : (const (i : Int) : CRNode Var) = const (i.descFactorial 1) := by
      rw [Nat.descFactorial_one]
    have hj : FitsInt64 ((1 : Nat) + (j + 1 : Nat)) := by
      have hle := Nat.self_le_factorial (j + 1 + 1)
      unfold FitsInt64 at hfactorial ⊢
      push_cast
      omega
    have hfall :
        (i.descFactorial (j + 1 + 1) : Int) = (j + 1 + 1).factorial * i.choose (j + 1 + 1) := by
      exact_mod_cast Nat.descFactorial_eq_factorial_mul_choose i (j + 1 + 1)
    have hpos : 0 < ((j + 1 + 1).factorial : Int) := by exact_mod_cast Nat.factorial_pos _
    have hmod : (Int64.ofNat (factorialOfNum (j + 1 + 1))).toInt = (j + 1 + 1).factorial := by
      have hlt : (j + 1 + 1).factorial < 2 ^ 64 := by
        unfold FitsInt64 at hfactorial
        omega
      rw [factorialOfNum_succ, Nat.mod_eq_of_lt hlt]
      exact toInt_ofInt_of_fits hfactorial
    have hchoose : FitsInt64 (i.choose (j + 1 + 1)) := by
      have hle : i.choose (j + 1 + 1) ≤ i.descFactorial (j + 1 + 1) := by
        rw [Nat.descFactorial_eq_factorial_mul_choose]
        exact Nat.le_mul_of_pos_left _ (Nat.factorial_pos _)
      have hlt := (hfits (j + 1 + 1) (le_refl _)).2
      unfold FitsInt64
      omega
    have hrun := @fallingFactorial_const _ S isCModule fuel i (j + 1) 1 hi hj fun m hm =>
      hfits m (by omega)
    rw [if_neg (by omega), Nat.add_sub_cancel]
    nth_rewrite 2 [hone]
    rw [hrun, Outcome.bind_done, add_comm 1 (j + 1)]
    simp only [hmod, if_neg (Int.ne_of_gt hpos), getOrCreateCRDivNode, hfall,
      Int.mul_tmod_right, if_true, Int.mul_tdiv_cancel_left _ (Int.ne_of_gt hpos), asInt64,
      toInt_ofInt_of_fits hchoose]

lemma addTerms_const (fuel i j : Nat) (result : Int) (coeffs : List Int64) (hi : FitsInt64 i)
    (hfactorial : ∀ m ≤ j + coeffs.length, FitsInt64 m.factorial)
    (hfalling : ∀ m ≤ j + coeffs.length, FitsInt64 (i.descFactorial m))
    (hterm : ∀ (m : Nat) (h : m < coeffs.length),
      FitsInt64 (coeffs[m].toInt * i.choose (j + m + 1))) :
    addTerms S isCModule (fuel + 1) (const i) (j + 1) (coeffs.map fun c => const c.toInt)
        (const (Int64.ofInt result).toInt) =
      .done (const (Int64.ofInt
        (result + newtonFrom i (j + 1) (coeffs.map Int64.toInt))).toInt) := by
  induction coeffs generalizing j result with
  | nil => simp [addTerms, newtonFrom]
  | cons c coeffs ih =>
    rw [List.length_cons] at hfactorial hfalling
    have hc : FitsInt64 (c.toInt * i.choose (j + 1)) := hterm 0 (by simp)
    rw [List.map_cons, addTerms,
      getPolynomialsValueAtITerm_const fuel i j hi (hfactorial (j + 1) (by omega))
        (fun m hm => hfalling m (by omega)),
      Outcome.bind_done, mulOfTwo_const, Outcome.bind_done, toInt_ofInt_of_fits hc, addOfTwo_const,
      Outcome.bind_done]
    have hwrap : Int64.ofInt ((Int64.ofInt result).toInt + c.toInt * i.choose (j + 1)) =
        Int64.ofInt (result + c.toInt * i.choose (j + 1)) := by
      rw [Int64.ofInt_add, Int64.ofInt_add, Int64.ofInt_toInt]
    rw [hwrap, ih (j + 1) _ (fun m hm => hfactorial m (by omega))
      (fun m hm => hfalling m (by omega))]
    · rw [List.map_cons, newtonFrom, mul_comm c.toInt, add_assoc]
    · intro m hm
      have := hterm (m + 1) (by simpa using hm)
      rwa [List.getElem_cons_succ, show j + (m + 1) + 1 = j + 1 + m + 1 by omega] at this

/-- The value at an iteration is the first number of the recurrence after as many steps. -/
theorem computeValueAtIteration_run (S : TypeSort Var) (isCModule : Bool) (start : Int64)
    (coeffs : List Int64) (i : UInt32) (h : ProductsFit i.toNat coeffs) :
    ∃ v, (recurrenceRun i.toNat (start :: coeffs)).head? = some v ∧
      Outcome.Settles
        (fun fuel => computeValueAtIteration S isCModule fuel i
          ((start :: coeffs).map fun c => const c.toInt))
        (.done (const v.toInt)) := by
  have hi : FitsInt64 i.toNat := by
    have := i.toNat_lt
    unfold FitsInt64
    omega
  have hseries : (recurrenceRun i.toNat (start :: coeffs)).head? =
      some (Int64.ofInt (newtonSeries i.toNat ((start :: coeffs).map Int64.toInt))) := by
    have hmap : start :: coeffs = ((start :: coeffs).map Int64.toInt).map Int64.ofInt := by
      rw [List.map_map, show Int64.ofInt ∘ Int64.toInt = id from funext Int64.ofInt_toInt,
        List.map_id]
    conv_lhs => rw [hmap, recurrenceRun_map Int64.ofInt_add, List.head?_map]
    rw [List.map_cons, head?_recurrenceRun, Option.map_some]
  refine ⟨_, hseries, by simp, 1, ?_⟩
  intro fuel hfuel
  obtain ⟨fuel, rfl⟩ : ∃ n, fuel = n + 1 := ⟨fuel - 1, by omega⟩
  have hrun := @addTerms_const _ S isCModule fuel i.toNat 0 start.toInt coeffs hi
    (by simpa using h.factorial) (by simpa using h.falling) (by simpa using h.term)
  rw [Int64.ofInt_toInt] at hrun
  simp only [List.map_cons, computeValueAtIteration, hrun, newtonSeries_cons]

/-- The recurrence {5, +, 3, +, 2} at iteration 4. -/
theorem computeValueAtIteration_run_twentyNine :
    ProductsFit 4 [3, 2] ∧
      ∃ v, (recurrenceRun 4 [(5 : Int64), 3, 2]).head? = some v ∧
        Outcome.Settles
          (fun fuel => computeValueAtIteration (stableSort String) false fuel 4
            ([(5 : Int64), 3, 2].map fun c => const c.toInt))
          (.done (const v.toInt)) := by
  have h : ProductsFit 4 [3, 2] := ⟨by decide, by decide, by decide⟩
  exact ⟨h, computeValueAtIteration_run (stableSort String) false 5 [3, 2] 4 h⟩

end CRNode
end Maple
