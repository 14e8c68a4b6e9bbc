import Maple.ME.LfoDepTest.Subscript
import Mathlib.Data.Int.GCD

/-!
# The dependence test for the array accesses of a loop

`CreateDepTestLists` pairs the accesses to one array, `TestDependences` compares their subscripts,
and `Parallelizable` asks for pairs that are dependent in different iterations.
-/

namespace Maple
namespace LfoDepTest

/-- `ArrayAccessDesc`. The base is the first operand of `theArray`. -/
structure ArrayAccessDesc where
  base : BaseNode
  arrayOstIdxSet : Option (List Nat)
  subscriptVec : List SubscriptDesc

structure DepTestPair where
  first : Nat
  second : Nat
  dependent : Bool := false
  unknownDist : Bool := false
  depDist : Int64 := 0

/-- `DoloopInfo`, as far as the test uses it. -/
structure DoloopInfo where
  lhsArrays : List ArrayAccessDesc
  rhsArrays : List ArrayAccessDesc
  hasOtherCtrlFlow : Bool := false
  hasPtrAccess : Bool := false
  hasScalarAssign : Bool := false
  hasMayDef : Bool := false
  outputDepTestList : List DepTestPair := []
  flowDepTestList : List DepTestPair := []

def arrayOstIdxSetIntersect (set1 set2 : List Nat) : Bool :=
  set1.any fun oidx1 => set2.any fun oidx2 => oidx1 == oidx2

/-- The accesses may be to the same array. -/
def ArrayAccessDesc.mayAlias (arr1 arr2 : ArrayAccessDesc) : Bool :=
  match arr1.arrayOstIdxSet, arr2.arrayOstIdxSet with
  | some set1, some set2 => arrayOstIdxSetIntersect set1 set2
  | none, none => arr1.base.getMexpr == arr2.base.getMexpr
  | _, _ => false

/-- The pair of the accesses `i` and `j`, if they may be to the same array. -/
def depTestPair (arrs1 arrs2 : List ArrayAccessDesc) (i j : Nat) : Option DepTestPair :=
  match arrs1[i]?, arrs2[j]? with
  | some arr1, some arr2 => if arr1.mayAlias arr2 then some { first := i, second := j } else none
  | _, _ => none

def DoloopInfo.createDepTestLists (info : DoloopInfo) : DoloopInfo :=
  { info with
    outputDepTestList := info.outputDepTestList ++
      (List.range info.lhsArrays.length).flatMap fun i =>
        (List.range' (i + 1) (info.lhsArrays.length - (i + 1))).filterMap fun j =>
          depTestPair info.lhsArrays info.lhsArrays i j
    flowDepTestList := info.flowDepTestList ++
      (List.range info.lhsArrays.length).flatMap fun i =>
        (List.range info.rhsArrays.length).filterMap fun j =>
          depTestPair info.lhsArrays info.rhsArrays i j }

/-- `Gcd`, which checks its arguments. -/
def gcd (a b : Int) : Option Int :=
  if 0 < a ∧ 0 ≤ b then
    if b = 0 then some a else gcd b (a.tmod b)
  else none
termination_by b.natAbs
decreasing_by
  rw [Int.natAbs_tmod]
  exact Nat.mod_lt _ (by omega)

/-- The loop invariants added to two subscripts are there on both sides and have the same content,
or on none. -/
def sameAdditiveLoopInvar (subs1 subs2 : SubscriptDesc) : Bool :=
  match subs1.additiveLoopInvar, subs2.additiveLoopInvar with
  | none, none => true
  | some n1, some n2 => n1.isSameContent n2
  | _, _ => false

def DepTestPair.setUnknownDist (testPair : DepTestPair) : DepTestPair :=
  { testPair with dependent := true, unknownDist := true }

/-- The loop over the dimensions in `TestDependences`. There is no result for a division by zero
and a failed check. -/
def testSubscripts (testPair : DepTestPair) :
    List (SubscriptDesc × SubscriptDesc) → Option DepTestPair
  | [] => some testPair
  | (subs1, subs2) :: rest =>
    if subs1.tooMessy || subs2.tooMessy then some testPair.setUnknownDist
    else if subs1.loopInvariant || subs2.loopInvariant then
      if subs1.subscriptX = subs2.subscriptX then testSubscripts testPair rest
      else some testPair.setUnknownDist
    else if !sameAdditiveLoopInvar subs1 subs2 then some testPair.setUnknownDist
    else if subs1.coeff = subs2.coeff then
      if subs1.coeff = 0 then none
      else if (subs1.additiveConst - subs2.additiveConst) % subs1.coeff ≠ 0 then
        testSubscripts testPair rest
      else
        let dist := (subs1.additiveConst - subs2.additiveConst) / subs1.coeff
        testSubscripts { testPair with
          dependent := true
          depDist := if dist ≠ 0 then dist else testPair.depDist } rest
    else
      match gcd subs1.coeff.toInt subs2.coeff.toInt with
      | none => none
      | some g =>
        if (subs1.additiveConst - subs2.additiveConst).toInt.tmod g = 0 then
          some testPair.setUnknownDist
        else testSubscripts testPair rest

/-- One pair in `TestDependences`. -/
def testDependence (arr1 arr2 : ArrayAccessDesc) (testPair : DepTestPair) : Option DepTestPair :=
  if arr1.subscriptVec.length ≠ arr2.subscriptVec.length then some testPair.setUnknownDist
  else testSubscripts testPair (arr1.subscriptVec.zip arr2.subscriptVec)

def testDependences (arrs1 arrs2 : List ArrayAccessDesc) (pairs : List DepTestPair) :
    Option (List DepTestPair) :=
  pairs.mapM fun testPair =>
    match arrs1[testPair.first]?, arrs2[testPair.second]? with
    | some arr1, some arr2 => testDependence arr1 arr2 testPair
    | _, _ => none

/-- The test of one loop in `PerformDepTest`. -/
def DoloopInfo.performDepTest (info : DoloopInfo) : Option DoloopInfo :=
  let info := info.createDepTestLists
  (testDependences info.lhsArrays info.lhsArrays info.outputDepTestList).bind fun output =>
    (testDependences info.lhsArrays info.rhsArrays info.flowDepTestList).bind fun flow =>
      some { info with outputDepTestList := output, flowDepTestList := flow }

/-- Dependent in different iterations. -/
def DepTestPair.preventsParallel (testPair : DepTestPair) : Bool :=
  testPair.dependent && (testPair.unknownDist || testPair.depDist != 0)

def DoloopInfo.parallelizable (info : DoloopInfo) : Bool :=
  !(info.hasPtrAccess || info.hasOtherCtrlFlow || info.hasScalarAssign || info.hasMayDef) &&
    info.outputDepTestList.all (fun testPair => !testPair.preventsParallel) &&
    info.flowDepTestList.all (fun testPair => !testPair.preventsParallel)

/-! ### Accesses -/

/-- An array access of the loop body: the base, the symbols it may be to, and the subscripts. -/
structure ArrayAccess where
  base : MeExpr
  arrayOstIdxSet : Option (List Nat)
  subscripts : List MeExpr

/-- The description that `BuildOneArrayAccessDesc` makes. -/
def ArrayAccess.desc (loop : Doloop) (arr : ArrayAccess) : ArrayAccessDesc where
  base := emitPreMeExpr arr.base
  arrayOstIdxSet := arr.arrayOstIdxSet
  subscriptVec := arr.subscripts.map fun e => buildOneSubscriptDesc loop (emitPreMeExpr e)

/-- The iterations `i₁` and `i₂` of two accesses to one array address the same element. -/
def SameElement (loop : Doloop) (A : Assignment) (i₁ i₂ : Int) (arr1 arr2 : ArrayAccess) : Prop :=
  arr1.subscripts.map (value loop A i₁) = arr2.subscripts.map (value loop A i₂)

/-- Different iterations address the same element for some values of the invariants. -/
def Collide (loop : Doloop) (arr1 arr2 : ArrayAccess) : Prop :=
  ∃ A i₁ i₂, i₁ ≠ i₂ ∧ SameElement loop A i₁ i₂ arr1 arr2

/-- The pair is marked for the iterations `i₁` and `i₂`. -/
def DepTestPair.Marks (testPair : DepTestPair) (i₁ i₂ : Int) : Prop :=
  testPair.dependent ∧ (testPair.unknownDist ∨ testPair.depDist.toInt = i₂ - i₁)

/-- The pair is marked for all different iterations that address the same element. -/
def Conservative (loop : Doloop) (arr1 arr2 : ArrayAccess) (testPair : DepTestPair) : Prop :=
  ∀ A i₁ i₂, i₁ ≠ i₂ → SameElement loop A i₁ i₂ arr1 arr2 → testPair.Marks i₁ i₂

/-! ### One dimension -/

lemma gcd_eq {a b : Int} (ha : 0 < a) (hb : 0 ≤ b) : gcd a b = some (Int.gcd a b : Int) := by
  induction hk : b.natAbs using Nat.strong_induction_on generalizing a b with
  | _ k ih =>
  subst hk
  rw [gcd, if_pos ⟨ha, hb⟩]
  split_ifs with h
  · subst h
    rw [Int.gcd_zero_right, Int.natCast_natAbs, abs_of_pos ha]
  · have hpos : 0 < b := by omega
    have hlt : (a.tmod b).natAbs < b.natAbs := by
      rw [Int.natAbs_tmod]
      exact Nat.mod_lt _ (by omega)
    rw [ih _ hlt hpos (Int.tmod_nonneg b (le_of_lt ha)) rfl]
    congr 2
    rw [Int.gcd_def, Int.gcd_def, Int.natAbs_tmod, Nat.gcd_comm a.natAbs, Nat.gcd_comm b.natAbs]
    exact (Nat.gcd_rec b.natAbs a.natAbs).symm

/-- The coefficient of the loop variable is positive. -/
def PositiveCoeff (loop : Doloop) (e : MeExpr) : Prop :=
  let d := buildOneSubscriptDesc loop (emitPreMeExpr e)
  d.tooMessy = false → d.loopInvariant = false → 1 ≤ d.coeff.toInt

/-- The test computes with the exact numbers: the difference of the additive constants does not
overflow, and constants in additive invariants of the same content have the same value. -/
structure ExactDim (loop : Doloop) (e₁ e₂ : MeExpr) : Prop where
  negates₁ : NegatesExactly e₁
  negates₂ : NegatesExactly e₂
  le_sub : -2 ^ 63 ≤ (buildOneSubscriptDesc loop (emitPreMeExpr e₁)).additiveConst.toInt -
    (buildOneSubscriptDesc loop (emitPreMeExpr e₂)).additiveConst.toInt
  sub_lt : (buildOneSubscriptDesc loop (emitPreMeExpr e₁)).additiveConst.toInt -
    (buildOneSubscriptDesc loop (emitPreMeExpr e₂)).additiveConst.toInt < 2 ^ 63
  content : ∀ n₁ n₂, (buildOneSubscriptDesc loop (emitPreMeExpr e₁)).additiveLoopInvar = some n₁ →
    (buildOneSubscriptDesc loop (emitPreMeExpr e₂)).additiveLoopInvar = some n₂ →
    n₁.isSameContent n₂ → n₁.isSameContentBy MIRConst.isSameValue n₂

lemma constValue_of_isSameValue {A : Assignment} {c d : MIRConst} (h : c.isSameValue d) :
    A.constValue c = A.constValue d := by
  cases c <;> cases d <;> simp_all [MIRConst.isSameValue, Assignment.constValue]

section Dim

variable {loop : Doloop} {e₁ e₂ : MeExpr} {d₁ d₂ : SubscriptDesc}
variable (hd₁ : buildOneSubscriptDesc loop (emitPreMeExpr e₁) = d₁)
variable (hd₂ : buildOneSubscriptDesc loop (emitPreMeExpr e₂) = d₂)
variable (hexact : ExactDim loop e₁ e₂)
variable (hmessy : (d₁.tooMessy || d₂.tooMessy) = false)
variable (hinvar : (d₁.loopInvariant || d₂.loopInvariant) = false)
variable (hsame : sameAdditiveLoopInvar d₁ d₂ = true)
variable {A : Assignment} {i₁ i₂ : Int}

include hd₁ hd₂ hexact hmessy hinvar hsame

lemma coeff_mul_eq (h : value loop A i₁ e₁ = value loop A i₂ e₂) :
    (d₁.additiveConst - d₂.additiveConst).toInt = d₂.coeff.toInt * i₂ - d₁.coeff.toInt * i₁ := by
  rw [Bool.or_eq_false_iff] at hmessy hinvar
  obtain ⟨x₁, hx₁, hinv₁, hvalue₁⟩ :=
    buildOneSubscriptDesc_value hd₁ hmessy.1 hinvar.1 hexact.negates₁
  obtain ⟨x₂, hx₂, hinv₂, hvalue₂⟩ :=
    buildOneSubscriptDesc_value hd₂ hmessy.2 hinvar.2 hexact.negates₂
  have hx : invarValue loop A i₁ x₁ = invarValue loop A i₂ x₂ := by
    unfold sameAdditiveLoopInvar at hsame
    cases x₁ with
    | none =>
      cases x₂ with
      | none => rfl
      | some y₂ => simp [hx₁, hx₂] at hsame
    | some y₁ =>
      cases x₂ with
      | none => simp [hx₁, hx₂] at hsame
      | some y₂ =>
        simp only [hx₁, hx₂, Option.map_some] at hsame
        have hcontent := hexact.content (emitPreMeExpr y₁) (emitPreMeExpr y₂)
          (by rw [hd₁, hx₁, Option.map_some]) (by rw [hd₂, hx₂, Option.map_some]) hsame
        exact value_of_isSameContentBy (fun c d => constValue_of_isSameValue) hcontent
          (hinv₁ y₁ rfl) (hinv₂ y₂ rfl) i₁ i₂
  have hle := hexact.le_sub
  have hlt := hexact.sub_lt
  rw [hd₁, hd₂] at hle hlt
  rw [hvalue₁, hvalue₂, hx] at h
  rw [Int64.toInt_sub_eq hle hlt]
  linarith

lemma lamport_dist (h : value loop A i₁ e₁ = value loop A i₂ e₂) (hpos : 1 ≤ d₁.coeff.toInt)
    (hcoeff : d₁.coeff = d₂.coeff) :
    (d₁.additiveConst - d₂.additiveConst) % d₁.coeff = 0 ∧
    ((d₁.additiveConst - d₂.additiveConst) / d₁.coeff).toInt = i₂ - i₁ := by
  have hdiff := coeff_mul_eq hd₁ hd₂ hexact hmessy hinvar hsame h
  have hmul : (d₁.additiveConst - d₂.additiveConst).toInt = d₁.coeff.toInt * (i₂ - i₁) := by
    rw [hdiff, ← hcoeff]
    ring
  refine ⟨?_, ?_⟩
  · rw [← Int64.toInt_inj, Int64.toInt_mod, hmul, Int.mul_tmod_right]
    rfl
  · have hne : d₁.coeff.toInt ≠ 0 := by omega
    have hle := (d₁.additiveConst - d₂.additiveConst).le_toInt
    have hlt := (d₁.additiveConst - d₂.additiveConst).toInt_lt
    have habs : (i₂ - i₁).natAbs ≤ (d₁.additiveConst - d₂.additiveConst).toInt.natAbs := by
      rw [hmul, Int.natAbs_mul]
      exact Nat.le_mul_of_pos_left _ (by omega)
    have hmin : (i₂ - i₁) ≠ 2 ^ 63 := by
      intro heq
      rw [hmul, heq] at hlt
      nlinarith
    rw [Int64.toInt_div, hmul, Int.mul_tdiv_cancel_left _ hne, Int.bmod_eq_of_le] <;> omega

lemma gcd_test (h : value loop A i₁ e₁ = value loop A i₂ e₂) :
    (d₁.additiveConst - d₂.additiveConst).toInt.tmod
      (Int.gcd d₁.coeff.toInt d₂.coeff.toInt : Int) = 0 := by
  rw [coeff_mul_eq hd₁ hd₂ hexact hmessy hinvar hsame h]
  apply Int.tmod_eq_zero_of_dvd
  apply Int.dvd_sub
  · exact Dvd.dvd.mul_right (Int.gcd_dvd_right _ _) i₂
  · exact Dvd.dvd.mul_right (Int.gcd_dvd_left _ _) i₁

end Dim

/-! ### All dimensions -/

/-- The accesses have the same subscripts, none of which changes in the loop. -/
def SameInvariants (loop : Doloop) (arr1 arr2 : ArrayAccess) : Prop :=
  arr1.subscripts = arr2.subscripts ∧ ∀ e ∈ arr1.subscripts, loop.isLoopInvariant e

/-- The test computes with exact numbers in all dimensions with two subscripts that depend on the
loop variable. -/
def ExactDims (loop : Doloop) (es₁ es₂ : List MeExpr) : Prop :=
  ∀ e ∈ es₁.zip es₂,
    let d₁ := buildOneSubscriptDesc loop (emitPreMeExpr e.1)
    let d₂ := buildOneSubscriptDesc loop (emitPreMeExpr e.2)
    (d₁.tooMessy || d₂.tooMessy) = false → (d₁.loopInvariant || d₂.loopInvariant) = false →
      ExactDim loop e.1 e.2

lemma DepTestPair.marks_setUnknownDist (testPair : DepTestPair) (i₁ i₂ : Int) :
    testPair.setUnknownDist.Marks i₁ i₂ := ⟨rfl, Or.inl rfl⟩

section Dims

variable {loop : Doloop}

/-- The descriptions of the subscripts, dimension by dimension. -/
def dims (loop : Doloop) (es₁ es₂ : List MeExpr) : List (SubscriptDesc × SubscriptDesc) :=
  (es₁.map fun e => buildOneSubscriptDesc loop (emitPreMeExpr e)).zip
    (es₂.map fun e => buildOneSubscriptDesc loop (emitPreMeExpr e))

lemma testSubscripts_isSome {es₁ es₂ : List MeExpr} (hpos₁ : ∀ e ∈ es₁, PositiveCoeff loop e)
    (hpos₂ : ∀ e ∈ es₂, PositiveCoeff loop e) (testPair : DepTestPair) :
    ∃ p, testSubscripts testPair (dims loop es₁ es₂) = some p ∧
      p.first = testPair.first ∧ p.second = testPair.second := by
  induction es₁ generalizing es₂ testPair with
  | nil => exact ⟨testPair, rfl, rfl, rfl⟩
  | cons e₁ es₁ ih =>
    cases es₂ with
    | nil => exact ⟨testPair, rfl, rfl, rfl⟩
    | cons e₂ es₂ =>
      rw [List.forall_mem_cons] at hpos₁ hpos₂
      simp only [PositiveCoeff] at hpos₁ hpos₂
      have hrest := ih hpos₁.2 hpos₂.2
      simp only [dims, List.map_cons, List.zip_cons_cons, testSubscripts]
      split_ifs with hmessy hinvar hx hsame hcoeff hzero hmod
      · exact ⟨_, rfl, rfl, rfl⟩
      · exact hrest testPair
      · exact ⟨_, rfl, rfl, rfl⟩
      · exact ⟨_, rfl, rfl, rfl⟩
      · rw [Bool.not_eq_true, Bool.or_eq_false_iff] at hmessy hinvar
        have hpos := hpos₁.1 hmessy.1 hinvar.1
        rw [hzero] at hpos
        exact absurd hpos (by decide)
      · exact hrest testPair
      · exact hrest _
      · exact hrest _
      · rw [Bool.not_eq_true, Bool.or_eq_false_iff] at hmessy hinvar
        have hc₁ := hpos₁.1 hmessy.1 hinvar.1
        have hc₂ := hpos₂.1 hmessy.2 hinvar.2
        rw [gcd_eq (by omega) (by omega)]
        simp only
        split_ifs
        · exact ⟨_, rfl, rfl, rfl⟩
        · exact hrest testPair

lemma testSubscripts_marks {es₁ es₂ : List MeExpr} {A : Assignment} {i₁ i₂ : Int} (hne : i₁ ≠ i₂)
    (hpos₁ : ∀ e ∈ es₁, PositiveCoeff loop e) (hpos₂ : ∀ e ∈ es₂, PositiveCoeff loop e)
    (hexact : ExactDims loop es₁ es₂)
    (hvalue : es₁.map (value loop A i₁) = es₂.map (value loop A i₂)) {testPair p : DepTestPair}
    (h : testPair.Marks i₁ i₂ ∨ ¬ (es₁ = es₂ ∧ ∀ e ∈ es₁, loop.isLoopInvariant e))
    (hp : testSubscripts testPair (dims loop es₁ es₂) = some p) : p.Marks i₁ i₂ := by
  induction es₁ generalizing es₂ testPair with
  | nil =>
    cases es₂ with
    | cons => cases hvalue
    | nil =>
      cases hp
      exact h.resolve_right fun hnot => hnot ⟨rfl, by simp⟩
  | cons e₁ es₁ ih =>
    cases es₂ with
    | nil => cases hvalue
    | cons e₂ es₂ =>
      rw [List.map_cons, List.map_cons, List.cons.injEq] at hvalue
      have hdim := hexact (e₁, e₂) (by simp)
      rw [List.forall_mem_cons] at hpos₁ hpos₂
      have hrest {testPair : DepTestPair} := @ih es₂ hpos₁.2 hpos₂.2
        (fun e he => hexact e (List.mem_cons_of_mem _ he)) hvalue.2 testPair
      simp only [PositiveCoeff] at hpos₁ hpos₂
      obtain ⟨hx₁, hinv₁⟩ := @buildOneSubscriptDesc_loopInvariant loop e₁
      obtain ⟨hx₂, hinv₂⟩ := @buildOneSubscriptDesc_loopInvariant loop e₂
      simp only [dims, List.map_cons, List.zip_cons_cons, testSubscripts] at hp
      generalize hd₁ : buildOneSubscriptDesc loop (emitPreMeExpr e₁) = d₁ at *
      generalize hd₂ : buildOneSubscriptDesc loop (emitPreMeExpr e₂) = d₂ at *
      have hunknown : p = testPair.setUnknownDist → p.Marks i₁ i₂ := by
        rintro rfl
        exact testPair.marks_setUnknownDist i₁ i₂
      by_cases hmessy : (d₁.tooMessy || d₂.tooMessy) = true
      · rw [if_pos hmessy] at hp
        exact hunknown (Option.some.inj hp).symm
      rw [if_neg hmessy] at hp
      by_cases hinvar : (d₁.loopInvariant || d₂.loopInvariant) = true
      · rw [if_pos hinvar] at hp
        by_cases hx : d₁.subscriptX = d₂.subscriptX
        · -- the dimension is skipped
          rw [if_pos hx] at hp
          refine hrest ?_ hp
          rw [hx₁, hx₂, Option.some.injEq] at hx
          subst hx
          rw [← hd₁.symm.trans hd₂, Bool.or_self, hinv₁] at hinvar
          refine h.imp_right fun hnot hall => hnot ⟨by rw [hall.1], ?_⟩
          rw [List.forall_mem_cons]
          exact ⟨hinvar, hall.2⟩
        · rw [if_neg hx] at hp
          exact hunknown (Option.some.inj hp).symm
      rw [if_neg hinvar] at hp
      by_cases hsame : sameAdditiveLoopInvar d₁ d₂ = true
      swap
      · rw [if_pos (by simpa using hsame)] at hp
        exact hunknown (Option.some.inj hp).symm
      rw [if_neg (by simpa using hsame)] at hp
      -- both subscripts depend on the loop variable
      rw [Bool.not_eq_true] at hmessy hinvar
      have hexact' := hdim hmessy hinvar
      have hmessy' := Bool.or_eq_false_iff.mp hmessy
      have hinvar' := Bool.or_eq_false_iff.mp hinvar
      have hc₁ := hpos₁.1 hmessy'.1 hinvar'.1
      have hc₂ := hpos₂.1 hmessy'.2 hinvar'.2
      by_cases hcoeff : d₁.coeff = d₂.coeff
      · obtain ⟨hmod, hdist⟩ := lamport_dist hd₁ hd₂ hexact' hmessy hinvar hsame hvalue.1
          hc₁ hcoeff
        rw [if_pos hcoeff] at hp
        split_ifs at hp with hzero hne hdist0
        · exact absurd hmod hne
        · exact hrest (Or.inl ⟨rfl, Or.inr hdist⟩) hp
        · rw [not_not.mp hdist0] at hdist
          have h0 : (0 : Int64).toInt = 0 := rfl
          omega
      · have hgcd := gcd_test hd₁ hd₂ hexact' hmessy hinvar hsame hvalue.1
        rw [if_neg hcoeff, gcd_eq (by omega) (by omega)] at hp
        simp only [if_pos hgcd] at hp
        exact hunknown (Option.some.inj hp).symm

lemma testSubscripts_sameInvariants {es : List MeExpr} (h : ∀ e ∈ es, loop.isLoopInvariant e)
    (testPair : DepTestPair) : testSubscripts testPair (dims loop es es) = some testPair := by
  induction es with
  | nil => rfl
  | cons e es ih =>
    rw [List.forall_mem_cons] at h
    have hdesc : buildOneSubscriptDesc loop (emitPreMeExpr e) =
        { subscriptX := some e, loopInvariant := true } := by
      simp [buildOneSubscriptDesc, h.1]
    simp only [dims, List.map_cons, List.zip_cons_cons, testSubscripts, hdesc]
    exact ih h.2

end Dims

/-! ### Pairs of accesses -/

section Pair

variable {loop : Doloop} {arr1 arr2 : ArrayAccess}
variable (hpos₁ : ∀ e ∈ arr1.subscripts, PositiveCoeff loop e)
variable (hpos₂ : ∀ e ∈ arr2.subscripts, PositiveCoeff loop e)

include hpos₁ hpos₂

lemma testDependence_isSome (testPair : DepTestPair) :
    ∃ p, testDependence (arr1.desc loop) (arr2.desc loop) testPair = some p ∧
      p.first = testPair.first ∧ p.second = testPair.second := by
  unfold testDependence
  split_ifs
  · exact ⟨_, rfl, rfl, rfl⟩
  · exact testSubscripts_isSome hpos₁ hpos₂ testPair

lemma testDependence_conservative_iff (hexact : ExactDims loop arr1.subscripts arr2.subscripts)
    {testPair p : DepTestPair}
    (hnew : testPair.dependent = false)
    (hp : testDependence (arr1.desc loop) (arr2.desc loop) testPair = some p) :
    (Conservative loop arr1 arr2 p ↔ ¬ SameInvariants loop arr1 arr2) ∧
    (SameInvariants loop arr1 arr2 → Collide loop arr1 arr2) := by
  have hcollide (h : SameInvariants loop arr1 arr2) (A : Assignment) (i₁ i₂ : Int) :
      SameElement loop A i₁ i₂ arr1 arr2 := by
    unfold SameElement
    rw [← h.1]
    apply List.map_congr_left
    intro e he
    exact value_of_isLoopInvariant (h.2 e he) A i₁ i₂
  refine ⟨⟨?_, ?_⟩, ?_⟩
  · intro hcons hsame
    have hmarks := hcons default 0 1 (by decide) (hcollide hsame _ 0 1)
    have hskip : testDependence (arr1.desc loop) (arr2.desc loop) testPair = some testPair := by
      unfold testDependence ArrayAccess.desc
      rw [← hsame.1, if_neg (by simp)]
      exact testSubscripts_sameInvariants hsame.2 testPair
    rw [hskip] at hp
    cases hp
    exact absurd hmarks.1 (by rw [hnew]; decide)
  · intro hsame A i₁ i₂ hne helement
    have hlength : arr1.subscripts.length = arr2.subscripts.length := by
      simpa using congrArg List.length helement
    unfold testDependence ArrayAccess.desc at hp
    rw [if_neg (by simp [hlength])] at hp
    exact testSubscripts_marks hne hpos₁ hpos₂ hexact helement (Or.inr hsame) hp
  · intro hsame
    exact ⟨default, 0, 1, by decide, hcollide hsame _ 0 1⟩

end Pair

lemma DepTestPair.not_marks {p : DepTestPair} (h : p.preventsParallel = false) {i₁ i₂ : Int}
    (hne : i₁ ≠ i₂) : ¬ p.Marks i₁ i₂ := by
  rintro ⟨hdep, hdist⟩
  simp only [preventsParallel, hdep, Bool.true_and, Bool.or_eq_false_iff, bne_eq_false_iff_eq] at h
  rcases hdist with hunknown | hdist
  · simp [h.1] at hunknown
  · rw [h.2] at hdist
    have h0 : (0 : Int64).toInt = 0 := rfl
    omega

/-! ### Loops -/

/-- The accesses of an innermost loop. -/
structure LoopBody where
  lhs : List ArrayAccess
  rhs : List ArrayAccess
  hasOtherCtrlFlow : Bool := false
  hasPtrAccess : Bool := false
  hasScalarAssign : Bool := false
  hasMayDef : Bool := false

/-- What is known about the loop before the test. -/
def LoopBody.info (loop : Doloop) (body : LoopBody) : DoloopInfo where
  lhsArrays := body.lhs.map (ArrayAccess.desc loop)
  rhsArrays := body.rhs.map (ArrayAccess.desc loop)
  hasOtherCtrlFlow := body.hasOtherCtrlFlow
  hasPtrAccess := body.hasPtrAccess
  hasScalarAssign := body.hasScalarAssign
  hasMayDef := body.hasMayDef

lemma depTestPair_eq_some {arrs1 arrs2 : List ArrayAccessDesc} {i j : Nat} {p : DepTestPair}
    (h : depTestPair arrs1 arrs2 i j = some p) :
    p = { first := i, second := j } ∧
      ∃ arr1 arr2, arrs1[i]? = some arr1 ∧ arrs2[j]? = some arr2 ∧ arr1.mayAlias arr2 := by
  unfold depTestPair at h
  split at h
  case h_2 => cases h
  case h_1 arr1 arr2 hi hj =>
    split_ifs at h with hmay
    cases h
    exact ⟨rfl, arr1, arr2, hi, hj, hmay⟩

/-- A pair of accesses that may be to the same array, not tested yet. -/
def NewPair (loop : Doloop) (arrs1 arrs2 : List ArrayAccess) (p : DepTestPair) : Prop :=
  p.dependent = false ∧ ∃ arr1 arr2, arrs1[p.first]? = some arr1 ∧ arrs2[p.second]? = some arr2 ∧
    (arr1.desc loop).mayAlias (arr2.desc loop)

lemma newPair_of_depTestPair {loop : Doloop} {arrs1 arrs2 : List ArrayAccess} {i j : Nat}
    {p : DepTestPair} (h : depTestPair (arrs1.map (ArrayAccess.desc loop))
      (arrs2.map (ArrayAccess.desc loop)) i j = some p) : NewPair loop arrs1 arrs2 p := by
  obtain ⟨rfl, d₁, d₂, h₁, h₂, hmay⟩ := depTestPair_eq_some h
  rw [List.getElem?_map, Option.map_eq_some_iff] at h₁ h₂
  obtain ⟨arr1, harr1, rfl⟩ := h₁
  obtain ⟨arr2, harr2, rfl⟩ := h₂
  exact ⟨rfl, arr1, arr2, harr1, harr2, hmay⟩

lemma createDepTestLists_newPair (loop : Doloop) (body : LoopBody) :
    (∀ p ∈ (body.info loop).createDepTestLists.outputDepTestList,
      NewPair loop body.lhs body.lhs p) ∧
    ∀ p ∈ (body.info loop).createDepTestLists.flowDepTestList,
      NewPair loop body.lhs body.rhs p := by
  simp only [DoloopInfo.createDepTestLists, LoopBody.info, List.nil_append, List.mem_flatMap,
    List.mem_filterMap]
  refine ⟨?_, ?_⟩
  · rintro p ⟨i, -, j, -, hp⟩
    exact newPair_of_depTestPair hp
  · rintro p ⟨i, -, j, -, hp⟩
    exact newPair_of_depTestPair hp

/-- A tested pair: what the test says about its accesses. -/
def PairSpec (loop : Doloop) (arrs1 arrs2 : List ArrayAccess) (p : DepTestPair) : Prop :=
  ∃ arr1 arr2, arrs1[p.first]? = some arr1 ∧ arrs2[p.second]? = some arr2 ∧
    (Conservative loop arr1 arr2 p ↔ ¬ SameInvariants loop arr1 arr2) ∧
    (p.preventsParallel = false → (¬ Collide loop arr1 arr2 ↔ ¬ SameInvariants loop arr1 arr2))

lemma testDependences_spec {loop : Doloop} {arrs1 arrs2 : List ArrayAccess}
    (hpos₁ : ∀ arr ∈ arrs1, ∀ e ∈ arr.subscripts, PositiveCoeff loop e)
    (hpos₂ : ∀ arr ∈ arrs2, ∀ e ∈ arr.subscripts, PositiveCoeff loop e)
    (hexact : ∀ arr1 ∈ arrs1, ∀ arr2 ∈ arrs2, (arr1.desc loop).mayAlias (arr2.desc loop) →
      ExactDims loop arr1.subscripts arr2.subscripts) {pairs : List DepTestPair}
    (hpairs : ∀ p ∈ pairs, NewPair loop arrs1 arrs2 p) :
    ∃ ps, testDependences (arrs1.map (ArrayAccess.desc loop)) (arrs2.map (ArrayAccess.desc loop))
      pairs = some ps ∧ ∀ p ∈ ps, PairSpec loop arrs1 arrs2 p := by
  induction pairs with
  | nil => exact ⟨[], rfl, by simp⟩
  | cons q pairs ih =>
    rw [List.forall_mem_cons] at hpairs
    obtain ⟨ps, hps, hspecs⟩ := ih hpairs.2
    obtain ⟨hnew, arr1, arr2, hi, hj, hmay⟩ := hpairs.1
    have hmem₁ := List.mem_of_getElem? hi
    have hmem₂ := List.mem_of_getElem? hj
    obtain ⟨p, hp, hfirst, hsecond⟩ :=
      testDependence_isSome (hpos₁ _ hmem₁) (hpos₂ _ hmem₂) q
    obtain ⟨hiff, hcollide⟩ := testDependence_conservative_iff (hpos₁ _ hmem₁) (hpos₂ _ hmem₂)
      (hexact _ hmem₁ _ hmem₂ hmay) hnew hp
    refine ⟨p :: ps, ?_, ?_⟩
    · unfold testDependences at hps ⊢
      simp only [List.mapM_cons, List.getElem?_map, hi, hj, Option.map_some, hp,
        Option.bind_eq_bind, Option.bind_some]
      simp only [List.getElem?_map] at hps
      rw [hps]
      rfl
    · rw [List.forall_mem_cons]
      refine ⟨⟨arr1, arr2, hfirst ▸ hi, hsecond ▸ hj, hiff, ?_⟩, hspecs⟩
      intro hparallel
      refine ⟨fun h hsame => h (hcollide hsame), ?_⟩
      rintro hsame ⟨A, i₁, i₂, hne, helement⟩
      exact p.not_marks hparallel hne (hiff.mpr hsame A i₁ i₂ hne helement)

/-- A loop over the symbol `0`, which the block `1` dominates. -/
def exampleLoop : Doloop := ⟨0, fun bb => bb == 1⟩

/-- The loop variable. -/
def exampleVar : MeExpr := .scalar ⟨.symbol 0 0, 2, some 5⟩

/-- The loop body `a[i + 1] = a[i]`. -/
def shiftBody : LoopBody where
  lhs := [⟨.leaf (.addrof 3), some [7], [.binary (.add 0) exampleVar (.const (.int 1 32))]⟩]
  rhs := [⟨.leaf (.addrof 3), some [7], [exampleVar]⟩]

/-- The access `b[k]` with a `k` from outside the loop. -/
def invariantAccess : ArrayAccess :=
  ⟨.leaf (.addrof 3), some [7], [.scalar ⟨.symbol 1 0, 1, some 1⟩]⟩

end LfoDepTest
end Maple
