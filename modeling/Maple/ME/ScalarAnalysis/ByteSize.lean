import Maple.ME.ScalarAnalysis.CRNode

/-!
# The element size in the sums of a boundary check

Before a boundary check compares the sums of an index and of a bound, their nodes are divided by the
size of an array element.
-/

namespace Maple
namespace CRNode

variable {Var : Type}

/-- `IsConstantMultipliedByVariable`, with the constant and the variable. -/
def isConstantMultipliedByVariable : List (CRNode Var) → Option (Int × CRNode Var)
  | [const c, x] => some (c, x)
  | _ => none

/-- `GetByteSize`: the constant of the first product, as a `uint8`. -/
def getByteSize : List (CRNode Var) → Nat
  | [] => 0
  | mul opnds :: _ =>
    match isConstantMultipliedByVariable opnds with
    | some (c, _) => (c % 256).toNat
    | none => 0
  | _ :: ns => getByteSize ns

/-- The `int8` with the bits of a `uint8`. -/
def asInt8 (byteSize : Nat) : Int := (byteSize : Int).bmod 256

/-- One turn of the loop of `NormalizationWithByteCount`, with `none` where it returns false. -/
def normalizeNode (byteSize : Nat) : CRNode Var → Outcome (Option (CRNode Var))
  | const value =>
    -- The quotient of the smallest `int64` and -1 overflows.
    if asInt8 byteSize = -1 ∧ value = -2 ^ 63 then .assertionFailed
    else if value.tmod (asInt8 byteSize) ≠ 0 then .done none
    else .done (some (const (value.tdiv byteSize)))
  | mul opnds =>
    match isConstantMultipliedByVariable opnds with
    | none => .done none
    | some (value, x) =>
      if value.tmod byteSize ≠ 0 then .done none
      else if value.tdiv byteSize = 1 then .done (some x)
      else .done (some (mul [const (value.tdiv byteSize), x]))
  | _ => .done none

/-- The loop of `NormalizationWithByteCount`: the result and the vector as the loop leaves it. -/
def normalizeNodes (byteSize : Nat) : List (CRNode Var) → Outcome (Bool × List (CRNode Var))
  | [] => .done (true, [])
  | n :: ns =>
    (normalizeNode byteSize n).bind fun
      | none => .done (false, n :: ns)
      | some m => (normalizeNodes byteSize ns).bind fun (r, ms) => .done (r, m :: ms)

def normalizationWithByteCount (ns : List (CRNode Var)) (byteSize : Nat) :
    Outcome (Bool × List (CRNode Var)) :=
  if byteSize ≤ 1 then .done (true, ns) else normalizeNodes byteSize ns

/-- The constants of a sum. -/
def constValues : List (CRNode Var) → List Int
  | [] => []
  | const c :: ns => c :: constValues ns
  | _ :: ns => constValues ns

/-- What the division of the constants leaves behind. -/
def constRemainder (byteSize : Nat) (ns : List (CRNode Var)) : Int :=
  ((constValues ns).map (·.tmod byteSize)).sum

lemma asInt8_of_lt {byteSize : Nat} (h : byteSize < 128) : asInt8 byteSize = byteSize := by
  have hlo : -((256 : Nat) / 2 : Int) ≤ byteSize := by omega
  have hhi : (byteSize : Int) < ((256 : Nat) + 1) / 2 := by omega
  exact Int.bmod_eq_of_le hlo hhi

lemma isConstantMultipliedByVariable_eq_some_iff {opnds : List (CRNode Var)} {c : Int}
    {x : CRNode Var} :
    isConstantMultipliedByVariable opnds = some (c, x) ↔ opnds = [const c, x] := by
  constructor
  · intro h
    unfold isConstantMultipliedByVariable at h
    split at h
    · obtain ⟨rfl, rfl⟩ := Prod.mk.inj (Option.some.inj h)
      rfl
    · simp at h
  · rintro rfl
    rfl

/-- What one node contributes to the remainder. -/
def remainderOf (byteSize : Nat) : CRNode Var → Int
  | const c => c.tmod byteSize
  | _ => 0

lemma constRemainder_cons (byteSize : Nat) (n : CRNode Var) (ns : List (CRNode Var)) :
    constRemainder byteSize (n :: ns) = remainderOf byteSize n + constRemainder byteSize ns := by
  cases n <;> simp [constRemainder, constValues, remainderOf]

lemma normalizeNode_const {byteSize : Nat} {c : Int} {m : CRNode Var}
    (h : normalizeNode byteSize (const c) = .done (some m)) :
    c.tmod (asInt8 byteSize) = 0 ∧ m = const (c.tdiv byteSize) := by
  rw [normalizeNode] at h
  by_cases hmin : asInt8 byteSize = -1 ∧ c = -2 ^ 63
  · rw [if_pos hmin] at h
    cases h
  · rw [if_neg hmin] at h
    by_cases hmod : c.tmod (asInt8 byteSize) = 0
    · rw [if_neg (not_not.mpr hmod)] at h
      cases h
      exact ⟨hmod, rfl⟩
    · rw [if_pos hmod] at h
      cases h

lemma normalizeNode_mul {byteSize : Nat} {opnds : List (CRNode Var)} {m : CRNode Var}
    (h : normalizeNode byteSize (mul opnds) = .done (some m)) :
    ∃ c x, opnds = [const c, x] ∧ c.tmod byteSize = 0 ∧
      (c.tdiv byteSize = 1 ∧ m = x ∨ m = mul [const (c.tdiv byteSize), x]) := by
  rw [normalizeNode] at h
  cases hopnds : isConstantMultipliedByVariable opnds with
  | none => simp [hopnds] at h
  | some p =>
    obtain ⟨c, x⟩ := p
    refine ⟨c, x, isConstantMultipliedByVariable_eq_some_iff.mp hopnds, ?_⟩
    simp only [hopnds] at h
    by_cases hmod : c.tmod byteSize = 0
    · rw [if_neg (not_not.mpr hmod)] at h
      by_cases hone : c.tdiv byteSize = 1
      · rw [if_pos hone] at h
        cases h
        exact ⟨hmod, .inl ⟨hone, rfl⟩⟩
      · rw [if_neg hone] at h
        cases h
        exact ⟨hmod, .inr rfl⟩
    · rw [if_pos hmod] at h
      cases h

lemma value_normalizeNode {byteSize : Nat} {n m : CRNode Var}
    (h : normalizeNode byteSize n = .done (some m)) (env : Var → Int) (i : Nat) :
    value env i n = byteSize * value env i m + remainderOf byteSize n := by
  cases n with
  | const c =>
    obtain ⟨-, rfl⟩ := normalizeNode_const h
    rw [value_const, value_const, remainderOf, Int.mul_tdiv_add_tmod]
  | mul opnds =>
    obtain ⟨c, x, rfl, hmod, hm⟩ := normalizeNode_mul h
    have hc : (byteSize : Int) * c.tdiv byteSize = c :=
      Int.mul_tdiv_cancel_of_dvd (Int.dvd_of_tmod_eq_zero hmod)
    rcases hm with ⟨hone, rfl⟩ | rfl
    · rw [hone, mul_one] at hc
      simp [remainderOf, hc]
    · simp only [value_mul, prodOf_cons, prodOf_nil, value_const, remainderOf]
      rw [mul_one, add_zero, ← mul_assoc, hc]
  | var _ => simp [normalizeNode] at h
  | add _ => simp [normalizeNode] at h
  | div _ _ => simp [normalizeNode] at h
  | cr _ => simp [normalizeNode] at h

lemma remainderOf_eq_zero {byteSize : Nat} (hb : byteSize < 128) {n m : CRNode Var}
    (h : normalizeNode byteSize n = .done (some m)) : remainderOf byteSize n = 0 := by
  cases n with
  | const c =>
    obtain ⟨hmod, -⟩ := normalizeNode_const h
    rw [asInt8_of_lt hb] at hmod
    exact hmod
  | _ => rfl

lemma normalizeNodes_cons {byteSize : Nat} {n : CRNode Var} {ns ls : List (CRNode Var)}
    (h : normalizeNodes byteSize (n :: ns) = .done (true, ls)) :
    ∃ m ms, ls = m :: ms ∧ normalizeNode byteSize n = .done (some m) ∧
      normalizeNodes byteSize ns = .done (true, ms) := by
  rw [normalizeNodes] at h
  cases hn : normalizeNode byteSize n with
  | assertionFailed => simp [hn, Outcome.bind] at h
  | outOfFuel => simp [hn, Outcome.bind] at h
  | done o =>
    cases o with
    | none => simp [hn, Outcome.bind] at h
    | some m =>
      cases hns : normalizeNodes byteSize ns with
      | assertionFailed => simp [hn, hns, Outcome.bind] at h
      | outOfFuel => simp [hn, hns, Outcome.bind] at h
      | done r =>
        simp only [hn, hns, Outcome.bind, Outcome.done.injEq, Prod.ext_iff] at h
        obtain ⟨hr, rfl⟩ := h
        exact ⟨m, r.2, rfl, rfl, by rw [← hr]⟩

lemma sumOf_normalizeNodes {byteSize : Nat} {ns ms : List (CRNode Var)}
    (h : normalizeNodes byteSize ns = .done (true, ms)) (env : Var → Int) (i : Nat) :
    sumOf env i ns = byteSize * sumOf env i ms + constRemainder byteSize ns := by
  induction ns generalizing ms with
  | nil =>
    simp only [normalizeNodes, Outcome.done.injEq, Prod.ext_iff] at h
    obtain ⟨-, rfl⟩ := h
    simp [constRemainder, constValues]
  | cons n ns ih =>
    obtain ⟨m, ms, rfl, hn, hns⟩ := normalizeNodes_cons h
    rw [sumOf_cons, sumOf_cons, value_normalizeNode hn, ih hns, constRemainder_cons]
    ring

lemma constRemainder_eq_zero {byteSize : Nat} (hb : byteSize < 128) {ns ms : List (CRNode Var)}
    (h : normalizeNodes byteSize ns = .done (true, ms)) : constRemainder byteSize ns = 0 := by
  induction ns generalizing ms with
  | nil => rfl
  | cons n ns ih =>
    obtain ⟨m, ms, rfl, hn, hns⟩ := normalizeNodes_cons h
    rw [constRemainder_cons, remainderOf_eq_zero hb hn, ih hns, add_zero]

/-- The nodes after a successful normalization are exactly the ones before divided by the size if
and only if the size is a positive `int8` or the remainders of the constants cancel. -/
theorem normalizationWithByteCount_exact_iff {sizes ns ms : List (CRNode Var)}
    (hb : 1 < getByteSize sizes)
    (h : normalizationWithByteCount ns (getByteSize sizes) = .done (true, ms)) :
    (∀ env i, sumOf env i ns = getByteSize sizes * sumOf env i ms) ↔
      getByteSize sizes < 128 ∨ constRemainder (getByteSize sizes) ns = 0 := by
  rw [normalizationWithByteCount, if_neg (Nat.not_le.mpr hb)] at h
  have hsum := sumOf_normalizeNodes h
  constructor
  · intro hexact
    right
    have hzero := hexact (fun _ => 0) 0
    rw [hsum] at hzero
    omega
  · rintro (hlt | hzero) env i
    · rw [hsum, constRemainder_eq_zero hlt h, add_zero]
    · rw [hsum, hzero, add_zero]

theorem normalizationWithByteCount_exact_iff_fourBytes :
    (∀ (env : String → Int) (i : Nat),
      sumOf env i [const 8, mul [const 4, var "length"]] =
        4 * sumOf env i [const 2, var "length"]) ↔
      4 < 128 ∨ constRemainder 4 [const 8, mul [const 4, var "length"]] = 0 :=
  @normalizationWithByteCount_exact_iff String [mul [const 4, var "length"]]
    [const 8, mul [const 4, var "length"]] [const 2, var "length"] (by decide) (by rfl)

/-- The constant 56 is a multiple of -56, the size 200 as an `int8`, but not of 200. -/
theorem normalizationWithByteCount_elementsOf200Bytes :
    ∃ ms : List (CRNode String),
      getByteSize [const 56, mul [const 200, var "length"]] = 200 ∧
      normalizationWithByteCount [const 56, mul [const 200, var "length"]] 200 =
        .done (true, ms) ∧
      ¬ ∀ env i, sumOf env i [const 56, mul [const 200, var "length"]] = 200 * sumOf env i ms := by
  refine ⟨[const 0, var "length"], by decide, by rfl, ?_⟩
  intro h
  have := h (fun _ => 0) 0
  simp at this

end CRNode
end Maple
