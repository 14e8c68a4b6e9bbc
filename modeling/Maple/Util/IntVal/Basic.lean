import Maple.Lib.Words

/-!
# Storage and word loops of `IntVal`

The loops of the wide operations run over the words of the operands, the lowest one first, and
carry a bit from word to word.
-/

namespace Maple
namespace IntVal

open Words

abbrev kWordBitSize : Nat := 64

def kAllOnes : UInt64 := ~~~0

/-- `IntVal::GetNumWords` of a bit width, which is cast to a `uint8`. -/
def getNumWords (bitWidth : Nat) : Nat := (bitWidth + kWordBitSize - 1) / kWordBitSize % 2 ^ 8

/-! ### Carry and borrow -/

/-- `AddCarry`: the sum and the carry bit. -/
def addCarry (dst src : UInt64) : UInt64 × UInt64 :=
  (dst + src, if dst + src < src then 1 else 0)

lemma addCarry_spec (dst src : UInt64) :
    (addCarry dst src).1.toNat + 2 ^ 64 * (addCarry dst src).2.toNat = dst.toNat + src.toNat ∧
      (addCarry dst src).2.toNat ≤ 1 := by
  have hd := dst.toNat_lt
  have hs := src.toNat_lt
  simp only [addCarry, UInt64.lt_iff_toNat_lt, UInt64.toNat_add]
  split_ifs
  · rw [UInt64.toNat_one]
    omega
  · rw [UInt64.toNat_zero]
    omega

/-- The loop of `WideAddInPlace` of an `IntVal`. -/
def wideAddInPlace (carry : Bool) : List UInt64 → List UInt64 → List UInt64
  | u :: us, r :: rs =>
    let sum := u + (r + if carry then 1 else 0)
    sum :: wideAddInPlace (if carry then decide (sum ≤ r) else decide (sum < r)) us rs
  | us, _ => us

/-- The carry loop of `WideAddInPlace` of a scalar and of `MulPart`; the two test the carry in
different ways. -/
def carryLoop (goesOn : UInt64 → Bool) (carry : UInt64) : List UInt64 → List UInt64
  | [] => []
  | u :: us =>
    if goesOn carry then (addCarry u carry).1 :: carryLoop goesOn (addCarry u carry).2 us
    else u :: us

/-- `WideAddInPlace` of a scalar. -/
def wideAddScalarInPlace (val : UInt64) : List UInt64 → List UInt64
  | [] => []
  | u :: us => (addCarry u val).1 :: carryLoop (fun carry => carry == 1) (addCarry u val).2 us

/-- The loop of `WideSubInPlace` of an `IntVal`. -/
def wideSubInPlace (borrow : Bool) : List UInt64 → List UInt64 → List UInt64
  | u :: us, r :: rs =>
    let diff := u - (r + if borrow then 1 else 0)
    diff :: wideSubInPlace (if borrow then decide (u ≤ diff) else decide (u < diff)) us rs
  | us, _ => us

/-- The loop of `WideSubInPlace` of a scalar over the words above the first one. -/
def borrowLoop (borrow : Bool) : List UInt64 → List UInt64
  | [] => []
  | u :: us =>
    if borrow then
      -- the borrow is found in the new word
      (u - 1) :: borrowLoop (decide (1 ≤ u - 1)) us
    else u :: us

/-- `WideSubInPlace` of a scalar. -/
def wideSubScalarInPlace (val : UInt64) : List UInt64 → List UInt64
  | [] => []
  | u :: us => (u - val) :: borrowLoop (decide (u < u - val)) us

def wideNotInPlace (us : List UInt64) : List UInt64 := us.map fun u => ~~~u

def wideNegInPlace (us : List UInt64) : List UInt64 := wideAddScalarInPlace 1 (wideNotInPlace us)

/-! ### Lengths -/

@[simp] lemma length_wideAddInPlace (carry : Bool) (us rs : List UInt64) :
    (wideAddInPlace carry us rs).length = us.length := by
  induction us generalizing carry rs with
  | nil => rfl
  | cons u us ih =>
    cases rs with
    | nil => rfl
    | cons r rs => exact congrArg Nat.succ (ih _ rs)

@[simp] lemma length_carryLoop (goesOn : UInt64 → Bool) (carry : UInt64) (us : List UInt64) :
    (carryLoop goesOn carry us).length = us.length := by
  induction us generalizing carry with
  | nil => rfl
  | cons u us ih =>
    rw [carryLoop]
    split_ifs
    · exact congrArg Nat.succ (ih _)
    · rfl

@[simp] lemma length_wideAddScalarInPlace (val : UInt64) (us : List UInt64) :
    (wideAddScalarInPlace val us).length = us.length := by
  cases us with
  | nil => rfl
  | cons u us => exact congrArg Nat.succ (length_carryLoop _ _ us)

@[simp] lemma length_wideSubInPlace (borrow : Bool) (us rs : List UInt64) :
    (wideSubInPlace borrow us rs).length = us.length := by
  induction us generalizing borrow rs with
  | nil => rfl
  | cons u us ih =>
    cases rs with
    | nil => rfl
    | cons r rs => exact congrArg Nat.succ (ih _ rs)

@[simp] lemma length_borrowLoop (borrow : Bool) (us : List UInt64) :
    (borrowLoop borrow us).length = us.length := by
  induction us generalizing borrow with
  | nil => rfl
  | cons u us ih =>
    rw [borrowLoop]
    split_ifs
    · exact congrArg Nat.succ (ih _)
    · rfl

@[simp] lemma length_wideSubScalarInPlace (val : UInt64) (us : List UInt64) :
    (wideSubScalarInPlace val us).length = us.length := by
  cases us with
  | nil => rfl
  | cons u us => exact congrArg Nat.succ (length_borrowLoop _ us)

@[simp] lemma length_wideNotInPlace (us : List UInt64) :
    (wideNotInPlace us).length = us.length :=
  List.length_map _

@[simp] lemma length_wideNegInPlace (us : List UInt64) :
    (wideNegInPlace us).length = us.length := by
  rw [wideNegInPlace, length_wideAddScalarInPlace, length_wideNotInPlace]

/-! ### Values -/

lemma toNat_decide (p : Prop) [Decidable p] : (decide p).toNat = if p then 1 else 0 := by
  split_ifs with h
  · rw [decide_eq_true h, Bool.toNat_true]
  · rw [decide_eq_false h, Bool.toNat_false]

lemma sum_carry (carry : Bool) (u r : UInt64) :
    let sum := u + (r + if carry then 1 else 0)
    sum.toNat + 2 ^ 64 * (if carry then decide (sum ≤ r) else decide (sum < r)).toNat =
      u.toNat + r.toNat + carry.toNat := by
  have hu := u.toNat_lt
  have hr := r.toNat_lt
  cases carry with
  | false =>
    simp only [Bool.false_eq_true, ↓reduceIte, toNat_decide, UInt64.lt_iff_toNat_lt,
      UInt64.toNat_add, UInt64.toNat_zero, Bool.toNat_false]
    split_ifs <;> omega
  | true =>
    simp only [↓reduceIte, toNat_decide, UInt64.le_iff_toNat_le, UInt64.toNat_add,
      UInt64.toNat_one, Bool.toNat_true]
    split_ifs <;> omega

lemma diff_borrow (borrow : Bool) (u r : UInt64) :
    let diff := u - (r + if borrow then 1 else 0)
    diff.toNat + r.toNat + borrow.toNat =
      u.toNat + 2 ^ 64 * (if borrow then decide (u ≤ diff) else decide (u < diff)).toNat := by
  have hu := u.toNat_lt
  have hr := r.toNat_lt
  cases borrow with
  | false =>
    simp only [Bool.false_eq_true, ↓reduceIte, toNat_decide, UInt64.lt_iff_toNat_lt,
      UInt64.toNat_sub, UInt64.toNat_add, UInt64.toNat_zero, Bool.toNat_false]
    split_ifs <;> omega
  | true =>
    simp only [↓reduceIte, toNat_decide, UInt64.le_iff_toNat_le, UInt64.toNat_sub,
      UInt64.toNat_add, UInt64.toNat_one, Bool.toNat_true]
    split_ifs <;> omega

lemma value_wideAddInPlace (carry : Bool) {us rs : List UInt64} (hlen : us.length = rs.length) :
    value (wideAddInPlace carry us rs) ≡ value us + value rs + carry.toNat
      [MOD 2 ^ (64 * us.length)] := by
  induction us generalizing carry rs with
  | nil => exact Nat.modEq_one
  | cons u us ih =>
    obtain ⟨r, rs, rfl⟩ := List.exists_cons_of_length_eq_add_one hlen.symm
    have hword := sum_carry carry u r
    rw [wideAddInPlace, List.length_cons, value_cons u, value_cons r]
    refine modEq_cons (ih _ (Nat.succ.inj hlen)) ?_
    dsimp only at hword
    omega

lemma value_wideSubInPlace (borrow : Bool) {us rs : List UInt64} (hlen : us.length = rs.length) :
    value (wideSubInPlace borrow us rs) + value rs + borrow.toNat ≡ value us
      [MOD 2 ^ (64 * us.length)] := by
  induction us generalizing borrow rs with
  | nil => exact Nat.modEq_one
  | cons u us ih =>
    obtain ⟨r, rs, rfl⟩ := List.exists_cons_of_length_eq_add_one hlen.symm
    have hword := diff_borrow borrow u r
    dsimp only at hword
    rw [wideSubInPlace, List.length_cons, value_cons u, value_cons r, value_cons, two_pow_succ_words]
    have hupper := ((ih (if borrow then decide (u ≤ u - (r + if borrow then 1 else 0)) else
      decide (u < u - (r + if borrow then 1 else 0))) (Nat.succ.inj hlen)).mul_left'
        (2 ^ 64)).add_left u.toNat
    convert hupper using 1
    omega

lemma value_carryLoop {goesOn : UInt64 → Bool} (hstop : ∀ c, goesOn c = false → c.toNat ≤ 1 → c = 0)
    {carry : UInt64} (hcarry : goesOn carry = false → carry = 0) (us : List UInt64) :
    value (carryLoop goesOn carry us) ≡ value us + carry.toNat [MOD 2 ^ (64 * us.length)] := by
  induction us generalizing carry with
  | nil => exact Nat.modEq_one
  | cons u us ih =>
    rw [carryLoop]
    by_cases hgoes : goesOn carry = true
    · obtain ⟨hsum, hle⟩ := addCarry_spec u carry
      rw [if_pos hgoes, List.length_cons, value_cons u]
      exact modEq_cons (ih fun h => hstop _ h hle) (by omega)
    · rw [if_neg hgoes, hcarry (by simpa using hgoes), UInt64.toNat_zero]
      rfl

lemma value_wideAddScalarInPlace (val : UInt64) (us : List UInt64) :
    value (wideAddScalarInPlace val us) ≡ value us + val.toNat [MOD 2 ^ (64 * us.length)] := by
  cases us with
  | nil => exact Nat.modEq_one
  | cons u us =>
    obtain ⟨hsum, hle⟩ := addCarry_spec u val
    have hstop : ∀ c : UInt64, (c == 1) = false → c.toNat ≤ 1 → c = 0 := by
      intro c hc hc'
      rw [beq_eq_false_iff_ne, ne_eq, ← UInt64.toNat_inj, UInt64.toNat_one] at hc
      rw [← UInt64.toNat_inj, UInt64.toNat_zero]
      omega
    rw [wideAddScalarInPlace, List.length_cons, value_cons u]
    exact modEq_cons (value_carryLoop hstop (fun h => hstop _ h hle) us) (by omega)

lemma value_wideNotInPlace (us : List UInt64) :
    value (wideNotInPlace us) = 2 ^ (64 * us.length) - 1 - value us :=
  value_map_complement us

lemma value_wideNegInPlace (us : List UInt64) :
    value (wideNegInPlace us) + value us ≡ 0 [MOD 2 ^ (64 * us.length)] := by
  have hlt := value_lt us
  have hadd := value_wideAddScalarInPlace 1 (wideNotInPlace us)
  rw [length_wideNotInPlace, value_wideNotInPlace, UInt64.toNat_one] at hadd
  refine (hadd.add_right (value us)).trans ?_
  have hsum : 2 ^ (64 * us.length) - 1 - value us + 1 + value us = 2 ^ (64 * us.length) := by omega
  rw [hsum]
  exact (Nat.modEq_zero_iff_dvd.mpr (dvd_refl _))

/-! ### The borrow of a scalar -/

/-- The borrow into these words ends where it should: at a word that is one, or at the last one.
A word of two or more is not taken as the end. -/
def BorrowStops : List UInt64 → Prop
  | u :: v :: us => u = 1 ∨ (u = 0 ∧ BorrowStops (v :: us))
  | _ => True

/-- The subtraction of one stays in the lowest word, or the borrow stops. -/
def DecrementStops : List UInt64 → Prop
  | u :: us => u ≠ 0 ∨ BorrowStops us
  | [] => True

lemma borrowLoop_false (us : List UInt64) : borrowLoop false us = us := by
  cases us with
  | nil => rfl
  | cons u us => rfl

lemma toNat_sub_one {u : UInt64} (hu : u ≠ 0) : (u - 1).toNat + 1 = u.toNat := by
  have hlt := u.toNat_lt
  rw [ne_eq, ← UInt64.toNat_inj, UInt64.toNat_zero] at hu
  rw [UInt64.toNat_sub, UInt64.toNat_one]
  omega

lemma add_mul_modEq_iff (w a b n : Nat) :
    w + 2 ^ 64 * a ≡ w + 2 ^ 64 * b [MOD 2 ^ (64 * (n + 1))] ↔ a ≡ b [MOD 2 ^ (64 * n)] := by
  rw [two_pow_succ_words]
  constructor
  · intro h
    exact Nat.ModEq.mul_left_cancel' (by decide) (Nat.ModEq.add_left_cancel' w h)
  · intro h
    exact (h.mul_left' _).add_left w

lemma not_modEq_of_ne {u v : UInt64} {us vs : List UInt64} (hne : u ≠ v)
    (hlen : us.length = vs.length) :
    ¬value (u :: us) ≡ value (v :: vs) [MOD 2 ^ (64 * (us.length + 1))] := by
  intro h
  have hlen' : (u :: us).length = (v :: vs).length := congrArg Nat.succ hlen
  have heq : value (u :: us) = _ := value_eq_of_modEq h
  rw [List.length_cons, hlen, ← List.length_cons (a := v), Nat.mod_eq_of_lt (value_lt _)] at heq
  exact hne (List.cons.inj ((value_inj hlen').mp heq)).1

lemma borrowLoop_modEq_iff (us : List UInt64) :
    value (borrowLoop true us) + 1 ≡ value us [MOD 2 ^ (64 * us.length)] ↔ BorrowStops us := by
  induction us with
  | nil => exact iff_of_true Nat.modEq_one (by simp [BorrowStops])
  | cons u us ih =>
    have hle : 1 ≤ u - 1 ↔ u ≠ 1 := by
      have hlt := u.toNat_lt
      rw [UInt64.le_iff_toNat_le, ne_eq, ← UInt64.toNat_inj, UInt64.toNat_sub, UInt64.toNat_one]
      omega
    have hzero : ((0 : UInt64) - 1).toNat + 1 = 2 ^ 64 := by decide
    rw [borrowLoop, if_pos rfl, value_cons, value_cons u, List.length_cons]
    cases us with
    | nil =>
      refine iff_of_true ?_ (by simp [BorrowStops])
      by_cases h0 : u = 0
      · rw [h0, borrowLoop, value_nil]
        decide
      · rw [borrowLoop, value_nil, Nat.mul_zero, Nat.add_zero, toNat_sub_one h0]
        rfl
    | cons v us =>
      rw [BorrowStops]
      by_cases h1 : u = 1
      · refine iff_of_true ?_ (Or.inl h1)
        have hone := toNat_sub_one (u := u) (by rw [h1]; decide)
        rw [decide_eq_false (by rw [hle, not_not]; exact h1), borrowLoop_false,
          Nat.add_right_comm, hone]
      · rw [decide_eq_true (hle.mpr h1)]
        by_cases h0 : u = 0
        · rw [or_iff_right h1, and_iff_right h0, ← ih, h0, UInt64.toNat_zero]
          have hsum : ((0 : UInt64) - 1).toNat + 2 ^ 64 * value (borrowLoop true (v :: us)) + 1 =
              0 + 2 ^ 64 * (value (borrowLoop true (v :: us)) + 1) := by omega
          rw [hsum]
          exact add_mul_modEq_iff _ _ _ _
        · refine iff_of_false ?_ (by simp [h0, h1])
          have hsum : (u - 1).toNat + 2 ^ 64 * value (borrowLoop true (v :: us)) + 1 =
              u.toNat + 2 ^ 64 * value (borrowLoop true (v :: us)) := by
            have := toNat_sub_one h0
            omega
          rw [hsum, add_mul_modEq_iff]
          -- the next word has lost one, too
          have hne : v - 1 ≠ v := by
            intro heq
            have hlt := v.toNat_lt
            have hnat := congrArg UInt64.toNat heq
            rw [UInt64.toNat_sub, UInt64.toNat_one] at hnat
            omega
          have hdiff := not_modEq_of_ne hne (length_borrowLoop (decide (1 ≤ v - 1)) us)
          rwa [length_borrowLoop] at hdiff

lemma value_wideSubScalarInPlace_one_iff (us : List UInt64) :
    value (wideSubScalarInPlace 1 us) + 1 ≡ value us [MOD 2 ^ (64 * us.length)] ↔
      DecrementStops us := by
  cases us with
  | nil => exact iff_of_true Nat.modEq_one trivial
  | cons u us =>
    have hlt : u < u - 1 ↔ u = 0 := by
      have hu := u.toNat_lt
      rw [UInt64.lt_iff_toNat_lt, ← UInt64.toNat_inj, UInt64.toNat_sub, UInt64.toNat_one,
        UInt64.toNat_zero]
      omega
    rw [wideSubScalarInPlace, DecrementStops, value_cons, value_cons u, List.length_cons]
    by_cases h0 : u = 0
    · have hzero : ((0 : UInt64) - 1).toNat + 1 = 2 ^ 64 := by decide
      rw [decide_eq_true (hlt.mpr h0), or_iff_right (not_not.mpr h0), ← borrowLoop_modEq_iff, h0,
        UInt64.toNat_zero]
      have hsum : ((0 : UInt64) - 1).toNat + 2 ^ 64 * value (borrowLoop true us) + 1 =
          0 + 2 ^ 64 * (value (borrowLoop true us) + 1) := by omega
      rw [hsum]
      exact add_mul_modEq_iff _ _ _ _
    · refine iff_of_true ?_ (Or.inl h0)
      have hsum := toNat_sub_one h0
      rw [decide_eq_false (mt hlt.mp h0), borrowLoop_false, Nat.add_right_comm, hsum]

end IntVal
end Maple
