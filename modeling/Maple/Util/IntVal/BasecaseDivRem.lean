import Maple.Lib.LongDivision
import Maple.Util.IntVal.Compare
import Maple.Util.IntVal.Count
import Maple.Util.IntVal.Shift
import Mathlib.Tactic.LinearCombination

/-!
# Division of numbers of half words

The division of numbers in base `2 ^ 32`. A digit of the quotient is estimated from the leading
digits; it is too large by at most two, and the product that has been subtracted is then added
back.
-/

namespace Maple
namespace IntVal

/-- `SubBorrow` of `uint32`. -/
def subBorrow32 (dst src : UInt32) : UInt32 × UInt32 :=
  (dst - src, if dst - src > dst then 1 else 0)

section Accumulate

variable (step : UInt32 → UInt32 → UInt32 × UInt32)

/-- The inner loop of `MulSubOverflow` and `MulAddOverflow`: the words above and what is left of
the carry. -/
def propagate (carry : UInt32) : List UInt32 → List UInt32 × UInt32
  | [] => ([], carry)
  | d :: ds =>
    if carry ≠ 0 then
      let word := step d carry
      let rest := propagate word.2 ds
      (word.1 :: rest.1, rest.2)
    else (d :: ds, carry)

/-- The loops of `MulSubOverflow` and `MulAddOverflow`, which differ in the step for a word: the
words and the overflow. -/
def mulAccumulate (src1 : UInt32) : List UInt32 → List UInt32 → List UInt32 × UInt32
  | d :: ds, s :: ss =>
    let mulRes := getLoHi (s.toUInt64 * src1.toUInt64)
    let word := step d mulRes.lo
    let upper := propagate step (word.2 + mulRes.hi) ds
    let rest := mulAccumulate src1 upper.1 ss
    (word.1 :: rest.1, upper.2 + rest.2)
  | ds, _ => (ds, 0)

end Accumulate

def mulSubOverflow (dst src0 : List UInt32) (src1 : UInt32) : List UInt32 × UInt32 :=
  mulAccumulate subBorrow32 src1 dst src0

def mulAddOverflow (dst src0 : List UInt32) (src1 : UInt32) : List UInt32 × UInt32 :=
  mulAccumulate addCarry32 src1 dst src0

/-- `Normalize`: the shifted numbers and the number of bits. -/
def normalize (a b : List UInt32) (n : Nat) : List UInt32 × List UInt32 × Nat :=
  let shift := countLeadingZerosWord (b.getD (n - 1) 0)
  (shiftLeft a shift, shiftLeft b shift, shift)

/-- `bShifted`: the divisor in an array of `n + m` words, shifted by `j` words. -/
def shiftedDivisor (b : List UInt32) (m j : Nat) : List UInt32 :=
  shiftLeft (b ++ List.replicate m 0) (j * 32)

/-- The variables of the loop that corrects a digit. -/
structure Trial where
  a : List UInt32
  digit : UInt32
  borrow : UInt32

/-- The loop that corrects a digit. `CHECK_FATAL` ends the program when it is entered once more
than `counter` times. -/
def correct (bShifted : List UInt32) : Nat → Trial → Option Trial
  | counter, t =>
    if t.borrow ≠ 0 then
      match counter with
      | 0 => none
      | counter + 1 =>
        let sum := mulAddOverflow t.a bShifted 1
        correct bShifted counter ⟨sum.1, t.digit - 1, t.borrow - sum.2⟩
    else some t

def maxCounter : Nat := 2

/-- The digit `min(q_tmp, β − 1)`. -/
def estimate (quotient : UInt64) : UInt32 :=
  let quotientLoHi := getLoHi quotient
  if quotientLoHi.hi ≠ 0 then ~~~0 else quotientLoHi.lo

/-- The body of the loop of `BasecaseDivRem` over the digits of the quotient. -/
def divRemStep (b : List UInt32) (n m : Nat) (aq : List UInt32 × List UInt32) (j : Nat) :
    Option (List UInt32 × List UInt32) :=
  let (a, q) := aq
  let quotient := combineLoHi ⟨a.getD (n + j - 1) 0, a.getD (n + j) 0⟩ /
    (b.getD (n - 1) 0).toUInt64
  let digit := estimate quotient
  let bShifted := shiftedDivisor b m j
  let difference := mulSubOverflow a bShifted digit
  (correct bShifted maxCounter ⟨difference.1, digit, difference.2⟩).map fun t =>
    (t.a, q.set j t.digit)

/-- The part of `BasecaseDivRem` before the loop, which computes `q[m]`. -/
def topDigit (a b : List UInt32) (n m : Nat) : List UInt32 × UInt32 :=
  let bShifted := shiftedDivisor b m m
  if bitwiseCompare a bShifted ((n + m) * 32 % 2 ^ 16) < 0 then (a, 0)
  else ((mulSubOverflow a bShifted 1).1, 1)

/-- `BasecaseDivRem`: the words of the remainder and of the quotient. -/
def basecaseDivRem (a b : List UInt32) (n m : Nat) : Option (List UInt32 × List UInt32) :=
  let top := topDigit a b n m
  (List.range m).reverse.foldlM (divRemStep b n m) (top.1, (List.replicate (m + 1) 0).set m top.2)

/-! ### Multiples that are added and subtracted -/

lemma value32_cons (w : UInt32) (ws : List UInt32) :
    Limb.value (w :: ws) = w.toNat + 2 ^ 32 * Limb.value ws := Limb.value_cons w ws

lemma value32_lt (ws : List UInt32) : Limb.value ws < 2 ^ (32 * ws.length) := Limb.value_lt ws

lemma two_pow_succ_halfWords {R : Type} [CommSemiring R] (n : Nat) :
    (2 : R) ^ (32 * (n + 1)) = 2 ^ 32 * 2 ^ (32 * n) := by
  rw [← pow_add, Nat.mul_succ, Nat.add_comm]

/-- The step adds `σ` times a word, and `σ` times its carry goes to the next one. -/
def Accumulates (σ : Int) (step : UInt32 → UInt32 → UInt32 × UInt32) : Prop :=
  ∀ d s, ((step d s).1.toNat : Int) + σ * (2 ^ 32 * (step d s).2.toNat) = d.toNat + σ * s.toNat ∧
    (step d s).2.toNat ≤ 1

lemma accumulates_subBorrow32 : Accumulates (-1) subBorrow32 := by
  intro d s
  have hd := d.toNat_lt
  have hs := s.toNat_lt
  simp only [subBorrow32, gt_iff_lt, UInt32.lt_iff_toNat_lt, UInt32.toNat_sub]
  split_ifs
  · rw [UInt32.toNat_one]
    omega
  · rw [UInt32.toNat_zero]
    omega

lemma accumulates_addCarry32 : Accumulates 1 addCarry32 := by
  intro d s
  have hspec := addCarry32_spec d s
  omega

section Accumulate

variable {σ : Int} {step : UInt32 → UInt32 → UInt32 × UInt32}

@[simp] lemma length_propagate (carry : UInt32) (ds : List UInt32) :
    (propagate step carry ds).1.length = ds.length := by
  induction ds generalizing carry with
  | nil => rfl
  | cons d ds ih =>
    rw [propagate]
    split_ifs
    · exact congrArg Nat.succ (ih _)
    · rfl

@[simp] lemma length_mulAccumulate (src1 : UInt32) (ds ss : List UInt32) :
    (mulAccumulate step src1 ds ss).1.length = ds.length := by
  induction ss generalizing ds with
  | nil => cases ds <;> rfl
  | cons s ss ih =>
    cases ds with
    | nil => rfl
    | cons d ds => exact congrArg Nat.succ ((ih _).trans (length_propagate _ ds))

variable (hstep : Accumulates σ step)

include hstep

lemma value_propagate (carry : UInt32) (ds : List UInt32) :
    (Limb.value (propagate step carry ds).1 : Int) +
        σ * (2 ^ (32 * ds.length) * (propagate step carry ds).2.toNat) =
      Limb.value ds + σ * carry.toNat := by
  induction ds generalizing carry with
  | nil => simp [propagate]
  | cons d ds ih =>
    rw [propagate]
    split_ifs with hcarry
    · obtain ⟨hword, -⟩ := hstep d carry
      have hrest := ih (step d carry).2
      dsimp only
      rw [value32_cons, value32_cons, List.length_cons, two_pow_succ_halfWords]
      push_cast
      linear_combination hword + 2 ^ 32 * hrest
    · rw [not_not.mp hcarry, UInt32.toNat_zero, Nat.cast_zero, mul_zero]

lemma value_mulAccumulate (src1 : UInt32) {ds ss : List UInt32} (hlen : ds.length = ss.length) :
    ∃ o : Nat, (mulAccumulate step src1 ds ss).2.toNat = o % 2 ^ 32 ∧
      (Limb.value (mulAccumulate step src1 ds ss).1 : Int) + σ * (2 ^ (32 * ds.length) * o) =
        Limb.value ds + σ * (Limb.value ss * src1.toNat) := by
  induction ss generalizing ds with
  | nil =>
    obtain rfl := List.length_eq_zero_iff.mp hlen
    exact ⟨0, rfl, by simp [mulAccumulate]⟩
  | cons s ss ih =>
    obtain ⟨d, ds, rfl⟩ := List.exists_cons_of_length_eq_add_one hlen
    obtain ⟨hmul, hle⟩ := toNat_getLoHi_mul s src1
    obtain ⟨hword, hcarry⟩ := hstep d (getLoHi (s.toUInt64 * src1.toUInt64)).lo
    rw [← hmul] at hle
    rw [LoHi.toNat] at hmul hle
    rw [mulAccumulate]
    dsimp only
    generalize getLoHi (s.toUInt64 * src1.toUInt64) = mulRes at *
    generalize step d mulRes.lo = word at *
    have hsum : (word.2 + mulRes.hi).toNat = word.2.toNat + mulRes.hi.toNat := by
      rw [UInt32.toNat_add]
      omega
    have hupper := value_propagate hstep (word.2 + mulRes.hi) ds
    have hlen' : (propagate step (word.2 + mulRes.hi) ds).1.length = ds.length :=
      length_propagate _ _
    generalize propagate step (word.2 + mulRes.hi) ds = upper at *
    obtain ⟨o, ho, hrest⟩ := ih (hlen'.trans (Nat.succ.inj hlen))
    refine ⟨upper.2.toNat + o, ?_, ?_⟩
    · rw [UInt32.toNat_add, ho]
      omega
    · rw [hsum] at hupper
      rw [hlen'] at hrest
      rw [value32_cons, value32_cons, value32_cons, List.length_cons, two_pow_succ_halfWords]
      push_cast at hupper hrest ⊢
      have hmul' : (mulRes.lo.toNat : Int) + 2 ^ 32 * mulRes.hi.toNat = s.toNat * src1.toNat := by
        exact_mod_cast hmul
      linear_combination hword + 2 ^ 32 * hupper + 2 ^ 32 * hrest + σ * hmul'

end Accumulate

lemma add_mul_lt {P x y z : Nat} (hx : x < P) (hy : y < P) (hz : z < 2 ^ 32) :
    x + y * z < P * 2 ^ 32 := by
  have hle : y * z ≤ y * (2 ^ 32 - 1) := Nat.mul_le_mul_left y (by omega)
  rw [Nat.mul_sub] at hle
  omega

section Overflow

variable {dst src0 : List UInt32} (src1 : UInt32) (hlen : dst.length = src0.length)

include hlen

lemma mulSubOverflow_spec :
    Limb.value (mulSubOverflow dst src0 src1).1 + Limb.value src0 * src1.toNat =
      Limb.value dst + 2 ^ (32 * dst.length) * (mulSubOverflow dst src0 src1).2.toNat := by
  obtain ⟨o, ho, hvalue⟩ := value_mulAccumulate accumulates_subBorrow32 src1 hlen
  have hout := value32_lt (mulAccumulate subBorrow32 src1 dst src0).1
  have hsrc := value32_lt src0
  rw [length_mulAccumulate] at hout
  rw [← hlen] at hsrc
  have heq : Limb.value (mulAccumulate subBorrow32 src1 dst src0).1 +
      Limb.value src0 * src1.toNat = Limb.value dst + 2 ^ (32 * dst.length) * o := by
    zify
    linear_combination hvalue
  have hlt : 2 ^ (32 * dst.length) * o < 2 ^ (32 * dst.length) * 2 ^ 32 :=
    lt_of_le_of_lt (Nat.le_add_left _ (Limb.value dst))
      (heq ▸ add_mul_lt hout hsrc src1.toNat_lt)
  rw [Nat.mod_eq_of_lt (Nat.lt_of_mul_lt_mul_left hlt)] at ho
  rw [mulSubOverflow, ho, heq]

lemma mulAddOverflow_spec :
    Limb.value (mulAddOverflow dst src0 src1).1 +
        2 ^ (32 * dst.length) * (mulAddOverflow dst src0 src1).2.toNat =
      Limb.value dst + Limb.value src0 * src1.toNat := by
  obtain ⟨o, ho, hvalue⟩ := value_mulAccumulate accumulates_addCarry32 src1 hlen
  have hdst := value32_lt dst
  have hsrc := value32_lt src0
  rw [← hlen] at hsrc
  have heq : Limb.value (mulAccumulate addCarry32 src1 dst src0).1 + 2 ^ (32 * dst.length) * o =
      Limb.value dst + Limb.value src0 * src1.toNat := by
    zify
    linear_combination hvalue
  have hlt : 2 ^ (32 * dst.length) * o < 2 ^ (32 * dst.length) * 2 ^ 32 :=
    lt_of_le_of_lt (Nat.le_add_left _ _) (heq ▸ add_mul_lt hdst hsrc src1.toNat_lt)
  rw [Nat.mod_eq_of_lt (Nat.lt_of_mul_lt_mul_left hlt)] at ho
  rw [mulAddOverflow, ho, heq]

end Overflow

/-! ### The correction of a digit -/

/-- The trial has the words that belong to its digit, which is too large by `e`; `D` is what has
been subtracted for one and `R` is left for the right digit. -/
structure Trial.Valid (t : Trial) (N D R digit e : Nat) : Prop where
  length_eq : t.a.length = N
  value_eq : (Limb.value t.a : Int) - 2 ^ (32 * N) * t.borrow.toNat = R - e * D
  digit_eq : t.digit.toNat = digit + e

lemma Trial.Valid.borrow_eq {t : Trial} {N D R digit e : Nat} (h : t.Valid N D R digit e)
    (hR : R < D) (hroom : e * D ≤ 2 ^ (32 * N)) :
    t.borrow.toNat = if e = 0 then 0 else 1 := by
  have hlt := value32_lt t.a
  have hvalue := h.value_eq
  rw [h.length_eq] at hlt
  have hnat : Limb.value t.a + e * D = R + 2 ^ (32 * N) * t.borrow.toNat := by
    zify
    linear_combination hvalue
  split_ifs with he
  · rw [he, Nat.zero_mul] at hnat
    by_contra hne
    have hle : 2 ^ (32 * N) * 1 ≤ 2 ^ (32 * N) * t.borrow.toNat :=
      Nat.mul_le_mul_left _ (Nat.one_le_iff_ne_zero.mpr hne)
    omega
  · have hD : 1 * D ≤ e * D := Nat.mul_le_mul_right D (Nat.one_le_iff_ne_zero.mpr he)
    have hne : t.borrow.toNat ≠ 0 := by
      intro hzero
      rw [hzero] at hnat
      omega
    have hlt2 : t.borrow.toNat < 2 := by
      by_contra! hge
      have hle : 2 ^ (32 * N) * 2 ≤ 2 ^ (32 * N) * t.borrow.toNat := Nat.mul_le_mul_left _ hge
      omega
    omega

lemma Trial.valid_mulSubOverflow {a bShifted : List UInt32} {N : Nat} {digit : UInt32}
    (ha : a.length = N) (hlen : bShifted.length = N)
    (hle : Limb.value a / Limb.value bShifted ≤ digit.toNat) :
    Trial.Valid ⟨(mulSubOverflow a bShifted digit).1, digit, (mulSubOverflow a bShifted digit).2⟩ N
      (Limb.value bShifted) (Limb.value a % Limb.value bShifted)
      (Limb.value a / Limb.value bShifted)
      (digit.toNat - Limb.value a / Limb.value bShifted) := by
  have hsub := mulSubOverflow_spec digit (ha.trans hlen.symm)
  have hdiv := Nat.div_add_mod (Limb.value a) (Limb.value bShifted)
  rw [ha] at hsub
  refine ⟨(length_mulAccumulate ..).trans ha, ?_, (Nat.add_sub_cancel' hle).symm⟩
  rw [Nat.cast_sub hle]
  zify at hsub hdiv
  push_cast
  linear_combination hsub - hdiv

lemma Trial.Valid.round {bShifted : List UInt32} {t : Trial} {N R digit e : Nat}
    (h : t.Valid N (Limb.value bShifted) R digit (e + 1)) (hlen : bShifted.length = N)
    (hborrow : t.borrow.toNat = 1) (hD : Limb.value bShifted ≤ 2 ^ (32 * N)) :
    Trial.Valid ⟨(mulAddOverflow t.a bShifted 1).1, t.digit - 1,
      t.borrow - (mulAddOverflow t.a bShifted 1).2⟩ N (Limb.value bShifted) R digit e := by
  have hsum := mulAddOverflow_spec 1 (h.length_eq.trans hlen.symm)
  have hlt := value32_lt t.a
  rw [h.length_eq] at hsum hlt
  rw [UInt32.toNat_one, Nat.mul_one] at hsum
  have hcarry : (mulAddOverflow t.a bShifted 1).2.toNat ≤ 1 := by
    by_contra! hge
    have hle : 2 ^ (32 * N) * 2 ≤ 2 ^ (32 * N) * (mulAddOverflow t.a bShifted 1).2.toNat :=
      Nat.mul_le_mul_left _ hge
    omega
  refine ⟨(length_mulAccumulate ..).trans h.length_eq, ?_, ?_⟩
  · have hsub : (t.borrow - (mulAddOverflow t.a bShifted 1).2).toNat =
        t.borrow.toNat - (mulAddOverflow t.a bShifted 1).2.toNat := by
      rw [UInt32.toNat_sub]
      omega
    have hvalue := h.value_eq
    rw [hsub, Nat.cast_sub (hborrow ▸ hcarry)]
    zify at hsum
    push_cast at hvalue
    linear_combination hsum + hvalue
  · have hdigit := h.digit_eq
    have hlt' := t.digit.toNat_lt
    rw [UInt32.toNat_sub, UInt32.toNat_one]
    omega

lemma correct_spec {bShifted : List UInt32} {N R digit counter e : Nat} {t : Trial}
    (hlen : bShifted.length = N) (hR : R < Limb.value bShifted)
    (hroom : counter * Limb.value bShifted ≤ 2 ^ (32 * N))
    (ht : t.Valid N (Limb.value bShifted) R digit e) (he : e ≤ counter) :
    ∃ t', correct bShifted counter t = some t' ∧ t'.Valid N (Limb.value bShifted) R digit 0 := by
  induction counter generalizing t e with
  | zero =>
    obtain rfl := Nat.le_zero.mp he
    have hborrow := ht.borrow_eq hR (by simp)
    rw [if_pos rfl, ← UInt32.toNat_zero, UInt32.toNat_inj] at hborrow
    refine ⟨t, ?_, ht⟩
    rw [correct, if_neg (not_not.mpr hborrow)]
  | succ counter ih =>
    have hroom' : counter * Limb.value bShifted ≤ 2 ^ (32 * N) :=
      (Nat.mul_le_mul_right _ (Nat.le_succ counter)).trans hroom
    have hborrow := ht.borrow_eq hR ((Nat.mul_le_mul_right _ he).trans hroom)
    rw [correct]
    cases e with
    | zero =>
      rw [if_pos rfl, ← UInt32.toNat_zero, UInt32.toNat_inj] at hborrow
      rw [if_neg (not_not.mpr hborrow)]
      exact ⟨t, rfl, ht⟩
    | succ e =>
      rw [if_neg (Nat.succ_ne_zero e)] at hborrow
      have hne : t.borrow ≠ 0 := by
        rintro hzero
        rw [hzero] at hborrow
        exact absurd hborrow (by decide)
      have hD : Limb.value bShifted ≤ 2 ^ (32 * N) := by
        have hle : 1 * Limb.value bShifted ≤ (counter + 1) * Limb.value bShifted :=
          Nat.mul_le_mul_right _ (Nat.le_add_left 1 counter)
        omega
      rw [if_pos hne]
      exact ih hroom' (ht.round hlen hborrow hD) (Nat.le_of_succ_le_succ he)

/-! ### The digits of the quotient -/

/-- The digits of a divisor whose first bit is set. -/
structure Normalized (b : List UInt32) (n : Nat) : Prop where
  length_eq : b.length = n
  pos : 0 < n
  le_top : 2 ^ 31 ≤ (b.getD (n - 1) 0).toNat

lemma toNat_getD32 (ws : List UInt32) (i : Nat) :
    (ws.getD i 0).toNat = Limb.value ws / 2 ^ (32 * i) % 2 ^ 32 := Limb.toNat_getD ws i

lemma toNat_getD_last {ws : List UInt32} {n : Nat} (h : ws.length = n) (hpos : 0 < n) :
    (ws.getD (n - 1) 0).toNat = Limb.value ws / 2 ^ (32 * (n - 1)) := by
  obtain ⟨k, rfl⟩ : ∃ k, n = k + 1 := ⟨n - 1, by omega⟩
  have hlt := value32_lt ws
  rw [h, two_pow_succ_halfWords, Nat.mul_comm] at hlt
  rw [toNat_getD32, Nat.add_sub_cancel]
  exact Nat.mod_eq_of_lt (Nat.div_lt_of_lt_mul hlt)

section Digits

variable {a b q : List UInt32} {n m j : Nat}

lemma length_append_zeros (hb : b.length = n) (m : Nat) :
    (b ++ List.replicate m (0 : UInt32)).length = n + m := by
  rw [List.length_append, List.length_replicate, hb]

lemma length_shiftedDivisor (hb : b.length = n) (hj : j ≤ m) :
    (shiftedDivisor b m j).length = n + m := by
  have hlen := length_append_zeros hb m
  rw [shiftedDivisor, length_shiftLeft, hlen]
  rw [hlen]
  change j * 32 / 32 ≤ n + m
  omega

lemma value_shiftedDivisor (hb : b.length = n) (hj : j ≤ m) :
    Limb.value (shiftedDivisor b m j) = Limb.value b * 2 ^ (32 * j) := by
  have hlen := length_append_zeros hb m
  have hlt := value32_lt b
  have hshift : j * 32 / Limb.bits UInt32 ≤ (b ++ List.replicate m (0 : UInt32)).length := by
    rw [hlen]
    change j * 32 / 32 ≤ n + m
    omega
  have hzeros : Limb.value (List.replicate m (0 : UInt32)) = 0 := Limb.value_replicate_zero m
  have hprod : Limb.value b * 2 ^ (32 * j) < 2 ^ (32 * (n + m)) := by
    calc Limb.value b * 2 ^ (32 * j) < 2 ^ (32 * n) * 2 ^ (32 * j) :=
          Nat.mul_lt_mul_of_pos_right (hb ▸ hlt) (Nat.two_pow_pos _)
      _ = 2 ^ (32 * (n + j)) := by rw [← pow_add, Nat.mul_add]
      _ ≤ 2 ^ (32 * (n + m)) := Nat.pow_le_pow_right (by decide) (by omega)
  rw [shiftedDivisor, value_shiftLeft hshift, hlen, Limb.value_append, hzeros, Nat.mul_zero,
    Nat.add_zero, Nat.mul_comm j]
  exact Nat.mod_eq_of_lt hprod

lemma toNat_combineLoHi_getD (hpos : 0 < n) (hlt : Limb.value a < 2 ^ (32 * (n + j + 1))) :
    (combineLoHi ⟨a.getD (n + j - 1) 0, a.getD (n + j) 0⟩).toNat =
      Limb.value a / 2 ^ (32 * (n + j - 1)) := by
  obtain ⟨k, hk⟩ : ∃ k, n + j = k + 1 := ⟨n + j - 1, by omega⟩
  rw [hk] at hlt ⊢
  rw [Nat.add_sub_cancel, toNat_combineLoHi, LoHi.toNat, toNat_getD32, toNat_getD32,
    two_pow_succ_halfWords, Nat.mul_comm (2 ^ 32) (2 ^ (32 * k)), ← Nat.div_div_eq_div_mul]
  have hupper : Limb.value a / 2 ^ (32 * k) / 2 ^ 32 < 2 ^ 32 := by
    rw [Nat.div_div_eq_div_mul]
    apply Nat.div_lt_of_lt_mul
    rw [two_pow_succ_halfWords, two_pow_succ_halfWords] at hlt
    calc Limb.value a < 2 ^ 32 * (2 ^ 32 * 2 ^ (32 * k)) := hlt
      _ = 2 ^ (32 * k) * 2 ^ 32 * 2 ^ 32 := by ring
  rw [Nat.mod_eq_of_lt hupper]
  exact Nat.mod_add_div _ _

lemma toNat_estimate (quotient : UInt64) :
    (estimate quotient).toNat = min quotient.toNat (2 ^ 32 - 1) := by
  have hhalves := toNat_getLoHi quotient
  have hlo := (getLoHi quotient).lo.toNat_lt
  rw [LoHi.toNat] at hhalves
  rw [estimate]
  split_ifs with hhi
  · have hne : (getLoHi quotient).hi.toNat ≠ 0 := by
      intro hzero
      exact hhi (UInt32.toNat_inj.mp hzero)
    have hones : (~~~0 : UInt32).toNat = 2 ^ 32 - 1 := by decide
    rw [hones, min_eq_right (by omega)]
  · rw [not_not.mp hhi, UInt32.toNat_zero] at hhalves
    rw [min_eq_left (by omega)]
    omega

lemma Normalized.top_mul_le (hb : Normalized b n) (j : Nat) :
    (b.getD (n - 1) 0).toNat * 2 ^ (32 * (n + j - 1)) ≤ Limb.value b * 2 ^ (32 * j) ∧
      Limb.value b * 2 ^ (32 * j) <
        ((b.getD (n - 1) 0).toNat + 1) * 2 ^ (32 * (n + j - 1)) := by
  have hpos := hb.pos
  have hM : 2 ^ (32 * (n + j - 1)) = 2 ^ (32 * (n - 1)) * 2 ^ (32 * j) := by
    rw [← pow_add]
    congr 1
    omega
  rw [hM, ← Nat.mul_assoc, ← Nat.mul_assoc, toNat_getD_last hb.length_eq hpos]
  constructor
  · exact Nat.mul_le_mul_right _ (Nat.div_mul_le_self _ _)
  · exact Nat.mul_lt_mul_of_pos_right
      (Nat.lt_mul_of_div_lt (Nat.lt_succ_self _) (Nat.two_pow_pos _)) (Nat.two_pow_pos _)

lemma toNat_estimate_eq (hpos : 0 < n) (hlt : Limb.value a < 2 ^ (32 * (n + j + 1))) :
    (estimate (combineLoHi ⟨a.getD (n + j - 1) 0, a.getD (n + j) 0⟩ /
        (b.getD (n - 1) 0).toUInt64)).toNat =
      LongDivision.trialDigit (2 ^ 32) (2 ^ (32 * (n + j - 1))) (b.getD (n - 1) 0).toNat
        (Limb.value a) := by
  rw [toNat_estimate, UInt64.toNat_div, toNat_combineLoHi_getD hpos hlt, UInt32.toNat_toUInt64]
  rfl

lemma divRemStep_spec (hb : Normalized b n) (hj : j < m) (ha : a.length = n + m)
    (hlt : Limb.value a < Limb.value b * 2 ^ (32 * (j + 1))) (q : List UInt32) :
    ∃ a' digit, divRemStep b n m (a, q) j = some (a', q.set j digit) ∧ a'.length = n + m ∧
      Limb.value a' = Limb.value a % (Limb.value b * 2 ^ (32 * j)) ∧
      digit.toNat = Limb.value a / (Limb.value b * 2 ^ (32 * j)) := by
  have hpos := hb.pos
  have hvalue := value_shiftedDivisor (m := m) hb.length_eq hj.le
  have hlen := length_shiftedDivisor (m := m) hb.length_eq hj.le
  have hbval := value32_lt b
  have hnorm := hb.le_top
  obtain ⟨hlow, hhigh⟩ := hb.top_mul_le j
  rw [hb.length_eq] at hbval
  have hDlt : Limb.value b * 2 ^ (32 * j) < 2 ^ (32 * (n + j)) := by
    rw [Nat.mul_add, pow_add]
    exact Nat.mul_lt_mul_of_pos_right hbval (Nat.two_pow_pos _)
  rw [two_pow_succ_halfWords, Nat.mul_comm (2 ^ 32) (2 ^ (32 * j)), ← Nat.mul_assoc] at hlt
  have halt : Limb.value a < 2 ^ (32 * (n + j + 1)) := by
    rw [two_pow_succ_halfWords, Nat.mul_comm]
    exact hlt.trans (Nat.mul_lt_mul_of_pos_right hDlt (by decide))
  have hdigit := toNat_estimate_eq (b := b) hpos halt
  have hroom : 2 * (Limb.value b * 2 ^ (32 * j)) ≤ 2 ^ (32 * (n + m)) := by
    calc 2 * (Limb.value b * 2 ^ (32 * j)) ≤ 2 ^ 32 * 2 ^ (32 * (n + j)) :=
          Nat.mul_le_mul (by decide) hDlt.le
      _ = 2 ^ (32 * (n + j + 1)) := (two_pow_succ_halfWords _).symm
      _ ≤ 2 ^ (32 * (n + m)) := Nat.pow_le_pow_right (by decide) (by omega)
  have hMpos : 0 < 2 ^ (32 * (n + j - 1)) := Nat.two_pow_pos _
  generalize 2 ^ (32 * (n + j - 1)) = M at *
  have hle := LongDivision.div_le_trialDigit (by omega) hMpos hlow hlt
  have hge := LongDivision.trialDigit_le (A := Limb.value a) (β := 2 ^ 32) (by omega) hMpos
    (by omega) hlow hhigh
  rw [← hdigit] at hle hge
  rw [divRemStep]
  generalize estimate (combineLoHi ⟨a.getD (n + j - 1) 0, a.getD (n + j) 0⟩ /
    (b.getD (n - 1) 0).toUInt64) = digit at *
  have hvalid := Trial.valid_mulSubOverflow ha hlen (hvalue ▸ hle)
  have hround : maxCounter * Limb.value (shiftedDivisor b m j) ≤ 2 ^ (32 * (n + m)) := by
    rw [hvalue]
    exact hroom
  obtain ⟨t, hcorrect, ht⟩ := correct_spec hlen (Nat.mod_lt _ (by omega)) hround hvalid
    (by rw [hvalue, maxCounter]; omega)
  have hborrow := ht.borrow_eq (Nat.mod_lt _ (by omega)) (by rw [Nat.zero_mul]; exact Nat.zero_le _)
  have hrest := ht.value_eq
  rw [if_pos rfl] at hborrow
  rw [hborrow, hvalue] at hrest
  refine ⟨t.a, t.digit, ?_, ht.length_eq, ?_, ?_⟩
  · simp only [hcorrect, Option.map_some]
  · zify
    simpa using hrest
  · have hdigit' := ht.digit_eq
    rwa [Nat.add_zero, hvalue] at hdigit'

lemma value32_set {i : Nat} (hi : i < q.length) (hzero : q.getD i 0 = 0) (w : UInt32) :
    Limb.value (q.set i w) = Limb.value q + 2 ^ (32 * i) * w.toNat := by
  have hset : Limb.value (q.set i w) + 2 ^ (32 * i) * (q.getD i 0).toNat =
      Limb.value q + 2 ^ (32 * i) * w.toNat := Limb.value_set hi w
  rwa [hzero, UInt32.toNat_zero, Nat.mul_zero, Nat.add_zero] at hset

lemma foldlM_divRemStep_spec (hb : Normalized b n) {k : Nat} (hk : k ≤ m) (ha : a.length = n + m)
    (hlt : Limb.value a < Limb.value b * 2 ^ (32 * k)) (hq : k ≤ q.length)
    (hzero : ∀ i < k, q.getD i 0 = 0) :
    ∃ a' q', (List.range k).reverse.foldlM (divRemStep b n m) (a, q) = some (a', q') ∧
      a'.length = n + m ∧ q'.length = q.length ∧ (∀ i, k ≤ i → q'.getD i 0 = q.getD i 0) ∧
      Limb.value q' * Limb.value b + Limb.value a' = Limb.value q * Limb.value b + Limb.value a ∧
      Limb.value a' < Limb.value b := by
  induction k generalizing a q with
  | zero =>
    rw [Nat.mul_zero, pow_zero, Nat.mul_one] at hlt
    exact ⟨a, q, rfl, ha, rfl, fun _ _ => rfl, rfl, hlt⟩
  | succ k ih =>
    obtain ⟨a₁, digit, hstep, ha₁, hrem, hdigit⟩ := divRemStep_spec hb hk ha hlt q
    have hD : 0 < Limb.value b * 2 ^ (32 * k) := by
      rw [two_pow_succ_halfWords] at hlt
      by_contra! hle
      have hprod : Limb.value b * (2 ^ 32 * 2 ^ (32 * k)) =
          2 ^ 32 * (Limb.value b * 2 ^ (32 * k)) := by ring
      omega
    have hlt₁ : Limb.value a₁ < Limb.value b * 2 ^ (32 * k) := hrem ▸ Nat.mod_lt _ hD
    have hget : ∀ i, i ≠ k → (q.set k digit).getD i 0 = q.getD i 0 := by
      intro i hi
      rw [getD_set, if_neg (fun h => hi h.1.symm)]
    obtain ⟨a', q', hrun, ha', hq', hkeep, hsum, hlast⟩ := ih (Nat.le_of_succ_le hk) ha₁ hlt₁
      (by rw [List.length_set]; omega) (fun i hi => (hget i hi.ne).trans (hzero i (by omega)))
    refine ⟨a', q', ?_, ha', hq'.trans List.length_set, ?_, ?_, hlast⟩
    · rw [List.range_succ, List.reverse_append, List.reverse_singleton, List.singleton_append,
        List.foldlM_cons, hstep]
      exact hrun
    · intro i hi
      rw [hkeep i (by omega), hget i (by omega)]
    · have hdiv := Nat.div_add_mod (Limb.value a) (Limb.value b * 2 ^ (32 * k))
      rw [hsum, value32_set (by omega) (hzero k (Nat.lt_succ_self k)), hrem, hdigit]
      calc (Limb.value q + 2 ^ (32 * k) * (Limb.value a / (Limb.value b * 2 ^ (32 * k)))) *
              Limb.value b + Limb.value a % (Limb.value b * 2 ^ (32 * k))
          = Limb.value q * Limb.value b +
            (Limb.value b * 2 ^ (32 * k) * (Limb.value a / (Limb.value b * 2 ^ (32 * k))) +
              Limb.value a % (Limb.value b * 2 ^ (32 * k))) := by ring
        _ = Limb.value q * Limb.value b + Limb.value a := by rw [hdiv]

lemma topDigit_eq (hb : Normalized b n) (ha : a.length = n + m) (hfit : (n + m + 1) * 32 ≤ 2 ^ 16)
    (hlt : Limb.value a < Limb.value b * 2 ^ (32 * m)) : topDigit a b n m = (a, 0) := by
  have hpos := hb.pos
  have hlen := length_shiftedDivisor (m := m) hb.length_eq (le_refl m)
  have hD := value32_lt (shiftedDivisor b m m)
  have haval := value32_lt a
  have hmod : (n + m) * 32 % 2 ^ 16 = (n + m) * 32 := Nat.mod_eq_of_lt (by omega)
  have hmask : ∀ x : UInt32, Limb.toNat x &&&
      (kAllOnes >>> UInt64.ofNat (Limb.bits UInt32 - (n + m) * 32 % Limb.bits UInt32)).toNat =
        Limb.toNat x % 2 ^ ((n + m) * 32 - Limb.bits UInt32 * (n + m - 1)) := by
    intro x
    have hones : (kAllOnes >>> UInt64.ofNat (Limb.bits UInt32 - (n + m) * 32 % Limb.bits UInt32)).toNat
        = 2 ^ 32 - 1 := by
      have hzero : Limb.bits UInt32 - (n + m) * 32 % Limb.bits UInt32 = 32 := by
        change 32 - (n + m) * 32 % 32 = 32
        omega
      rw [hzero]
      decide
    have hexp : (n + m) * 32 - Limb.bits UInt32 * (n + m - 1) = 32 := by
      change (n + m) * 32 - 32 * (n + m - 1) = 32
      omega
    rw [hones, hexp, Nat.and_two_pow_sub_one_eq_mod]
  have hcmp : bitwiseCompare a (shiftedDivisor b m m) ((n + m) * 32) = cmpNat _ _ :=
    bitwiseCompare_eq (n := n + m - 1) (by omega) (by omega) (by change 32 * _ < _; omega)
      (by change _ ≤ 32 * _; omega) (by change _ + 32 ≤ _; omega) hmask
  rw [hlen, Nat.mul_comm] at hD
  rw [ha, Nat.mul_comm] at haval
  rw [Nat.mod_eq_of_lt haval, Nat.mod_eq_of_lt hD, value_shiftedDivisor hb.length_eq (le_refl m),
    cmpNat, if_pos hlt] at hcmp
  rw [topDigit, hmod]
  exact if_pos (by rw [hcmp]; decide)

/-- The division of a number by a normalized one: the loop that corrects a digit is left in time,
and the digit `q[m]` is zero. -/
lemma basecaseDivRem_spec (hb : Normalized b n) (ha : a.length = n + m)
    (hfit : (n + m + 1) * 32 ≤ 2 ^ 16) (hlt : Limb.value a < Limb.value b * 2 ^ (32 * m)) :
    ∃ r q, basecaseDivRem a b n m = some (r, q) ∧ r.length = n + m ∧ q.length = m + 1 ∧
      q.getD m 0 = 0 ∧ Limb.value q * Limb.value b + Limb.value r = Limb.value a ∧
      Limb.value r < Limb.value b := by
  have hset : (List.replicate (m + 1) (0 : UInt32)).set m 0 = List.replicate (m + 1) 0 :=
    List.set_replicate_self
  have hzeros : ∀ i, (List.replicate (m + 1) (0 : UInt32)).getD i 0 = 0 := by
    intro i
    rw [List.getD_eq_getElem?_getD, List.getElem?_replicate]
    split_ifs <;> rfl
  have hvalue : Limb.value (List.replicate (m + 1) (0 : UInt32)) = 0 :=
    Limb.value_replicate_zero _
  obtain ⟨r, q, hrun, hr, hq, hkeep, hsum, hlast⟩ := foldlM_divRemStep_spec hb (le_refl m) ha hlt
    (q := List.replicate (m + 1) 0) (by simp) (fun i _ => hzeros i)
  refine ⟨r, q, ?_, hr, by simpa using hq, (hkeep m (le_refl m)).trans (hzeros m), ?_, hlast⟩
  · rw [basecaseDivRem, topDigit_eq hb ha hfit hlt, hset]
    exact hrun
  · rwa [hvalue, Nat.zero_mul, Nat.zero_add] at hsum

end Digits

end IntVal
end Maple
