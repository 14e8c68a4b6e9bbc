import Maple.Util.IntVal.Division

/-!
# Exact division of `IntVal`

The signs of a truncated division, and when the quotient and the remainder are right.
-/

namespace Maple
namespace IntVal

open Words

/-! ### Truncated division -/

/-- A number with a sign. -/
def applySign (neg : Bool) (v : Nat) : Int := if neg then -v else v

lemma applySign_zero (neg : Bool) : applySign neg 0 = 0 := by
  cases neg <;> rfl

lemma applySign_natAbs (x : Int) : applySign (decide (x < 0)) x.natAbs = x := by
  rw [applySign]
  split_ifs with h
  · have hneg := of_decide_eq_true h
    omega
  · have hneg := of_decide_eq_false (Bool.not_eq_true _ ▸ h)
    omega

lemma tdiv_applySign (s t : Bool) (m n : Nat) :
    (applySign s m).tdiv (applySign t n) = applySign (t != s) (m / n) := by
  cases s <;> cases t <;> simp [applySign]

lemma tmod_applySign (s t : Bool) (m n : Nat) :
    (applySign s m).tmod (applySign t n) = applySign s (m % n) := by
  cases s <;> cases t <;> simp [applySign, Int.tmod_eq_emod_of_nonneg]

lemma tdiv_eq_applySign (x y : Int) :
    x.tdiv y = applySign (decide (y < 0) != decide (x < 0)) (x.natAbs / y.natAbs) := by
  conv_lhs => rw [← applySign_natAbs x, ← applySign_natAbs y, tdiv_applySign]

lemma tmod_eq_applySign (x y : Int) :
    x.tmod y = applySign (decide (x < 0)) (x.natAbs % y.natAbs) := by
  conv_lhs => rw [← applySign_natAbs x, ← applySign_natAbs y, tmod_applySign]

lemma shape_ite_neg (a : IntVal) (neg : Bool) : (if neg then a.neg else a).shape = a.shape := by
  cases neg with
  | false => rfl
  | true =>
    rw [if_pos rfl, IntVal.neg]
    split_ifs <;> rfl

section Signed

variable {a b : IntVal}

lemma negative_eq (ha : a.Canonical) (hcap : a.width ≤ a.storageBits) :
    (a.sign && a.getSignBit) = decide (a.toInt < 0) := by
  have hiff := toInt_nonneg_iff ha hcap
  cases hneg : (a.sign && a.getSignBit) with
  | false => exact (decide_eq_false (not_lt.mpr (hiff.mpr hneg))).symm
  | true =>
    rw [hneg] at hiff
    exact (decide_eq_true (not_le.mp (mt hiff.mp (by decide)))).symm

variable (hone : ¬a.IsOneWord) (ha : a.Canonical) (hfull : a.storageBits = a.width)

include hone ha hfull

lemma value_neg_eq (neg : Bool) :
    ((if neg then a.neg else a).value : Int) = applySign neg a.value % 2 ^ a.width := by
  have hbits : a.resultBits = a.width := by
    rw [resultBits, if_neg hone]
    exact hfull
  cases neg with
  | false => exact (value_emod_width ha).symm
  | true =>
    rw [← hbits]
    exact value_neg

lemma abs_spec : a.abs.width = a.width ∧ a.abs.sign = false ∧ a.abs.value = a.toInt.natAbs := by
  have hneg := negative_eq ha hfull.ge
  have hlt : (a.value : Int) < 2 ^ a.width := by exact_mod_cast ha
  rw [abs]
  cases hsign : a.sign with
  | false =>
    rw [hsign, Bool.false_and] at hneg
    have hge : 0 ≤ a.toInt := not_lt.mp (of_decide_eq_false hneg.symm)
    refine ⟨rfl, hsign, ?_⟩
    rw [toInt_of_nonneg ha hge]
    exact value_copy ha
  | true =>
    rw [hsign, Bool.true_and] at hneg
    have hcopy : (a.withSign false).copy = a.withSign false := copy_eq ha
    have hshape := shape_ite_neg (a.withSign false) (decide (a.toInt < 0))
    rw [Bool.not_true, if_neg Bool.false_ne_true, hneg]
    dsimp only
    rw [hcopy]
    refine ⟨congrArg Shape.width hshape, congrArg Shape.sign hshape, ?_⟩
    zify
    rw [value_neg_eq (a := a.withSign false) hone ha hfull, applySign]
    have hvalue : (a.withSign false).value = a.value := rfl
    have hwidth : (a.withSign false).width = a.width := rfl
    rw [hvalue, hwidth]
    split_ifs with hlt'
    · have hneg' := of_decide_eq_true hlt'
      have heq := toInt_of_neg ha hneg'
      have hpos : a.value ≠ 0 := by
        intro hzero
        rw [toInt_eq ha, hzero, Nat.zero_testBit] at hneg'
        simp at hneg'
      rw [abs_of_neg hneg', ← Int.add_emod_right, Int.emod_eq_of_lt (by omega) (by omega), heq]
      ring
    · have hge := not_lt.mp (of_decide_eq_false (Bool.not_eq_true _ ▸ hlt'))
      rw [abs_of_nonneg hge, toInt_of_nonneg ha hge]
      exact value_emod_width ha

omit hone ha hfull in
lemma storageBits_eq_of_width (h : a.width = b.width) : a.storageBits = b.storageBits :=
  congrArg (kWordBitSize * ·) (length_eq_of_width h)

omit hone ha in
include hfull in
lemma canonical_of_width (h : b.width = a.width) : b.Canonical := by
  have hlt := b.value_lt
  rwa [storageBits_eq_of_width h, hfull, ← h] at hlt

omit ha in
lemma represents_withSign {r : IntVal} (hwidth : r.width = a.width) (neg : Bool) :
    Represents (if neg then (r.withSign a.sign).neg else r.withSign a.sign) a.shape
      (applySign neg r.value) where
  shape_eq := by
    rw [shape_ite_neg]
    simp [shape, withSign, hwidth]
  width_le := by
    rw [capacity_shape]
    exact hfull.ge
  value_eq := by
    have hone' : ¬(r.withSign a.sign).IsOneWord := by
      rw [IsOneWord]
      exact hwidth ▸ hone
    have hfull' : (r.withSign a.sign).storageBits = (r.withSign a.sign).width := by
      rw [storageBits_eq_of_width (a := r.withSign a.sign) (b := a) hwidth, hfull]
      exact hwidth.symm
    have hvalue := value_neg_eq hone' (canonical_of_width hfull hwidth) hfull' neg
    rw [hvalue]
    have hwidth' : (r.withSign a.sign).width = a.shape.width := hwidth
    rw [hwidth']
    rfl

omit ha in
lemma represents_ofNumber {neg : Bool} (hneg : neg = true → a.sign = true) :
    Represents (ofNumber a.shape (if neg then kAllOnes else 1)) a.shape (applySign neg 1) where
  shape_eq := rfl
  width_le := by
    rw [capacity_shape]
    exact hfull.ge
  value_eq := by
    have hgt : 64 < a.width := not_le.mp hone
    have hwidth : a.shape.width = a.width := rfl
    have hpow : (2 : Int) ^ 64 < 2 ^ a.width := pow_lt_pow_right₀ (by decide) hgt
    rw [value_ofNumber (isOneWord_shape.not.mpr hone), capacity_shape, hfull, hwidth]
    cases neg with
    | false =>
      have hlow : decide ((1 : UInt64).toInt64 < 0) = false := by decide
      simp only [Bool.false_eq_true, ↓reduceIte, hlow, Bool.and_false, applySign]
      rw [Int.emod_eq_of_lt (by decide) (by norm_cast at hpow ⊢; omega)]
      rfl
    | true =>
      have hhigh : decide (kAllOnes.toInt64 < 0) = true := by decide
      have hsign : a.shape.sign = true := hneg rfl
      have hones : kAllOnes.toNat = 2 ^ 64 - 1 := by decide
      simp only [↓reduceIte, hhigh, hsign, Bool.and_self, applySign, hones]
      have hpow' : 2 ^ 64 < 2 ^ a.width := Nat.pow_lt_pow_right (by decide) hgt
      have hsum : 2 ^ 64 - 1 + (2 ^ a.width - 2 ^ 64) = 2 ^ a.width - 1 := by omega
      rw [← Int.add_emod_right, Int.emod_eq_of_lt (by omega) (by omega), hsum,
        Nat.cast_sub (by omega)]
      push_cast
      ring

omit ha in
lemma represents_zero (neg : Bool) :
    (ofNumber a.shape 0).Represents a.shape (applySign neg 0) where
  shape_eq := rfl
  width_le := by
    rw [capacity_shape]
    exact hfull.ge
  value_eq := by
    have hlow : decide ((0 : UInt64).toInt64 < 0) = false := by decide
    rw [value_ofNumber (isOneWord_shape.not.mpr hone), hlow, Bool.and_false, applySign_zero,
      Int.zero_emod]
    rfl

omit hone in
lemma wideLess_spec (hshape : a.shape = b.shape) (hsign : a.sign = false)
    (hmod : a.width % 64 = 0) : wideLess a b = some (decide (a.value < b.value)) := by
  have hwidth : a.width = b.width := congrArg Shape.width hshape
  have hsign' : b.sign = false := (congrArg Shape.sign hshape).symm.trans hsign
  have hb : b.Canonical := canonical_of_width hfull hwidth.symm
  have hlen := length_eq_of_width hwidth
  have hlt : a.words.length < 2 ^ 8 := by
    rw [a.words_length]
    exact Nat.mod_lt _ (by decide)
  have hbits : 64 * a.words.length = a.width := hfull
  have hread : (a.width + kWordBitSize - 1) % 2 ^ 16 / kWordBitSize ≤
      min a.words.length b.words.length := by
    rw [← hlen, min_self, kWordBitSize]
    omega
  have hiff := lt_iff hshape ha hb hfull.ge
  rw [toInt_eq_value ha hsign, toInt_eq_value hb hsign', Nat.cast_lt] at hiff
  rw [wideLess, if_pos hread]
  exact congrArg some (Bool.eq_iff_iff.mpr (hiff.trans decide_eq_true_iff.symm))

lemma abs_operands (hshape : a.shape = b.shape) :
    a.abs.shape = b.abs.shape ∧ a.abs.sign = false ∧ a.abs.width = a.width ∧
      a.abs.storageBits = a.abs.width ∧ a.abs.Canonical ∧ b.abs.Canonical ∧
      a.abs.storageBits + 64 ≤ 2 ^ 16 ∧ a.abs.value = a.toInt.natAbs ∧
      b.abs.value = b.toInt.natAbs := by
  have hwidth : a.width = b.width := congrArg Shape.width hshape
  have hfullb : b.storageBits = b.width := by
    rw [← storageBits_eq_of_width hwidth, hfull, hwidth]
  have hcanonb : b.Canonical := canonical_of_width hfull hwidth.symm
  have honeb : ¬b.IsOneWord := by
    rw [IsOneWord, ← hwidth]
    exact hone
  obtain ⟨hxw, hxs, hxv⟩ := abs_spec hone ha hfull
  obtain ⟨hyw, hys, hyv⟩ := abs_spec honeb hcanonb hfullb
  have hlen : a.abs.words.length < 2 ^ 8 := by
    rw [a.abs.words_length]
    exact Nat.mod_lt _ (by decide)
  refine ⟨?_, hxs, hxw, ?_, canonical_of_width hfull hxw, canonical_of_width hfullb hyw, ?_, hxv,
    hyv⟩
  · simp [shape, hxw, hyw, hxs, hys, hwidth]
  · rw [storageBits_eq_of_width hxw, hfull, hxw]
  · change 64 * a.abs.words.length + 64 ≤ 2 ^ 16
    omega

lemma wideDivRem_spec (hshape : a.shape = b.shape) (hmod : a.width % 64 = 0) (hb : b.toInt ≠ 0) :
    ∃ q r, wideDivRem a b = some (q, r) ∧ q.Represents a.shape (a.toInt.tdiv b.toInt) ∧
      r.Represents a.shape (a.toInt.tmod b.toInt) := by
  have hwidth : a.width = b.width := congrArg Shape.width hshape
  have hsign : a.sign = b.sign := congrArg Shape.sign hshape
  have hfullb : b.storageBits = b.width := by
    rw [← storageBits_eq_of_width hwidth, hfull, hwidth]
  obtain ⟨hxy, hxs, hxw, hxfull, hxcanon, hycanon, hroom, hxv, hyv⟩ :=
    abs_operands hone ha hfull hshape
  have hnega := negative_eq ha hfull.ge
  have hnegb := negative_eq (canonical_of_width hfull hwidth.symm) hfullb.ge
  have hless := wideLess_spec hxcanon hxfull hxy hxs (hxw ▸ hmod)
  have hself := represents_self ha hfull.ge
  rw [wideDivRem, hnega, hnegb, tdiv_eq_applySign, tmod_eq_applySign]
  simp only [hless, Option.bind_eq_bind, Option.bind_some]
  rw [hxv, hyv]
  have hsame : (decide (b.toInt < 0) != decide (a.toInt < 0)) = true → a.sign = true := by
    intro hne
    by_contra hfalse
    rw [Bool.not_eq_true] at hfalse
    rw [hfalse, Bool.false_and] at hnega
    rw [← hsign, hfalse, Bool.false_and] at hnegb
    rw [← hnega, ← hnegb] at hne
    exact absurd hne (by decide)
  by_cases hlt : a.toInt.natAbs < b.toInt.natAbs
  · rw [if_pos (decide_eq_true hlt), Nat.div_eq_of_lt hlt, Nat.mod_eq_of_lt hlt]
    refine ⟨_, _, rfl, represents_zero hone hfull _, ?_⟩
    rw [applySign_natAbs, copy_eq ha]
    exact hself
  · rw [if_neg (by simpa using hlt)]
    have heq_iff : a.abs.eq b.abs = true ↔ a.toInt.natAbs = b.toInt.natAbs := by
      rw [← hxv, ← hyv]
      exact eq_iff_value_eq (congrArg Shape.width hxy)
    by_cases heq : a.toInt.natAbs = b.toInt.natAbs
    · rw [if_pos (heq_iff.mpr heq), heq, Nat.div_self (Int.natAbs_pos.mpr hb), Nat.mod_self]
      exact ⟨_, _, rfl, represents_ofNumber hone hfull hsame, represents_zero hone hfull _⟩
    · rw [if_neg (mt heq_iff.mp heq)]
      obtain ⟨q, r, hrun, hqs, hrs, hqv, hrv⟩ := wideUnsignedDivRem_spec hxy hxs
        (by rw [IsOneWord, hxw]; exact hone) hxcanon hycanon hxfull.ge hroom
        (by rw [hyv]; exact Int.natAbs_ne_zero.mpr hb) (by rw [hxv, hyv]; exact not_lt.mp hlt)
      simp only [hrun, Option.bind_some]
      refine ⟨_, _, rfl, ?_, ?_⟩
      · have hq := represents_withSign hone hfull ((congrArg Shape.width hqs).trans hxw)
          (decide (b.toInt < 0) != decide (a.toInt < 0))
        rwa [hqv, hxv, hyv] at hq
      · have hr := represents_withSign hone hfull ((congrArg Shape.width hrs).trans hxw)
          (decide (a.toInt < 0))
        rwa [hrv, hxv, hyv] at hr

end Signed

/-! ### When the division is right -/

/-- The quotient and the remainder are those of a truncating division. No digit of the quotient of
the absolute values has to be corrected more than twice, and the one above them is zero. -/
structure DividesRight (a b : IntVal) : Prop where
  results : ∃ q r, a.div b = some q ∧ a.mod b = some r ∧ q.shape = a.shape ∧ r.shape = a.shape ∧
    a.toInt = q.toInt * b.toInt + r.toInt ∧ |r.toInt| < |b.toInt| ∧
    (r.toInt = 0 ∨ (r.toInt < 0 ↔ a.toInt < 0))
  digits : |b.toInt| ≤ |a.toInt| →
    let args := basecaseArgs a.abs b.abs
    ∃ r q, basecaseDivRem args.a args.b args.n args.m = some (r, q) ∧ q.getD args.m 0 = 0

lemma width_abs (a : IntVal) : a.abs.width = a.width := by
  rw [abs]
  split_ifs with hsign hneg
  · rfl
  · exact congrArg Shape.width (shape_ite_neg (a.withSign false) true)
  · rfl

lemma storageBits_eq_iff {a : IntVal} (hmod : a.width % 64 = 0) (hfit : a.width < 2 ^ 16) :
    (a.storageBits = a.width ↔ a.width ≤ 16320) ∧
      ((a.width + kWordBitSize - 1) % 2 ^ 16 / kWordBitSize ≤ a.words.length ↔
        a.width ≤ 16320) := by
  have hlen : a.words.length = (a.width + 64 - 1) / 64 % 2 ^ 8 := a.words_length
  have hbits : a.storageBits = 64 * a.words.length := rfl
  have hpos := List.length_pos_of_ne_nil a.words_ne_nil
  rw [hbits, kWordBitSize]
  omega

section Range

variable {f : IntFormat} {x y : Int} (hx : f.Mem x)

include hx

lemma mem_tdiv (hy : f.Mem y) (hmin : ¬(f.signed = true ∧ x = f.minValue ∧ y = -1)) :
    f.Mem (x.tdiv y) := by
  have hpos := f.modulus_pos'
  have habs : (x.tdiv y).natAbs = x.natAbs / y.natAbs := Int.natAbs_tdiv x y
  have hle : x.natAbs / y.natAbs ≤ x.natAbs := Nat.div_le_self _ _
  cases hsigned : f.signed with
  | false =>
    simp only [IntFormat.Mem, IntFormat.minValue, IntFormat.maxValue, hsigned, Bool.false_eq_true,
      ↓reduceIte] at hx hy ⊢
    have hnonneg := Int.tdiv_nonneg hx.1 hy.1
    omega
  | true =>
    simp only [IntFormat.Mem, IntFormat.minValue, IntFormat.maxValue, hsigned,
      ↓reduceIte, true_and] at hx hmin ⊢
    by_cases hone : y.natAbs = 1
    · rcases (by omega : y = 1 ∨ y = -1) with rfl | rfl
      · rwa [Int.tdiv_one]
      · rw [Int.tdiv_neg, Int.tdiv_one]
        omega
    · -- the quotient is at most half of the dividend
      have hhalf : x.natAbs / y.natAbs ≤ x.natAbs / 2 := by
        rcases Nat.eq_zero_or_pos y.natAbs with hzero | hy0
        · rw [hzero, Nat.div_zero]
          exact Nat.zero_le _
        · exact Nat.div_le_div_left (by omega) (by decide)
      omega

lemma mem_tmod (y : Int) : f.Mem (x.tmod y) := by
  have hmin := f.minValue_nonpos
  have hmax := f.maxValue_nonneg
  have hle : x.natAbs % y.natAbs ≤ x.natAbs := Nat.mod_le _ _
  rw [tmod_eq_applySign, applySign]
  unfold IntFormat.Mem at hx ⊢
  split_ifs with hneg
  · have hneg' := of_decide_eq_true hneg
    omega
  · have hge := of_decide_eq_false (Bool.not_eq_true _ ▸ hneg)
    omega

end Range

lemma minValue_shape {a : IntVal} (hsign : a.sign = true) :
    a.shape.format.minValue = -2 ^ (a.width - 1) := by
  have hsigned : a.shape.format.signed = true := hsign
  have hpow : (2 : Int) ^ a.width = 2 ^ (a.width - 1) * 2 := by
    rw [← pow_succ, Nat.sub_add_cancel a.width_pos]
  rw [IntFormat.minValue, if_pos hsigned, modulus_format]
  change -((2 : Int) ^ a.width / 2) = _
  rw [hpow, Int.mul_ediv_cancel _ (by decide)]

section Wide

variable {a b : IntVal} (hshape : a.shape = b.shape) (hwide : 128 ≤ a.width)
  (hmod : a.width % 64 = 0) (hfit : a.width < 2 ^ 16)

include hwide hmod hfit

lemma width_le_of_dividesRight (h : DividesRight a b) : a.width ≤ 16320 := by
  obtain ⟨q, -, hdiv, -⟩ := h.results
  have hone : ¬a.IsOneWord := by
    intro hle
    have hle' : a.width ≤ 64 := hle
    omega
  have hlen : a.abs.words.length = a.words.length := length_eq_of_width (width_abs a)
  rw [div, if_neg hone, wideDivRem] at hdiv
  by_contra hgt
  have hless : wideLess a.abs b.abs = none := by
    rw [wideLess, width_abs, if_neg]
    intro hread
    exact hgt ((storageBits_eq_iff hmod hfit).2.mp (hlen ▸ hread.trans (min_le_left _ _)))
  simp [hless] at hdiv

include hshape

/-- The division of values in several words is right exactly if their storage has all bits. -/
theorem dividesRight_iff (hb : b.toInt ≠ 0)
    (hmin : ¬(a.sign = true ∧ a.toInt = -2 ^ (a.width - 1) ∧ b.toInt = -1)) :
    DividesRight a b ↔ a.width ≤ 16320 := by
  refine ⟨width_le_of_dividesRight hwide hmod hfit, fun hle => ?_⟩
  have hone : ¬a.IsOneWord := by
    intro hle
    have hle' : a.width ≤ 64 := hle
    omega
  have hfull := (storageBits_eq_iff hmod hfit).1.mpr hle
  have ha : a.Canonical := canonical_of_width hfull rfl
  obtain ⟨hxy, hxs, hxw, hxfull, hxcanon, hycanon, hroom, hxv, hyv⟩ :=
    abs_operands hone ha hfull hshape
  obtain ⟨q, r, hrun, hq, hr⟩ := wideDivRem_spec hone ha hfull hshape hmod hb
  have hmema : a.shape.format.Mem a.toInt := IntFormat.wrap_mem _ _
  have hmemb : a.shape.format.Mem b.toInt := hshape ▸ IntFormat.wrap_mem _ _
  have hqint : q.toInt = a.toInt.tdiv b.toInt := by
    rw [hq.toInt_eq]
    apply IntFormat.wrap_of_mem
    apply mem_tdiv hmema hmemb
    rintro ⟨hsign, hx, hy⟩
    exact hmin ⟨hsign, hx.trans (minValue_shape hsign), hy⟩
  have hrint : r.toInt = a.toInt.tmod b.toInt := by
    rw [hr.toInt_eq]
    exact IntFormat.wrap_of_mem _ (mem_tmod hmema _)
  refine ⟨⟨q, r, ?_, ?_, hq.shape_eq, hr.shape_eq, ?_, ?_, ?_⟩, fun habs => ?_⟩
  · rw [div, if_neg hone, hrun]
    rfl
  · rw [mod, if_neg hone, hrun]
    rfl
  · rw [hqint, hrint]
    exact (Int.tdiv_mul_add_tmod _ _).symm
  · have hlt := Nat.mod_lt a.toInt.natAbs (Int.natAbs_pos.mpr hb)
    have habs := Int.natAbs_tmod a.toInt b.toInt
    rw [hrint, Int.abs_eq_natAbs, Int.abs_eq_natAbs]
    omega
  · rw [hrint, tmod_eq_applySign, applySign]
    split_ifs with hneg
    · have hneg' := of_decide_eq_true hneg
      omega
    · have hge := of_decide_eq_false (Bool.not_eq_true _ ▸ hneg)
      omega
  · obtain ⟨-, -, -, -, -, r, q, hbase, -, -, htop, -⟩ := basecaseDivRem_args hxy hxs hxcanon hycanon
      hxfull.ge hroom (by rw [hyv]; exact Int.natAbs_ne_zero.mpr hb)
      (by rw [hxv, hyv]; rw [Int.abs_eq_natAbs, Int.abs_eq_natAbs] at habs; omega)
    exact ⟨r, q, hbase, htop⟩

end Wide

/-- The type `PTY_i128`. -/
def i128 : Shape := ⟨128, true, Shape.pos_128, Shape.numWords_128⟩

theorem dividesRight_iff_i128 :
    DividesRight (ofNumber i128 18446744073709551609) (ofNumber i128 2) ↔
      (ofNumber i128 18446744073709551609).width ≤ 16320 :=
  dividesRight_iff rfl (by decide) (by decide) (by decide) (by decide) (by decide)

/-- Values of 257 words have storage for one, and they are not divided. -/
theorem not_dividesRight_16448 :
    ¬DividesRight ⟨16448, false, [7], by decide, by decide, by decide⟩
      ⟨16448, false, [2], by decide, by decide, by decide⟩ := by
  intro h
  have hle := width_le_of_dividesRight (by decide) (by decide) (by decide) h
  exact absurd hle (by decide)

end IntVal
end Maple
