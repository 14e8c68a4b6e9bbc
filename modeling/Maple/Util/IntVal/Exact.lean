import Maple.Util.IntVal.Operators
import Mathlib.Data.Int.ModEq

/-!
# Results modulo the width

The operators compute modulo the capacity of the storage. This is modulo the width in one word, and
in several words if these have no further bits.
-/

namespace Maple
namespace IntVal

open Words

/-! ### Two moduli -/

lemma emod_eq_emod_iff_of_nonneg {n w : Nat} {x : Int} (hx : 0 ≤ x) (hlt : x < 2 * 2 ^ min n w) :
    x % 2 ^ n = x % 2 ^ w ↔ n = w ∨ x < 2 ^ min n w := by
  have key : ∀ {n w : Nat}, n < w → x < 2 * 2 ^ n →
      (x % 2 ^ n = x % 2 ^ w ↔ x < 2 ^ n) := by
    intro n w hnw hlt
    have hle : (2 : Int) ^ (n + 1) ≤ 2 ^ w := pow_le_pow_right₀ (by decide) hnw
    rw [pow_succ] at hle
    have hpos : (0 : Int) < 2 ^ n := by positivity
    have hmod : x % 2 ^ w = x := Int.emod_eq_of_lt hx (by omega)
    have hrange := Int.emod_lt_of_pos x hpos
    rw [hmod]
    constructor
    · intro h
      omega
    · exact Int.emod_eq_of_lt hx
  rcases lt_trichotomy n w with hnw | rfl | hwn
  · rw [min_eq_left hnw.le] at hlt ⊢
    rw [key hnw hlt, or_iff_right hnw.ne]
  · simp
  · rw [min_eq_right hwn.le] at hlt ⊢
    rw [eq_comm, key hwn hlt, or_iff_right hwn.ne']

lemma emod_eq_emod_iff_of_neg {n w : Nat} {x : Int} (hx : x < 0) (hge : -2 ^ min n w ≤ x) :
    x % 2 ^ n = x % 2 ^ w ↔ n = w := by
  have hmod : ∀ k : Nat, min n w ≤ k → x % 2 ^ k = x + 2 ^ k := by
    intro k hk
    have hle : (2 : Int) ^ min n w ≤ 2 ^ k := pow_le_pow_right₀ (by decide) hk
    rw [← Int.add_emod_right]
    exact Int.emod_eq_of_lt (by omega) (by omega)
  rw [hmod n (min_le_left n w), hmod w (min_le_right n w), add_right_inj]
  constructor
  · intro h
    exact Int.pow_right_injective (le_refl 2) h
  · rintro rfl
    rfl

/-! ### Values of the operators -/

lemma IsOneWord.value_ofWord_of_emod {a : IntVal} (h : a.IsOneWord) {val : UInt64} {x : Int}
    (hval : (val.toNat : Int) = x % 2 ^ 64) : ((a.ofWord val).value : Int) = x % 2 ^ a.width := by
  have hdvd : (2 : Int) ^ a.width ∣ 2 ^ 64 := pow_dvd_pow 2 h
  rw [h.value_ofWord, Int.natCast_mod, hval]
  push_cast
  exact Int.emod_emod_of_dvd x hdvd

lemma value_eq_emod {a r : IntVal} (hlen : r.words.length = a.words.length) {x : Int}
    (h : (r.value : Int) ≡ x [ZMOD 2 ^ (64 * a.words.length)]) :
    (r.value : Int) = x % 2 ^ a.storageBits := by
  have hlt : (r.value : Int) < 2 ^ (64 * a.words.length) := by
    rw [← hlen]
    exact_mod_cast r.value_lt
  exact (Int.emod_eq_of_lt (Int.natCast_nonneg _) hlt).symm.trans h

lemma modEq_natCast {m n k : Nat} (h : m ≡ n [MOD 2 ^ k]) : (m : Int) ≡ n [ZMOD 2 ^ k] := by
  exact_mod_cast Int.natCast_modEq_iff.mpr h

lemma length_eq_of_width {a b : IntVal} (h : a.width = b.width) :
    a.words.length = b.words.length :=
  a.words_length.trans (h ▸ b.words_length.symm)

section Operators

variable {a b : IntVal}

/-- The number of bits that the results of the operators have. -/
def resultBits (a : IntVal) : Nat := if a.IsOneWord then a.width else a.storageBits

lemma value_add (h : a.width = b.width) :
    ((a.add b).value : Int) = (a.value + b.value) % 2 ^ a.resultBits := by
  rw [add, resultBits]
  split_ifs with hone
  · have hone' : b.IsOneWord := le_of_eq_of_le h.symm hone
    apply hone.value_ofWord_of_emod
    rw [UInt64.toNat_add, hone.value_eq, hone'.value_eq]
    push_cast
    rfl
  · apply value_eq_emod
    · exact (length_wideAddInPlace ..).trans (congrArg List.length (words_copy hone))
    · have hsum := modEq_natCast (value_wideAddInPlace false (length_eq_of_width h))
      rw [Bool.toNat_false, Nat.add_zero, Nat.cast_add] at hsum
      rw [value_withWords, words_copy hone]
      exact hsum

lemma value_sub (h : a.width = b.width) :
    ((a.sub b).value : Int) = (a.value - b.value) % 2 ^ a.resultBits := by
  rw [sub, resultBits]
  split_ifs with hone
  · have hone' : b.IsOneWord := le_of_eq_of_le h.symm hone
    have ha := a.word.toNat_lt
    have hb := b.word.toNat_lt
    apply hone.value_ofWord_of_emod
    rw [UInt64.toNat_sub, hone.value_eq, hone'.value_eq]
    omega
  · apply value_eq_emod
    · exact (length_wideSubInPlace ..).trans (congrArg List.length (words_copy hone))
    · have hdiff := modEq_natCast (value_wideSubInPlace false (length_eq_of_width h))
      rw [Bool.toNat_false, Nat.add_zero, Nat.cast_add] at hdiff
      rw [value_withWords, words_copy hone]
      exact Int.ModEq.add_right_cancel' (b.value : Int) (by rw [sub_add_cancel]; exact hdiff)

lemma value_mul (h : a.width = b.width) :
    ((a.mul b h).value : Int) = (a.value * b.value) % 2 ^ a.resultBits := by
  rw [mul, resultBits]
  split_ifs with hone
  · have hone' : b.IsOneWord := le_of_eq_of_le h.symm hone
    apply hone.value_ofWord_of_emod
    rw [UInt64.toNat_mul, hone.value_eq, hone'.value_eq]
    push_cast
    rfl
  · obtain ⟨hlen, hvalue⟩ := value_wideMul (length_eq_of_width h)
    apply value_eq_emod
    · exact (length_truncInPlace ..).trans hlen
    · rw [value_ofWords hone]
      exact_mod_cast modEq_natCast hvalue

lemma value_neg : (a.neg.value : Int) = -a.value % 2 ^ a.resultBits := by
  rw [neg, resultBits]
  split_ifs with hone
  · have ha := a.word.toNat_lt
    apply hone.value_ofWord_of_emod
    rw [UInt64.toNat_add, toNat_complement, hone.value_eq, UInt64.toNat_one]
    omega
  · apply value_eq_emod
    · exact (length_wideNegInPlace _).trans (congrArg List.length (words_copy hone))
    · have hneg := modEq_natCast (value_wideNegInPlace a.words)
      rw [Nat.cast_add, Nat.cast_zero] at hneg
      rw [value_withWords, words_copy hone]
      exact Int.ModEq.add_right_cancel' (a.value : Int) (by rw [neg_add_cancel]; exact hneg)

lemma value_not : (a.not.value : Int) = (-1 - a.value) % 2 ^ a.resultBits := by
  rw [not, resultBits]
  split_ifs with hone
  · have ha := a.word.toNat_lt
    apply hone.value_ofWord_of_emod
    rw [toNat_complement, hone.value_eq]
    omega
  · apply value_eq_emod
    · exact (length_wideNotInPlace _).trans (congrArg List.length (words_copy hone))
    · have hlt := Words.value_lt a.words
      have hpow : ((2 ^ (64 * a.words.length) : Nat) : Int) = 2 ^ (64 * a.words.length) := by
        push_cast
        rfl
      rw [value_withWords, words_copy hone, value_wideNotInPlace, Int.modEq_iff_dvd]
      refine ⟨-1, ?_⟩
      rw [value]
      omega

lemma value_preInc : (a.preInc.value : Int) = (a.value + 1) % 2 ^ a.resultBits := by
  rw [preInc, resultBits]
  split_ifs with hone
  · apply hone.value_ofWord_of_emod
    rw [UInt64.toNat_add, hone.value_eq, UInt64.toNat_one]
    push_cast
    rfl
  · apply value_eq_emod
    · exact (length_truncInPlace ..).trans (length_wideAddScalarInPlace ..)
    · have hinc := modEq_natCast (value_wideAddScalarInPlace 1 a.words)
      rw [UInt64.toNat_one, Nat.cast_add, Nat.cast_one] at hinc
      rw [value_ofWords hone]
      exact hinc

lemma value_bitwise {f : UInt64 → UInt64 → UInt64} {g : Nat → Nat → Nat} {op : Bool → Bool → Bool}
    (hf : ∀ x y, (f x y).toNat = g x.toNat y.toNat)
    (hg : ∀ m n i, (g m n).testBit i = op (m.testBit i) (n.testBit i))
    (hlt : ∀ {m n k}, m < 2 ^ k → n < 2 ^ k → g m n < 2 ^ k) (h : a.width = b.width)
    (ha : a.Canonical) (hb : b.Canonical) :
    ((bitwise f a b h).value : Int) = (g a.value b.value : Nat) % 2 ^ a.width := by
  have hmod : g a.value b.value % 2 ^ a.width = g a.value b.value :=
    Nat.mod_eq_of_lt (hlt ha (h ▸ hb))
  have hvalue : (bitwise f a b h).value = g a.value b.value % 2 ^ a.width := by
    rw [bitwise]
    split_ifs with hone
    · have hone' : b.IsOneWord := le_of_eq_of_le h.symm hone
      rw [hone.value_ofWord, hf, hone.value_eq, hone'.value_eq]
    · have hbits : ∀ x y i, (f x y).toNat.testBit i = op (x.toNat.testBit i) (y.toNat.testBit i) :=
        fun x y i => by rw [hf, hg]
      rw [hmod, value_withWords, words_copy hone, value_zipWith hbits hg (length_eq_of_width h)]
      rfl
  rw [hvalue]
  push_cast
  rfl

lemma decrementStops_of_value_eq_zero {us : List UInt64} (h : Words.value us = 0) :
    DecrementStops us := by
  have hborrow : ∀ us : List UInt64, Words.value us = 0 → BorrowStops us := by
    intro us
    induction us with
    | nil =>
      intro _
      simp [BorrowStops]
    | cons u us ih =>
      intro h
      rw [value_cons] at h
      have hu : u = 0 := UInt64.toNat_inj.mp (by rw [UInt64.toNat_zero]; omega)
      cases us with
      | nil => simp [BorrowStops]
      | cons v us => exact Or.inr ⟨hu, ih (by omega)⟩
  cases us with
  | nil => trivial
  | cons u us =>
    rw [value_cons] at h
    exact Or.inr (hborrow us (by omega))

lemma value_preDec_iff (h : ¬a.IsOneWord) :
    (a.preDec.value : Int) = (a.value - 1) % 2 ^ a.storageBits ↔ DecrementStops a.words := by
  have hlen : a.preDec.words.length = a.words.length := by
    rw [a.words_length]
    refine a.preDec.words_length.trans (congrArg getNumWords ?_)
    rw [preDec, if_neg h]
    rfl
  rw [← value_wideSubScalarInPlace_one_iff]
  have hvalue : a.preDec.value = Words.value (wideSubScalarInPlace 1 a.words) := by
    rw [preDec, if_neg h, value_ofWords h]
  rw [← hvalue]
  constructor
  · intro heq
    have hmod : (a.preDec.value : Int) + 1 ≡ a.value [ZMOD 2 ^ (64 * a.words.length)] := by
      rw [heq]
      refine (Int.ModEq.add_right 1 (Int.mod_modEq _ _)).trans ?_
      rw [sub_add_cancel]
    exact_mod_cast (Int.natCast_modEq_iff (a := a.preDec.value + 1) (b := a.value)).mp
      (by exact_mod_cast hmod)
  · intro hmod
    apply value_eq_emod hlen
    have hint := modEq_natCast hmod
    rw [Nat.cast_add, Nat.cast_one] at hint
    exact Int.ModEq.add_right_cancel' 1 (by rw [sub_add_cancel]; exact hint)

lemma value_preDec_of_isOneWord (h : a.IsOneWord) :
    (a.preDec.value : Int) = (a.value - 1) % 2 ^ a.width := by
  rw [preDec, if_pos h]
  have ha := a.word.toNat_lt
  apply h.value_ofWord_of_emod
  rw [UInt64.toNat_sub, h.value_eq, UInt64.toNat_one]
  omega

end Operators

/-! ### Correct results -/

lemma width_of_mem_results {op : Op} {a b r : IntVal} {h : a.width = b.width}
    (hr : r ∈ op.results a b h) : r.width = a.width := by
  cases op <;> simp only [Op.results, List.mem_cons, List.not_mem_nil, or_false] at hr
  all_goals
    try rcases hr with rfl | rfl
    try subst hr
  all_goals
    simp only [add, sub, mul, bitwise, neg, not, preInc, preDec, postInc, postDec]
    try split_ifs
    all_goals rfl

lemma eq_iff_value_eq {a b : IntVal} (h : a.width = b.width) : a.eq b ↔ a.value = b.value := by
  have hwords := value_inj (length_eq_of_width h)
  rw [eq, value, value, hwords]
  split_ifs with hone
  · have hone' : b.IsOneWord := le_of_eq_of_le h.symm hone
    rw [hone.words_eq, hone'.words_eq, beq_iff_eq, List.cons.injEq]
    exact (and_iff_left rfl).symm
  · exact beq_iff_eq

lemma Op.correct_iff {op : Op} {a b : IntVal} {h : a.width = b.width} :
    op.Correct a b h ↔ (op.results a b h).map (fun r => (r.value : Int)) =
      (op.exact a.value b.value).map (· % 2 ^ a.width) := by
  refine ⟨Op.Correct.values, fun hvalues => ?_⟩
  have hcanon : ∀ r ∈ op.results a b h, r.Canonical := by
    intro r hr
    have hmem := List.mem_map_of_mem (f := fun r : IntVal => (r.value : Int)) hr
    rw [hvalues] at hmem
    obtain ⟨x, -, hx⟩ := List.mem_map.mp hmem
    have hlt := Int.emod_lt_of_pos x (by positivity : (0 : Int) < 2 ^ a.width)
    rw [hx] at hlt
    rw [Canonical, width_of_mem_results hr]
    exact_mod_cast hlt
  refine ⟨hvalues, hcanon, ?_⟩
  intro r hr c hc hc'
  have hr' := hcanon r hr
  have hwidth := width_of_mem_results hr
  rw [Canonical, hwidth] at hr'
  rw [Canonical, hc] at hc'
  have hmod : ∀ {n : Nat}, n < 2 ^ a.width → (n : Int) % 2 ^ a.width = n := by
    intro n hn
    exact Int.emod_eq_of_lt (Int.natCast_nonneg n) (by exact_mod_cast hn)
  rw [eq_iff_value_eq (hwidth.trans hc.symm), hmod hr', hmod hc', Nat.cast_inj]

/-! ### When the results are right -/

section Fits

variable {a b : IntVal}

lemma lt_two_pow_min (ha : a.Canonical) : a.value < 2 ^ min a.storageBits a.width := by
  rcases min_choice a.storageBits a.width with hmin | hmin
  · rw [hmin]
    exact a.value_lt
  · rw [hmin]
    exact ha

lemma emod_resultBits_iff {x : Int} {P : Prop}
    (hP : x % 2 ^ a.storageBits = x % 2 ^ a.width ↔ P) :
    x % 2 ^ a.resultBits = x % 2 ^ a.width ↔ a.IsOneWord ∨ P := by
  rw [resultBits]
  split_ifs with hone
  · exact iff_of_true rfl (Or.inl hone)
  · rw [hP, or_iff_right hone]

lemma emod_eq_emod_iff_of_lt {n w : Nat} {x : Int} (hge : -2 ^ min n w ≤ x) (hlt : x < 2 ^ min n w) :
    x % 2 ^ n = x % 2 ^ w ↔ n = w ∨ 0 ≤ x := by
  rcases lt_or_ge x 0 with hneg | hnonneg
  · rw [emod_eq_emod_iff_of_neg hneg hge, or_iff_left (not_le.mpr hneg)]
  · exact iff_of_true ((emod_eq_emod_iff_of_nonneg hnonneg (by omega)).mpr (Or.inr hlt))
      (Or.inr hnonneg)

lemma preDec_iff (ha : a.Canonical) :
    (a.preDec.value : Int) = (a.value - 1) % 2 ^ a.width ↔
      a.IsOneWord ∨ (a.storageBits = a.width ∨ 0 < a.value) ∧ DecrementStops a.words := by
  by_cases h : a.IsOneWord
  · exact iff_of_true (value_preDec_of_isOneWord h) (Or.inl h)
  rw [or_iff_right h]
  have hx : (a.value : Int) < 2 ^ min a.storageBits a.width := by exact_mod_cast lt_two_pow_min ha
  by_cases hstops : DecrementStops a.words
  · rw [(value_preDec_iff h).mpr hstops, and_iff_left hstops,
      emod_eq_emod_iff_of_lt (by omega) (by omega)]
    omega
  · refine iff_of_false ?_ (fun h => hstops h.2)
    intro heq
    have hpos : 0 < a.value := by
      by_contra hzero
      exact hstops (decrementStops_of_value_eq_zero (Nat.eq_zero_of_not_pos hzero))
    have hmod : ∀ {k}, min a.storageBits a.width ≤ k → (a.value - 1 : Int) % 2 ^ k = a.value - 1 := by
      intro k hk
      have hle : (2 : Int) ^ min a.storageBits a.width ≤ 2 ^ k := pow_le_pow_right₀ (by decide) hk
      exact Int.emod_eq_of_lt (by omega) (by omega)
    rw [hmod (min_le_right _ _), ← hmod (min_le_left a.storageBits a.width)] at heq
    exact hstops ((value_preDec_iff h).mp heq)

lemma value_emod_width (ha : a.Canonical) : (a.value : Int) % 2 ^ a.width = a.value :=
  Int.emod_eq_of_lt (Int.natCast_nonneg _) (by exact_mod_cast ha)

lemma preInc_iff (ha : a.Canonical) :
    (a.preInc.value : Int) = (a.value + 1) % 2 ^ a.width ↔
      a.IsOneWord ∨
        (a.storageBits = a.width ∨ a.value + 1 < 2 ^ min a.storageBits a.width) := by
  have hx : (a.value : Int) < 2 ^ min a.storageBits a.width := by exact_mod_cast lt_two_pow_min ha
  rw [value_preInc]
  apply emod_resultBits_iff
  rw [emod_eq_emod_iff_of_nonneg (by omega) (by omega)]
  exact or_congr_right (by exact_mod_cast Iff.rfl)

end Fits

/-- The results of an operator are right modulo the width exactly for values in one word and for
values in several words that fit. -/
theorem op_correct_iff (op : Op) {a b : IntVal} (h : a.width = b.width) (ha : a.Canonical)
    (hb : b.Canonical) : op.Correct a b h ↔ a.IsOneWord ∨ op.Fits a b := by
  rw [Op.correct_iff]
  have hbits : b.storageBits = a.storageBits :=
    congrArg (kWordBitSize * ·) (length_eq_of_width h).symm
  have hxa : (a.value : Int) < 2 ^ min a.storageBits a.width := by
    exact_mod_cast lt_two_pow_min ha
  have hxb : (b.value : Int) < 2 ^ min a.storageBits a.width := by
    have hmin := lt_two_pow_min hb
    rw [hbits, ← h] at hmin
    exact_mod_cast hmin
  cases op <;> simp only [Op.results, Op.exact, Op.Fits, List.map_cons, List.map_nil,
    List.cons.injEq, and_true]
  case add =>
    rw [value_add h]
    apply emod_resultBits_iff
    rw [emod_eq_emod_iff_of_nonneg (by omega) (by omega)]
    exact or_congr_right (by exact_mod_cast Iff.rfl)
  case sub =>
    rw [value_sub h]
    apply emod_resultBits_iff
    rw [emod_eq_emod_iff_of_lt (by omega) (by omega), sub_nonneg, Nat.cast_le]
  case mul =>
    rw [value_mul h]
    apply emod_resultBits_iff
    exact_mod_cast Iff.rfl
  case neg =>
    rw [value_neg]
    apply emod_resultBits_iff
    rw [emod_eq_emod_iff_of_lt (by omega) (by omega)]
    omega
  case not =>
    rw [value_not]
    apply emod_resultBits_iff
    exact emod_eq_emod_iff_of_neg (by omega) (by omega)
  case and =>
    exact iff_of_true (value_bitwise UInt64.toNat_and Nat.testBit_and
      (fun _ hn => Nat.and_lt_two_pow _ hn) h ha hb) (Or.inr trivial)
  case or =>
    exact iff_of_true (value_bitwise UInt64.toNat_or Nat.testBit_or Nat.or_lt_two_pow h ha hb)
      (Or.inr trivial)
  case xor =>
    exact iff_of_true (value_bitwise UInt64.toNat_xor Nat.testBit_xor Nat.xor_lt_two_pow h ha hb)
      (Or.inr trivial)
  case preInc => exact preInc_iff ha
  case preDec => exact preDec_iff ha
  case postInc =>
    rw [value_emod_width ha, postInc, and_iff_right (congrArg Nat.cast (value_copy ha))]
    exact preInc_iff ha
  case postDec =>
    rw [value_emod_width ha, postDec, and_iff_right (congrArg Nat.cast (value_copy ha))]
    exact preDec_iff ha

/-- An unsigned value with the given words. -/
def ofList (width : Nat) (words : List UInt64)
    (h : 0 < width ∧ words.length = getNumWords width ∧ words ≠ []) : IntVal :=
  ⟨width, false, words, h.1, h.2.1, h.2.2⟩

theorem op_correct_iff_u128 :
    Op.Correct .mul (ofList 128 [3, 1] (by decide)) (ofList 128 [5, 0] (by decide)) rfl ↔
      (ofList 128 [3, 1] (by decide)).IsOneWord ∨
        Op.Fits .mul (ofList 128 [3, 1] (by decide)) (ofList 128 [5, 0] (by decide)) := by
  have hone : (ofList 128 [3, 1] (by decide)).Canonical := by
    simp [Canonical, value, ofList]
  have htwo : (ofList 128 [5, 0] (by decide)).Canonical := by
    simp [Canonical, value, ofList]
  exact op_correct_iff .mul _ hone htwo

/-- The sum of two values of 65 bits keeps the bit above the width, and a decrement of three words
takes one from the third word, too. -/
theorem op_not_correct :
    ¬Op.Correct .add (ofList 65 [18446744073709551615, 1] (by decide))
        (ofList 65 [1, 0] (by decide)) rfl ∧
      ¬Op.Correct .preDec (ofList 192 [0, 2, 0] (by decide)) (ofList 192 [0, 0, 0] (by decide))
        rfl := by
  constructor
  · intro h
    exact absurd (Op.correct_iff.mp h) (by decide +kernel)
  · intro h
    exact absurd (Op.correct_iff.mp h) (by decide +kernel)

end IntVal
end Maple
