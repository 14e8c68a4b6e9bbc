import Maple.Util.IntVal.ConvertExact

/-!
# Values of the integer types

For the widths of the integer types, `TruncOrExtend` is exact. The converting constructors read the
number without its sign.
-/

namespace Maple
namespace IntVal

open Words

/-- The integer types have up to 64 bits, or 128. -/
def Shape.IsPrim (s : Shape) : Prop := s.IsOneWord ∨ s.width = 128

instance (s : Shape) : Decidable s.IsPrim := inferInstanceAs (Decidable (_ ∨ _))

/-- A width with a sign that `IntVal` has values of. -/
def shapeOf (width : Nat) (sign : Bool) : Option Shape :=
  if h : 0 < width ∧ IntVal.getNumWords width ≠ 0 then some ⟨width, sign, h.1, h.2⟩ else none

lemma shapeOf_eq {n : Nat} (hpos : 0 < n) (hle : n ≤ 128) (sign : Bool) :
    ∃ s, shapeOf n sign = some s ∧ s.width = n ∧ s.sign = sign := by
  have hwords : IntVal.getNumWords n ≠ 0 := by
    change (n + 64 - 1) / 64 % 2 ^ 8 ≠ 0
    omega
  exact ⟨⟨n, sign, hpos, hwords⟩, dif_pos ⟨hpos, hwords⟩, rfl, rfl⟩

lemma Shape.IsPrim.numWords_eq {s : Shape} (h : s.IsPrim) (hone : ¬s.IsOneWord) :
    s.numWords = 2 := by
  rw [Shape.numWords, h.resolve_left hone]
  rfl

lemma Shape.IsPrim.width_le {s : Shape} (h : s.IsPrim) : s.width ≤ s.capacity := by
  by_cases hone : s.IsOneWord
  · rw [Shape.capacity_eq hone]
    exact hone
  · rw [Shape.capacity, h.numWords_eq hone, h.resolve_left hone]
    exact le_refl 128

lemma Shape.IsPrim.kept_eq {s : Shape} (h : s.IsPrim) : s.kept = s.width := by
  rw [Shape.kept]
  split_ifs with hone
  · rfl
  · rw [Shape.capacity, h.numWords_eq hone, h.resolve_left hone]
    rfl

/-! ### Equal values -/

lemma toNat_word (a : IntVal) : a.word.toNat = a.value % 2 ^ 64 := by
  have hlt := a.word.toNat_lt
  have hwords : a.words = a.word :: a.words.tail := (List.cons_head_tail a.words_ne_nil).symm
  rw [value, hwords, value_cons, Nat.add_mul_mod_self_left, Nat.mod_eq_of_lt hlt]

lemma eq_of_value_eq {a b : IntVal} (hshape : a.shape = b.shape) (h : a.value = b.value) :
    a = b := by
  have hwidth : a.width = b.width := congrArg Shape.width hshape
  have hsign : a.sign = b.sign := congrArg Shape.sign hshape
  have hwords : a.words = b.words := (value_inj (length_eq_of_width hwidth)).mp h
  cases a
  cases b
  simp_all

lemma Represents.canonical {r : IntVal} {s : Shape} {x : Int} (h : r.Represents s x) :
    r.Canonical := by
  have hwidth : r.width = s.width := congrArg Shape.width h.shape_eq
  have hlt : (r.value : Int) < 2 ^ s.width := by
    rw [h.value_eq]
    exact Int.emod_lt_of_pos _ (by positivity)
  rw [Canonical, hwidth]
  exact_mod_cast hlt

lemma Represents.width_le_storageBits {r : IntVal} {s : Shape} {x : Int} (h : r.Represents s x) :
    r.width ≤ r.storageBits := by
  have hwidth : r.width = s.width := congrArg Shape.width h.shape_eq
  rw [← capacity_shape, h.shape_eq, hwidth]
  exact h.width_le

lemma modulus_format (s : Shape) : ((s.format.modulus : Nat) : Int) = 2 ^ s.width := by
  rw [IntFormat.modulus]
  push_cast
  rfl

lemma Represents.toInt_eq {r : IntVal} {s : Shape} {x : Int} (h : r.Represents s x) :
    r.toInt = s.format.wrap x := by
  rw [toInt, h.shape_eq, IntFormat.wrap_eq_wrap_iff, modulus_format, h.value_eq, Int.emod_emod]

lemma Represents.of_emod_eq {r : IntVal} {s : Shape} {x y : Int} (h : r.Represents s x)
    (hxy : x % 2 ^ s.width = y % 2 ^ s.width) : r.Represents s y :=
  ⟨h.shape_eq, h.width_le, h.value_eq.trans hxy⟩

lemma represents_self {a : IntVal} (hcanon : a.Canonical) (hcap : a.width ≤ a.storageBits) :
    a.Represents a.shape a.toInt where
  shape_eq := rfl
  width_le := by
    rw [capacity_shape]
    exact hcap
  value_eq := (toInt_emod hcanon).symm

lemma Represents.eq_iff {r r' : IntVal} {s : Shape} {x y : Int} (h : r.Represents s x)
    (h' : r'.Represents s y) : r = r' ↔ x % 2 ^ s.width = y % 2 ^ s.width := by
  rw [← h.value_eq, ← h'.value_eq, Nat.cast_inj]
  constructor
  · rintro rfl
    rfl
  · exact eq_of_value_eq (h.shape_eq.trans h'.shape_eq.symm)

lemma Represents.toInt_inj {r r' : IntVal} {s : Shape} {x y : Int} (h : r.Represents s x)
    (h' : r'.Represents s y) : r.toInt = r'.toInt ↔ r = r' := by
  rw [h.toInt_eq, h'.toInt_eq, IntFormat.wrap_eq_wrap_iff, modulus_format, h.eq_iff h']

lemma copy_eq {a : IntVal} (hcanon : a.Canonical) : a.copy = a := eq_of_value_eq rfl (value_copy hcanon)

/-! ### Conversions -/

/-- The number that a converting constructor reads. -/
def readNumber (a : IntVal) (s : Shape) : Int :=
  if a.IsOneWord then (⟨64, s.sign⟩ : IntFormat).wrap a.value else a.value

section Conversions

variable {a : IntVal} (hcanon : a.Canonical) (hcap : a.width ≤ a.storageBits) {s : Shape}
  (hs : s.IsPrim)

include hcanon in
lemma toInt_emod_of_le (h : s.width ≤ a.width) :
    a.toInt % 2 ^ s.width = (a.value : Int) % 2 ^ s.width := by
  have hdvd : (2 : Int) ^ s.width ∣ 2 ^ a.width := pow_dvd_pow 2 h
  rw [← Int.emod_emod_of_dvd _ hdvd, toInt_emod hcanon]

include hcanon hcap hs

lemma truncOrExtend_represents :
    ∃ r, a.truncOrExtend s = some r ∧ r.Represents s a.toInt := by
  rw [truncOrExtend]
  by_cases hle : s.width ≤ a.width
  · obtain ⟨r, hr, hshape, hvalue⟩ := trunc_spec hcap hle
    refine ⟨r, (if_pos hle).trans hr, hshape, hs.width_le, ?_⟩
    rw [hvalue, hs.kept_eq, toInt_emod_of_le hcanon hle]
    push_cast
    rfl
  rw [if_neg hle]
  have hlt : a.width < s.width := not_le.mp hle
  by_cases hone : s.IsOneWord
  · have ha : a.IsOneWord := hlt.le.trans hone
    obtain ⟨r, hr, hshape, hvalue⟩ := extend_spec hcanon ha hone
    exact ⟨r, hr, hshape, hs.width_le, hvalue⟩
  · have hwidth : s.width = 128 := hs.resolve_left hone
    have hlen := numWords_shape hcap
    have hnum := hs.numWords_eq hone
    obtain ⟨r, hr, hshape, hvalue⟩ := extendToWideInt_spec (a := a) (s := s) (by omega) hone
    refine ⟨r, (if_neg fun h => hone h.2).trans hr, hshape, hs.width_le, ?_⟩
    rw [hvalue]
    by_cases hsign : 0 ≤ a.toInt
    · rw [value_extendedWords ((toInt_nonneg_iff hcanon hcap).mp hsign),
        toInt_emod_of_nonneg hcanon hsign hlt.le]
    · rw [value_extendedWords_eq_iff hcanon hcap hs.width_le hlt (not_le.mp hsign), hwidth]

omit hcanon hcap in
lemma ofNumber_represents (val : UInt64) :
    (ofNumber s val).Represents s ((⟨64, s.sign⟩ : IntFormat).wrap val.toNat) := by
  refine ⟨rfl, hs.width_le, ?_⟩
  by_cases hone : s.IsOneWord
  · rw [value_ofNumber_of_isOneWord hone, wrap_word_emod _ _ hone]
    push_cast
    rfl
  · have hval := val.toNat_lt
    have hwords : initNumber s val =
        [val, if s.sign && decide (val.toInt64 < 0) then kAllOnes else 0] := by
      rw [initNumber, hs.numWords_eq hone]
      rfl
    have hneg : val.toInt64 < 0 ↔ (val.toNat : Int).bmod (2 ^ 64) < 0 := by
      rw [Int64.lt_iff_toInt_lt, toInt_toInt64]
      rfl
    have hones : kAllOnes.toNat = 2 ^ 64 - 1 := by decide
    have hpow : ((2 ^ 64 : Nat) : Int) = 2 ^ 64 := by norm_cast
    rw [ofNumber, value_ofShape hone, hwords, value_cons, value_singleton, hs.resolve_left hone,
      IntFormat.wrap, IntFormat.modulus]
    cases s.sign with
    | false =>
      simp only [Bool.false_and, Bool.false_eq_true, ↓reduceIte, UInt64.toNat_zero, hpow]
      push_cast
      omega
    | true =>
      simp only [Bool.true_and, decide_eq_true_eq, hneg, ↓reduceIte]
      rw [Int.bmod_def, hpow]
      split_ifs <;> simp only [hones, UInt64.toNat_zero] <;> push_cast <;> omega

omit hcanon in
lemma convert_represents : ∃ r, convert s a = some r ∧ r.Represents s (a.readNumber s) := by
  rw [convert, readNumber]
  by_cases ha : a.IsOneWord
  · rw [if_pos ha, if_pos ha, ← ha.word_eq]
    exact ⟨_, rfl, ofNumber_represents hs a.word⟩
  · rw [if_neg ha, if_neg ha]
    have hgt : 64 < a.width := not_le.mp ha
    have hlen := numWords_shape hcap
    have hle : s.numWords ≤ a.words.length := by
      by_cases hone : s.IsOneWord
      · rw [hone.numWords_eq]
        omega
      · rw [hs.numWords_eq hone]
        omega
    refine ⟨_, ofPointer_eq hle, rfl, hs.width_le, ?_⟩
    rw [value_ofShape_take hle, hs.kept_eq]
    push_cast
    rfl

end Conversions

/-! ### Numbers of 64 bits -/

lemma or_two_pow_of_le {v : Nat} (h : 2 ^ 63 ≤ v) (hlt : v < 2 ^ 64) : v ||| 2 ^ 63 = v := by
  have hor := or_leadingOnes (w := 64) (le_refl 64) hlt h
  simpa using hor

lemma wrap_word_eq {x : Nat} (h : x < 2 ^ 64) :
    (⟨64, true⟩ : IntFormat).wrap x = (if 2 ^ 63 ≤ x then x - 2 ^ 64 else x : Int) := by
  have hpow : ((2 ^ 64 : Nat) : Int) = 2 ^ 64 := by norm_cast
  rw [IntFormat.wrap, if_pos rfl, IntFormat.modulus, Int.bmod_def, hpow]
  split_ifs <;> omega

lemma wrap_word_eq_of_unsigned {x : Nat} (h : x < 2 ^ 64) :
    (⟨64, false⟩ : IntFormat).wrap x = x := by
  have hpow : ((2 ^ 64 : Nat) : Int) = 2 ^ 64 := by norm_cast
  rw [IntFormat.wrap, if_neg Bool.false_ne_true, IntFormat.modulus, hpow]
  omega

lemma toNat_getExtValue_mod {a : IntVal} (h : a.IsOneWord) :
    (a.getExtValue 0).toUInt64.toNat % 2 ^ a.width = a.value % 2 ^ a.width := by
  have hpos := a.width_pos
  have hle : a.width ≤ 64 := h
  have hrest : 0 < 2 ^ (64 - a.width) := Nat.two_pow_pos _
  rw [getExtValue]
  split_ifs with hsign
  · have hwidth : a.width % 2 ^ 8 = a.width := Nat.mod_eq_of_lt (by omega)
    have hshift : (kWordBitSize + 2 ^ 8 - a.width) % 2 ^ 8 = 64 - a.width := by
      change (64 + 256 - a.width) % 256 = _
      omega
    have hback : ((a.word <<< UInt64.ofNat (64 - a.width)) >>>
        UInt64.ofNat (64 - a.width)).toNat = a.value % 2 ^ a.width := by
      rw [toNat_shiftRight (by omega), toNat_shiftLeft (by omega), h.word_eq,
        ← two_pow_mul_two_pow_sub hle, Nat.mul_mod_mul_right, Nat.mul_div_cancel _ hrest]
    rw [getSXTValue]
    simp only [ne_eq, not_true_eq_false, ↓reduceIte, hwidth, hshift, hpos.ne', not_false_eq_true,
      UInt64.toUInt64_toInt64]
    by_cases hbit : a.getBit (a.width - 1) = true
    · rw [if_pos hbit, UInt64.toNat_or, hback, toNat_leadingOnes, Nat.or_mod_two_pow, Nat.mod_mod]
      rw [getBit_eq h.width_le (by omega)] at hbit
      split_ifs with hw
      · have hdvd : 2 ^ a.width ∣ 2 ^ 64 - 2 ^ a.width :=
          Nat.dvd_sub (pow_dvd_pow 2 hle) (dvd_refl _)
        rw [Nat.mod_eq_zero_of_dvd hdvd, Nat.or_zero]
      · have hw' : a.width = 64 := by omega
        have hlt : a.value < 2 ^ 64 := h.value_eq ▸ a.word.toNat_lt
        rw [hw'] at hbit ⊢
        have hge := (testBit_sub_one_iff (w := 64) (by decide) hlt).mp hbit
        rw [Nat.mod_eq_of_lt hlt]
        exact or_two_pow_of_le hge hlt
    · rw [if_neg hbit, hback, Nat.mod_mod]
  · rw [getZXTValue, if_neg (by decide), UInt64.toUInt64_toInt64, h.word_eq]

section Number

variable {r : IntVal} {t : Shape} {x : Int}

lemma toNat_getSXTValue_of_wide (h : r.width = 128) :
    (r.getSXTValue 0).toUInt64.toNat =
      if r.getSignBit then r.word.toNat ||| 2 ^ 63 else r.word.toNat := by
  have hshift : r.word <<< UInt64.ofNat 192 = r.word := by
    rw [shiftLeft_mod (by decide)]
    exact UInt64.shiftLeft_zero
  have hback : r.word >>> UInt64.ofNat 192 = r.word := by
    rw [← UInt64.toNat_inj, UInt64.toNat_shiftRight]
    rfl
  have hones : (kAllOnes <<< UInt64.ofNat 63).toNat = 2 ^ 63 := by decide
  have hbit : r.getSignBit = r.getBit 127 := by rw [getSignBit, h]
  simp only [getSXTValue, h, kWordBitSize, ne_eq, not_true_eq_false, ↓reduceIte, Nat.reduceMod,
    Nat.reduceAdd, Nat.reduceSub, Nat.reduceLT, Nat.reducePow, OfNat.ofNat_ne_zero,
    not_false_eq_true, hbit]
  rw [hshift, hback, UInt64.toUInt64_toInt64]
  split_ifs
  · rw [UInt64.toNat_or, hones]
    rfl
  · rfl

lemma wrap_toNat_getExtValue_of_wide (ht : t.width = 128) (hr : r.Represents t x)
    (hmem : (⟨64, t.sign⟩ : IntFormat).Mem r.toInt) :
    (⟨64, t.sign⟩ : IntFormat).wrap (r.getExtValue 0).toUInt64.toNat = r.toInt := by
  have hwidth : r.width = 128 := (congrArg Shape.width hr.shape_eq).trans ht
  have hsign : r.sign = t.sign := congrArg Shape.sign hr.shape_eq
  have hlt : r.value < 2 ^ 128 := by
    rw [← hwidth]
    exact hr.canonical
  have hint := toInt_eq hr.canonical
  have hbit := testBit_sub_one_iff (w := 128) (by decide) hlt
  have hpow : ((2 ^ 64 : Nat) : Int) = 2 ^ 64 := by norm_cast
  rw [hwidth] at hint
  rw [getExtValue, hsign]
  cases hs : t.sign with
  | false =>
    rw [hs] at hmem
    rw [hsign, hs, if_neg fun h => Bool.false_ne_true h.1] at hint
    have hmax := hmem.2
    rw [IntFormat.maxValue, if_neg Bool.false_ne_true, IntFormat.modulus, hpow, hint] at hmax
    have hword : r.word.toNat = r.value := by
      rw [toNat_word]
      omega
    rw [if_neg Bool.false_ne_true, getZXTValue, if_neg (by decide), UInt64.toUInt64_toInt64, hword,
      wrap_word_eq_of_unsigned (by omega), hint]
  | true =>
    rw [hs] at hmem
    obtain ⟨hmin, hmax⟩ := hmem
    rw [IntFormat.minValue, if_pos rfl, IntFormat.modulus, hpow] at hmin
    rw [IntFormat.maxValue, if_pos rfl, IntFormat.modulus, hpow] at hmax
    rw [hsign, hs] at hint
    have hext := toNat_getSXTValue_of_wide hwidth
    rw [getSignBit_eq hr.width_le_storageBits, hwidth, toNat_word] at hext
    rw [if_pos rfl, hext]
    by_cases hneg : r.value.testBit 127 = true
    · rw [if_pos ⟨rfl, hneg⟩] at hint
      have hhigh : 2 ^ 63 ≤ r.value % 2 ^ 64 := by omega
      have hltw : r.value % 2 ^ 64 < 2 ^ 64 := Nat.mod_lt _ (by decide)
      rw [if_pos hneg, or_two_pow_of_le hhigh hltw, wrap_word_eq hltw, if_pos hhigh, hint]
      omega
    · rw [if_neg fun h => hneg h.2] at hint
      have hltw : r.value % 2 ^ 64 < 2 ^ 64 := Nat.mod_lt _ (by decide)
      rw [if_neg hneg, wrap_word_eq hltw, if_neg (by omega), hint]
      omega

lemma toInt_ofNumber_getExtValue_iff (ht : t.IsPrim) (hr : r.Represents t x) :
    (ofNumber t (r.getExtValue 0).toUInt64).toInt = r.toInt ↔
      t.IsOneWord ∨ (⟨64, t.sign⟩ : IntFormat).Mem r.toInt := by
  have hrep := ofNumber_represents ht (r.getExtValue 0).toUInt64
  rw [hrep.toInt_eq]
  by_cases hone : t.IsOneWord
  · have hrone : r.IsOneWord := by
      rw [← isOneWord_shape, hr.shape_eq]
      exact hone
    have hmod : (2 : Int) ^ t.width ∣ 2 ^ 64 := pow_dvd_pow 2 hone
    refine iff_of_true ?_ (Or.inl hone)
    rw [hr.toInt_eq, IntFormat.wrap_eq_wrap_iff, modulus_format, wrap_word_emod _ _ hone,
      toNat_getExtValue hrone hr.canonical, Int.emod_emod_of_dvd _ hmod, hr.toInt_eq,
      ← modulus_format, IntFormat.wrap_emod]
  · have hwidth := ht.resolve_left hone
    have hle : (64 : Nat) ≤ t.format.width := by
      change 64 ≤ t.width
      omega
    have hmem := (IntFormat.wrap_mem ⟨64, t.sign⟩ (r.getExtValue 0).toUInt64.toNat).of_width_le
      (g := t.format) hle rfl
    rw [IntFormat.wrap_of_mem _ hmem, or_iff_right hone]
    constructor
    · intro heq
      rw [← heq]
      exact IntFormat.wrap_mem _ _
    · exact wrap_toNat_getExtValue_of_wide hwidth hr

end Number

/-! ### Operators in a type -/

section Operators

variable {x y : IntVal} {t : Shape} {p q : Int} (ht : t.IsPrim) (hx : x.Represents t p)
  (hy : y.Represents t q)

include ht hx

lemma Represents.resultBits_eq : x.resultBits = t.width := by
  have hwidth : x.width = t.width := congrArg Shape.width hx.shape_eq
  rw [resultBits]
  split_ifs with hone
  · exact hwidth
  · have hone' : ¬t.IsOneWord := by
      rw [← hx.shape_eq]
      exact hone
    rw [← capacity_shape, hx.shape_eq, Shape.capacity, ht.numWords_eq hone', ht.resolve_left hone']
    rfl

lemma Represents.of_value_eq {r : IntVal} (hshape : r.shape = x.shape) {m n : Int}
    (hvalue : (r.value : Int) = m % 2 ^ x.resultBits) (hmn : m ≡ n [ZMOD 2 ^ t.width]) :
    r.Represents t n where
  shape_eq := hshape.trans hx.shape_eq
  width_le := hx.width_le
  value_eq := by
    rw [hvalue, hx.resultBits_eq ht]
    exact hmn

lemma Represents.neg : x.neg.Represents t (-p) := by
  apply hx.of_value_eq ht _ value_neg
  · rw [hx.value_eq]
    exact (Int.mod_modEq p _).neg
  · rw [IntVal.neg]
    split_ifs <;> rfl

lemma Represents.not : x.not.Represents t (-1 - p) := by
  apply hx.of_value_eq ht _ value_not
  · rw [hx.value_eq]
    exact (Int.ModEq.refl (-1)).sub (Int.mod_modEq p _)
  · rw [IntVal.not]
    split_ifs <;> rfl

include hy

omit ht in
lemma Represents.width_eq : x.width = y.width :=
  congrArg Shape.width (hx.shape_eq.trans hy.shape_eq.symm)

lemma Represents.add : (x.add y).Represents t (p + q) := by
  apply hx.of_value_eq ht _ (value_add (hx.width_eq hy))
  · rw [hx.value_eq, hy.value_eq]
    exact (Int.mod_modEq p _).add (Int.mod_modEq q _)
  · rw [IntVal.add]
    split_ifs <;> rfl

lemma Represents.mul (h : x.width = y.width) : (x.mul y h).Represents t (p * q) := by
  apply hx.of_value_eq ht _ (value_mul h)
  · rw [hx.value_eq, hy.value_eq]
    exact (Int.mod_modEq p _).mul (Int.mod_modEq q _)
  · rw [IntVal.mul]
    split_ifs <;> rfl

lemma Represents.bitwise {f : UInt64 → UInt64 → UInt64} {g : Nat → Nat → Nat}
    {op : Bool → Bool → Bool} (hf : ∀ x y, (f x y).toNat = g x.toNat y.toNat)
    (hg : ∀ m n i, (g m n).testBit i = op (m.testBit i) (n.testBit i))
    (hlt : ∀ {m n k}, m < 2 ^ k → n < 2 ^ k → g m n < 2 ^ k) (h : x.width = y.width) :
    (IntVal.bitwise f x y h).Represents t (g x.value y.value : Nat) := by
  have hwidth : x.width = t.width := congrArg Shape.width hx.shape_eq
  have hvalue := value_bitwise hf hg hlt h hx.canonical hy.canonical
  rw [hwidth, ← hx.resultBits_eq ht] at hvalue
  apply hx.of_value_eq ht _ hvalue (Int.ModEq.refl _)
  rw [IntVal.bitwise]
  split_ifs <;> rfl

end Operators

end IntVal
end Maple
