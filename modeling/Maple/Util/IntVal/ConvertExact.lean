import Maple.Util.IntVal.Convert
import Maple.Util.IntVal.Exact

/-!
# When conversions are exact

A conversion is exact if the new value has the bits of the number that the old one stands for. In
one word this is always so. In several words no bits are cut off above the width.
-/

namespace Maple
namespace IntVal

open Words

/-! ### Constructors -/

lemma Shape.IsOneWord.numWords_eq {s : Shape} (h : s.IsOneWord) : s.numWords = 1 := by
  have hpos := s.width_pos
  have hle : s.width ≤ 64 := h
  change (s.width + 64 - 1) / 64 % 2 ^ 8 = 1
  omega

/-- The bits of the words of a shape. -/
def Shape.capacity (s : Shape) : Nat := kWordBitSize * s.numWords

lemma capacity_shape (a : IntVal) : a.shape.capacity = a.storageBits :=
  congrArg (kWordBitSize * ·) a.words_length.symm

lemma Shape.capacity_eq {s : Shape} (h : s.IsOneWord) : s.capacity = 64 := by
  rw [capacity, h.numWords_eq, Nat.mul_one]

lemma value_ofShape_of_isOneWord {s : Shape} (h : s.IsOneWord) (words : List UInt64)
    (hlen : words.length = s.numWords) :
    (ofShape s words hlen).value = Words.value words % 2 ^ s.width := by
  obtain ⟨w, rfl⟩ := List.length_eq_one_iff.mp (hlen.trans h.numWords_eq)
  have hle : s.width ≤ kWordBitSize := h
  have hmask : (kAllOnes >>> UInt64.ofNat (kWordBitSize - s.width)).toNat = 2 ^ s.width - 1 :=
    toNat_ones_shiftRight s.width_pos h
  have hwords : (ofShape s [w] hlen).words =
      [w &&& (kAllOnes >>> UInt64.ofNat (kWordBitSize - s.width))] := by
    simp only [ofShape, truncInPlace, hle, ↓reduceIte, ne_eq, not_true_eq_false]
    rfl
  rw [value, hwords, value_cons, value_cons, value_nil, UInt64.toNat_and, hmask,
    Nat.and_two_pow_sub_one_eq_mod]
  rfl

lemma words_ofShape {s : Shape} (h : ¬s.IsOneWord) (words : List UInt64)
    (hlen : words.length = s.numWords) : (ofShape s words hlen).words = words := by
  have hgt : ¬s.width ≤ kWordBitSize := h
  have hmask : (fun value : UInt64 => value &&& (kAllOnes >>> UInt64.ofNat (0 % kWordBitSize))) =
      id := by
    funext w
    exact UInt64.and_neg_one
  simp only [ofShape, truncInPlace, hgt, ↓reduceIte, hmask]
  exact List.modify_id _ _

lemma value_ofShape {s : Shape} (h : ¬s.IsOneWord) (words : List UInt64)
    (hlen : words.length = s.numWords) : (ofShape s words hlen).value = Words.value words := by
  rw [value, words_ofShape h]

@[simp] lemma shape_ofShape (s : Shape) (words : List UInt64) (h : words.length = s.numWords) :
    (ofShape s words h).shape = s := rfl

@[simp] lemma shape_ofNumber (s : Shape) (val : UInt64) : (ofNumber s val).shape = s := rfl

lemma value_ofNumber_of_isOneWord {s : Shape} (h : s.IsOneWord) (val : UInt64) :
    (ofNumber s val).value = val.toNat % 2 ^ s.width := by
  rw [ofNumber, value_ofShape_of_isOneWord h, initNumber, h.numWords_eq, Nat.sub_self,
    List.replicate_zero, value_cons, value_nil]
  rfl

lemma ofPointer_eq {s : Shape} {p : List UInt64} (h : s.numWords ≤ p.length) :
    ofPointer s p = some (ofShape s (p.take s.numWords) (List.length_take_of_le h)) :=
  dif_pos h

/-- The bits that a value of the shape takes from its words. -/
def Shape.kept (s : Shape) : Nat := if s.IsOneWord then s.width else s.capacity

lemma value_ofShape_take {s : Shape} {p : List UInt64} (h : s.numWords ≤ p.length) :
    (ofShape s (p.take s.numWords) (List.length_take_of_le h)).value =
      Words.value p % 2 ^ s.kept := by
  unfold Shape.kept
  split_ifs with hone
  · have hdvd : 2 ^ s.width ∣ 2 ^ (64 * s.numWords) := by
      rw [hone.numWords_eq]
      exact pow_dvd_pow 2 hone
    rw [value_ofShape_of_isOneWord hone, value_take p h, Nat.mod_mod_of_dvd _ hdvd]
  · rw [value_ofShape hone, value_take p h]
    rfl

/-! ### Bits -/

lemma isOneWord_shape {a : IntVal} : a.shape.IsOneWord ↔ a.IsOneWord := Iff.rfl

lemma IsOneWord.word_eq {a : IntVal} (h : a.IsOneWord) : a.word.toNat = a.value := h.value_eq.symm

lemma getNumWords_of_le {w : Nat} (h : w ≤ kWordBitSize * getNumWords w) :
    getNumWords w = (w + 63) / 64 := by
  have hdef : getNumWords w = (w + 64 - 1) / 64 % 2 ^ 8 := rfl
  have hle : w ≤ 64 * getNumWords w := h
  omega

lemma getBit_eq {a : IntVal} (hcap : a.width ≤ a.storageBits) {bit : Nat} (h : bit < a.width) :
    a.getBit bit = a.value.testBit bit := by
  unfold getBit
  split_ifs with hone
  · have hle : a.width ≤ 64 := hone
    rw [and_one_shiftLeft_ne_zero (by omega), hone.word_eq]
  · have hlen := a.words_length
    have hwidth : a.width ≤ kWordBitSize * getNumWords a.width := hlen ▸ hcap
    have hnum := getNumWords_of_le hwidth
    have hword : (getNumWords (bit + 1) + 2 ^ 8 - 1) % 2 ^ 8 = bit / 64 := by
      have hdef : getNumWords (bit + 1) = (bit + 1 + 64 - 1) / 64 % 2 ^ 8 := rfl
      have hdef' : getNumWords a.width = (a.width + 64 - 1) / 64 % 2 ^ 8 := rfl
      omega
    dsimp only
    rw [hword, and_one_shiftLeft_ne_zero (Nat.mod_lt _ (by decide)), value, testBit_value]

lemma getSignBit_eq {a : IntVal} (hcap : a.width ≤ a.storageBits) :
    a.getSignBit = a.value.testBit (a.width - 1) := by
  have hpos := a.width_pos
  exact getBit_eq hcap (by omega)

lemma testBit_sub_one_iff {v w : Nat} (hpos : 0 < w) (h : v < 2 ^ w) :
    v.testBit (w - 1) = true ↔ 2 ^ (w - 1) ≤ v := by
  have hpow : 2 ^ w = 2 * 2 ^ (w - 1) := by
    rw [← pow_succ', Nat.sub_add_cancel hpos]
  rw [Nat.testBit_eq_decide_div_mod_eq, decide_eq_true_iff]
  have hhalf : 0 < 2 ^ (w - 1) := Nat.two_pow_pos _
  constructor
  · intro hbit
    by_contra hlt
    rw [Nat.div_eq_of_lt (by omega)] at hbit
    exact absurd hbit (by decide)
  · intro hle
    have hdiv : v / 2 ^ (w - 1) = 1 := by
      apply Nat.div_eq_of_lt_le
      · rw [Nat.one_mul]
        exact hle
      · rw [Nat.add_mul, Nat.one_mul]
        omega
    rw [hdiv]

lemma toInt_eq {a : IntVal} (hcanon : a.Canonical) :
    a.toInt = if a.sign = true ∧ a.value.testBit (a.width - 1) = true then
      (a.value : Int) - 2 ^ a.width else a.value := by
  have hpos := a.width_pos
  have hbit := testBit_sub_one_iff hpos hcanon
  have hpow : 2 ^ a.width = 2 * 2 ^ (a.width - 1) := by
    rw [← pow_succ', Nat.sub_add_cancel hpos]
  have hmod : a.value % 2 ^ a.width = a.value := Nat.mod_eq_of_lt hcanon
  have hval : a.toInt = if a.sign = true then (a.value : Int).bmod (2 ^ a.width)
      else (a.value : Int) % (2 ^ a.width : Nat) := rfl
  rw [hval]
  by_cases hsign : a.sign = true
  · simp only [hsign, true_and, hbit, if_true]
    have hcast : (2 : Int) ^ a.width = (2 ^ a.width : Nat) := by
      push_cast
      rfl
    rw [Int.bmod_def, ← Int.natCast_mod, hmod, hcast]
    generalize 2 ^ a.width = m at *
    split_ifs <;> omega
  · rw [if_neg hsign, if_neg (fun h => hsign h.1), ← Int.natCast_mod, hmod]

lemma toInt_emod {a : IntVal} (hcanon : a.Canonical) : a.toInt % 2 ^ a.width = a.value := by
  have hwrap := a.shape.format.wrap_emod a.value
  have hmod : a.shape.format.modulus = 2 ^ a.width := rfl
  rw [hmod] at hwrap
  push_cast at hwrap
  exact hwrap.trans (value_emod_width hcanon)

/-! ### Extended values -/

lemma or_high {v w n : Nat} (hle : w ≤ n) (hlt : v < 2 ^ w) :
    v ||| (2 ^ n - 2 ^ w) = v + (2 ^ n - 2 ^ w) := by
  have hmul : 2 ^ n - 2 ^ w = 2 ^ w * (2 ^ (n - w) - 1) := by
    rw [Nat.mul_sub, ← pow_add, Nat.add_sub_cancel' hle, Nat.mul_one]
  rw [hmul, Nat.or_comm, ← Nat.two_pow_add_eq_or_of_lt hlt, Nat.add_comm]

lemma or_leadingOnes {v w : Nat} (hle : w ≤ 64) (hlt : v < 2 ^ w) (hge : 2 ^ (w - 1) ≤ v) :
    v ||| (if w < 64 then 2 ^ 64 - 2 ^ w else 2 ^ 63) = v + (2 ^ 64 - 2 ^ w) := by
  split_ifs with hw
  · exact or_high hle hlt
  · have hw' : w = 64 := by omega
    subst hw'
    obtain ⟨u, rfl⟩ : ∃ u, v = 2 ^ 63 * 1 + u := ⟨v - 2 ^ 63, by omega⟩
    have hu : u < 2 ^ 63 := by omega
    rw [Nat.two_pow_add_eq_or_of_lt hu, Nat.or_comm, ← Nat.or_assoc, Nat.mul_one, Nat.or_self,
      Nat.sub_self, Nat.add_zero]

lemma toNat_leadingOnes {w : Nat} :
    (kAllOnes <<< UInt64.ofNat (if w < kWordBitSize then w else kWordBitSize - 1)).toNat =
      if w < 64 then 2 ^ 64 - 2 ^ w else 2 ^ 63 := by
  split_ifs with hw
  · exact toNat_ones_shiftLeft hw
  · decide

lemma IsOneWord.width_le {a : IntVal} (h : a.IsOneWord) : a.width ≤ a.storageBits := by
  rw [← capacity_shape, Shape.capacity_eq (isOneWord_shape.mpr h)]
  exact h

lemma toNat_shift_back {a : IntVal} (h : a.IsOneWord) (hcanon : a.Canonical) :
    ((a.word <<< UInt64.ofNat (64 - a.width)) >>> UInt64.ofNat (64 - a.width)).toNat = a.value := by
  have hpos := a.width_pos
  have hlt : a.value < 2 ^ a.width := hcanon
  have hrest : 0 < 2 ^ (64 - a.width) := Nat.two_pow_pos _
  have hprod : a.value * 2 ^ (64 - a.width) < 2 ^ 64 := by
    rw [← two_pow_mul_two_pow_sub (show a.width ≤ 64 from h)]
    exact Nat.mul_lt_mul_of_pos_right hlt hrest
  rw [toNat_shiftRight (by omega), toNat_shiftLeft (by omega), h.word_eq, Nat.mod_eq_of_lt hprod,
    Nat.mul_div_cancel _ hrest]

lemma toInt_getSXTValue {a : IntVal} (h : a.IsOneWord) (hcanon : a.Canonical) :
    (a.getSXTValue 0).toInt = (a.value : Int).bmod (2 ^ a.width) := by
  have hpos := a.width_pos
  have hle : a.width ≤ 64 := h
  have hlt : a.value < 2 ^ a.width := hcanon
  have hbit := testBit_sub_one_iff hpos hcanon
  have hpow : 2 ^ a.width = 2 * 2 ^ (a.width - 1) := by
    rw [← pow_succ', Nat.sub_add_cancel hpos]
  have hpow_le : 2 ^ a.width ≤ 2 ^ 64 := Nat.pow_le_pow_right (by decide) hle
  have hwidth : a.width % 2 ^ 8 = a.width := Nat.mod_eq_of_lt (by omega)
  have hshift : (kWordBitSize + 2 ^ 8 - a.width) % 2 ^ 8 = 64 - a.width := by
    change (64 + 256 - a.width) % 256 = _
    omega
  have hback := toNat_shift_back h hcanon
  rw [getSXTValue]
  simp only [ne_eq, not_true_eq_false, ↓reduceIte, hwidth, hshift, hpos.ne', not_false_eq_true]
  rw [getBit_eq h.width_le (by omega), toInt_toInt64, Int.bmod_def, Int.bmod_def,
    ← Int.natCast_mod, ← Int.natCast_mod, Nat.mod_eq_of_lt hlt, Nat.mod_eq_of_lt (UInt64.toNat_lt _)]
  by_cases hneg : a.value.testBit (a.width - 1) = true
  · have hge := hbit.mp hneg
    rw [if_pos hneg, UInt64.toNat_or, hback, toNat_leadingOnes, or_leadingOnes hle hlt hge]
    generalize 2 ^ a.width = m at *
    split_ifs <;> omega
  · have hge := mt hbit.mpr hneg
    rw [if_neg hneg, hback]
    generalize 2 ^ a.width = m at *
    split_ifs <;> omega

lemma toNat_getExtValue {a : IntVal} (h : a.IsOneWord) (hcanon : a.Canonical) :
    ((a.getExtValue 0).toUInt64.toNat : Int) = a.toInt % 2 ^ 64 := by
  rw [getExtValue, toInt, IntFormat.wrap]
  have hsign : a.shape.format.signed = a.sign := rfl
  have hmod : a.shape.format.modulus = 2 ^ a.width := rfl
  rw [hsign, hmod]
  split_ifs
  · rw [← toInt_getSXTValue h hcanon]
    exact Int64.asUInt64_eq _
  · have hlt : a.value < 2 ^ 64 := h.value_eq ▸ a.word.toNat_lt
    push_cast
    rw [value_emod_width hcanon, getZXTValue, if_neg (by simp), UInt64.toUInt64_toInt64, h.word_eq]
    exact (Int.emod_eq_of_lt (Int.natCast_nonneg _) (by exact_mod_cast hlt)).symm

lemma wrap_word_emod (sign : Bool) (x : Int) {w : Nat} (hw : w ≤ 64) :
    (⟨64, sign⟩ : IntFormat).wrap x % 2 ^ w = x % 2 ^ w := by
  have hdvd : (2 : Int) ^ w ∣ 2 ^ 64 := pow_dvd_pow 2 hw
  have hwrap := IntFormat.wrap_emod ⟨64, sign⟩ x
  have hmod : ((IntFormat.modulus ⟨64, sign⟩ : Nat) : Int) = 2 ^ 64 := by
    rw [IntFormat.modulus]
    norm_cast
  rw [hmod] at hwrap
  rw [← Int.emod_emod_of_dvd _ hdvd, hwrap, Int.emod_emod_of_dvd _ hdvd]

/-! ### Truncation -/

lemma numWords_shape {a : IntVal} (hcap : a.width ≤ a.storageBits) :
    a.words.length = (a.width + 63) / 64 := by
  rw [a.words_length]
  rw [← capacity_shape] at hcap
  exact getNumWords_of_le hcap

lemma numWords_eq_of_le {a : IntVal} (hcap : a.width ≤ a.storageBits) {s : Shape}
    (h : s.width ≤ a.width) : s.numWords = (s.width + 63) / 64 := by
  have hlen := numWords_shape hcap
  have hdef : a.words.length = (a.width + 64 - 1) / 64 % 2 ^ 8 := a.words_length
  change (s.width + 64 - 1) / 64 % 2 ^ 8 = _
  omega

lemma trunc_spec {a : IntVal} (hcap : a.width ≤ a.storageBits) {s : Shape}
    (h : s.width ≤ a.width) :
    ∃ r, a.trunc s = some r ∧ r.shape = s ∧ r.value = a.value % 2 ^ s.kept := by
  have hnum := numWords_eq_of_le hcap h
  have hlen := numWords_shape hcap
  rw [trunc]
  by_cases hone : a.IsOneWord
  · have hs : s.IsOneWord := le_trans h hone
    refine ⟨_, if_pos hone, rfl, ?_⟩
    rw [value_ofNumber_of_isOneWord hs, hone.word_eq, Shape.kept, if_pos hs]
  · have hle : s.numWords ≤ a.words.length := by
      rw [hnum, hlen]
      omega
    refine ⟨_, (if_neg hone).trans (ofPointer_eq hle), rfl, ?_⟩
    exact value_ofShape_take hle

/-! ### Extension -/

lemma extend_spec {a : IntVal} (hcanon : a.Canonical) {s : Shape} (ha : a.IsOneWord)
    (hs : s.IsOneWord) :
    ∃ r, a.extend s = some r ∧ r.shape = s ∧ (r.value : Int) = a.toInt % 2 ^ s.width := by
  refine ⟨_, if_pos ⟨ha, hs⟩, rfl, ?_⟩
  have hdvd : (2 : Int) ^ s.width ∣ 2 ^ 64 := pow_dvd_pow 2 hs
  rw [value_ofNumber_of_isOneWord hs]
  push_cast
  rw [toNat_getExtValue ha hcanon, Int.emod_emod_of_dvd _ hdvd]

lemma length_extendedWords (a : IntVal) {s : Shape} (h : a.words.length ≤ s.numWords) :
    (a.extendedWords s).length = s.numWords := by
  rw [extendedWords, List.length_append, List.length_replicate, apply_ite List.length,
    List.length_modify, ite_self]
  exact Nat.add_sub_cancel' h

lemma extendToWideInt_spec {a : IntVal} {s : Shape} (h : a.words.length ≤ s.numWords)
    (hs : ¬s.IsOneWord) :
    ∃ r, a.extendToWideInt s = some r ∧ r.shape = s ∧
      r.value = Words.value (a.extendedWords s) := by
  have hlen := length_extendedWords a h
  refine ⟨_, (if_pos h).trans (ofPointer_eq hlen.ge), rfl, ?_⟩
  rw [value_ofShape hs]
  congr 1
  exact List.take_of_length_le hlen.le

lemma value_modify_last {ws : List UInt64} (hne : ws ≠ []) {e : Nat} (hpos : 0 < e) (he : e < 64) :
    Words.value (ws.modify (ws.length - 1) (· ||| (kAllOnes <<< UInt64.ofNat (64 - e)))) =
      Words.value ws ||| (2 ^ (64 * ws.length) - 2 ^ (64 * ws.length - e)) := by
  obtain ⟨us, w, rfl⟩ : ∃ us w, ws = us ++ [w] := ⟨_, _, (List.dropLast_append_getLast hne).symm⟩
  have hlen : (us ++ [w]).length = us.length + 1 := by simp
  have hmodify : (us ++ [w]).modify us.length (· ||| (kAllOnes <<< UInt64.ofNat (64 - e))) =
      us ++ [w ||| (kAllOnes <<< UInt64.ofNat (64 - e))] := by
    rw [List.modify_eq_take_drop, List.take_left, List.drop_left]
    rfl
  have hones : (kAllOnes <<< UInt64.ofNat (64 - e)).toNat = 2 ^ 64 - 2 ^ (64 - e) :=
    toNat_ones_shiftLeft (by omega)
  have hu := Words.value_lt us
  have hmask : 2 ^ (64 * (us.length + 1)) - 2 ^ (64 * (us.length + 1) - e) =
      2 ^ (64 * us.length) * (2 ^ 64 - 2 ^ (64 - e)) := by
    have hexp : 64 * (us.length + 1) - e = 64 * us.length + (64 - e) := by omega
    rw [hexp, Nat.mul_sub, ← pow_add, ← pow_add]
    rfl
  rw [hlen, Nat.add_sub_cancel, hmodify, hmask, value_append, value_append, value_cons, value_cons,
    value_nil, UInt64.toNat_or, hones, Nat.mul_zero, Nat.add_zero, Nat.add_zero]
  -- the bits below the last word are those of `us`
  apply Nat.eq_of_testBit_eq
  intro i
  rw [Nat.testBit_or, Nat.add_comm, Nat.testBit_two_pow_mul_add _ hu, Nat.add_comm,
    Nat.testBit_two_pow_mul_add _ hu, Nat.testBit_two_pow_mul]
  split_ifs with hi
  · simp [Nat.not_le.mpr hi]
  · rw [Nat.testBit_or]
    simp [Nat.not_lt.mp hi]

lemma value_extendedWords {a : IntVal} {s : Shape} (h : (a.sign && a.getSignBit) = false) :
    Words.value (a.extendedWords s) = a.value := by
  simp only [extendedWords, h, Bool.false_eq_true, and_false, ↓reduceIte]
  rw [value_append, value_replicate_zero, Nat.mul_zero, Nat.add_zero]
  rfl

lemma value_extendedWords_of_neg {a : IntVal} {s : Shape} (h : (a.sign && a.getSignBit) = true) :
    Words.value (a.extendedWords s) =
      (a.value ||| (2 ^ (64 * a.words.length) -
        2 ^ (64 * a.words.length - (s.width - a.width) % 64))) +
      2 ^ (64 * a.words.length) * (2 ^ (64 * (s.numWords - a.words.length)) - 1) := by
  have hfill := value_replicate_ones (s.numWords - a.words.length)
  simp only [extendedWords, h, and_true, ↓reduceIte]
  split_ifs with he
  · rw [value_append, List.length_modify]
    congr 1
    · exact value_modify_last a.words_ne_nil (Nat.pos_of_ne_zero he) (Nat.mod_lt _ (by decide))
    · exact congrArg _ hfill
  · have hzero : (s.width - a.width) % 64 = 0 := not_not.mp he
    rw [value_append, hzero, Nat.sub_zero, Nat.sub_self, Nat.or_zero]
    congr 1
    exact congrArg _ hfill

lemma toInt_nonneg_iff {a : IntVal} (hcanon : a.Canonical) (hcap : a.width ≤ a.storageBits) :
    0 ≤ a.toInt ↔ (a.sign && a.getSignBit) = false := by
  have hlt : (a.value : Int) < 2 ^ a.width := by exact_mod_cast hcanon
  rw [toInt_eq hcanon, getSignBit_eq hcap, Bool.and_eq_false_iff]
  cases a.sign <;> cases a.value.testBit (a.width - 1) <;> simp
  omega

lemma toInt_of_nonneg {a : IntVal} (hcanon : a.Canonical) (h : 0 ≤ a.toInt) : a.toInt = a.value := by
  have hlt : (a.value : Int) < 2 ^ a.width := by exact_mod_cast hcanon
  rw [toInt_eq hcanon] at h ⊢
  split_ifs at h ⊢
  · omega
  · rfl

lemma toInt_of_neg {a : IntVal} (hcanon : a.Canonical) (h : a.toInt < 0) :
    a.toInt = a.value - 2 ^ a.width := by
  rw [toInt_eq hcanon] at h ⊢
  split_ifs at h ⊢
  · rfl
  · omega

lemma toInt_emod_of_neg {a : IntVal} (hcanon : a.Canonical) (h : a.toInt < 0) {w : Nat}
    (hw : a.width ≤ w) : a.toInt % 2 ^ w = a.value + (2 ^ w - 2 ^ a.width) := by
  have hlt : (a.value : Int) < 2 ^ a.width := by exact_mod_cast hcanon
  have hpow : (2 : Int) ^ a.width ≤ 2 ^ w := pow_le_pow_right₀ (by decide) hw
  have heq := toInt_of_neg hcanon h
  rw [← Int.add_emod_right, Int.emod_eq_of_lt (by omega) (by omega)]
  omega

lemma toInt_emod_of_nonneg {a : IntVal} (hcanon : a.Canonical) (h : 0 ≤ a.toInt) {w : Nat}
    (hw : a.width ≤ w) : a.toInt % 2 ^ w = a.value := by
  have hlt : (a.value : Int) < 2 ^ a.width := by exact_mod_cast hcanon
  have hpow : (2 : Int) ^ a.width ≤ 2 ^ w := pow_le_pow_right₀ (by decide) hw
  rw [toInt_of_nonneg hcanon h]
  exact Int.emod_eq_of_lt (Int.natCast_nonneg _) (by omega)

lemma two_pow_mul_sub {n m : Nat} (h : n ≤ m) :
    2 ^ (64 * n) * (2 ^ (64 * (m - n)) - 1) = 2 ^ (64 * m) - 2 ^ (64 * n) := by
  rw [Nat.mul_sub, ← pow_add, Nat.mul_one, ← Nat.mul_add, Nat.add_sub_cancel' h]

lemma Shape.numWords_eq {s : Shape} (h : s.width ≤ s.capacity) :
    s.numWords = (s.width + 63) / 64 := getNumWords_of_le h

lemma value_extendedWords_eq_iff {a : IntVal} (hcanon : a.Canonical) (hcap : a.width ≤ a.storageBits)
    {s : Shape} (hs : s.width ≤ s.capacity) (hw : a.width < s.width) (hneg : a.toInt < 0) :
    (Words.value (a.extendedWords s) : Int) = a.toInt % 2 ^ s.width ↔ s.width % 64 = 0 := by
  have hold := numWords_shape hcap
  have hnew := Shape.numWords_eq hs
  have hsign : (a.sign && a.getSignBit) = true := by
    rw [← Bool.not_eq_false, ← toInt_nonneg_iff hcanon hcap]
    omega
  have hle : a.words.length ≤ s.numWords := by omega
  have hpow : ∀ {n m : Nat}, n ≤ m → 2 ^ n ≤ 2 ^ m := Nat.pow_le_pow_right (by decide)
  rw [value_extendedWords_of_neg hsign, two_pow_mul_sub hle, toInt_emod_of_neg hcanon hneg hw.le]
  constructor
  · intro heq
    by_contra hmod
    have hlt : a.value < 2 ^ a.width := hcanon
    have hbound : 2 ^ s.width ≤ 2 ^ (64 * s.numWords - 1) := hpow (by omega)
    have hhalf : 2 ^ (64 * s.numWords) = 2 * 2 ^ (64 * s.numWords - 1) := by
      rw [← pow_succ', Nat.sub_add_cancel (by omega)]
    have hcast : (2 : Int) ^ s.width - 2 ^ a.width = ((2 ^ s.width - 2 ^ a.width : Nat) : Int) := by
      push_cast [hpow hw.le]
      rfl
    rw [hcast] at heq
    -- the highest bit of the last word is set
    rcases hle.lt_or_eq with hlt' | heq'
    · have hrest : 2 ^ (64 * a.words.length) ≤ 2 ^ (64 * s.numWords - 1) := hpow (by omega)
      have hwidths := hpow hw.le
      omega
    · have hor := Nat.right_le_or (n := a.value) (m := 2 ^ (64 * a.words.length) -
        2 ^ (64 * a.words.length - (s.width - a.width) % 64))
      have hrest : 2 ^ (64 * a.words.length - (s.width - a.width) % 64) ≤
          2 ^ (64 * s.numWords - 1) := hpow (by omega)
      have hwidths := hpow hw.le
      rw [heq'] at hor hrest heq
      omega
  · intro hmod
    have hexp : 64 * a.words.length - (s.width - a.width) % 64 = a.width := by omega
    have hend : 64 * s.numWords = s.width := by omega
    have hold_le : 2 ^ (64 * a.words.length) ≤ 2 ^ s.width := hpow (by omega)
    have hwidth_le : 2 ^ a.width ≤ 2 ^ (64 * a.words.length) := hpow (by omega)
    rw [hexp, hend, or_high (by omega) hcanon]
    push_cast [hold_le, hwidth_le]
    ring

/-! ### Conversions -/

/-- `r` has the shape, its words have all bits of the width, and these are the bits of `x`. -/
structure Represents (r : IntVal) (s : Shape) (x : Int) : Prop where
  shape_eq : r.shape = s
  width_le : s.width ≤ s.capacity
  value_eq : (r.value : Int) = x % 2 ^ s.width

/-- `TruncOrExtend` gives the bits of the number, and an extension can be taken back. -/
def ConvertsExactly (a : IntVal) (s : Shape) : Prop :=
  ∃ r, a.truncOrExtend s = some r ∧ r.Represents s a.toInt ∧
    (a.width < s.width → ∃ b, r.truncOrExtend a.shape = some b ∧ b.value = a.value)

lemma convertsExactly_of_le {a : IntVal} (hcanon : a.Canonical) (hcap : a.width ≤ a.storageBits)
    {s : Shape} (h : s.width ≤ a.width) :
    a.ConvertsExactly s ↔ s.IsOneWord ∨ a.value % 2 ^ s.capacity < 2 ^ s.width := by
  obtain ⟨r, hr, hshape, hvalue⟩ := trunc_spec hcap h
  have hnum := numWords_eq_of_le hcap h
  have hle : s.width ≤ s.capacity := by
    rw [Shape.capacity, hnum, kWordBitSize]
    omega
  have hexact : (a.toInt % 2 ^ s.width : Int) = (a.value % 2 ^ s.width : Nat) := by
    have hdvd : (2 : Int) ^ s.width ∣ 2 ^ a.width := pow_dvd_pow 2 h
    rw [← Int.emod_emod_of_dvd _ hdvd, toInt_emod hcanon]
    push_cast
    rfl
  have hiff : a.ConvertsExactly s ↔ r.value = a.value % 2 ^ s.width := by
    constructor
    · rintro ⟨r', hr', hrep, -⟩
      rw [truncOrExtend, if_pos h, hr, Option.some.injEq] at hr'
      have heq := hrep.value_eq
      rw [← hr', hexact] at heq
      exact_mod_cast heq
    · intro heq
      refine ⟨r, (if_pos h).trans hr, ⟨hshape, hle, ?_⟩, fun hlt => absurd hlt (not_lt.mpr h)⟩
      rw [hexact, heq]
  rw [hiff, hvalue, Shape.kept]
  split_ifs with hone
  · exact iff_of_true rfl (Or.inl hone)
  · rw [or_iff_right hone]
    have hdvd : 2 ^ s.width ∣ 2 ^ s.capacity := pow_dvd_pow 2 hle
    constructor
    · intro heq
      rw [heq]
      exact Nat.mod_lt _ (Nat.two_pow_pos _)
    · intro hlt
      rw [← Nat.mod_mod_of_dvd a.value hdvd, Nat.mod_eq_of_lt hlt]

lemma width_le_kept {s : Shape} (h : s.width ≤ s.capacity) : s.width ≤ s.kept := by
  rw [Shape.kept]
  split_ifs
  · exact le_refl _
  · exact h

lemma width_le_kept_shape {a : IntVal} (hcap : a.width ≤ a.storageBits) :
    a.width ≤ a.shape.kept := by
  have hshape : a.shape.width ≤ a.shape.capacity := by
    rw [capacity_shape]
    exact hcap
  exact width_le_kept hshape

lemma exists_truncOrExtend_shape {a r : IntVal} {s : Shape} (hshape : r.shape = s)
    (hs : s.width ≤ s.capacity) (hw : a.width < s.width) :
    ∃ b, r.truncOrExtend a.shape = some b ∧ b.value = r.value % 2 ^ a.shape.kept := by
  have hwidth : r.width = s.width := congrArg Shape.width hshape
  have hle : a.shape.width ≤ r.width := by
    rw [hwidth]
    exact hw.le
  have hcap : r.width ≤ r.storageBits := by
    rw [← capacity_shape, hshape, hwidth]
    exact hs
  obtain ⟨b, hb, -, hvalue⟩ := trunc_spec hcap hle
  exact ⟨b, (if_pos hle).trans hb, hvalue⟩

lemma kept_eq_width_iff {a : IntVal} (hcap : a.width ≤ a.storageBits) :
    a.shape.kept = a.width ↔ a.IsOneWord ∨ a.width % 64 = 0 := by
  have hlen := numWords_shape hcap
  have hcapacity := capacity_shape a
  rw [Shape.kept]
  split_ifs with hone
  · exact iff_of_true rfl (Or.inl hone)
  · rw [or_iff_right (mt isOneWord_shape.mpr hone), hcapacity, storageBits, hlen, kWordBitSize]
    omega

lemma convertsExactly_of_lt {a : IntVal} (hcanon : a.Canonical) (hcap : a.width ≤ a.storageBits)
    {s : Shape} (hw : a.width < s.width) :
    a.ConvertsExactly s ↔ s.width ≤ s.capacity ∧
      (s.IsOneWord ∨ 0 ≤ a.toInt ∨ s.width % 64 = 0 ∧ (a.IsOneWord ∨ a.width % 64 = 0)) := by
  by_cases hs : s.width ≤ s.capacity
  swap
  · refine iff_of_false ?_ (fun h => hs h.1)
    rintro ⟨r, -, hrep, -⟩
    exact hs hrep.width_le
  rw [and_iff_right hs]
  have hnot : ¬s.width ≤ a.width := not_le.mpr hw
  by_cases hone : s.IsOneWord
  · have ha : a.IsOneWord := le_trans hw.le hone
    refine iff_of_true ?_ (Or.inl hone)
    obtain ⟨r, hr, hshape, hvalue⟩ := extend_spec hcanon ha hone
    obtain ⟨b, hb, hback⟩ := exists_truncOrExtend_shape hshape hs hw
    refine ⟨r, (if_neg hnot).trans hr, ⟨hshape, hs, hvalue⟩, fun _ => ⟨b, hb, ?_⟩⟩
    have hkept : a.shape.kept = a.width := (kept_eq_width_iff hcap).mpr (Or.inl ha)
    have hdvd : (2 : Int) ^ a.width ∣ 2 ^ s.width := pow_dvd_pow 2 hw.le
    have hint : (b.value : Int) = a.value := by
      rw [hback, hkept]
      push_cast
      rw [hvalue, Int.emod_emod_of_dvd _ hdvd, toInt_emod hcanon]
    exact_mod_cast hint
  rw [or_iff_right hone]
  have hold := numWords_shape hcap
  have hnew := Shape.numWords_eq hs
  obtain ⟨r, hr, hshape, hvalue⟩ :=
    extendToWideInt_spec (a := a) (s := s) (by omega) hone
  have hextend : a.truncOrExtend s = some r :=
    (if_neg hnot).trans ((if_neg fun h => hone h.2).trans hr)
  obtain ⟨b, hb, hback⟩ := exists_truncOrExtend_shape hshape hs hw
  by_cases hsign : 0 ≤ a.toInt
  · have hval : r.value = a.value := by
      rw [hvalue, value_extendedWords ((toInt_nonneg_iff hcanon hcap).mp hsign)]
    have hpow : 2 ^ a.width ≤ 2 ^ a.shape.kept :=
      Nat.pow_le_pow_right (by decide) (width_le_kept_shape hcap)
    refine iff_of_true ⟨r, hextend, ⟨hshape, hs, ?_⟩, fun _ => ⟨b, hb, ?_⟩⟩ (Or.inl hsign)
    · rw [hval, toInt_emod_of_nonneg hcanon hsign hw.le]
    · rw [hback, hval]
      exact Nat.mod_eq_of_lt (lt_of_lt_of_le hcanon hpow)
  · have hneg : a.toInt < 0 := not_le.mp hsign
    have hexact := value_extendedWords_eq_iff hcanon hcap hs hw hneg
    rw [← hvalue] at hexact
    rw [or_iff_right hsign, ← kept_eq_width_iff hcap]
    have hkept_le : s.width % 64 = 0 → a.shape.kept ≤ s.width := by
      intro hmod
      have hcapacity := capacity_shape a
      rw [Shape.kept]
      split_ifs
      · exact hw.le
      · rw [hcapacity, storageBits, kWordBitSize]
        omega
    -- what comes back of an exact extension
    have hround : (r.value : Int) = a.toInt % 2 ^ s.width → s.width % 64 = 0 →
        (b.value = a.value ↔ a.shape.kept = a.width) := by
      intro heq hmod
      have hdvd : (2 : Int) ^ a.shape.kept ∣ 2 ^ s.width := pow_dvd_pow 2 (hkept_le hmod)
      have hint : (b.value : Int) = a.value + (2 ^ a.shape.kept - 2 ^ a.width) := by
        rw [hback]
        push_cast
        rw [heq, Int.emod_emod_of_dvd _ hdvd]
        exact toInt_emod_of_neg hcanon hneg (width_le_kept_shape hcap)
      constructor
      · intro hval
        rw [hval] at hint
        have hpow : (2 : Int) ^ a.shape.kept = 2 ^ a.width := by omega
        exact Int.pow_right_injective (le_refl 2) hpow
      · intro hval
        rw [hval, sub_self, add_zero] at hint
        exact_mod_cast hint
    constructor
    · rintro ⟨r', hr', hrep, hback'⟩
      obtain rfl : r = r' := Option.some.inj (hextend.symm.trans hr')
      have hmod := hexact.mp hrep.value_eq
      obtain ⟨b', hb', hval⟩ := hback' hw
      obtain rfl : b = b' := Option.some.inj (hb.symm.trans hb')
      exact ⟨hmod, (hround hrep.value_eq hmod).mp hval⟩
    · rintro ⟨hmod, hkept⟩
      have heq := hexact.mpr hmod
      exact ⟨r, hextend, ⟨hshape, hs, heq⟩, fun _ => ⟨b, hb, (hround heq hmod).mpr hkept⟩⟩

/-- Conversions into one word are exact. In several words, a truncation must not leave bits above
the width, and an extension of a negative number must go to the end of a word, from one word or
from the end of another. -/
theorem convertsExactly_iff {a : IntVal} (hcanon : a.Canonical) (hcap : a.width ≤ a.storageBits)
    (s : Shape) :
    a.ConvertsExactly s ↔ s.width ≤ s.capacity ∧ (s.IsOneWord ∨
      (if s.width ≤ a.width then a.value % 2 ^ s.capacity < 2 ^ s.width
       else 0 ≤ a.toInt ∨ s.width % 64 = 0 ∧ (a.IsOneWord ∨ a.width % 64 = 0))) := by
  split_ifs with h
  · have hnum := numWords_eq_of_le hcap h
    have hle : s.width ≤ s.capacity := by
      rw [Shape.capacity, hnum, kWordBitSize]
      omega
    rw [and_iff_right hle]
    exact convertsExactly_of_le hcanon hcap h
  · exact convertsExactly_of_lt hcanon hcap (not_le.mp h)

theorem convertsExactly_iff_i8 :
    (ofNumber ⟨8, true, by decide, by decide⟩ 200).ConvertsExactly
        ⟨128, false, by decide, by decide⟩ ↔
      (128 : Nat) ≤ Shape.capacity ⟨128, false, by decide, by decide⟩ ∧
        (Shape.IsOneWord ⟨128, false, by decide, by decide⟩ ∨
          (if (128 : Nat) ≤ 8 then
            (ofNumber ⟨8, true, by decide, by decide⟩ 200).value %
              2 ^ Shape.capacity ⟨128, false, by decide, by decide⟩ < 2 ^ 128
          else 0 ≤ (ofNumber ⟨8, true, by decide, by decide⟩ 200).toInt ∨ 128 % 64 = 0 ∧
            ((ofNumber ⟨8, true, by decide, by decide⟩ 200).IsOneWord ∨ 8 % 64 = 0))) :=
  convertsExactly_iff (by unfold Canonical; decide) (by decide) _

/-- Minus one of 64 bits is extended to 128 ones for 100 bits, too, and all ones of 128 bits are
truncated to 128 ones for 65 bits. -/
theorem not_convertsExactly_ones :
    ¬(ofNumber ⟨64, true, by decide, by decide⟩ 18446744073709551615).ConvertsExactly
        ⟨100, true, by decide, by decide⟩ ∧
      ¬(ofNumber ⟨128, true, by decide, by decide⟩ 18446744073709551615).ConvertsExactly
        ⟨65, true, by decide, by decide⟩ := by
  constructor
  · rw [convertsExactly_of_lt (by unfold Canonical; decide) (by decide) (by decide)]
    decide
  · rw [convertsExactly_of_le (by unfold Canonical; decide) (by decide) (by decide)]
    decide

end IntVal
end Maple
