import Maple.Util.IntVal.Compare
import Maple.Util.IntVal.Count

/-!
# Extremal values of `IntVal`
-/

namespace Maple
namespace IntVal

open Words

def areAllBitsOne (a : IntVal) : Bool :=
  if a.IsOneWord then a.word == kAllOnes >>> UInt64.ofNat (kWordBitSize - a.width)
  else a.countTrallingOnes == a.width

def areAllBitsZeros (a : IntVal) : Bool :=
  if a.IsOneWord then a.word == 0 else a.countTrallingZeros == a.width

def wideIsMaxValue (a : IntVal) : Bool :=
  if a.sign then !a.getSignBit && a.countTrallingOnes == a.width - 1 else a.areAllBitsOne

def wideIsMinValue (a : IntVal) : Bool :=
  if a.sign then a.getSignBit && a.countTrallingZeros == a.width - 1 else a.areAllBitsZeros

def isMaxValue (a : IntVal) : Bool :=
  if a.IsOneWord then
    (if a.sign then a.word == (1 <<< UInt64.ofNat (a.width - 1)) - 1 else a.areAllBitsOne)
  else a.wideIsMaxValue

def isMinValue (a : IntVal) : Bool :=
  if a.IsOneWord then
    (if a.sign then a.word == 1 <<< UInt64.ofNat (a.width - 1) else a.word == 0)
  else a.wideIsMinValue

/-- The words of `WideSetMaxValue`. -/
def maxWords (a : IntVal) : List UInt64 :=
  let words := List.replicate a.words.length kAllOnes
  if a.sign then
    words.set (a.words.length - 1) (kAllOnes >>> UInt64.ofNat (a.width % kWordBitSize + 1))
  else words

/-- The words of `WideSetMinValue`. The shift is the remainder of a negative number, cast to a
`uint8`. -/
def minWords (a : IntVal) : List UInt64 :=
  let words := List.replicate a.words.length 0
  if a.sign then
    let shift := (((kWordBitSize : Int) - (a.width + 1)).tmod kWordBitSize % 2 ^ 8).toNat
    words.set (a.words.length - 1) (1 <<< UInt64.ofNat shift)
  else words

lemma length_maxWords (a : IntVal) : a.maxWords.length = a.words.length := by
  simp only [maxWords]
  split_ifs <;> simp

lemma length_minWords (a : IntVal) : a.minWords.length = a.words.length := by
  simp only [minWords]
  split_ifs <;> simp

def setMaxValue (a : IntVal) : IntVal :=
  if a.IsOneWord then
    a.withWords (a.words.set 0 (if a.sign then (1 <<< UInt64.ofNat (a.width - 1)) - 1
      else kAllOnes >>> UInt64.ofNat (kWordBitSize - a.width))) List.length_set
  else a.ofWords a.maxWords a.length_maxWords

def setMinValue (a : IntVal) : IntVal :=
  if a.IsOneWord then
    a.withWords (a.words.set 0 (if a.sign then 1 <<< UInt64.ofNat (a.width - 1) else 0))
      List.length_set
  else a.ofWords a.minWords a.length_minWords

/-- The bits of the largest number of a shape. -/
def Shape.maxBits (s : Shape) : Nat := if s.sign then 2 ^ (s.width - 1) - 1 else 2 ^ s.width - 1

/-- The bits of the smallest number of a shape. -/
def Shape.minBits (s : Shape) : Nat := if s.sign then 2 ^ (s.width - 1) else 0

/-! ### Trailing bits -/

lemma trallingLoop_eq {full : UInt64} {count : UInt64 → Nat} {b : Bool}
    (hcount : ∀ w, count w = Nat.trailingRun b 64 w.toNat)
    (hfull : ∀ w : UInt64, w = full ↔ Nat.trailingRun b 64 w.toNat = 64) (ws : List UInt64) :
    trallingLoop full count ws = Nat.trailingRun b (64 * ws.length) (Words.value ws) := by
  induction ws with
  | nil => rfl
  | cons w ws ih =>
    have hlen : 64 * (w :: ws).length = 64 + 64 * ws.length := by
      rw [List.length_cons]
      omega
    rw [trallingLoop, hlen, value_cons, Nat.trailingRun_append w.toNat_lt, ih, hcount]
    by_cases hw : w = full
    · rw [if_pos hw, if_pos ((hfull w).mp hw)]
    · rw [if_neg hw, if_neg (mt (hfull w).mpr hw)]

lemma eq_ones_iff (w : UInt64) : w = kAllOnes ↔ Nat.trailingRun true 64 w.toNat = 64 := by
  have hlt := w.toNat_lt
  have hones : kAllOnes.toNat = 2 ^ 64 - 1 := by decide
  rw [Nat.trailingRun_true_eq_self_iff, Nat.mod_eq_of_lt hlt, ← UInt64.toNat_inj, hones]

lemma eq_zero_iff (w : UInt64) : w = 0 ↔ Nat.trailingRun false 64 w.toNat = 64 := by
  have hlt := w.toNat_lt
  rw [Nat.trailingRun_false_eq_self_iff, Nat.mod_eq_of_lt hlt, ← UInt64.toNat_inj,
    UInt64.toNat_zero]

section Wide

variable {a : IntVal} (hone : ¬a.IsOneWord)

include hone

lemma countTrallingOnes_eq_min :
    a.countTrallingOnes = min (Nat.trailingRun true a.storageBits a.value) a.width := by
  rw [countTrallingOnes, if_neg hone, trallingLoop_eq countTrallingOnesWord_eq eq_ones_iff]
  rfl

lemma countTrallingZeros_eq_min :
    a.countTrallingZeros = min (Nat.trailingRun false a.storageBits a.value) a.width := by
  rw [countTrallingZeros, if_neg hone, trallingLoop_eq countTrallingZerosWord_eq eq_zero_iff]
  rfl

lemma wideIsMaxValue_iff (hcap : a.width ≤ a.storageBits) :
    a.wideIsMaxValue = true ↔ a.value % 2 ^ a.width = a.shape.maxBits := by
  have hsign : a.shape.sign = a.sign := rfl
  have hwidth : a.shape.width = a.width := rfl
  obtain ⟨n, hn⟩ : ∃ n, a.width = n + 1 := ⟨a.width - 1, (Nat.sub_add_cancel a.width_pos).symm⟩
  rw [wideIsMaxValue, areAllBitsOne, if_neg hone, countTrallingOnes_eq_min hone,
    Nat.trailingRun_min hcap, getSignBit_eq hcap, Shape.maxBits, hsign, hwidth, hn,
    Nat.add_sub_cancel]
  split_ifs
  · rw [Bool.and_eq_true, Bool.not_eq_true', beq_iff_eq, Nat.trailingRun_true_eq_iff]
  · rw [beq_iff_eq, Nat.trailingRun_true_eq_self_iff]

lemma wideIsMinValue_iff (hcap : a.width ≤ a.storageBits) :
    a.wideIsMinValue = true ↔ a.value % 2 ^ a.width = a.shape.minBits := by
  have hsign : a.shape.sign = a.sign := rfl
  have hwidth : a.shape.width = a.width := rfl
  obtain ⟨n, hn⟩ : ∃ n, a.width = n + 1 := ⟨a.width - 1, (Nat.sub_add_cancel a.width_pos).symm⟩
  rw [wideIsMinValue, areAllBitsZeros, if_neg hone, countTrallingZeros_eq_min hone,
    Nat.trailingRun_min hcap, getSignBit_eq hcap, Shape.minBits, hsign, hwidth, hn,
    Nat.add_sub_cancel]
  split_ifs
  · rw [Bool.and_eq_true, beq_iff_eq, Nat.trailingRun_false_eq_iff]
  · rw [beq_iff_eq, Nat.trailingRun_false_eq_self_iff]

end Wide

/-! ### The tests -/

section Tests

variable {a b : IntVal}

lemma width_shape (a : IntVal) : a.shape.width = a.width := rfl

lemma sign_shape (a : IntVal) : a.shape.sign = a.sign := rfl

lemma Shape.maxBits_lt (s : Shape) : s.maxBits < 2 ^ s.width := by
  have hpow : 2 ^ (s.width - 1) ≤ 2 ^ s.width := Nat.pow_le_pow_right (by decide) (Nat.sub_le _ _)
  have hpos : 0 < 2 ^ (s.width - 1) := Nat.two_pow_pos _
  rw [maxBits]
  split_ifs <;> omega

lemma Shape.minBits_lt (s : Shape) : s.minBits < 2 ^ s.width := by
  have hpos := s.width_pos
  rw [minBits]
  split_ifs
  · exact Nat.pow_lt_pow_right (by decide) (by omega)
  · exact Nat.two_pow_pos _

lemma toNat_maxWord {w : Nat} (hpos : 0 < w) (hle : w ≤ 64) :
    ((1 <<< UInt64.ofNat (w - 1)) - 1 : UInt64).toNat = 2 ^ (w - 1) - 1 := by
  have hone := toNat_one_shiftLeft (k := w - 1) (by omega)
  have hpow : 0 < 2 ^ (w - 1) := Nat.two_pow_pos _
  have hle' : (1 : UInt64) ≤ 1 <<< UInt64.ofNat (w - 1) := by
    rw [UInt64.le_iff_toNat_le, hone]
    exact hpow
  rw [UInt64.toNat_sub_of_le _ _ hle', hone]
  rfl

lemma isMaxValue_iff (hcanon : a.Canonical) (hcap : a.width ≤ a.storageBits) :
    a.isMaxValue = true ↔ a.value = a.shape.maxBits := by
  rw [isMaxValue]
  by_cases hone : a.IsOneWord
  · have hmask : (kAllOnes >>> UInt64.ofNat (kWordBitSize - a.width)).toNat = 2 ^ a.width - 1 :=
      toNat_ones_shiftRight a.width_pos hone
    rw [if_pos hone, Shape.maxBits, sign_shape, width_shape, ← hone.word_eq]
    split_ifs
    · rw [beq_iff_eq, ← UInt64.toNat_inj, toNat_maxWord a.width_pos hone]
    · rw [areAllBitsOne, if_pos hone, beq_iff_eq, ← UInt64.toNat_inj, hmask]
  · rw [if_neg hone, wideIsMaxValue_iff hone hcap, Nat.mod_eq_of_lt hcanon]

lemma isMinValue_iff (hcanon : a.Canonical) (hcap : a.width ≤ a.storageBits) :
    a.isMinValue = true ↔ a.value = a.shape.minBits := by
  have hpos := a.width_pos
  rw [isMinValue]
  by_cases hone : a.IsOneWord
  · have hle : a.width ≤ 64 := hone
    rw [if_pos hone, Shape.minBits, sign_shape, width_shape, ← hone.word_eq]
    split_ifs
    · rw [beq_iff_eq, ← UInt64.toNat_inj, toNat_one_shiftLeft (by omega)]
    · rw [beq_iff_eq, ← UInt64.toNat_inj, UInt64.toNat_zero]
  · rw [if_neg hone, wideIsMinValue_iff hone hcap, Nat.mod_eq_of_lt hcanon]

lemma isMinValue_iff_toInt (hcanon : a.Canonical) (hcap : a.width ≤ a.storageBits) :
    a.isMinValue = true ↔ a.toInt = a.shape.format.minValue := by
  have hlt : a.value < 2 ^ a.width := hcanon
  have hbit := testBit_sub_one_iff a.width_pos hcanon
  have hpow : 2 ^ a.width = 2 * 2 ^ (a.width - 1) := by
    rw [← pow_succ', Nat.sub_add_cancel a.width_pos]
  have hcast : (2 : Int) ^ a.width = (2 ^ a.width : Nat) := by
    push_cast
    rfl
  have hmodulus : a.shape.format.modulus = 2 ^ a.width := rfl
  have hsigned : a.shape.format.signed = a.sign := rfl
  rw [isMinValue_iff hcanon hcap, toInt_eq hcanon, IntFormat.minValue, Shape.minBits, sign_shape,
    width_shape, hmodulus, hsigned, hcast]
  cases a.sign with
  | true =>
    simp only [true_and, ↓reduceIte, hbit]
    generalize 2 ^ a.width = m at *
    generalize 2 ^ (a.width - 1) = h at *
    split_ifs <;> omega
  | false =>
    simp only [Bool.false_eq_true, false_and, ↓reduceIte]
    generalize 2 ^ a.width = m at *
    omega

lemma toInt_le_of_maxBits (hshape : b.shape = a.shape) (ha : a.Canonical) (hb : b.Canonical)
    (hmax : a.value = a.shape.maxBits) : b.toInt ≤ a.toInt := by
  have hwidth : b.width = a.width := congrArg Shape.width hshape
  have hsign : b.sign = a.sign := congrArg Shape.sign hshape
  have hlt : b.value < 2 ^ a.width := hwidth ▸ hb
  have hbit := testBit_sub_one_iff a.width_pos ha
  have hbit' := testBit_sub_one_iff a.width_pos hlt
  rw [Shape.maxBits, sign_shape, width_shape] at hmax
  rw [toInt_eq ha, toInt_eq hb, hwidth, hsign]
  cases hs : a.sign with
  | true =>
    have hpow : 2 ^ a.width = 2 * 2 ^ (a.width - 1) := by
      rw [← pow_succ', Nat.sub_add_cancel a.width_pos]
    have hcast : (2 : Int) ^ a.width = (2 ^ a.width : Nat) := by
      push_cast
      rfl
    have hhalf : 0 < 2 ^ (a.width - 1) := Nat.two_pow_pos _
    rw [hs, if_pos rfl] at hmax
    simp only [true_and, hbit, hbit', hcast]
    generalize 2 ^ a.width = m at *
    generalize 2 ^ (a.width - 1) = h at *
    split_ifs <;> omega
  | false =>
    have hhalf : 0 < 2 ^ a.width := Nat.two_pow_pos _
    rw [hs, if_neg Bool.false_ne_true] at hmax
    simp only [Bool.false_eq_true, false_and, ↓reduceIte]
    omega

lemma le_toInt_of_minBits (hshape : b.shape = a.shape) (ha : a.Canonical) (hb : b.Canonical)
    (hmin : a.value = a.shape.minBits) : a.toInt ≤ b.toInt := by
  have hwidth : b.width = a.width := congrArg Shape.width hshape
  have hsign : b.sign = a.sign := congrArg Shape.sign hshape
  have hlt : b.value < 2 ^ a.width := hwidth ▸ hb
  have hbit := testBit_sub_one_iff a.width_pos ha
  have hbit' := testBit_sub_one_iff a.width_pos hlt
  rw [Shape.minBits, sign_shape, width_shape] at hmin
  rw [toInt_eq ha, toInt_eq hb, hwidth, hsign]
  cases hs : a.sign with
  | true =>
    have hpow : 2 ^ a.width = 2 * 2 ^ (a.width - 1) := by
      rw [← pow_succ', Nat.sub_add_cancel a.width_pos]
    have hcast : (2 : Int) ^ a.width = (2 ^ a.width : Nat) := by
      push_cast
      rfl
    rw [hs, if_pos rfl] at hmin
    simp only [true_and, hbit, hbit', hcast]
    generalize 2 ^ a.width = m at *
    generalize 2 ^ (a.width - 1) = h at *
    split_ifs <;> omega
  | false =>
    rw [hs, if_neg Bool.false_ne_true] at hmin
    simp only [Bool.false_eq_true, false_and, ↓reduceIte]
    omega

end Tests

/-! ### The setters -/

section Setters

variable (a : IntVal)

@[simp] lemma shape_setMaxValue : a.setMaxValue.shape = a.shape := by
  rw [setMaxValue]
  split_ifs <;> rfl

@[simp] lemma shape_setMinValue : a.setMinValue.shape = a.shape := by
  rw [setMinValue]
  split_ifs <;> rfl

lemma set_last_replicate {n : Nat} (hn : 0 < n) (w x : UInt64) :
    (List.replicate n w).set (n - 1) x = List.replicate (n - 1) w ++ [x] := by
  obtain ⟨k, rfl⟩ : ∃ k, n = k + 1 := ⟨n - 1, by omega⟩
  rw [Nat.add_sub_cancel, List.replicate_succ', List.set_append_right _ _ (by simp)]
  simp

/-- The bits that `WideSetMaxValue` sets in the last word of a signed value. -/
def maxWordBits (width : Nat) : Nat := if width % 64 = 63 then 64 else 63 - width % 64

lemma toNat_maxLastWord (width : Nat) :
    (kAllOnes >>> UInt64.ofNat (width % kWordBitSize + 1)).toNat = 2 ^ maxWordBits width - 1 := by
  have hlt : width % 64 < 64 := Nat.mod_lt _ (by decide)
  rw [maxWordBits]
  split_ifs with h
  · rw [kWordBitSize, h]
    decide
  · have hshift : width % kWordBitSize + 1 = 64 - (63 - width % 64) := by
      rw [kWordBitSize]
      omega
    rw [hshift]
    exact toNat_ones_shiftRight (by omega) (by omega)

lemma minShift_eq {width : Nat} (h : kWordBitSize < width) :
    (((kWordBitSize : Int) - (width + 1)).tmod kWordBitSize % 2 ^ 8).toNat =
      if width % 64 = 63 then 0 else 255 - width % 64 := by
  have hgt : 64 < width := h
  have hneg : (kWordBitSize : Int) - (width + 1) = -((width - 63 : Nat) : Int) := by
    rw [kWordBitSize]
    omega
  have hpos : ((width - 63 : Nat) : Int).tmod kWordBitSize = ((width - 63) % 64 : Nat) := rfl
  rw [hneg, Int.neg_tmod, hpos]
  split_ifs <;> omega

lemma toNat_minLastWord {width : Nat} (h : kWordBitSize < width) :
    (1 <<< UInt64.ofNat (((kWordBitSize : Int) - (width + 1)).tmod kWordBitSize % 2 ^ 8).toNat :
      UInt64).toNat = 2 ^ (63 - width % 64) := by
  have hmod : (if width % 64 = 63 then 0 else 255 - width % 64) % 64 = 63 - width % 64 := by
    split_ifs <;> omega
  rw [minShift_eq h, shiftLeft_mod (by split_ifs <;> omega), hmod]
  exact toNat_one_shiftLeft (by omega)

variable {a}

lemma value_setMaxValue (hone : ¬a.IsOneWord) :
    a.setMaxValue.value = 2 ^ (if a.sign then 64 * (a.words.length - 1) + maxWordBits a.width
      else a.storageBits) - 1 := by
  have hpos := List.length_pos_of_ne_nil a.words_ne_nil
  rw [setMaxValue, if_neg hone, value_ofWords hone, maxWords]
  split_ifs
  · have hones : Words.value (List.replicate (a.words.length - 1) kAllOnes) = _ :=
      value_replicate_ones (a.words.length - 1)
    have hlo : 0 < 2 ^ (64 * (a.words.length - 1)) := Nat.two_pow_pos _
    have hhi : 0 < 2 ^ maxWordBits a.width := Nat.two_pow_pos _
    have hle : 2 ^ (64 * (a.words.length - 1)) ≤
        2 ^ (64 * (a.words.length - 1)) * 2 ^ maxWordBits a.width := Nat.le_mul_of_pos_right _ hhi
    rw [set_last_replicate hpos, value_append, hones, List.length_replicate, value_singleton,
      toNat_maxLastWord, pow_add, Nat.mul_sub (2 ^ (64 * (a.words.length - 1))), Nat.mul_one]
    omega
  · exact value_replicate_ones _

lemma value_setMinValue (hone : ¬a.IsOneWord) :
    a.setMinValue.value =
      if a.sign then 2 ^ (64 * (a.words.length - 1) + (63 - a.width % 64)) else 0 := by
  have hpos := List.length_pos_of_ne_nil a.words_ne_nil
  rw [setMinValue, if_neg hone, value_ofWords hone, minWords]
  split_ifs
  · rw [set_last_replicate hpos, value_append, value_replicate_zero, List.length_replicate,
      value_singleton, toNat_minLastWord (not_le.mp hone), pow_add, Nat.zero_add]
  · exact value_replicate_zero _

lemma setValue_eq (h : a.IsOneWord ∨ a.width % 64 = 0 ∨ a.sign = true ∧ a.width % 64 = 32)
    (hcap : a.width ≤ a.storageBits) :
    a.setMaxValue.value = a.shape.maxBits ∧ a.setMinValue.value = a.shape.minBits := by
  have hpos := a.width_pos
  rw [Shape.maxBits, Shape.minBits, sign_shape, width_shape]
  by_cases hone : a.IsOneWord
  · have hle : a.width ≤ 64 := hone
    have hmax : a.setMaxValue.value = (if a.sign then (1 <<< UInt64.ofNat (a.width - 1)) - 1
        else kAllOnes >>> UInt64.ofNat (kWordBitSize - a.width) : UInt64).toNat := by
      rw [setMaxValue, if_pos hone, value_withWords, hone.words_eq, List.set_cons_zero,
        value_singleton]
    have hmin : a.setMinValue.value =
        (if a.sign then 1 <<< UInt64.ofNat (a.width - 1) else 0 : UInt64).toNat := by
      rw [setMinValue, if_pos hone, value_withWords, hone.words_eq, List.set_cons_zero,
        value_singleton]
    rw [hmax, hmin]
    split_ifs
    · exact ⟨toNat_maxWord hpos hle, toNat_one_shiftLeft (by omega)⟩
    · exact ⟨toNat_ones_shiftRight hpos hle, rfl⟩
  · have hgt : 64 < a.width := not_le.mp hone
    have hnum := numWords_shape hcap
    have hrest := h.resolve_left hone
    rw [value_setMaxValue hone, value_setMinValue hone, storageBits, hnum, kWordBitSize]
    split_ifs with hsign
    · have hmax : 64 * ((a.width + 63) / 64 - 1) + maxWordBits a.width = a.width - 1 := by
        rw [maxWordBits]
        split_ifs <;> omega
      have hmin : 64 * ((a.width + 63) / 64 - 1) + (63 - a.width % 64) = a.width - 1 := by omega
      rw [hmax, hmin]
      exact ⟨rfl, rfl⟩
    · have hmod : a.width % 64 = 0 := hrest.resolve_right (fun hs => hsign hs.1)
      have hbits : 64 * ((a.width + 63) / 64) = a.width := by omega
      rw [hbits]
      exact ⟨rfl, rfl⟩

end Setters

/-! ### When they agree -/

/-- The setters, the tests and the order agree on the values of the width and the sign of `a`. -/
structure ExtremesAgree (a : IntVal) : Prop where
  isMax : a.setMaxValue.isMaxValue = true
  isMin : a.setMinValue.isMinValue = true
  le_max : ∀ v : IntVal, v.shape = a.shape → v.Canonical → v.le a.setMaxValue = true
  min_le : ∀ v : IntVal, v.shape = a.shape → v.Canonical → a.setMinValue.le v = true
  eq_max : ∀ v : IntVal, v.shape = a.shape → v.Canonical → v.isMaxValue = true →
    v.eq a.setMaxValue = true
  eq_min : ∀ v : IntVal, v.shape = a.shape → v.Canonical → v.isMinValue = true →
    v.eq a.setMinValue = true

variable {a : IntVal}

lemma extremesAgree_of_values (hcap : a.width ≤ a.storageBits)
    (hmax : a.setMaxValue.value = a.shape.maxBits) (hmin : a.setMinValue.value = a.shape.minBits) :
    a.ExtremesAgree := by
  have hwidth : ∀ {v : IntVal}, v.shape = a.shape → v.width = a.width :=
    fun h => congrArg Shape.width h
  have hcap' : ∀ {v : IntVal}, v.shape = a.shape → v.width ≤ v.storageBits := by
    intro v h
    rw [← capacity_shape, h, capacity_shape, hwidth h]
    exact hcap
  have hmax' : a.setMaxValue.value = a.setMaxValue.shape.maxBits := by rw [shape_setMaxValue, hmax]
  have hmin' : a.setMinValue.value = a.setMinValue.shape.minBits := by rw [shape_setMinValue, hmin]
  have hcmax : a.setMaxValue.Canonical := by
    rw [Canonical, hmax']
    exact Shape.maxBits_lt _
  have hcmin : a.setMinValue.Canonical := by
    rw [Canonical, hmin']
    exact Shape.minBits_lt _
  have hsmax := a.shape_setMaxValue
  have hsmin := a.shape_setMinValue
  constructor
  · exact (isMaxValue_iff hcmax (hcap' hsmax)).mpr hmax'
  · exact (isMinValue_iff hcmin (hcap' hsmin)).mpr hmin'
  · intro v hv hcanon
    rw [le_iff (hv.trans hsmax.symm) hcanon hcmax (hcap' hv)]
    exact toInt_le_of_maxBits (hv.trans hsmax.symm) hcmax hcanon hmax'
  · intro v hv hcanon
    rw [le_iff (hsmin.trans hv.symm) hcmin hcanon (hcap' hsmin)]
    exact le_toInt_of_minBits (hv.trans hsmin.symm) hcmin hcanon hmin'
  · intro v hv hcanon hismax
    rw [eq_iff_value_eq (congrArg Shape.width (hv.trans hsmax.symm)), hmax, ← hv]
    exact (isMaxValue_iff hcanon (hcap' hv)).mp hismax
  · intro v hv hcanon hismin
    rw [eq_iff_value_eq (congrArg Shape.width (hv.trans hsmin.symm)), hmin, ← hv]
    exact (isMinValue_iff hcanon (hcap' hv)).mp hismin

lemma width_le_of_isMaxValue (hone : ¬a.IsOneWord) (h : a.isMaxValue = true) :
    a.width ≤ a.storageBits := by
  have hgt : 64 < a.width := not_le.mp hone
  have hlen : a.words.length = (a.width + 64 - 1) / 64 % 2 ^ 8 := a.words_length
  have hbits : a.storageBits = 64 * a.words.length := rfl
  have hrun := Nat.trailingRun_le true a.storageBits a.value
  have hcount := countTrallingOnes_eq_min hone
  rw [isMaxValue, if_neg hone, wideIsMaxValue, areAllBitsOne, if_neg hone] at h
  split_ifs at h
  · rw [Bool.and_eq_true, beq_iff_eq] at h
    have hones := h.2
    omega
  · rw [beq_iff_eq] at h
    omega

/-- The largest value of the shape, with no bits above the width. -/
def maxCanonical (a : IntVal) : IntVal :=
  a.withWords (Limb.digits a.words.length (2 ^ a.width - 1)) (Limb.length_digits _ _)

lemma value_maxCanonical (hcap : a.width ≤ a.storageBits) :
    a.maxCanonical.value = 2 ^ a.width - 1 := by
  have hpow : 2 ^ a.width ≤ 2 ^ a.storageBits := Nat.pow_le_pow_right (by decide) hcap
  have hpos : 0 < 2 ^ a.width := Nat.two_pow_pos _
  have hdigits : Limb.value (Limb.digits a.words.length (2 ^ a.width - 1) : List UInt64) = _ :=
    Limb.value_digits a.words.length (2 ^ a.width - 1)
  rw [maxCanonical, value_withWords, value_eq_limbs, hdigits]
  apply Nat.mod_eq_of_lt
  change _ < 2 ^ a.storageBits
  omega

lemma width_mod_of_unsigned (hone : ¬a.IsOneWord) (hcap : a.width ≤ a.storageBits)
    (hsign : a.sign = false)
    (h : ∀ v : IntVal, v.shape = a.shape → v.Canonical → v.isMaxValue = true →
      v.eq a.setMaxValue = true) : a.width % 64 = 0 := by
  have hvalue := value_maxCanonical hcap
  have hpos : 0 < 2 ^ a.width := Nat.two_pow_pos _
  have hcanon : a.maxCanonical.Canonical := by
    have hwidth : a.maxCanonical.width = a.width := rfl
    rw [Canonical, hvalue, hwidth]
    omega
  have hcap' : a.maxCanonical.width ≤ a.maxCanonical.storageBits := by
    rw [← capacity_shape]
    change a.width ≤ a.shape.capacity
    rw [capacity_shape]
    exact hcap
  have hmax : a.maxCanonical.isMaxValue = true := by
    rw [isMaxValue_iff hcanon hcap', hvalue, Shape.maxBits]
    change _ = if a.sign then _ else 2 ^ a.width - 1
    rw [hsign, if_neg Bool.false_ne_true]
  have heq := h a.maxCanonical rfl hcanon hmax
  have hwidth : a.maxCanonical.width = a.setMaxValue.width :=
    (congrArg Shape.width a.shape_setMaxValue).symm
  rw [eq_iff_value_eq hwidth, hvalue, value_setMaxValue hone, hsign, if_neg Bool.false_ne_true]
    at heq
  have hpos' : 0 < 2 ^ a.storageBits := Nat.two_pow_pos _
  have hbits : a.width = a.storageBits := Nat.pow_right_injective (le_refl 2) (by dsimp only; omega)
  rw [hbits, storageBits, kWordBitSize, Nat.mul_mod_right]

lemma width_mod_of_signed (hone : ¬a.IsOneWord) (hcap : a.width ≤ a.storageBits)
    (hsign : a.sign = true) (h : a.setMaxValue.isMaxValue = true) :
    a.width % 64 = 0 ∨ a.width % 64 = 32 := by
  have hgt : 64 < a.width := not_le.mp hone
  have hnum := numWords_shape hcap
  have hshape := a.shape_setMaxValue
  have hwidth : a.setMaxValue.width = a.width := congrArg Shape.width hshape
  have hone' : ¬a.setMaxValue.IsOneWord := by
    rw [IsOneWord, hwidth]
    exact hone
  have hcap' : a.setMaxValue.width ≤ a.setMaxValue.storageBits := by
    rw [← capacity_shape, hshape, capacity_shape, hwidth]
    exact hcap
  rw [isMaxValue, if_neg hone', wideIsMaxValue_iff hone' hcap', hshape, Shape.maxBits, sign_shape,
    width_shape, if_pos hsign, hwidth, value_setMaxValue hone, if_pos hsign] at h
  have hpow : ∀ k : Nat, 0 < 2 ^ k := Nat.two_pow_pos
  have hmin : min (64 * (a.words.length - 1) + maxWordBits a.width) a.width = a.width - 1 := by
    have hmod : ∀ k : Nat, (2 ^ k - 1) % 2 ^ a.width = 2 ^ min k a.width - 1 := by
      intro k
      apply Nat.eq_of_testBit_eq
      intro i
      rw [Nat.testBit_mod_two_pow, Nat.testBit_two_pow_sub_one, Nat.testBit_two_pow_sub_one,
        ← Bool.decide_and, decide_eq_decide]
      omega
    rw [hmod] at h
    have hl := hpow (min (64 * (a.words.length - 1) + maxWordBits a.width) a.width)
    have hr := hpow (a.width - 1)
    exact Nat.pow_right_injective (le_refl 2) (by dsimp only; omega)
  rw [maxWordBits, hnum] at hmin
  split_ifs at hmin <;> omega

/-- The extremal values agree with the order in one word and in full words. In other words, only a
sign bit in the middle of the last word is found at the place where the setters look for it, and an
unsigned maximum has bits above the width. -/
theorem extremesAgree_iff (a : IntVal) :
    a.ExtremesAgree ↔ a.width ≤ a.storageBits ∧
      (a.IsOneWord ∨ a.width % 64 = 0 ∨ a.sign = true ∧ a.width % 64 = 32) := by
  constructor
  · intro h
    by_cases hone : a.IsOneWord
    · exact ⟨hone.width_le, Or.inl hone⟩
    have hshape := a.shape_setMaxValue
    have hwidth : a.setMaxValue.width = a.width := congrArg Shape.width hshape
    have hone' : ¬a.setMaxValue.IsOneWord := by
      rw [IsOneWord, hwidth]
      exact hone
    have hcap : a.width ≤ a.storageBits := by
      have hle := width_le_of_isMaxValue hone' h.isMax
      rwa [← capacity_shape, hshape, capacity_shape, hwidth] at hle
    refine ⟨hcap, Or.inr ?_⟩
    cases hsign : a.sign with
    | true => simpa using width_mod_of_signed hone hcap hsign h.isMax
    | false => exact Or.inl (width_mod_of_unsigned hone hcap hsign h.eq_max)
  · rintro ⟨hcap, h⟩
    obtain ⟨hmax, hmin⟩ := setValue_eq h hcap
    exact extremesAgree_of_values hcap hmax hmin

/-- A signed value of 100 bits. -/
def hundredBits : IntVal := ⟨100, true, [0, 0], by decide, by decide, by decide⟩

/-- Its largest value ends in the middle of the number. -/
theorem not_extremesAgree_hundredBits :
    ¬hundredBits.ExtremesAgree ∧ hundredBits.setMaxValue.isMaxValue = false ∧
      hundredBits.setMaxValue.value = 2 ^ 91 - 1 ∧ hundredBits.setMinValue.value = 2 ^ 91 := by
  refine ⟨fun h => ?_, by decide, by decide, by decide⟩
  exact absurd h.isMax (by decide)

end IntVal
end Maple
