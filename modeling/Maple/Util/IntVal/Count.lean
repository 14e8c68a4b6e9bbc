import Maple.Lib.LeadingBits
import Maple.Util.IntVal.Typed
import Mathlib.Data.List.Induction

/-!
# Counts of leading and trailing bits
-/

namespace Maple
namespace IntVal

open Words

/-! ### Words -/

section Templates

variable {T : Type} [Limb T]

/-- `__builtin_clz` and `__builtin_clzll`. -/
def builtinClz (word : T) : Nat := Nat.leadingRun false (Limb.bits T) (Limb.toNat word)

/-- `__builtin_ctz` and `__builtin_ctzll`. -/
def builtinCtz (word : T) : Nat := Nat.trailingRun false (Limb.bits T) (Limb.toNat word)

/-- The template `CountLeadingZeros`. -/
def countLeadingZerosWord (word : T) : Nat :=
  if Limb.toNat word = 0 then Limb.bits T else builtinClz word

end Templates

/-- The template `CountLeadingOnes`. -/
def countLeadingOnesWord (word : UInt64) : Nat :=
  if word = ~~~0 then 64 else builtinClz (~~~word)

/-- The template `CountTrallingZeros`. -/
def countTrallingZerosWord (word : UInt64) : Nat := if word = 0 then 64 else builtinCtz word

/-- The template `CountTrallingOnes`. -/
def countTrallingOnesWord (word : UInt64) : Nat := if word = ~~~0 then 64 else builtinCtz (~~~word)

/-! ### Values -/

/-- The loop of `CountLeadingOnes` over the words below the last one, from the upper end. A word
with a leading one is enough for the next one to be looked at. -/
def leadingOnesLoop : List UInt64 → Nat
  | [] => 0
  | w :: ws =>
    let ones := countLeadingOnesWord w
    if ones ≠ 0 then ones + leadingOnesLoop ws else ones

/-- `CountLeadingOnes`. The mask has as many bits as the last word has bits of the width. -/
def countLeadingOnes (a : IntVal) : Nat :=
  let startPos := a.width % kWordBitSize
  let mask := if startPos ≠ 0 then kAllOnes <<< UInt64.ofNat (kWordBitSize - startPos) else 0
  if a.IsOneWord then countLeadingOnesWord (a.word ||| mask) - startPos
  else
    let ones := countLeadingOnesWord (a.words.getLast a.words_ne_nil ||| mask) - startPos
    if ones = 0 then 0 else ones + leadingOnesLoop a.words.dropLast.reverse

/-- The loop of `CountLeadingZeros`, from the upper end. -/
def leadingZerosLoop : List UInt64 → Nat
  | [] => 0
  | w :: ws =>
    let zeros := countLeadingZerosWord w
    if zeros ≠ kWordBitSize then zeros else zeros + leadingZerosLoop ws

/-- `CountLeadingZeros`, with numbers of 16 bits. -/
def countLeadingZeros (a : IntVal) : Nat :=
  let emptyBits := (kWordBitSize * a.words.length + 2 ^ 16 - a.width) % 2 ^ 16
  let count := if a.IsOneWord then countLeadingZerosWord a.word
    else leadingZerosLoop a.words.reverse
  (count + 2 ^ 16 - emptyBits) % 2 ^ 16

/-- The loops of `CountTrallingOnes` and `CountTrallingZeros`: words that are full of the bit, and
the next one. -/
def trallingLoop (full : UInt64) (count : UInt64 → Nat) : List UInt64 → Nat
  | [] => 0
  | w :: ws => if w = full then kWordBitSize + trallingLoop full count ws else count w

def countTrallingOnes (a : IntVal) : Nat :=
  if a.IsOneWord then countTrallingOnesWord a.word
  else min (trallingLoop kAllOnes countTrallingOnesWord a.words) a.width

def countTrallingZeros (a : IntVal) : Nat :=
  if a.IsOneWord then countTrallingZerosWord a.word
  else min (trallingLoop 0 countTrallingZerosWord a.words) a.width

def countSignificantBits (a : IntVal) : Nat :=
  let minSignificantSize := if a.sign then 2 else 1
  let nonSignificantBits :=
    if a.sign then
      -- the sign bit is always significant
      (if a.getSignBit then a.countLeadingOnes else a.countLeadingZeros) - 1
    else a.countLeadingZeros
  max (a.width - nonSignificantBits) minSignificantSize

def IsOneSignificantWord (a : IntVal) : Prop :=
  a.IsOneWord ∨ a.countSignificantBits ≤ kWordBitSize

instance (a : IntVal) : Decidable a.IsOneSignificantWord := inferInstanceAs (Decidable (_ ∨ _))

/-! ### Counts of words -/

lemma countLeadingZerosWord_eq {T : Type} [Limb T] (w : T) :
    countLeadingZerosWord w = Nat.leadingRun false (Limb.bits T) (Limb.toNat w) := by
  rw [countLeadingZerosWord]
  split_ifs with h
  · rw [h, eq_comm, Nat.leadingRun_eq_iff]
    intro i _
    exact Nat.zero_testBit i
  · rfl

lemma testBit_ones_word {i : Nat} (h : i < 64) : (~~~0 : UInt64).toNat.testBit i = true := by
  rw [testBit_complement 0 h, UInt64.toNat_zero, Nat.zero_testBit, Bool.not_false]

lemma countLeadingOnesWord_eq (w : UInt64) :
    countLeadingOnesWord w = Nat.leadingRun true 64 w.toNat := by
  rw [countLeadingOnesWord]
  split_ifs with h
  · rw [h, eq_comm, Nat.leadingRun_eq_iff]
    intro i hi
    exact testBit_ones_word hi
  · exact Nat.leadingRun_complement (b := true) fun i hi => testBit_complement w hi

lemma countTrallingZerosWord_eq (w : UInt64) :
    countTrallingZerosWord w = Nat.trailingRun false 64 w.toNat := by
  rw [countTrallingZerosWord]
  split_ifs with h
  · rw [h]
    rfl
  · rfl

lemma countTrallingOnesWord_eq (w : UInt64) :
    countTrallingOnesWord w = Nat.trailingRun true 64 w.toNat := by
  rw [countTrallingOnesWord]
  split_ifs with h
  · rw [h]
    decide
  · exact Nat.trailingRun_complement (b := true) fun i hi => testBit_complement w hi

/-! ### Counts of values -/

lemma leadingZerosLoop_reverse (ws : List UInt64) :
    leadingZerosLoop ws.reverse = Nat.leadingRun false (64 * ws.length) (Words.value ws) := by
  induction ws using List.reverseRecOn with
  | nil => rfl
  | append_singleton ws w ih =>
    have hzeros : countLeadingZerosWord w = Nat.leadingRun false 64 w.toNat :=
      countLeadingZerosWord_eq w
    have hlen : 64 * (ws ++ [w]).length = 64 * ws.length + 64 := by simp [Nat.mul_add]
    rw [hlen, List.reverse_append, List.reverse_singleton, List.singleton_append, leadingZerosLoop,
      value_append, Words.value_singleton, Nat.leadingRun_append (Words.value_lt ws), hzeros, ih]
    by_cases h : Nat.leadingRun false 64 w.toNat = 64
    · rw [if_neg (not_not.mpr h), if_pos h, h]
    · rw [if_pos h, if_neg h]

lemma countLeadingZeros_eq {a : IntVal} (hcanon : a.Canonical) (hcap : a.width ≤ a.storageBits) :
    a.countLeadingZeros = Nat.leadingRun false a.width a.value := by
  have hnum : a.words.length < 2 ^ 8 := by
    rw [a.words_length]
    exact Nat.mod_lt _ (by decide)
  have hbits : a.storageBits = 64 * a.words.length := rfl
  have hle := Nat.leadingRun_le false a.width a.value
  have hloop : (if a.IsOneWord then countLeadingZerosWord a.word
      else leadingZerosLoop a.words.reverse) = Nat.leadingRun false a.storageBits a.value := by
    split_ifs with hone
    · have hword := countLeadingZerosWord_eq a.word
      have hbits' : a.storageBits = 64 := by
        rw [← capacity_shape, Shape.capacity_eq (isOneWord_shape.mpr hone)]
      rw [hword, hbits', ← hone.word_eq]
      rfl
    · exact leadingZerosLoop_reverse a.words
  -- the bits above the width are zeros
  have hsplit : a.storageBits = a.width + (a.storageBits - a.width) := by omega
  rw [countLeadingZeros, hloop, hsplit, Nat.leadingRun_add_of_forall]
  · have hempty : (kWordBitSize * a.words.length + 2 ^ 16 - a.width) % 2 ^ 16 =
        a.storageBits - a.width := by
      rw [kWordBitSize]
      omega
    rw [hempty]
    omega
  · intro i hi _
    exact Nat.testBit_lt_two_pow (lt_of_lt_of_le hcanon (Nat.pow_le_pow_right (by decide) hi))

lemma testBit_two_pow_sub_two_pow {k n : Nat} (h : k ≤ n) (i : Nat) :
    (2 ^ n - 2 ^ k).testBit i = decide (k ≤ i ∧ i < n) := by
  have hmul : 2 ^ n - 2 ^ k = 2 ^ k * (2 ^ (n - k) - 1) := by
    rw [Nat.mul_sub, ← pow_add, Nat.add_sub_cancel' h, Nat.mul_one]
  rw [hmul, Nat.testBit_two_pow_mul, Nat.testBit_two_pow_sub_one, ← Bool.decide_and]
  exact decide_eq_decide.mpr (by omega)

lemma countLeadingOnes_of_isOneWord {a : IntVal} (h : a.IsOneWord) :
    a.countLeadingOnes = if a.width = 64 then Nat.leadingRun true a.width a.value
      else Nat.leadingRun true (64 - a.width) a.value := by
  have hle : a.width ≤ 64 := h
  have hpos := a.width_pos
  rw [countLeadingOnes, if_pos h, countLeadingOnesWord_eq]
  by_cases hw : a.width = 64
  · have hmod : a.width % kWordBitSize = 0 := by
      rw [hw]
      rfl
    rw [if_pos hw, hmod, if_neg (not_not.mpr rfl), Nat.sub_zero, UInt64.or_zero, hw, h.word_eq]
  · have hmod : a.width % kWordBitSize = a.width := Nat.mod_eq_of_lt (by rw [kWordBitSize]; omega)
    have hmask : (kAllOnes <<< UInt64.ofNat (kWordBitSize - a.width)).toNat =
        2 ^ 64 - 2 ^ (64 - a.width) := toNat_ones_shiftLeft (by rw [kWordBitSize]; omega)
    have hsplit : Nat.leadingRun true 64 (a.value ||| (2 ^ 64 - 2 ^ (64 - a.width))) =
        a.width + Nat.leadingRun true (64 - a.width)
          (a.value ||| (2 ^ 64 - 2 ^ (64 - a.width))) := by
      have hrun := Nat.leadingRun_add_of_forall (b := true) (n := 64 - a.width) (m := a.width)
        (v := a.value ||| (2 ^ 64 - 2 ^ (64 - a.width))) (by
          intro i hle' hlt'
          rw [Nat.testBit_or, testBit_two_pow_sub_two_pow (Nat.sub_le _ _),
            decide_eq_true ⟨hle', by omega⟩, Bool.or_true])
      rwa [Nat.sub_add_cancel hle] at hrun
    rw [if_neg hw, hmod, if_pos hpos.ne', UInt64.toNat_or, hmask, h.word_eq, hsplit,
      Nat.add_sub_cancel_left]
    apply Nat.leadingRun_congr
    intro i hi
    have hbelow : ¬(64 - a.width ≤ i ∧ i < 64) := by omega
    rw [Nat.testBit_or, testBit_two_pow_sub_two_pow (Nat.sub_le _ _), decide_eq_false hbelow,
      Bool.or_false]

/-! ### Two words -/

lemma exists_words_eq {a : IntVal} (h : a.width = 128) : ∃ lo hi, a.words = [lo, hi] := by
  have hlen : a.words.length = 2 := by
    rw [a.words_length, h]
    rfl
  exact List.length_eq_two.mp hlen

lemma value_of_words {a : IntVal} {lo hi : UInt64} (h : a.words = [lo, hi]) :
    a.value = lo.toNat + 2 ^ 64 * hi.toNat := by
  rw [value, h, value_cons, value_cons, value_nil, Nat.mul_zero, Nat.add_zero]

lemma leadingRun_of_words (b : Bool) {a : IntVal} {lo hi : UInt64} (h : a.words = [lo, hi]) :
    Nat.leadingRun b 128 a.value =
      if Nat.leadingRun b 64 hi.toNat = 64 then 64 + Nat.leadingRun b 64 lo.toNat
      else Nat.leadingRun b 64 hi.toNat := by
  rw [value_of_words h]
  exact Nat.leadingRun_append lo.toNat_lt 64 hi.toNat

lemma countLeadingOnes_of_words {a : IntVal} (hw : a.width = 128) {lo hi : UInt64}
    (h : a.words = [lo, hi]) :
    a.countLeadingOnes = if Nat.leadingRun true 64 hi.toNat = 0 then 0
      else Nat.leadingRun true 64 hi.toNat + Nat.leadingRun true 64 lo.toNat := by
  have hone : ¬a.IsOneWord := by
    rw [IsOneWord, hw]
    decide
  have hmod : a.width % kWordBitSize = 0 := by
    rw [hw]
    rfl
  have hlast : a.words.getLast a.words_ne_nil = hi := by simp [h]
  have hinit : a.words.dropLast.reverse = [lo] := by simp [h]
  rw [countLeadingOnes, if_neg hone, hmod, if_neg (not_not.mpr rfl), UInt64.or_zero, hlast, hinit,
    countLeadingOnesWord_eq]
  simp only [leadingOnesLoop, countLeadingOnesWord_eq, Nat.sub_zero, Nat.add_zero]
  split_ifs <;> omega

/-! ### When the counts are right -/

/-- The leading bits are counted right, and a value with one significant word is the extension of
its lowest word. -/
structure CountsExactly (a : IntVal) : Prop where
  ones_eq : a.countLeadingOnes = Nat.leadingRun true a.width a.value
  zeros_eq : a.countLeadingZeros = Nat.leadingRun false a.width a.value
  extend_eq : a.IsOneSignificantWord →
    (⟨64, a.sign⟩ : IntFormat).wrap a.word.toNat % 2 ^ a.width = a.value

lemma countsExactly_of_isOneWord {a : IntVal} (h : a.IsOneWord) (hcanon : a.Canonical) :
    a.CountsExactly ↔ if a.width < 32 then a.value.testBit (a.width - 1) = false
      else a.width = 64 ∨
        Nat.leadingRun true a.width a.value = Nat.leadingRun true (64 - a.width) a.value := by
  have hle : a.width ≤ 64 := h
  have hpos := a.width_pos
  have hiff : a.CountsExactly ↔ a.countLeadingOnes = Nat.leadingRun true a.width a.value := by
    refine ⟨CountsExactly.ones_eq, fun hones => ⟨hones, countLeadingZeros_eq hcanon h.width_le, ?_⟩⟩
    intro _
    rw [wrap_word_emod _ _ hle, h.word_eq, value_emod_width hcanon]
  rw [hiff, countLeadingOnes_of_isOneWord h]
  by_cases hw : a.width = 64
  · rw [if_pos hw, if_neg (by omega)]
    exact iff_of_true rfl (Or.inl hw)
  · rw [if_neg hw, or_iff_right hw, eq_comm]
    split_ifs with hsmall
    · obtain ⟨n, hn⟩ : ∃ n, a.width = n + 1 := ⟨a.width - 1, by omega⟩
      obtain ⟨m, hm⟩ : ∃ m, 64 - a.width = m + 1 := ⟨63 - a.width, by omega⟩
      have htop : a.value.testBit m = false := Nat.testBit_lt_two_pow
        (lt_of_lt_of_le hcanon (Nat.pow_le_pow_right (by decide) (by omega)))
      have hzero : Nat.leadingRun true (m + 1) a.value = 0 :=
        Nat.leadingRun_succ_of_ne (by rw [htop]; decide)
      rw [hm, hzero, hn, Nat.leadingRun_succ_eq_zero_iff, Nat.add_sub_cancel, ne_eq,
        Bool.not_eq_true]
    · rfl

lemma div_mod_of_words {a : IntVal} {lo hi : UInt64} (h : a.words = [lo, hi]) :
    a.value / 2 ^ 64 = hi.toNat ∧ a.value % 2 ^ 64 = lo.toNat := by
  have hlo := lo.toNat_lt
  rw [value_of_words h]
  omega

lemma leadingRun_gt_iff {b : Bool} {a : IntVal} {lo hi : UInt64} (h : a.words = [lo, hi]) :
    64 < Nat.leadingRun b 128 a.value ↔
      Nat.leadingRun b 64 hi.toNat = 64 ∧ lo.toNat.testBit 63 = b := by
  have hle := Nat.leadingRun_le b 64 hi.toNat
  have hzero : Nat.leadingRun b 64 lo.toNat = 0 ↔ lo.toNat.testBit 63 ≠ b :=
    Nat.leadingRun_succ_eq_zero_iff
  rw [leadingRun_of_words b h]
  split_ifs with hhi
  · rw [and_iff_right hhi, ← not_iff_not, ← ne_eq, ← hzero]
    omega
  · exact iff_of_false (by omega) (fun h => hhi h.1)

lemma leadingRun_word_eq_iff {w : UInt64} :
    Nat.leadingRun true 64 w.toNat = 64 ↔ w.toNat = 2 ^ 64 - 1 := by
  rw [Nat.leadingRun_eq_iff]
  constructor
  · intro hall
    apply Nat.eq_of_testBit_eq
    intro i
    rw [Nat.testBit_two_pow_sub_one]
    by_cases hi : i < 64
    · rw [hall i hi, decide_eq_true hi]
    · rw [decide_eq_false hi]
      exact Limb.testBit_of_le w (Nat.not_lt.mp hi)
  · intro heq i hi
    rw [heq, Nat.testBit_two_pow_sub_one, decide_eq_true hi]

lemma extend_eq_of_words {a : IntVal} (hw : a.width = 128) {lo hi : UInt64}
    (h : a.words = [lo, hi]) (hcanon : a.Canonical) (hcap : a.width ≤ a.storageBits)
    (hones : a.countLeadingOnes = Nat.leadingRun true a.width a.value)
    (hsig : a.IsOneSignificantWord) :
    (⟨64, a.sign⟩ : IntFormat).wrap a.word.toNat % 2 ^ a.width = a.value := by
  have hone : ¬a.IsOneWord := by
    rw [IsOneWord, hw]
    decide
  have hword : a.word = lo := by
    rw [word]
    simp only [h, List.head_cons]
  have hlo := lo.toNat_lt
  have hhi := hi.toNat_lt
  have hval := value_of_words h
  have hzeros := countLeadingZeros_eq hcanon hcap
  have hlt : a.value < 2 ^ 128 := by
    rw [← hw]
    exact hcanon
  have hsig' := hsig.resolve_left hone
  rw [countSignificantBits, hones, hzeros, hw, kWordBitSize] at hsig'
  rw [hword, hw, IntFormat.wrap, IntFormat.modulus]
  have hpow : ((2 ^ 64 : Nat) : Int) = 2 ^ 64 := by norm_cast
  cases hsign : a.sign with
  | false =>
    rw [hsign] at hsig'
    simp only [Bool.false_eq_true, ↓reduceIte] at hsig' ⊢
    have hrun : 64 ≤ Nat.leadingRun false 128 a.value := by omega
    rw [Nat.le_leadingRun_false_iff (by decide) hlt] at hrun
    rw [hpow]
    omega
  | true =>
    rw [hsign] at hsig'
    simp only [↓reduceIte] at hsig' ⊢
    rw [Int.bmod_def, hpow]
    cases hbit : a.getSignBit with
    | false =>
      rw [hbit] at hsig'
      simp only [Bool.false_eq_true, ↓reduceIte] at hsig'
      have hrun : 65 ≤ Nat.leadingRun false 128 a.value := by omega
      rw [Nat.le_leadingRun_false_iff (by decide) hlt] at hrun
      split_ifs <;> omega
    | true =>
      rw [hbit] at hsig'
      simp only [↓reduceIte] at hsig'
      have hrun : 64 < Nat.leadingRun true 128 a.value := by omega
      obtain ⟨hhigh, hlow⟩ := (leadingRun_gt_iff h).mp hrun
      rw [leadingRun_word_eq_iff] at hhigh
      have htop := (testBit_sub_one_iff (w := 64) (by decide) hlo).mp hlow
      split_ifs <;> omega

lemma countsExactly_of_two_words {a : IntVal} (hw : a.width = 128) (hcanon : a.Canonical) :
    a.CountsExactly ↔ a.value.testBit 127 = false ∨ a.value / 2 ^ 64 = 2 ^ 64 - 1 ∨
      a.value.testBit 63 = false := by
  obtain ⟨lo, hi, h⟩ := exists_words_eq hw
  have hcap : a.width ≤ a.storageBits := by
    rw [storageBits, h, hw]
    exact le_refl 128
  have hiff : a.CountsExactly ↔ a.countLeadingOnes = Nat.leadingRun true a.width a.value :=
    ⟨CountsExactly.ones_eq, fun hones => ⟨hones, countLeadingZeros_eq hcanon hcap,
      extend_eq_of_words hw h hcanon hcap hones⟩⟩
  obtain ⟨hdiv, hmod⟩ := div_mod_of_words h
  have htop : a.value.testBit 127 = hi.toNat.testBit 63 := by
    rw [← hdiv, Nat.testBit_div_two_pow]
  have hmid : a.value.testBit 63 = lo.toNat.testBit 63 := by
    rw [← hmod, Nat.testBit_mod_two_pow]
    rfl
  have hzero : ∀ w : UInt64, w.toNat.testBit 63 = false ↔ Nat.leadingRun true 64 w.toNat = 0 := by
    intro w
    rw [← Bool.not_eq_true]
    exact Nat.leadingRun_succ_eq_zero_iff.symm
  rw [hiff, countLeadingOnes_of_words hw h, hw, leadingRun_of_words true h, htop, hmid, hdiv,
    hzero, hzero, ← leadingRun_word_eq_iff]
  split_ifs <;> omega

/-- The counts are right in a full word, in up to 32 bits without the sign bit or of all 32, and in
two words if the run of ones does not end inside the upper word or the lower word has none. -/
theorem countsExactly_iff {a : IntVal} (hcanon : a.Canonical) (hw : a.width ≤ 64 ∨ a.width = 128) :
    a.CountsExactly ↔
      if a.width = 128 then a.value.testBit 127 = false ∨ a.value / 2 ^ 64 = 2 ^ 64 - 1 ∨
        a.value.testBit 63 = false
      else if a.width < 32 then a.value.testBit (a.width - 1) = false
      else a.width = 64 ∨
        Nat.leadingRun true a.width a.value = Nat.leadingRun true (64 - a.width) a.value := by
  by_cases h128 : a.width = 128
  · rw [if_pos h128]
    exact countsExactly_of_two_words h128 hcanon
  · rw [if_neg h128]
    exact countsExactly_of_isOneWord (hw.resolve_right h128) hcanon

theorem countsExactly_iff_i64 :
    (ofNumber ⟨64, true, by decide, by decide⟩ 5).CountsExactly ↔
      if 64 = 128 then (ofNumber ⟨64, true, by decide, by decide⟩ 5).value.testBit 127 = false ∨
        (ofNumber ⟨64, true, by decide, by decide⟩ 5).value / 2 ^ 64 = 2 ^ 64 - 1 ∨
        (ofNumber ⟨64, true, by decide, by decide⟩ 5).value.testBit 63 = false
      else if 64 < 32 then
        (ofNumber ⟨64, true, by decide, by decide⟩ 5).value.testBit (64 - 1) = false
      else 64 = 64 ∨
        Nat.leadingRun true 64 (ofNumber ⟨64, true, by decide, by decide⟩ 5).value =
          Nat.leadingRun true (64 - 64) (ofNumber ⟨64, true, by decide, by decide⟩ 5).value :=
  countsExactly_iff (by unfold Canonical; decide) (Or.inl (by decide))

/-- A number of 128 bits with the highest bit and all of the lowest 64 bits. -/
def highestAndLowWord : IntVal :=
  ⟨128, true, [18446744073709551615, 9223372036854775808], by decide, by decide, by decide⟩

/-- It is taken for minus one. -/
theorem not_countsExactly_highestAndLowWord :
    ¬highestAndLowWord.CountsExactly ∧ highestAndLowWord.IsOneSignificantWord ∧
      (⟨64, true⟩ : IntFormat).wrap highestAndLowWord.word.toNat % 2 ^ 128 ≠
        highestAndLowWord.value := by
  refine ⟨?_, by decide, by decide⟩
  intro h
  exact absurd (h.extend_eq (by decide)) (by decide)

/-! ### Comparison with a number -/

/-- `operator==` with a number. -/
def eqNumber (a : IntVal) (val : Int64) : Bool :=
  if a.IsOneSignificantWord then a.getExtValue 0 == val else a.eq (ofNumber a.shape val.toUInt64)

section EqNumber

variable {a : IntVal} {val : Int64}

lemma beq_iff_of_asUInt64 {e : Int64} {x : Int} (he : (e.asUInt64 : Int) = x % 2 ^ 64)
    (hmin : -2 ^ 63 ≤ x) (hlt : x < 2 ^ 64) (h : 0 ≤ val.toInt) :
    (e == val) = true ↔ x = val.toInt := by
  have hval := val.toInt_lt
  have hword := e.toInt_lt
  have hword' := e.le_toInt
  rw [Int64.asUInt64_eq] at he
  rw [beq_iff_eq, ← Int64.toInt_inj]
  omega

lemma getExtValue_beq_iff_of_wide (hw : a.width = 128) (hcanon : a.Canonical)
    (hsig : a.IsOneSignificantWord) (h : 0 ≤ val.toInt) :
    (a.getExtValue 0 == val) = true ↔ a.toInt = val.toInt := by
  have hval := val.toInt_lt
  have hlt : a.value < 2 ^ 128 := hw ▸ hcanon
  have hcap : a.width ≤ a.storageBits := by
    obtain ⟨lo, hi, hwords⟩ := exists_words_eq hw
    rw [storageBits, hwords, hw]
    exact le_refl 128
  have hint := toInt_eq hcanon
  have hbit := testBit_sub_one_iff (w := 128) (by decide) hlt
  rw [hw] at hint
  by_cases htop : a.value.testBit 127 = true
  · cases hsign : a.sign with
    | true =>
      have hext := toNat_getSXTValue_of_wide hw
      rw [getSignBit_eq hcap, hw, if_pos htop] at hext
      rw [hsign, if_pos ⟨rfl, htop⟩] at hint
      refine iff_of_false ?_ (by omega)
      intro heq
      rw [beq_iff_eq, getExtValue, hsign, if_pos rfl] at heq
      have hge : 2 ^ 63 ≤ (a.word.toNat ||| 2 ^ 63) := Nat.right_le_or
      have hword : (val.asUInt64 : Int) = val.toInt % 2 ^ 64 := Int64.asUInt64_eq val
      rw [heq] at hext
      rw [Int64.asUInt64, hext] at hword
      omega
    | false =>
      have hone : ¬a.IsOneWord := by
        rw [IsOneWord, hw]
        decide
      have hzeros : a.countLeadingZeros = 0 := by
        rw [countLeadingZeros_eq hcanon hcap, hw, Nat.leadingRun_succ_eq_zero_iff, htop]
        decide
      have hcount := hsig.resolve_left hone
      rw [countSignificantBits, hsign, hzeros, hw, if_neg Bool.false_ne_true,
        if_neg Bool.false_ne_true] at hcount
      exact absurd hcount (by decide)
  · have hcounts := (countsExactly_of_two_words hw hcanon).mpr (Or.inl (by simpa using htop))
    have hext := hcounts.extend_eq hsig
    have hword := a.word.toNat_lt
    have hsmall := mt hbit.mpr htop
    rw [if_neg fun hneg => htop hneg.2] at hint
    rw [hw] at hext
    have hvalue : a.value = a.word.toNat := by
      cases hsign : a.sign with
      | true =>
        rw [hsign, wrap_word_eq hword] at hext
        split_ifs at hext <;> omega
      | false =>
        rw [hsign, wrap_word_eq_of_unsigned hword] at hext
        omega
    have hextWord : (a.getExtValue 0).asUInt64 = a.word.toNat := by
      rw [getExtValue, Int64.asUInt64]
      split_ifs
      · rw [toNat_getSXTValue_of_wide hw, getSignBit_eq hcap, hw, if_neg htop]
      · rw [getZXTValue, if_neg (by decide), UInt64.toUInt64_toInt64]
    apply beq_iff_of_asUInt64 _ _ _ h
    · rw [hextWord, hint, hvalue]
      omega
    · omega
    · omega

lemma eqNumber_iff (hcanon : a.Canonical) (ht : a.shape.IsPrim) (h : 0 ≤ val.toInt) :
    a.eqNumber val = true ↔ a.toInt = val.toInt := by
  have hcap : a.width ≤ a.storageBits := by
    rw [← capacity_shape]
    exact ht.width_le
  rw [eqNumber]
  split_ifs with hsig
  · rcases ht with hone | hw
    · have hmem := IntFormat.wrap_mem a.shape.format a.value
      have hmodulus : a.shape.format.modulus ≤ 2 ^ 64 := Nat.pow_le_pow_right (by decide) hone
      have hmin : -2 ^ 63 ≤ a.shape.format.minValue := by
        rw [IntFormat.minValue]
        split_ifs <;> omega
      have hmax : a.shape.format.maxValue < 2 ^ 64 := by
        rw [IntFormat.maxValue]
        split_ifs <;> omega
      apply beq_iff_of_asUInt64 (toNat_getExtValue hone hcanon) _ _ h
      · exact hmin.trans hmem.1
      · exact lt_of_le_of_lt hmem.2 hmax
    · exact getExtValue_beq_iff_of_wide hw hcanon hsig h
  · have hone : ¬a.IsOneWord := fun hone => hsig (Or.inl hone)
    have hw : a.width = 128 := ht.resolve_left hone
    have hself := represents_self hcanon hcap
    have hnum := ofNumber_represents ht val.toUInt64
    have hwidth : (ofNumber a.shape val.toUInt64).width = a.width := rfl
    have heq : a.eq (ofNumber a.shape val.toUInt64) = true ↔ a = ofNumber a.shape val.toUInt64 := by
      rw [eq, if_neg hone, beq_iff_eq]
      constructor
      · intro hwords
        exact eq_of_value_eq rfl (congrArg Words.value hwords)
      · intro heq
        rw [← heq]
    have hlt := val.toInt_lt
    have hnat : (val.toUInt64.toNat : Int) = val.toInt := by
      have hword := Int64.asUInt64_eq val
      rw [Int64.asUInt64] at hword
      omega
    have hmem : (⟨64, a.sign⟩ : IntFormat).Mem val.toInt := by
      cases a.sign
      · exact ⟨h, by change _ ≤ (18446744073709551615 : Int); omega⟩
      · exact ⟨le_trans (by decide) h, by change _ ≤ (9223372036854775807 : Int); omega⟩
    have hle : (64 : Nat) ≤ a.shape.format.width := by
      change 64 ≤ a.width
      omega
    rw [heq, ← hself.toInt_inj hnum, hnum.toInt_eq, hnat]
    change a.toInt = a.shape.format.wrap ((⟨64, a.sign⟩ : IntFormat).wrap val.toInt) ↔ _
    rw [IntFormat.wrap_of_mem _ hmem,
      IntFormat.wrap_of_mem _ (hmem.of_width_le (g := a.shape.format) hle rfl)]

end EqNumber
end IntVal
end Maple
