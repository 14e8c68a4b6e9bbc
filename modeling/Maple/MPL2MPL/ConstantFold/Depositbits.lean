import Maple.Lib.IntBits
import Maple.Lib.Logged
import Maple.Util.IntVal.ConvertExact

/-!
# Folding of `depositbits`
-/

namespace Maple
namespace ConstantFold

open IntVal Words

/-- The constant that `FoldDepositbits` makes for a node of the type with the shape `type`, with the
amounts of its shifts. -/
def foldDepositbits (type : Shape) (bitsOffset bitsSize : Nat) (intConst0 intConst1 : IntVal) :
    Logged IntVal := do
  let mask0 := (← Logged.shl 1 (bitsSize + bitsOffset)) - 1
  let mask1 := (← Logged.shl 1 bitsOffset) - 1
  let op0Mask := ~~~(mask0 ^^^ mask1)
  let op0ExtractVal := (intConst0.getExtValue 0).toUInt64 &&& op0Mask
  let op1ExtractVal := (← Logged.shl (intConst1.getExtValue 0).toUInt64 bitsOffset) &&&
    ((← Logged.shl 1 (bitsSize + bitsOffset)) - 1)
  return ofNumber type (op0ExtractVal ||| op1ExtractVal)

/-- The constant has the field from the second operand and the other bits from the first one, and
no shift is as long as a word. -/
def DepositsField (type : Shape) (bitsOffset bitsSize : Nat) (intConst0 intConst1 : IntVal) :
    Prop :=
  let result := foldDepositbits type bitsOffset bitsSize intConst0 intConst1
  result.InRange ∧ ∀ i < type.width, result.val.value.testBit i =
    if bitsOffset ≤ i ∧ i < bitsOffset + bitsSize then intConst1.toInt.testBit (i - bitsOffset)
    else intConst0.toInt.testBit i

lemma testBit_getExtValue {a : IntVal} (h : a.IsOneWord) (hcanon : a.Canonical) {i : Nat}
    (hi : i < 64) : (a.getExtValue 0).toUInt64.toNat.testBit i = a.toInt.testBit i := by
  rw [← Int.testBit_emod_two_pow a.toInt hi, ← toNat_getExtValue h hcanon, Int.toNat_natCast]

/-! ### Masks -/

lemma testBit_lowMask {k : Nat} (h : k < 64) (i : Nat) :
    ((1 <<< UInt64.ofNat k : UInt64) - 1).toNat.testBit i = decide (i < k) := by
  have hpow : 2 ^ k < 2 ^ 64 := Nat.pow_lt_pow_right (by decide) h
  have hpos : 0 < 2 ^ k := Nat.two_pow_pos k
  have hnat : ((1 <<< UInt64.ofNat k : UInt64) - 1).toNat = 2 ^ k - 1 := by
    rw [UInt64.toNat_sub, toNat_one_shiftLeft h, UInt64.toNat_one]
    omega
  rw [hnat, Nat.testBit_two_pow_sub_one]

lemma testBit_shiftLeft {k : Nat} (h : k < 64) (w : UInt64) {i : Nat} (hi : i < 64) :
    (w <<< UInt64.ofNat k).toNat.testBit i = (decide (k ≤ i) && w.toNat.testBit (i - k)) := by
  rw [toNat_shiftLeft h, Nat.testBit_mod_two_pow, Nat.mul_comm, Nat.testBit_two_pow_mul,
    decide_eq_true hi, Bool.true_and]

lemma testBit_foldDepositbits {type : Shape} (htype : type.IsOneWord) {bitsOffset bitsSize : Nat}
    (hsize : bitsOffset + bitsSize < 64) (a b : IntVal) {i : Nat} (hi : i < type.width) :
    (foldDepositbits type bitsOffset bitsSize a b).val.value.testBit i =
      if bitsOffset ≤ i ∧ i < bitsOffset + bitsSize then
        (b.getExtValue 0).toUInt64.toNat.testBit (i - bitsOffset)
      else (a.getExtValue 0).toUInt64.toNat.testBit i := by
  have hi64 : i < 64 := lt_of_lt_of_le hi htype
  have hsum : bitsSize + bitsOffset < 64 := by omega
  have hoffset : bitsOffset < 64 := by omega
  simp only [foldDepositbits, Logged.val_bind, Logged.val_shl, Logged.val_pure]
  rw [value_ofNumber_of_isOneWord htype, Nat.testBit_mod_two_pow, decide_eq_true hi, Bool.true_and,
    UInt64.toNat_or, UInt64.toNat_and, UInt64.toNat_and, Nat.testBit_or, Nat.testBit_and,
    Nat.testBit_and, testBit_complement _ hi64, UInt64.toNat_xor, Nat.testBit_xor,
    testBit_lowMask hsum, testBit_lowMask hoffset, testBit_shiftLeft hoffset _ hi64]
  split_ifs with hfield
  · obtain ⟨hle, hlt⟩ := hfield
    have hlt' : i < bitsSize + bitsOffset := by omega
    simp [hle, hlt', not_lt.mpr hle]
  · by_cases hle : bitsOffset ≤ i
    · have hge : ¬i < bitsSize + bitsOffset := by omega
      simp [not_lt.mpr hle, hge]
    · have hlt : i < bitsSize + bitsOffset := by omega
      simp [hle, not_le.mp hle, hlt]

/-- The folding inserts the field as long as this does not end with the word of 64 bits. -/
theorem depositsField_iff {type : Shape} (htype : type.IsOneWord) (bitsOffset bitsSize : Nat)
    {intConst0 intConst1 : IntVal} (h0 : intConst0.IsOneWord) (hcanon0 : intConst0.Canonical)
    (h1 : intConst1.IsOneWord) (hcanon1 : intConst1.Canonical) :
    DepositsField type bitsOffset bitsSize intConst0 intConst1 ↔ bitsOffset + bitsSize < 64 := by
  have hrange : (foldDepositbits type bitsOffset bitsSize intConst0 intConst1).InRange ↔
      bitsOffset + bitsSize < 64 := by
    simp only [foldDepositbits, Logged.inRange_bind, Logged.inRange_shl, Logged.inRange_pure,
      and_true]
    omega
  rw [DepositsField, hrange, and_iff_left_iff_imp]
  intro hlt i hi
  have hi64 : i < 64 := lt_of_lt_of_le hi htype
  rw [testBit_foldDepositbits htype hlt _ _ hi, testBit_getExtValue h0 hcanon0 hi64,
    testBit_getExtValue h1 hcanon1 (by omega)]

theorem depositsField_iff_i32 :
    DepositsField ⟨32, true, by decide, by decide⟩ 4 8 (ofNumber ⟨32, true, by decide, by decide⟩ 5)
      (ofNumber ⟨8, true, by decide, by decide⟩ 200) ↔ 4 + 8 < 64 :=
  depositsField_iff (by decide) 4 8 (by decide) (by unfold Canonical; decide) (by decide)
    (by unfold Canonical; decide)

/-- All ones are not inserted into the upper half of zero: where a shift by 64 is one by zero, the
constant stays zero. -/
theorem not_depositsField_upper_half :
    ¬DepositsField ⟨64, false, by decide, by decide⟩ 32 32
        (ofNumber ⟨64, false, by decide, by decide⟩ 0)
        (ofNumber ⟨64, false, by decide, by decide⟩ 18446744073709551615) ∧
      (foldDepositbits ⟨64, false, by decide, by decide⟩ 32 32
        (ofNumber ⟨64, false, by decide, by decide⟩ 0)
        (ofNumber ⟨64, false, by decide, by decide⟩ 18446744073709551615)).val.value = 0 := by
  constructor
  · rintro ⟨hrange, -⟩
    exact absurd hrange (by decide)
  · decide

end ConstantFold
end Maple
