import Maple.IR.FloatConst.Narrow
import Mathlib.Tactic.IntervalCases

/-!
# Floats and doubles as quad-precision constants

`GetFloat128Value` gives the number of the float or the double again, and `GetDoubleValue` takes a
double back. A number without a leading one is shifted until it has one.
-/

namespace Maple

open MIRFloat128Const (kDoubleSignPos kDoubleExpShiftBits kDoubleExpLeftBits)

lemma findNumPos_eq {mantiss : UInt64} (hne : mantiss.toNat ≠ 0) (pos : ℕ) (hpos : pos < 63)
    (hlt : mantiss.toNat < 2 ^ (pos + 1)) (numPos : Int) :
    ∃ k r, k ≤ pos ∧ r < 2 ^ (pos - k) ∧ mantiss.toNat = 2 ^ (pos - k) + r ∧
      findNumPos mantiss pos numPos = some (numPos + k) := by
  induction pos generalizing numPos with
  | zero =>
    have hone : mantiss = 1 := by
      rw [← UInt64.toNat_inj, UInt64.toNat_one]
      omega
    subst hone
    exact ⟨0, 0, le_rfl, Nat.one_pos, rfl, by simp [findNumPos]⟩
  | succ pos ih =>
    have hbit : ((mantiss >>> UInt64.ofNat (pos + 1)) &&& 1).toNat =
        mantiss.toNat / 2 ^ (pos + 1) := by
      have hamount : (UInt64.ofNat (pos + 1)).toNat = pos + 1 := by
        rw [UInt64.toNat_ofNat', Nat.mod_eq_of_lt (by omega)]
      have h64 : (pos + 1) % 64 = pos + 1 := Nat.mod_eq_of_lt (by omega)
      rw [toNat_and_mask 1 rfl, UInt64.toNat_shiftRight, hamount, h64, Nat.shiftRight_eq_div_pow]
      apply Nat.mod_eq_of_lt
      apply Nat.div_lt_of_lt_mul
      rwa [← pow_add]
    rw [findNumPos]
    by_cases hge : 2 ^ (pos + 1) ≤ mantiss.toNat
    · have hdiv : mantiss.toNat / 2 ^ (pos + 1) = 1 := by
        rw [pow_succ] at hlt
        exact Nat.div_eq_of_lt_le (by omega) (by omega)
      rw [if_neg]
      · refine ⟨0, mantiss.toNat - 2 ^ (pos + 1), Nat.zero_le _, ?_, ?_, by simp⟩
        · rw [pow_succ] at hlt
          change _ < 2 ^ (pos + 1)
          omega
        · change _ = 2 ^ (pos + 1) + _
          omega
      · rw [not_not, ← UInt64.toNat_inj, hbit, hdiv]
        rfl
    · obtain ⟨k, r, hk, hr, heq, hfind⟩ := ih (by omega) (not_le.mp hge) (numPos + 1)
      rw [if_pos]
      · refine ⟨k + 1, r, by omega, ?_, ?_, ?_⟩
        · rwa [Nat.add_sub_add_right]
        · rwa [Nat.add_sub_add_right]
        · rw [hfind]
          congr 1
          push_cast
          ring
      · intro hone
        rw [hone, Nat.div_eq_of_lt (not_le.mp hge)] at hbit
        exact absurd hbit (by decide)

/-- The constant of two words. -/
def MIRFloat128Const.ofWords (v : UInt64 × UInt64) : MIRFloat128Const := ⟨v.1, v.2⟩

section Values

variable {sign exp mantiss : UInt64} {s : Bool}

lemma bits_ofWords {high low : UInt64} (hsign : sign.toNat = s.toNat) (hexp : exp.toNat < 2 ^ 15)
    (hhigh : high.toNat < 2 ^ 48) :
    (MIRFloat128Const.ofWords
      ((sign <<< kDoubleSignPos) ||| (exp <<< kDoubleExpShiftBits) ||| high, low)).bits =
      quad.pack s exp.toNat (high.toNat * 2 ^ 64 + low.toNat) := by
  have hpack : ((sign <<< kDoubleSignPos) ||| (exp <<< kDoubleExpShiftBits) ||| high).toNat =
      (s.toNat * 2 ^ 15 + exp.toNat) * 2 ^ 48 + high.toNat :=
    toNat_pack 48 rfl (by decide) hsign hexp hhigh
  change ((sign <<< kDoubleSignPos) ||| (exp <<< kDoubleExpShiftBits) ||| high).toNat * 2 ^ 64 +
    low.toNat = (s.toNat * 2 ^ 15 + exp.toNat) * 2 ^ 112 + (high.toNat * 2 ^ 64 + low.toNat)
  rw [hpack]
  omega

lemma MIRDoubleConst.bits_normalValue (hsign : sign.toNat = s.toNat) (hexp : exp.toNat < 0x7ff)
    (hmantiss : mantiss.toNat < 2 ^ 52) :
    (MIRFloat128Const.ofWords (normalValue sign exp mantiss)).bits =
      quad.pack s (exp.toNat + 0x3fff - 0x3ff) (mantiss.toNat * 2 ^ 60) := by
  have hldouble : (UInt32.ofInt ((exp.toNat : Int) - 0x3ff + 0x3fff)).toUInt64.toNat =
      exp.toNat + 0x3fff - 0x3ff := by
    rw [toNat_toUInt64_ofInt (by omega) (by omega)]
    omega
  have hfirst : (mantiss >>> UInt64.ofInt kFirstBits).toNat = mantiss.toNat / 2 ^ 4 := by
    rw [UInt64.toNat_shiftRight, Nat.shiftRight_eq_div_pow]
    rfl
  have hlow : (mantiss &&& 0xf).toNat = mantiss.toNat % 2 ^ 4 := toNat_and_mask 4 rfl
  have hsecond : ((mantiss &&& 0xf) <<< 60).toNat = mantiss.toNat % 2 ^ 4 * 2 ^ 60 := by
    have h60 : (60 : UInt64).toNat = 60 := rfl
    rw [toNat_shiftLeft_of_lt h60 (by omega) (by omega), hlow]
  have hsplit : mantiss.toNat / 2 ^ 4 * 2 ^ 64 + mantiss.toNat % 2 ^ 4 * 2 ^ 60 =
      mantiss.toNat * 2 ^ 60 := by omega
  rw [normalValue, bits_ofWords hsign (by omega) (by omega), hldouble, hfirst, hsecond, hsplit]

lemma MIRFloatConst.bits_normalValue (hsign : sign.toNat = s.toNat) (hexp : exp.toNat < 0xff)
    (hmantiss : mantiss.toNat < 2 ^ 23) :
    (MIRFloat128Const.ofWords (normalValue sign exp mantiss)).bits =
      quad.pack s (exp.toNat + 0x3fff - 0x7f) (mantiss.toNat * 2 ^ 89) := by
  have hldouble : (UInt64.ofInt ((exp.toNat : Int) - 0x7f + 0x3fff)).toNat =
      exp.toNat + 0x3fff - 0x7f := by
    rw [toNat_ofInt (by omega) (by omega)]
    omega
  have hfirst : (mantiss <<< 25).toNat = mantiss.toNat * 2 ^ 25 := by
    have h25 : (25 : UInt64).toNat = 25 := rfl
    rw [toNat_shiftLeft_of_lt h25 (by omega) (by omega)]
  have hsplit : mantiss.toNat * 2 ^ 25 * 2 ^ 64 + 0 = mantiss.toNat * 2 ^ 89 := by omega
  rw [normalValue, bits_ofWords hsign (by omega) (by omega), hldouble, hfirst, UInt64.toNat_zero,
    hsplit]

lemma toNat_and_mask_ofInt (bits : ℕ) {k r : ℕ} (hk : k < bits) (hbits : bits < 64)
    (hr : r < 2 ^ (bits - 1 - k)) (hmantiss : mantiss.toNat = 2 ^ (bits - 1 - k) + r) :
    (mantiss &&& ((1 <<< UInt64.ofInt (bits - ((k : Int) + 1))) - 1)).toNat = r := by
  have hamount : (UInt64.ofInt (bits - ((k : Int) + 1))).toNat = bits - 1 - k := by
    rw [toNat_ofInt (by omega) (by omega)]
    omega
  have hmask : ((1 <<< UInt64.ofInt (bits - ((k : Int) + 1))) - 1 : UInt64).toNat =
      2 ^ (bits - 1 - k) - 1 := by
    have hpow : 2 ^ (bits - 1 - k) < 2 ^ 64 := Nat.pow_lt_pow_right (by decide) (by omega)
    have hone : ((1 : UInt64) <<< UInt64.ofInt (bits - ((k : Int) + 1))).toNat =
        2 ^ (bits - 1 - k) := by
      rw [toNat_shiftLeft_of_lt hamount (by omega) (by simpa using hpow), UInt64.toNat_one, one_mul]
    have hpos := Nat.two_pow_pos (bits - 1 - k)
    have hle : (1 : UInt64) ≤ 1 <<< UInt64.ofInt (bits - ((k : Int) + 1)) := by
      rw [UInt64.le_iff_toNat_le, hone, UInt64.toNat_one]
      exact hpos
    rw [UInt64.toNat_sub_of_le _ _ hle, hone, UInt64.toNat_one]
  rw [toNat_and_mask _ hmask, hmantiss, Nat.add_mod_left, Nat.mod_eq_of_lt hr]

lemma MIRDoubleConst.bits_subnormalValue {k r : ℕ} (hsign : sign.toNat = s.toNat) (hk : k ≤ 51)
    (hr : r < 2 ^ (51 - k)) (hmantiss : mantiss.toNat = 2 ^ (51 - k) + r) :
    (MIRFloat128Const.ofWords (subnormalValue sign mantiss k)).bits =
      quad.pack s (0x3fff - 0x3ff - k) (r * 2 ^ (61 + k)) := by
  have hldouble : (UInt32.ofInt (-0x3fe - ((k : Int) + 1) + 0x3fff)).toUInt64.toNat =
      0x3fff - 0x3ff - k := by
    rw [toNat_toUInt64_ofInt (by omega) (by omega)]
    omega
  have hmask : (mantiss &&& ((1 <<< UInt64.ofInt (52 - ((k : Int) + 1))) - 1)).toNat = r :=
    toNat_and_mask_ofInt 52 (by omega) (by decide) hr hmantiss
  generalize hm : mantiss &&& ((1 <<< UInt64.ofInt (52 - ((k : Int) + 1))) - 1) = m at hmask
  have hexp : (UInt32.ofInt (-0x3fe - ((k : Int) + 1) + 0x3fff)).toUInt64.toNat < 2 ^ 15 := by
    omega
  rw [subnormalValue, hm, kFirstBits, kDoubleLength]
  by_cases hk3 : k < 3
  · have hright : (m >>> UInt64.ofInt (4 - ((k : Int) + 1))).toNat = r / 2 ^ (3 - k) := by
      have hamount : (UInt64.ofInt (4 - ((k : Int) + 1))).toNat = 3 - k := by
        rw [toNat_ofInt (by omega) (by omega)]
        omega
      rw [UInt64.toNat_shiftRight, hmask, hamount, Nat.mod_eq_of_lt (by omega),
        Nat.shiftRight_eq_div_pow]
    have hleft : (m <<< UInt64.ofInt
        (64 - (52 - ((k : Int) + 1)) + kDoubleExpShiftBits.toNat)).toNat =
        r * 2 ^ (61 + k) % 2 ^ 64 := by
      have hamount : (UInt64.ofInt
          (64 - (52 - ((k : Int) + 1)) + kDoubleExpShiftBits.toNat)).toNat = 61 + k := by
        change (UInt64.ofInt (64 - (52 - ((k : Int) + 1)) + 48)).toNat = _
        rw [toNat_ofInt (by omega) (by omega)]
        omega
      have h64 : (61 + k) % 64 = 61 + k := Nat.mod_eq_of_lt (by omega)
      rw [UInt64.toNat_shiftLeft, hmask, hamount, h64, Nat.shiftLeft_eq]
    have hsplit : r / 2 ^ (3 - k) * 2 ^ 64 + r * 2 ^ (61 + k) % 2 ^ 64 = r * 2 ^ (61 + k) := by
      interval_cases k <;> omega
    have hhigh : r / 2 ^ (3 - k) < 2 ^ 48 := by
      interval_cases k <;> omega
    rw [if_pos (by omega), if_pos (by change _ + (48 : Int) < _; omega),
      bits_ofWords hsign hexp (by omega), hldouble, hright, hleft, hsplit]
  · have hhigh : r * 2 ^ (k - 3) < 2 ^ 48 := by
      have hsum : 51 - k + (k - 3) = 48 := by omega
      rw [← hsum, pow_add 2 (51 - k)]
      exact Nat.mul_lt_mul_of_pos_right hr (Nat.two_pow_pos _)
    have hleft : (m <<< UInt64.ofInt |4 - ((k : Int) + 1)|).toNat = r * 2 ^ (k - 3) := by
      have hamount : (UInt64.ofInt |4 - ((k : Int) + 1)|).toNat = k - 3 := by
        rw [abs_of_nonpos (by omega), toNat_ofInt (by omega) (by omega)]
        omega
      rw [toNat_shiftLeft_of_lt hamount (by omega) (by rw [hmask]; omega), hmask]
    have hsplit : r * 2 ^ (k - 3) * 2 ^ 64 + 0 = r * 2 ^ (61 + k) := by
      have hsum : k - 3 + 64 = 61 + k := by omega
      rw [Nat.add_zero, mul_assoc, ← pow_add, hsum]
    rw [if_neg (by omega), if_neg (by change ¬ _ + (48 : Int) < _; omega),
      bits_ofWords hsign hexp (by omega), hldouble, hleft, UInt64.toNat_zero, hsplit]

lemma MIRFloatConst.bits_subnormalValue {k r : ℕ} (hsign : sign.toNat = s.toNat) (hk : k ≤ 22)
    (hr : r < 2 ^ (22 - k)) (hmantiss : mantiss.toNat = 2 ^ (22 - k) + r) :
    (MIRFloat128Const.ofWords (subnormalValue sign mantiss k)).bits =
      quad.pack s (0x3fff - 0x7f - k) (r * 2 ^ (90 + k)) := by
  have hldouble : (UInt64.ofInt (-0x7e - ((k : Int) + 1) + 0x3fff)).toNat = 0x3fff - 0x7f - k := by
    rw [toNat_ofInt (by omega) (by omega)]
    omega
  have hmask : (mantiss &&& ((1 <<< UInt64.ofInt (23 - ((k : Int) + 1))) - 1)).toNat = r :=
    toNat_and_mask_ofInt 23 (by omega) (by decide) hr hmantiss
  have hamount : (UInt64.ofInt (25 + (k : Int) + 1)).toNat = 26 + k := by
    rw [toNat_ofInt (by omega) (by omega)]
    omega
  have hhigh : r * 2 ^ (26 + k) < 2 ^ 48 := by
    have hsum : 22 - k + (26 + k) = 48 := by omega
    rw [← hsum, pow_add 2 (22 - k)]
    exact Nat.mul_lt_mul_of_pos_right hr (Nat.two_pow_pos _)
  have hshift : ((mantiss &&& ((1 <<< UInt64.ofInt (23 - ((k : Int) + 1))) - 1)) <<<
      UInt64.ofInt (25 + (k : Int) + 1)).toNat = r * 2 ^ (26 + k) := by
    rw [toNat_shiftLeft_of_lt hamount (by omega) (by rw [hmask]; omega), hmask]
  have hsplit : r * 2 ^ (26 + k) * 2 ^ 64 + 0 = r * 2 ^ (90 + k) := by
    have hsum : 26 + k + 64 = 90 + k := by omega
    rw [Nat.add_zero, mul_assoc, ← pow_add, hsum]
  rw [subnormalValue, bits_ofWords hsign (by omega) (by omega), hldouble, hshift, UInt64.toNat_zero,
    hsplit]

end Values

/-- The constant of the words is the number or the infinity of the pattern. -/
def Widens (F : BinaryFormat) (n : ℕ) (v : UInt64 × UInt64) : Prop :=
  quad.datum (MIRFloat128Const.ofWords v).bits = F.datum n

section Widens

variable {F : BinaryFormat} {n k e f : ℕ} {v : UInt64 × UInt64} {s : Bool}

lemma widens_of_pack (hbits : (MIRFloat128Const.ofWords v).bits = quad.pack s e f)
    (he0 : 0 < e) (he : e < 0x7fff) (hf : f < 2 ^ 112) (hfin : F.IsFinite n)
    (hsign : s = F.sign n) (hsig : 2 ^ 112 + f = F.significand n * 2 ^ k)
    (hscale : F.scale n = e - 0x3fff - 112 + k) : Widens F n v := by
  have he' : e < 2 ^ quad.expBits := he.trans (by decide)
  have hexp : quad.exponent (quad.pack s e f) = e := BinaryFormat.exponent_pack he' hf
  have hquad : quad.IsFinite (quad.pack s e f) := by
    rw [BinaryFormat.IsFinite, hexp]
    exact he.ne
  have hmag : quad.magnitude (quad.pack s e f) = F.magnitude n := by
    apply BinaryFormat.magnitude_eq_of_significand_eq (k := k)
    · rw [BinaryFormat.significand, hexp, if_neg he0.ne', BinaryFormat.fraction_pack hf]
      exact hsig
    · rw [hscale, BinaryFormat.scale, hexp, max_eq_right he0]
      rfl
  rw [Widens, hbits, hquad.datum_eq, hfin.datum_eq, hmag, BinaryFormat.sign_pack he' hf, hsign]

lemma widens_inf (hinf : F.IsInf n) (hquad : quad.IsInf (MIRFloat128Const.ofWords v).bits)
    (hsign : quad.sign (MIRFloat128Const.ofWords v).bits = F.sign n) : Widens F n v := by
  rw [Widens, hquad.datum_eq, hinf.datum_eq, hsign]

lemma widens_zero (hfin : F.IsFinite n) (hexp : F.exponent n = 0) (hfrac : F.fraction n = 0)
    (hquad : quad.exponent (MIRFloat128Const.ofWords v).bits = 0 ∧
      quad.fraction (MIRFloat128Const.ofWords v).bits = 0)
    (hsign : quad.sign (MIRFloat128Const.ofWords v).bits = F.sign n) : Widens F n v := by
  have hquadFin : quad.IsFinite (MIRFloat128Const.ofWords v).bits := by
    rw [BinaryFormat.IsFinite, hquad.1]
    decide
  rw [Widens, hquadFin.datum_eq, hfin.datum_eq, hsign,
    BinaryFormat.magnitude_eq_zero.mpr hquad, BinaryFormat.magnitude_eq_zero.mpr ⟨hexp, hfrac⟩]

end Widens

namespace MIRDoubleConst

variable {c : MIRDoubleConst}

lemma toNat_getSign : c.getSign.toNat = (double.sign c.intValue.toNat).toNat := by
  rw [getSign, toNat_field 1 rfl (by decide) rfl]
  change _ = (c.intValue.toNat.testBit 63).toNat
  rw [Nat.toNat_testBit]
  rfl

lemma toNat_exponent : ((c.intValue &&& 0x7ff0000000000000) >>> 52).toNat =
    double.exponent c.intValue.toNat := toNat_field 11 rfl (by decide) rfl

lemma toNat_fraction : (c.intValue &&& 0x000fffffffffffff).toNat =
    double.fraction c.intValue.toNat := toNat_and_mask 52 rfl

lemma isinf_iff : c.isinf = true ↔ double.IsInf c.intValue.toNat := by
  have hmask : (c.intValue &&& 0x7fffffffffffffff).toNat = c.intValue.toNat % 2 ^ 63 :=
    toNat_and_mask 63 rfl
  rw [isinf, beq_iff_eq, ← UInt64.toNat_inj, hmask]
  change _ = 0x7ff0000000000000 ↔
    c.intValue.toNat / 2 ^ 52 % 2 ^ 11 = 2047 ∧ c.intValue.toNat % 2 ^ 52 = 0
  omega

lemma isnan_iff : c.isnan = true ↔ double.IsNan c.intValue.toNat := by
  have hmask : (c.intValue &&& 0x7fffffffffffffff).toNat = c.intValue.toNat % 2 ^ 63 :=
    toNat_and_mask 63 rfl
  rw [isnan, decide_eq_true_iff, gt_iff_lt, UInt64.lt_iff_toNat_lt, hmask]
  change 0x7ff0000000000000 < _ ↔
    c.intValue.toNat / 2 ^ 52 % 2 ^ 11 = 2047 ∧ c.intValue.toNat % 2 ^ 52 ≠ 0
  omega

lemma widens_normalValue {n : ℕ} {sign exp mantiss : UInt64}
    (hsign : sign.toNat = (double.sign n).toNat) (hexp : exp.toNat = double.exponent n)
    (hmantiss : mantiss.toNat = double.fraction n) (h0 : double.exponent n ≠ 0)
    (hfin : double.IsFinite n) : Widens double n (normalValue sign exp mantiss) := by
  have hlt : double.exponent n < 2 ^ 11 := BinaryFormat.exponent_lt
  have hne : double.exponent n ≠ 2047 := hfin
  have hfrac : double.fraction n < 2 ^ 52 := BinaryFormat.fraction_lt
  have hexp' : exp.toNat < 0x7ff := by omega
  have hmantiss' : mantiss.toNat < 2 ^ 52 := by omega
  have hbits := bits_normalValue hsign hexp' hmantiss'
  have he0 : 0 < exp.toNat + 0x3fff - 0x3ff := by omega
  have he : exp.toNat + 0x3fff - 0x3ff < 0x7fff := by omega
  have hf : mantiss.toNat * 2 ^ 60 < 2 ^ 112 := by omega
  apply widens_of_pack hbits he0 he hf hfin rfl (k := 60)
  · rw [BinaryFormat.significand, if_neg h0, hmantiss]
    change _ = (2 ^ 52 + _) * 2 ^ 60
    omega
  · rw [BinaryFormat.scale, max_eq_right (by omega), hexp]
    change ((_ : ℕ) : ℤ) - (0x3ff : ℕ) - (52 : ℕ) = _
    omega

lemma widens_subnormalValue {n : ℕ} {sign mantiss : UInt64}
    (hsign : sign.toNat = (double.sign n).toNat) (hmantiss : mantiss.toNat = double.fraction n)
    (h0 : double.exponent n = 0) (hne : double.fraction n ≠ 0) :
    ∃ v, (findNumPos mantiss kDoubleExpPos 0).map (subnormalValue sign mantiss) = some v ∧
      Widens double n v := by
  have hfin : double.IsFinite n := by
    rw [BinaryFormat.IsFinite, h0]
    decide
  have hfrac : double.fraction n < 2 ^ 52 := BinaryFormat.fraction_lt
  obtain ⟨k, r, hk, hr, heq, hfind⟩ :=
    findNumPos_eq (hmantiss ▸ hne) 51 (by decide) (hmantiss ▸ hfrac) 0
  refine ⟨subnormalValue sign mantiss (0 + k), by rw [kDoubleExpPos, hfind]; rfl, ?_⟩
  rw [zero_add]
  have hbits := bits_subnormalValue hsign hk hr heq
  have hsum : 51 - k + (61 + k) = 112 := by omega
  have hlt : r * 2 ^ (61 + k) < 2 ^ 112 := by
    rw [← hsum, pow_add 2 (51 - k)]
    exact Nat.mul_lt_mul_of_pos_right hr (Nat.two_pow_pos _)
  apply widens_of_pack hbits (by omega) (by omega) hlt hfin rfl (k := 61 + k)
  · rw [BinaryFormat.significand, if_pos h0, ← hmantiss, heq, add_mul, ← pow_add, hsum]
  · rw [BinaryFormat.scale, h0]
    change ((1 : ℕ) : ℤ) - (0x3ff : ℕ) - (52 : ℕ) = _
    omega

lemma exists_getFloat128Value (hnan : ¬ double.IsNan c.intValue.toNat) :
    ∃ v, c.getFloat128Value = some v ∧ Widens double c.intValue.toNat v := by
  by_cases hinf : double.IsInf c.intValue.toNat
  · have hcases : c = ⟨0x7ff0000000000000⟩ ∨ c = ⟨0xfff0000000000000⟩ := by
      obtain ⟨w⟩ := c
      have hlt := w.toNat_lt
      have hexp : w.toNat / 2 ^ 52 % 2 ^ 11 = 2047 := hinf.1
      have hfrac : w.toNat % 2 ^ 52 = 0 := hinf.2
      simp only [mk.injEq, ← UInt64.toNat_inj]
      change w.toNat = 0x7ff0000000000000 ∨ w.toNat = 0xfff0000000000000
      omega
    rcases hcases with rfl | rfl
    · exact ⟨_, rfl, widens_inf hinf (by decide) (by decide)⟩
    · exact ⟨_, rfl, widens_inf hinf (by decide) (by decide)⟩
  have hfin : double.IsFinite c.intValue.toNat := fun hexp => by
    by_cases hfrac : double.fraction c.intValue.toNat = 0
    · exact hinf ⟨hexp, hfrac⟩
    · exact hnan ⟨hexp, hfrac⟩
  by_cases hneg : c.intValue = 0x8000000000000000
  · obtain ⟨w⟩ := c
    obtain rfl : w = 0x8000000000000000 := hneg
    exact ⟨_, rfl, widens_zero hfin (by decide) (by decide) (by decide) (by decide)⟩
  by_cases hzero : c.intValue = 0
  · obtain ⟨w⟩ := c
    obtain rfl : w = 0 := hzero
    exact ⟨_, rfl, widens_zero hfin (by decide) (by decide) (by decide) (by decide)⟩
  have hisinf : c.isinf = false := Bool.eq_false_iff.mpr (isinf_iff.not.mpr hinf)
  have hisnan : c.isnan = false := Bool.eq_false_iff.mpr (isnan_iff.not.mpr hnan)
  have hxor : ¬ c.intValue ^^^ (1 <<< kDoubleSignPos) = 0 := by
    rw [UInt64.xor_eq_zero_iff]
    exact hneg
  simp only [getFloat128Value, hisinf, hisnan, Bool.false_and, Bool.false_eq_true, if_false,
    beq_iff_eq, hxor, hzero, Bool.and_eq_true, decide_eq_true_eq]
  have hlt : double.exponent c.intValue.toNat < 2 ^ 11 := BinaryFormat.exponent_lt
  have hne : double.exponent c.intValue.toNat ≠ 2047 := hfin
  by_cases h0 : double.exponent c.intValue.toNat = 0
  · have hexp : (c.intValue &&& 0x7ff0000000000000) >>> 52 = 0 := by
      rw [← UInt64.toNat_inj, toNat_exponent, h0]
      rfl
    have hfrac : double.fraction c.intValue.toNat ≠ 0 := by
      intro hfrac
      have hlt := c.intValue.toNat_lt
      have hdiv : c.intValue.toNat / 2 ^ 52 % 2 ^ 11 = 0 := h0
      have hmod : c.intValue.toNat % 2 ^ 52 = 0 := hfrac
      rw [← UInt64.toNat_inj] at hneg hzero
      change ¬ c.intValue.toNat = 0x8000000000000000 at hneg
      change ¬ c.intValue.toNat = 0 at hzero
      omega
    rw [hexp, if_neg (by decide), if_pos rfl]
    exact widens_subnormalValue toNat_getSign toNat_fraction h0 hfrac
  · have hrange : (c.intValue &&& 0x7ff0000000000000) >>> 52 > 0 ∧
        (c.intValue &&& 0x7ff0000000000000) >>> 52 < 0x7ff := by
      rw [gt_iff_lt, UInt64.lt_iff_toNat_lt, UInt64.lt_iff_toNat_lt, toNat_exponent]
      change 0 < _ ∧ _ < 2047
      omega
    rw [if_pos hrange]
    exact ⟨_, rfl, widens_normalValue toNat_getSign toNat_exponent toNat_fraction h0 hfin⟩

lemma two_zpow_le_magnitude (hne : double.magnitude c.intValue.toNat ≠ 0) :
    2 ^ (-1074 : ℤ) ≤ double.magnitude c.intValue.toNat := by
  refine le_trans ?_ (BinaryFormat.two_zpow_scale_le_magnitude hne)
  apply zpow_le_zpow_right₀ one_le_two
  rw [BinaryFormat.scale]
  change -1074 ≤ ((_ : ℕ) : ℤ) - (0x3ff : ℕ) - (52 : ℕ)
  omega

lemma magnitude_lt_two_zpow (hfin : double.IsFinite c.intValue.toNat) :
    double.magnitude c.intValue.toNat < 2 ^ (1024 : ℤ) := by
  have hlt : double.exponent c.intValue.toNat < 2 ^ 11 := BinaryFormat.exponent_lt
  have hne : double.exponent c.intValue.toNat ≠ 2047 := hfin
  refine lt_of_lt_of_le BinaryFormat.magnitude_lt ?_
  apply zpow_le_zpow_right₀ one_le_two
  rw [BinaryFormat.scale]
  change ((_ : ℕ) : ℤ) - (0x3ff : ℕ) - (52 : ℕ) + (52 : ℕ) + 1 ≤ 1024
  omega

lemma getDoubleValue_of_widens {v : UInt64 × UInt64} (hnan : ¬ double.IsNan c.intValue.toNat)
    (h : Widens double c.intValue.toNat v) :
    (MIRFloat128Const.ofWords v).getDoubleValue = c.intValue := by
  rw [Widens] at h
  rw [← UInt64.toNat_inj]
  by_cases hinf : double.IsInf c.intValue.toNat
  · rw [hinf.datum_eq] at h
    obtain ⟨hquad, hsign⟩ := BinaryFormat.isInf_of_datum_eq h
    have hnan' : ¬ quad.IsNan (MIRFloat128Const.ofWords v).bits := fun hnan => hnan.2 hquad.2
    have hnarrow := MIRFloat128Const.narrows_getDoubleValue (c := MIRFloat128Const.ofWords v) (by
      rintro ⟨-, hnan | ⟨hfin, -⟩⟩
      · exact hnan' hnan
      · exact hfin hquad.1)
    obtain ⟨hexp, hfrac⟩ := hnarrow.isInf.mpr (Or.inl hquad)
    rw [← BinaryFormat.pack_fields (F := double) (UInt64.toNat_lt _),
      ← BinaryFormat.pack_fields (F := double) (UInt64.toNat_lt c.intValue), hexp, hfrac,
      hinf.1, hinf.2, hnarrow.sign hnan', hsign]
  · have hfin : double.IsFinite c.intValue.toNat := fun hexp => by
      by_cases hfrac : double.fraction c.intValue.toNat = 0
      · exact hinf ⟨hexp, hfrac⟩
      · exact hnan ⟨hexp, hfrac⟩
    rw [hfin.datum_eq] at h
    obtain ⟨hquad, hsign, hmag⟩ := BinaryFormat.isFinite_of_datum_eq h
    have hnan' : ¬ quad.IsNan (MIRFloat128Const.ofWords v).bits := fun hnan => hquad hnan.1
    have hnarrow := MIRFloat128Const.narrows_getDoubleValue (c := MIRFloat128Const.ofWords v) (by
      rintro ⟨-, hnan | ⟨-, hpos, htiny⟩⟩
      · exact hnan' hnan
      · rw [hmag] at hpos htiny
        exact absurd (two_zpow_le_magnitude hpos) (not_le.mpr htiny))
    have hinf' : ¬ double.IsInf (MIRFloat128Const.ofWords v).getDoubleValue.toNat := by
      rw [hnarrow.isInf]
      rintro (hinf | ⟨-, hle⟩)
      · exact hquad hinf.1
      · rw [hmag] at hle
        exact absurd (magnitude_lt_two_zpow hfin) (not_lt.mpr hle)
    have htrunc := hnarrow.truncates hnan' hinf'
    rw [hmag] at htrunc
    exact BinaryFormat.eq_of_magnitude_eq (UInt64.toNat_lt _) (UInt64.toNat_lt _)
      ((hnarrow.sign hnan').trans hsign) (htrunc.magnitude_eq hfin)

end MIRDoubleConst

namespace MIRFloatConst

variable {c : MIRFloatConst}

lemma toNat_and_mask {w mask : UInt32} (len : ℕ) (hmask : mask.toNat = 2 ^ len - 1) :
    (w &&& mask).toNat = w.toNat % 2 ^ len := by
  rw [UInt32.toNat_and, hmask, Nat.and_two_pow_sub_one_eq_mod]

lemma toNat_field {w mask amount : UInt32} {sh : ℕ} (len : ℕ) (hamount : amount.toNat = sh)
    (hsh : sh < 32) (hmask : mask.toNat >>> sh = 2 ^ len - 1) :
    ((w &&& mask) >>> amount).toNat = w.toNat / 2 ^ sh % 2 ^ len := by
  rw [UInt32.toNat_shiftRight, UInt32.toNat_and, hamount, Nat.mod_eq_of_lt hsh,
    Nat.shiftRight_and_distrib, hmask, Nat.and_two_pow_sub_one_eq_mod, Nat.shiftRight_eq_div_pow]

lemma toNat_getSign : c.getSign.toUInt64.toNat = (single.sign c.intValue.toNat).toNat := by
  rw [UInt32.toNat_toUInt64, getSign, toNat_field 1 rfl (by decide) rfl]
  change _ = (c.intValue.toNat.testBit 31).toNat
  rw [Nat.toNat_testBit]
  rfl

lemma toNat_exponent : ((c.intValue &&& 0x7f800000) >>> 23).toUInt64.toNat =
    single.exponent c.intValue.toNat := by
  rw [UInt32.toNat_toUInt64]
  exact toNat_field 8 rfl (by decide) rfl

lemma toNat_fraction : (c.intValue &&& 0x007fffff).toUInt64.toNat =
    single.fraction c.intValue.toNat := by
  rw [UInt32.toNat_toUInt64]
  exact toNat_and_mask 23 rfl

lemma isinf_iff : c.isinf = true ↔ single.IsInf c.intValue.toNat := by
  have hmask : (c.intValue &&& 0x7fffffff).toNat = c.intValue.toNat % 2 ^ 31 :=
    toNat_and_mask 31 rfl
  rw [isinf, beq_iff_eq, ← UInt32.toNat_inj, hmask]
  change _ = 0x7f800000 ↔
    c.intValue.toNat / 2 ^ 23 % 2 ^ 8 = 255 ∧ c.intValue.toNat % 2 ^ 23 = 0
  omega

lemma isnan_iff : c.isnan = true ↔ single.IsNan c.intValue.toNat := by
  have hmask : (c.intValue &&& 0x7fffffff).toNat = c.intValue.toNat % 2 ^ 31 :=
    toNat_and_mask 31 rfl
  rw [isnan, decide_eq_true_iff, gt_iff_lt, UInt32.lt_iff_toNat_lt, hmask]
  change 0x7f800000 < _ ↔
    c.intValue.toNat / 2 ^ 23 % 2 ^ 8 = 255 ∧ c.intValue.toNat % 2 ^ 23 ≠ 0
  omega

lemma widens_normalValue {n : ℕ} {sign exp mantiss : UInt64}
    (hsign : sign.toNat = (single.sign n).toNat) (hexp : exp.toNat = single.exponent n)
    (hmantiss : mantiss.toNat = single.fraction n) (h0 : single.exponent n ≠ 0)
    (hfin : single.IsFinite n) : Widens single n (normalValue sign exp mantiss) := by
  have hlt : single.exponent n < 2 ^ 8 := BinaryFormat.exponent_lt
  have hne : single.exponent n ≠ 255 := hfin
  have hfrac : single.fraction n < 2 ^ 23 := BinaryFormat.fraction_lt
  have hexp' : exp.toNat < 0xff := by omega
  have hmantiss' : mantiss.toNat < 2 ^ 23 := by omega
  have hbits := bits_normalValue hsign hexp' hmantiss'
  have he0 : 0 < exp.toNat + 0x3fff - 0x7f := by omega
  have he : exp.toNat + 0x3fff - 0x7f < 0x7fff := by omega
  have hf : mantiss.toNat * 2 ^ 89 < 2 ^ 112 := by omega
  apply widens_of_pack hbits he0 he hf hfin rfl (k := 89)
  · rw [BinaryFormat.significand, if_neg h0, hmantiss]
    change _ = (2 ^ 23 + _) * 2 ^ 89
    omega
  · rw [BinaryFormat.scale, max_eq_right (by omega), hexp]
    change ((_ : ℕ) : ℤ) - (0x7f : ℕ) - (23 : ℕ) = _
    omega

lemma widens_subnormalValue {n : ℕ} {sign mantiss : UInt64}
    (hsign : sign.toNat = (single.sign n).toNat) (hmantiss : mantiss.toNat = single.fraction n)
    (h0 : single.exponent n = 0) (hne : single.fraction n ≠ 0) :
    ∃ v, (findNumPos mantiss kFloatExpPos 0).map (subnormalValue sign mantiss) = some v ∧
      Widens single n v := by
  have hfin : single.IsFinite n := by
    rw [BinaryFormat.IsFinite, h0]
    decide
  have hfrac : single.fraction n < 2 ^ 23 := BinaryFormat.fraction_lt
  obtain ⟨k, r, hk, hr, heq, hfind⟩ :=
    findNumPos_eq (hmantiss ▸ hne) 22 (by decide) (hmantiss ▸ hfrac) 0
  refine ⟨subnormalValue sign mantiss (0 + k), by rw [kFloatExpPos, hfind]; rfl, ?_⟩
  rw [zero_add]
  have hbits := bits_subnormalValue hsign hk hr heq
  have hsum : 22 - k + (90 + k) = 112 := by omega
  have hlt : r * 2 ^ (90 + k) < 2 ^ 112 := by
    rw [← hsum, pow_add 2 (22 - k)]
    exact Nat.mul_lt_mul_of_pos_right hr (Nat.two_pow_pos _)
  apply widens_of_pack hbits (by omega) (by omega) hlt hfin rfl (k := 90 + k)
  · rw [BinaryFormat.significand, if_pos h0, ← hmantiss, heq, add_mul, ← pow_add, hsum]
  · rw [BinaryFormat.scale, h0]
    change ((1 : ℕ) : ℤ) - (0x7f : ℕ) - (23 : ℕ) = _
    omega

lemma exists_getFloat128Value (hnan : ¬ single.IsNan c.intValue.toNat) :
    ∃ v, c.getFloat128Value = some v ∧ Widens single c.intValue.toNat v := by
  by_cases hinf : single.IsInf c.intValue.toNat
  · have hcases : c = ⟨0x7f800000⟩ ∨ c = ⟨0xff800000⟩ := by
      obtain ⟨w⟩ := c
      have hlt := w.toNat_lt
      have hexp : w.toNat / 2 ^ 23 % 2 ^ 8 = 255 := hinf.1
      have hfrac : w.toNat % 2 ^ 23 = 0 := hinf.2
      simp only [mk.injEq, ← UInt32.toNat_inj]
      change w.toNat = 0x7f800000 ∨ w.toNat = 0xff800000
      omega
    rcases hcases with rfl | rfl
    · exact ⟨_, rfl, widens_inf hinf (by decide) (by decide)⟩
    · exact ⟨_, rfl, widens_inf hinf (by decide) (by decide)⟩
  have hfin : single.IsFinite c.intValue.toNat := fun hexp => by
    by_cases hfrac : single.fraction c.intValue.toNat = 0
    · exact hinf ⟨hexp, hfrac⟩
    · exact hnan ⟨hexp, hfrac⟩
  by_cases hneg : c.intValue = 0x80000000
  · obtain ⟨w⟩ := c
    obtain rfl : w = 0x80000000 := hneg
    exact ⟨_, rfl, widens_zero hfin (by decide) (by decide) (by decide) (by decide)⟩
  by_cases hzero : c.intValue = 0
  · obtain ⟨w⟩ := c
    obtain rfl : w = 0 := hzero
    exact ⟨_, rfl, widens_zero hfin (by decide) (by decide) (by decide) (by decide)⟩
  have hisinf : c.isinf = false := Bool.eq_false_iff.mpr (isinf_iff.not.mpr hinf)
  have hisnan : c.isnan = false := Bool.eq_false_iff.mpr (isnan_iff.not.mpr hnan)
  have hxor : ¬ c.intValue ^^^ (1 <<< kFloatSignPos) = 0 := by
    rw [UInt32.xor_eq_zero_iff]
    exact hneg
  simp only [getFloat128Value, hisinf, hisnan, Bool.false_and, Bool.false_eq_true, if_false,
    beq_iff_eq, hxor, hzero, Bool.and_eq_true, decide_eq_true_eq]
  have hlt : single.exponent c.intValue.toNat < 2 ^ 8 := BinaryFormat.exponent_lt
  have hne : single.exponent c.intValue.toNat ≠ 255 := hfin
  by_cases h0 : single.exponent c.intValue.toNat = 0
  · have hexp : ((c.intValue &&& 0x7f800000) >>> 23).toUInt64 = 0 := by
      rw [← UInt64.toNat_inj, toNat_exponent, h0]
      rfl
    have hfrac : single.fraction c.intValue.toNat ≠ 0 := by
      intro hfrac
      have hlt := c.intValue.toNat_lt
      have hdiv : c.intValue.toNat / 2 ^ 23 % 2 ^ 8 = 0 := h0
      have hmod : c.intValue.toNat % 2 ^ 23 = 0 := hfrac
      rw [← UInt32.toNat_inj] at hneg hzero
      change ¬ c.intValue.toNat = 0x80000000 at hneg
      change ¬ c.intValue.toNat = 0 at hzero
      omega
    rw [hexp, if_neg (by decide), if_pos rfl]
    exact widens_subnormalValue toNat_getSign toNat_fraction h0 hfrac
  · have hrange : ((c.intValue &&& 0x7f800000) >>> 23).toUInt64 > 0 ∧
        ((c.intValue &&& 0x7f800000) >>> 23).toUInt64 < 0xff := by
      rw [gt_iff_lt, UInt64.lt_iff_toNat_lt, UInt64.lt_iff_toNat_lt, toNat_exponent]
      change 0 < _ ∧ _ < 255
      omega
    rw [if_pos hrange]
    exact ⟨_, rfl, widens_normalValue toNat_getSign toNat_exponent toNat_fraction h0 hfin⟩

end MIRFloatConst

/-- `GetFloat128Value` of a double and of a float that are no NaNs is exact, and `GetDoubleValue`
gives the double back. -/
theorem getFloat128Value_exact {d : MIRDoubleConst} {f : MIRFloatConst}
    (hd : ¬ double.IsNan d.intValue.toNat) (hf : ¬ single.IsNan f.intValue.toNat) :
    (∃ v, d.getFloat128Value = some v ∧ Widens double d.intValue.toNat v ∧
      (MIRFloat128Const.ofWords v).getDoubleValue = d.intValue) ∧
    ∃ v, f.getFloat128Value = some v ∧ Widens single f.intValue.toNat v := by
  obtain ⟨v, hv, hwidens⟩ := MIRDoubleConst.exists_getFloat128Value hd
  exact ⟨⟨v, hv, hwidens, MIRDoubleConst.getDoubleValue_of_widens hd hwidens⟩,
    MIRFloatConst.exists_getFloat128Value hf⟩

/-- The smallest double and the smallest float. -/
theorem getFloat128Value_exact_smallest :
    (∃ v, (⟨1⟩ : MIRDoubleConst).getFloat128Value = some v ∧ Widens double 1 v ∧
      (MIRFloat128Const.ofWords v).getDoubleValue = 1) ∧
    ∃ v, (⟨1⟩ : MIRFloatConst).getFloat128Value = some v ∧ Widens single 1 v :=
  getFloat128Value_exact (d := ⟨1⟩) (f := ⟨1⟩) (by decide) (by decide)

end Maple
