import Maple.IR.FloatConst

/-!
# Quad-precision constants as doubles

`GetDoubleValue` cuts the fraction of a constant off. It compares whole patterns for the zeros and
the infinities before it looks at the exponent.
-/

namespace Maple

open MIRFloat128Const (kDoubleSignPos kDoubleExpShiftBits kDoubleExpLeftBits)

namespace MIRFloat128Const

variable {c : MIRFloat128Const}

lemma exponent_bits : quad.exponent c.bits = c.val0.toNat / 2 ^ 48 % 2 ^ 15 := by
  have hlt := c.val1.toNat_lt
  change c.bits / 2 ^ 112 % 2 ^ 15 = _
  rw [bits]
  omega

lemma fraction_bits :
    quad.fraction c.bits = c.val0.toNat % 2 ^ 48 * 2 ^ 64 + c.val1.toNat := by
  have hlt := c.val1.toNat_lt
  change c.bits % 2 ^ 112 = _
  rw [bits]
  omega

lemma sign_bits : (quad.sign c.bits).toNat = c.val0.toNat / 2 ^ 63 := by
  have hlt := c.val1.toNat_lt
  have hlt' := c.val0.toNat_lt
  change (c.bits.testBit 127).toNat = _
  rw [Nat.toNat_testBit, bits]
  omega

lemma getExponent_eq : c.getExponent = quad.exponent c.bits := by
  rw [getExponent, toNat_field 15 rfl (by decide) rfl, exponent_bits]
  rfl

lemma toNat_getSign : c.getSign.toNat = (quad.sign c.bits).toNat := by
  have hlt := c.val0.toNat_lt
  rw [getSign, toNat_field 1 rfl (by decide) rfl, sign_bits]
  change c.val0.toNat / 2 ^ 63 % 2 = _
  omega

lemma toNat_mantiss : (((c.val0 &&& 0x0000ffffffffffff) <<< UInt64.ofInt kFirstBits) |||
    (c.val1 >>> 60)).toNat = quad.fraction c.bits / 2 ^ 60 := by
  have hlt := c.val1.toNat_lt
  have hmask : (c.val0 &&& 0x0000ffffffffffff).toNat = c.val0.toNat % 2 ^ 48 :=
    toNat_and_mask 48 rfl
  have hmod := Nat.mod_lt c.val0.toNat (Nat.two_pow_pos 48)
  have hshift : ((c.val0 &&& 0x0000ffffffffffff) <<< UInt64.ofInt kFirstBits).toNat =
      c.val0.toNat % 2 ^ 48 * 2 ^ 4 := by
    have h4 : (UInt64.ofInt kFirstBits).toNat = 4 := rfl
    rw [toNat_shiftLeft_of_lt h4 (by omega) (by omega), hmask]
  have hlow : (c.val1 >>> 60).toNat = c.val1.toNat / 2 ^ 60 := by
    rw [UInt64.toNat_shiftRight, Nat.shiftRight_eq_div_pow]
    rfl
  rw [toNat_or_of_lt hshift (by omega), hlow, fraction_bits]
  omega

lemma toNat_normalDouble (hlo : 0x3fff - 0x3fe ≤ quad.exponent c.bits)
    (hhi : quad.exponent c.bits ≤ 0x3fff + 0x3ff) : c.normalDouble.toNat =
      double.pack (quad.sign c.bits) (quad.exponent c.bits + 0x3ff - 0x3fff)
        (quad.fraction c.bits / 2 ^ 60) := by
  have hfrac : quad.fraction c.bits < 2 ^ 112 := BinaryFormat.fraction_lt
  have hexp : (UInt32.ofInt (c.getExponent - 0x3fff + 0x3ff)).toUInt64.toNat =
      quad.exponent c.bits + 0x3ff - 0x3fff := by
    rw [getExponent_eq, toNat_toUInt64_ofInt (by omega) (by omega)]
    omega
  rw [normalDouble, toNat_pack 52 rfl (by decide) toNat_getSign (by rw [hexp]; omega)
    (by rw [toNat_mantiss]; omega), hexp, toNat_mantiss]
  rfl

lemma toNat_subnormalDouble (hlo : 0x3fff - 0x3fe - 52 ≤ quad.exponent c.bits)
    (hhi : quad.exponent c.bits < 0x3fff - 0x3fe) : c.subnormalDouble.toNat =
      double.pack (quad.sign c.bits) 0
        ((2 ^ 112 + quad.fraction c.bits) / 2 ^ (0x3fff - 0x3fe - quad.exponent c.bits + 60)) := by
  have hfrac : quad.fraction c.bits < 2 ^ 112 := BinaryFormat.fraction_lt
  have hone : (((c.val0 &&& 0x0000ffffffffffff) <<< UInt64.ofInt kFirstBits) |||
      (c.val1 >>> 60) ||| 0x0010000000000000).toNat =
      (2 ^ 112 + quad.fraction c.bits) / 2 ^ 60 := by
    have hleading : (0x0010000000000000 : UInt64).toNat = 1 * 2 ^ 52 := rfl
    rw [UInt64.or_comm, toNat_or_of_lt hleading (by rw [toNat_mantiss]; omega), toNat_mantiss]
    omega
  have hamount : (UInt64.ofInt (-0x3fe - (c.getExponent - 0x3fff))).toNat =
      0x3fff - 0x3fe - quad.exponent c.bits := by
    rw [getExponent_eq, toNat_ofInt (by omega) (by omega)]
    omega
  have hlt : (2 ^ 112 + quad.fraction c.bits) / 2 ^ 60 <
      2 ^ (0x3fff - 0x3fe - quad.exponent c.bits) * 2 ^ 53 := by
    have := Nat.two_pow_pos (0x3fff - 0x3fe - quad.exponent c.bits)
    omega
  rw [subnormalDouble, toNat_or_of_lt (toNat_sign toNat_getSign)]
  · rw [UInt64.toNat_shiftRight, hone, hamount, Nat.mod_eq_of_lt (by omega),
      Nat.shiftRight_eq_div_pow, Nat.div_div_eq_div_mul, ← pow_add, add_comm 60]
    change _ = ((quad.sign c.bits).toNat * 2 ^ 11 + 0) * 2 ^ 52 + _
    omega
  · rw [UInt64.toNat_shiftRight, hone, hamount, Nat.mod_eq_of_lt (by omega),
      Nat.shiftRight_eq_div_pow]
    have := Nat.div_lt_of_lt_mul hlt
    omega

/-! ### Classes -/

lemma isNan_iff : c.isNan = true ↔ quad.IsNan c.bits ∧ quad.sign c.bits = false := by
  have hlt := c.val0.toNat_lt
  have hshift : (c.val0 >>> kDoubleExpShiftBits).toNat = c.val0.toNat / 2 ^ 48 := by
    rw [UInt64.toNat_shiftRight, Nat.shiftRight_eq_div_pow]
    rfl
  have hleft : (c.val0 <<< kDoubleExpLeftBits).toNat = c.val0.toNat * 2 ^ 16 % 2 ^ 64 := by
    rw [UInt64.toNat_shiftLeft, Nat.shiftLeft_eq]
    rfl
  have hsign : quad.sign c.bits = false ↔ c.val0.toNat / 2 ^ 63 = 0 := by
    rw [← sign_bits]
    cases quad.sign c.bits <;> simp
  rw [hsign, BinaryFormat.IsNan, exponent_bits, fraction_bits]
  simp only [isNan, Bool.and_eq_true, Bool.or_eq_true, beq_iff_eq, bne_iff_ne, ne_eq,
    ← UInt64.toNat_inj, hshift, hleft]
  change c.val0.toNat / 2 ^ 48 = 32767 ∧ (¬ _ = 0 ∨ ¬ _ = 0) ↔ (_ = 32767 ∧ _) ∧ _
  omega

lemma isInf_iff : c.isInf = true ↔ quad.IsInf c.bits := by
  have hlt := c.val0.toNat_lt
  rw [BinaryFormat.IsInf, exponent_bits, fraction_bits]
  simp only [isInf, Bool.and_eq_true, Bool.or_eq_true, beq_iff_eq, ← UInt64.toNat_inj]
  change (c.val0.toNat = 0x7fff000000000000 ∧ _ = 0) ∨
    (c.val0.toNat = 0xffff000000000000 ∧ _ = 0) ↔ _ = 32767 ∧ _
  omega

lemma isZero_iff : c.isZero = true ↔ quad.exponent c.bits = 0 ∧ quad.fraction c.bits = 0 := by
  have hlt := c.val0.toNat_lt
  rw [exponent_bits, fraction_bits]
  simp only [isZero, Bool.and_eq_true, Bool.or_eq_true, beq_iff_eq, ← UInt64.toNat_inj]
  change (c.val0.toNat = 0 ∧ _ = 0) ∨ (c.val0.toNat = 0x8000000000000000 ∧ _ = 0) ↔ _
  omega

lemma getSign_ne_zero_iff : c.getSign ≠ 0 ↔ quad.sign c.bits = true := by
  rw [ne_eq, ← UInt64.toNat_inj, toNat_getSign]
  cases quad.sign c.bits <;> simp

lemma getDoubleValue_eq : c.getDoubleValue =
    if c.isZero then (if quad.sign c.bits then 0x8000000000000000 else 0)
    else if c.isInf then (if quad.sign c.bits then 0xfff0000000000000 else 0x7ff0000000000000)
    else if c.isNan then 0x7ff8000000000000
    else if quad.exponent c.bits > 0x3fff + 0x3ff then
      (if quad.sign c.bits then 0xfff0000000000000 else 0x7ff0000000000000)
    else if quad.exponent c.bits < 0x3fff - 0x3fe - 52 then 0
    else if quad.exponent c.bits ≥ 0x3fff - 0x3fe then c.normalDouble
    else c.subnormalDouble := by
  obtain ⟨v0, v1⟩ := c
  by_cases hzero : isZero ⟨v0, v1⟩ = true
  · have hcases := hzero
    simp only [isZero, Bool.or_eq_true, Bool.and_eq_true, beq_iff_eq] at hcases
    rw [if_pos hzero]
    rcases hcases with ⟨rfl, rfl⟩ | ⟨rfl, rfl⟩
    · decide
    · decide
  by_cases hinf : isInf ⟨v0, v1⟩ = true
  · have hcases := hinf
    simp only [isInf, Bool.or_eq_true, Bool.and_eq_true, beq_iff_eq] at hcases
    rw [if_neg hzero, if_pos hinf]
    rcases hcases with ⟨rfl, rfl⟩ | ⟨rfl, rfl⟩
    · decide
    · decide
  rw [if_neg hzero, if_neg hinf]
  simp only [isZero, isInf, Bool.or_eq_true, Bool.and_eq_true, beq_iff_eq, not_or, not_and] at hzero hinf
  have hsign : getSign ⟨v0, v1⟩ ≠ 0 ↔ quad.sign (bits ⟨v0, v1⟩) = true := getSign_ne_zero_iff
  have hexp := getExponent_eq (c := ⟨v0, v1⟩)
  simp only [getDoubleValue, Bool.and_eq_true, beq_iff_eq]
  rw [if_neg fun h => hzero.2 h.2 h.1, if_neg fun h => hzero.1 h.2 h.1,
    if_neg fun h => hinf.1 h.2 h.1, if_neg fun h => hinf.2 h.2 h.1]
  have hnan : (v0 >>> kDoubleExpShiftBits = 0x7fff ∧
      ((v0 <<< kDoubleExpLeftBits != 0 || v1 != 0) = true)) ↔ isNan ⟨v0, v1⟩ = true := by
    simp only [isNan, Bool.and_eq_true, beq_iff_eq]
  have hbig : (quad.exponent (bits ⟨v0, v1⟩) : Int) - 0x3fff > 0x3ff ↔
      quad.exponent (bits ⟨v0, v1⟩) > 0x3fff + 0x3ff := by omega
  have hsmall : (quad.exponent (bits ⟨v0, v1⟩) : Int) - 0x3fff < -0x3fe - 52 ↔
      quad.exponent (bits ⟨v0, v1⟩) < 0x3fff - 0x3fe - 52 := by omega
  have hnormal : (quad.exponent (bits ⟨v0, v1⟩) : Int) - 0x3fff ≥ -0x3fe ↔
      quad.exponent (bits ⟨v0, v1⟩) ≥ 0x3fff - 0x3fe := by omega
  simp only [hnan, hsign, hexp, hbig, hsmall, hnormal]

/-! ### Narrowing -/

/-- The double of the word has the class and the sign of the constant, and its magnitude cut off. -/
structure Narrows (c : MIRFloat128Const) (d : UInt64) : Prop where
  isNan : double.IsNan d.toNat ↔ quad.IsNan c.bits
  isInf : double.IsInf d.toNat ↔
    quad.IsInf c.bits ∨ quad.IsFinite c.bits ∧ 2 ^ (1024 : ℤ) ≤ quad.magnitude c.bits
  sign : ¬ quad.IsNan c.bits → double.sign d.toNat = quad.sign c.bits
  truncates : ¬ quad.IsNan c.bits → ¬ double.IsInf d.toNat →
    double.Truncates d.toNat (quad.magnitude c.bits)

/-- `IsNan`, `IsInf` and `IsZero` hold of the right patterns. -/
structure Classified (c : MIRFloat128Const) : Prop where
  isNan : c.isNan = true ↔ quad.IsNan c.bits
  isInf : c.isInf = true ↔ quad.IsInf c.bits
  isZero : c.isZero = true ↔ quad.IsFinite c.bits ∧ quad.magnitude c.bits = 0

/-- The constant is negative, and a NaN or a number below the smallest double. -/
def NegativeNanOrTiny (c : MIRFloat128Const) : Prop :=
  quad.sign c.bits = true ∧ (quad.IsNan c.bits ∨
    quad.IsFinite c.bits ∧ quad.magnitude c.bits ≠ 0 ∧ quad.magnitude c.bits < 2 ^ (-1074 : ℤ))

lemma isFinite_of_isZero (h : c.isZero = true) : quad.IsFinite c.bits := by
  rw [BinaryFormat.IsFinite, (isZero_iff.mp h).1]
  decide

lemma classified_iff : Classified c ↔ (quad.IsNan c.bits → quad.sign c.bits = false) := by
  constructor
  · intro h hnan
    exact (isNan_iff.mp (h.isNan.mpr hnan)).2
  · intro h
    refine ⟨?_, isInf_iff, ?_⟩
    · rw [isNan_iff]
      exact ⟨fun hnan => hnan.1, fun hnan => ⟨hnan, h hnan⟩⟩
    · rw [BinaryFormat.magnitude_eq_zero, ← isZero_iff]
      exact ⟨fun hzero => ⟨isFinite_of_isZero hzero, hzero⟩, fun hzero => hzero.2⟩

/-! #### Magnitudes by exponents -/

lemma scale_eq (h : quad.exponent c.bits ≠ 0) :
    quad.scale c.bits = quad.exponent c.bits - 0x3fff - 112 := by
  rw [BinaryFormat.scale, max_eq_right (Nat.one_le_iff_ne_zero.mpr h)]
  rfl

lemma two_zpow_le_magnitude_iff {e : ℕ} {z : ℤ} (he : 1 < e) (hz : z = e - 0x3fff) :
    (2 : ℚ) ^ z ≤ quad.magnitude c.bits ↔ e ≤ quad.exponent c.bits := by
  rw [hz]
  constructor
  · intro h
    by_contra hlt
    have hmag := BinaryFormat.magnitude_lt (F := quad) (n := c.bits)
    have hscale : quad.scale c.bits + quad.fracBits + 1 ≤ e - 0x3fff := by
      rw [BinaryFormat.scale]
      change ((max 1 (quad.exponent c.bits) : ℕ) : ℤ) - (0x3fff : ℕ) - (112 : ℕ) + (112 : ℕ) + 1 ≤ _
      omega
    exact absurd (h.trans_lt hmag) (not_lt.mpr (zpow_le_zpow_right₀ one_le_two hscale))
  · intro h
    have hne : quad.exponent c.bits ≠ 0 := by omega
    refine le_trans ?_ (BinaryFormat.le_magnitude hne)
    apply zpow_le_zpow_right₀ one_le_two
    rw [scale_eq hne]
    change _ ≤ (quad.exponent c.bits : ℤ) - 0x3fff - 112 + (112 : ℕ)
    omega

lemma isNan_or_isInf_or_isFinite :
    quad.IsNan c.bits ∨ quad.IsInf c.bits ∨ quad.IsFinite c.bits := by
  rw [BinaryFormat.IsNan, BinaryFormat.IsInf, BinaryFormat.IsFinite]
  tauto

lemma isFinite_iff : quad.IsFinite c.bits ↔ quad.exponent c.bits ≠ 0x7fff := Iff.rfl

/-! #### The results of the branches -/

section Double

variable {s : Bool} {e f : ℕ}

lemma isFinite_pack (he : e < 2 ^ 11 - 1) (hf : f < 2 ^ 52) :
    double.IsFinite (double.pack s e f) := by
  rw [BinaryFormat.IsFinite, BinaryFormat.exponent_pack (lt_of_lt_of_le he (Nat.sub_le _ _)) hf]
  exact he.ne

lemma not_isNan_of_isFinite {F : BinaryFormat} {n : ℕ} (h : F.IsFinite n) : ¬ F.IsNan n :=
  fun hnan => h hnan.1

lemma not_isInf_of_isFinite {F : BinaryFormat} {n : ℕ} (h : F.IsFinite n) : ¬ F.IsInf n :=
  fun hinf => h hinf.1

lemma narrows_of_truncates {d : UInt64} (hfin : quad.IsFinite c.bits)
    (hlt : quad.exponent c.bits ≤ 0x3fff + 0x3ff) (hsign : double.sign d.toNat = quad.sign c.bits)
    (htrunc : double.Truncates d.toNat (quad.magnitude c.bits)) : Narrows c d where
  isNan := iff_of_false (not_isNan_of_isFinite htrunc.1) (not_isNan_of_isFinite hfin)
  isInf := by
    refine iff_of_false (not_isInf_of_isFinite htrunc.1) ?_
    rintro (hinf | ⟨-, hle⟩)
    · exact not_isInf_of_isFinite hfin hinf
    · have hexp := (two_zpow_le_magnitude_iff (e := 0x3fff + 1024) (by decide) (by norm_num)).mp hle
      omega
  sign _ := hsign
  truncates _ _ := htrunc

lemma narrows_normalDouble (hlo : 0x3fff - 0x3fe ≤ quad.exponent c.bits)
    (hhi : quad.exponent c.bits ≤ 0x3fff + 0x3ff) : Narrows c c.normalDouble := by
  have hfrac : quad.fraction c.bits < 2 ^ 112 := BinaryFormat.fraction_lt
  have hexp : quad.exponent c.bits + 0x3ff - 0x3fff < 2 ^ 11 - 1 := by omega
  have hexp' : quad.exponent c.bits + 0x3ff - 0x3fff < 2 ^ double.expBits := by
    change _ < 2 ^ 11
    omega
  have hcut : quad.fraction c.bits / 2 ^ 60 < 2 ^ double.fracBits := by
    change _ < 2 ^ 52
    omega
  have hne : quad.exponent c.bits ≠ 0 := by omega
  apply narrows_of_truncates (by rw [isFinite_iff]; omega) hhi
  · rw [toNat_normalDouble hlo hhi, BinaryFormat.sign_pack hexp' hcut]
  · rw [toNat_normalDouble hlo hhi]
    apply BinaryFormat.truncates_of_significand_eq (k := 60) (isFinite_pack hexp hcut)
    · rw [BinaryFormat.significand, BinaryFormat.exponent_pack hexp' hcut,
        BinaryFormat.fraction_pack hcut, if_neg (by omega), BinaryFormat.significand, if_neg hne]
      change 2 ^ 52 + _ = (2 ^ 112 + _) / 2 ^ 60
      omega
    · rw [BinaryFormat.scale, BinaryFormat.exponent_pack hexp' hcut, scale_eq hne,
        max_eq_right (by omega)]
      change ((_ : ℕ) : ℤ) - (0x3ff : ℕ) - (52 : ℕ) = _
      omega

lemma narrows_subnormalDouble (hlo : 0x3fff - 0x3fe - 52 ≤ quad.exponent c.bits)
    (hhi : quad.exponent c.bits < 0x3fff - 0x3fe) : Narrows c c.subnormalDouble := by
  have hfrac : quad.fraction c.bits < 2 ^ 112 := BinaryFormat.fraction_lt
  have hne : quad.exponent c.bits ≠ 0 := by omega
  have hcut : (2 ^ 112 + quad.fraction c.bits) /
      2 ^ (0x3fff - 0x3fe - quad.exponent c.bits + 60) < 2 ^ double.fracBits := by
    have hpow : (2 : ℕ) ^ 113 ≤ 2 ^ 52 * 2 ^ (0x3fff - 0x3fe - quad.exponent c.bits + 60) := by
      rw [← pow_add]
      exact Nat.pow_le_pow_right two_pos (by omega)
    apply Nat.div_lt_of_lt_mul
    rw [mul_comm]
    change _ < 2 ^ 52 * _
    omega
  have hexp : 0 < 2 ^ double.expBits := Nat.two_pow_pos _
  apply narrows_of_truncates (by rw [isFinite_iff]; omega) (by omega)
  · rw [toNat_subnormalDouble hlo hhi, BinaryFormat.sign_pack hexp hcut]
  · rw [toNat_subnormalDouble hlo hhi]
    apply BinaryFormat.truncates_of_significand_eq (isFinite_pack (by decide) hcut)
    · rw [BinaryFormat.significand, BinaryFormat.exponent_pack hexp hcut,
        BinaryFormat.fraction_pack hcut, if_pos rfl, BinaryFormat.significand, if_neg hne]
      rfl
    · rw [BinaryFormat.scale, BinaryFormat.exponent_pack hexp hcut, scale_eq hne]
      change ((1 : ℕ) : ℤ) - (0x3ff : ℕ) - (52 : ℕ) = _
      omega

end Double

lemma narrows_inf (hnan : ¬ quad.IsNan c.bits) (hinf : quad.IsInf c.bits ∨
    quad.IsFinite c.bits ∧ 2 ^ (1024 : ℤ) ≤ quad.magnitude c.bits) :
    Narrows c (if quad.sign c.bits then 0xfff0000000000000 else 0x7ff0000000000000) := by
  cases hsign : quad.sign c.bits with
  | false =>
    have hpos : double.sign (0x7ff0000000000000 : UInt64).toNat = false := by decide
    exact ⟨iff_of_false (by decide) hnan, iff_of_true (by decide) hinf,
      fun _ => hpos.trans hsign.symm, fun _ h => absurd (by decide) h⟩
  | true =>
    have hneg : double.sign (0xfff0000000000000 : UInt64).toNat = true := by decide
    exact ⟨iff_of_false (by decide) hnan, iff_of_true (by decide) hinf,
      fun _ => hneg.trans hsign.symm, fun _ h => absurd (by decide) h⟩

lemma narrows_zero {d : UInt64} (hd : d = 0 ∨ d = 0x8000000000000000)
    (hsign : double.sign d.toNat = quad.sign c.bits)
    (hexp : quad.exponent c.bits < 0x3fff - 0x3fe - 52) : Narrows c d := by
  have hfin : double.IsFinite d.toNat := by
    rcases hd with rfl | rfl
    · decide
    · decide
  have hmag : double.magnitude d.toNat = 0 := by
    rw [BinaryFormat.magnitude_eq_zero]
    rcases hd with rfl | rfl
    · decide
    · decide
  have hscale : double.scale d.toNat = -1074 := by
    rcases hd with rfl | rfl
    · decide
    · decide
  apply narrows_of_truncates (by rw [isFinite_iff]; omega) (by omega) hsign
  apply BinaryFormat.truncates_of_lt hfin
  · rw [hmag]
    exact BinaryFormat.magnitude_nonneg
  · rw [hmag, hscale, zero_add, ← not_le]
    intro hle
    have := (two_zpow_le_magnitude_iff (e := 0x3fff - 1074) (by decide) (by norm_num)).mp hle
    omega

lemma narrows_nan (hnan : quad.IsNan c.bits) : Narrows c 0x7ff8000000000000 where
  isNan := iff_of_true (by decide) hnan
  isInf := by
    refine iff_of_false (by decide) ?_
    rintro (hinf | ⟨hfin, -⟩)
    · exact hnan.2 hinf.2
    · exact hfin hnan.1
  sign h := absurd hnan h
  truncates h := absurd hnan h

lemma narrows_getDoubleValue (h : ¬ NegativeNanOrTiny c) : Narrows c c.getDoubleValue := by
  have hmax := (isNan_iff (c := c)).not
  rw [getDoubleValue_eq]
  by_cases hzero : c.isZero = true
  · have hexp := (isZero_iff.mp hzero).1
    rw [if_pos hzero]
    cases hsign : quad.sign c.bits with
    | false => exact narrows_zero (Or.inl rfl) hsign.symm (by omega)
    | true => exact narrows_zero (Or.inr rfl) hsign.symm (by omega)
  by_cases hinf : c.isInf = true
  · rw [if_neg hzero, if_pos hinf]
    have hinf := isInf_iff.mp hinf
    exact narrows_inf (fun hnan => hnan.2 hinf.2) (Or.inl hinf)
  by_cases hnan : c.isNan = true
  · rw [if_neg hzero, if_neg hinf, if_pos hnan]
    exact narrows_nan (isNan_iff.mp hnan).1
  rw [if_neg hzero, if_neg hinf, if_neg hnan]
  have hfin : quad.IsFinite c.bits := by
    rcases isNan_or_isInf_or_isFinite (c := c) with hnan' | hinf' | hfin
    · rw [isNan_iff, not_and] at hnan
      exact absurd ⟨by simpa using hnan hnan', Or.inl hnan'⟩ h
    · exact absurd (isInf_iff.mpr hinf') hinf
    · exact hfin
  split_ifs with hbig hsign hsmall hnormal
  · have hle := (two_zpow_le_magnitude_iff (e := 0x3fff + 1024) (z := 1024) (by decide)
      (by norm_num)).mpr hbig
    have := narrows_inf (not_isNan_of_isFinite hfin) (Or.inr ⟨hfin, hle⟩)
    rwa [if_pos hsign] at this
  · have hle := (two_zpow_le_magnitude_iff (e := 0x3fff + 1024) (z := 1024) (by decide)
      (by norm_num)).mpr hbig
    have := narrows_inf (not_isNan_of_isFinite hfin) (Or.inr ⟨hfin, hle⟩)
    rwa [if_neg hsign] at this
  · refine narrows_zero (Or.inl rfl) ?_ hsmall
    cases hsign : quad.sign c.bits with
    | false => rfl
    | true =>
      refine absurd ⟨hsign, Or.inr ⟨hfin, ?_, ?_⟩⟩ h
      · rwa [ne_eq, BinaryFormat.magnitude_eq_zero, ← isZero_iff]
      · rw [← not_le, two_zpow_le_magnitude_iff (e := 0x3fff - 1074) (by decide) (by norm_num)]
        omega
  · exact narrows_normalDouble hnormal (by omega)
  · exact narrows_subnormalDouble (by omega) (by omega)

lemma not_narrows_of_negativeNan (hsign : quad.sign c.bits = true) (hnan : quad.IsNan c.bits) :
    ¬ Narrows c c.getDoubleValue := by
  intro h
  have hexp : quad.exponent c.bits = 0x7fff := hnan.1
  have hzero : ¬ c.isZero = true := fun hzero => by
    have := (isZero_iff.mp hzero).1
    omega
  have hinf : ¬ c.isInf = true := fun hinf => hnan.2 (isInf_iff.mp hinf).2
  have hisNan : ¬ c.isNan = true := fun hisNan => by
    have := (isNan_iff.mp hisNan).2
    simp [hsign] at this
  have hval : c.getDoubleValue = 0xfff0000000000000 := by
    rw [getDoubleValue_eq, if_neg hzero, if_neg hinf, if_neg hisNan, if_pos (by omega),
      if_pos hsign]
  have hd := h.isNan.mpr hnan
  rw [hval] at hd
  revert hd
  decide

lemma not_narrows_of_tiny (hsign : quad.sign c.bits = true) (hpos : quad.magnitude c.bits ≠ 0)
    (htiny : quad.magnitude c.bits < 2 ^ (-1074 : ℤ)) : ¬ Narrows c c.getDoubleValue := by
  intro h
  rw [← not_le, two_zpow_le_magnitude_iff (e := 0x3fff - 1074) (by decide) (by norm_num)] at htiny
  have hnan : ¬ quad.IsNan c.bits := fun hnan => by
    have hexp : quad.exponent c.bits = 0x7fff := hnan.1
    omega
  have hzero : ¬ c.isZero = true := by rwa [isZero_iff, ← BinaryFormat.magnitude_eq_zero]
  have hinf : ¬ c.isInf = true := fun hinf => by
    have hexp : quad.exponent c.bits = 0x7fff := (isInf_iff.mp hinf).1
    omega
  have hval : c.getDoubleValue = 0 := by
    rw [getDoubleValue_eq, if_neg hzero, if_neg hinf, if_neg fun h => hnan (isNan_iff.mp h).1,
      if_neg (by omega), if_pos (by omega)]
  have hd := h.sign hnan
  rw [hval, hsign] at hd
  revert hd
  decide

/-- `GetDoubleValue` narrows and the classes are right for all patterns but the negative NaNs and
the negative numbers below the smallest double. -/
theorem narrows_and_classified_iff (c : MIRFloat128Const) :
    Narrows c c.getDoubleValue ∧ Classified c ↔ ¬ NegativeNanOrTiny c := by
  constructor
  · rintro ⟨hnarrow, -⟩ ⟨hsign, hnan | ⟨-, hpos, htiny⟩⟩
    · exact not_narrows_of_negativeNan hsign hnan hnarrow
    · exact not_narrows_of_tiny hsign hpos htiny hnarrow
  · intro h
    refine ⟨narrows_getDoubleValue h, classified_iff.mpr ?_⟩
    intro hnan
    by_contra hsign
    exact h ⟨by simpa using hsign, Or.inl hnan⟩

/-- The NaN `0xffff8…` and the number `-2 ^ (-16382)`. -/
theorem not_narrows_negative :
    ¬ (Narrows ⟨0xffff800000000000, 0⟩ (getDoubleValue ⟨0xffff800000000000, 0⟩) ∧
      Classified ⟨0xffff800000000000, 0⟩) ∧
    ¬ (Narrows ⟨0x8001000000000000, 0⟩ (getDoubleValue ⟨0x8001000000000000, 0⟩) ∧
      Classified ⟨0x8001000000000000, 0⟩) := by
  constructor
  · intro h
    exact not_narrows_of_negativeNan (by decide) (by decide) h.1
  · intro h
    refine not_narrows_of_tiny (by decide) ?_ ?_ h.1
    · rw [ne_eq, BinaryFormat.magnitude_eq_zero]
      decide
    · rw [← not_le, two_zpow_le_magnitude_iff (e := 0x3fff - 1074) (by decide) (by norm_num)]
      decide

end MIRFloat128Const

end Maple
