import Mathlib.Algebra.Order.Field.Power
import Mathlib.Data.Nat.Bitwise
import Mathlib.Data.Rat.Cast.Order
import Mathlib.Tactic.GCongr
import Mathlib.Tactic.Ring

/-!
# Binary floating point formats

A pattern has a sign, an exponent and a fraction. It stands for a number, for an infinity or for no
number.
-/

/-- The widths of the exponent and of the fraction. -/
structure BinaryFormat where
  expBits : ℕ
  fracBits : ℕ

namespace BinaryFormat

/-- What a pattern stands for. Zeros have a sign, too. -/
inductive Datum where
  | nan
  | inf (sign : Bool)
  | finite (sign : Bool) (magnitude : ℚ)

/-- The comparison `==` of numbers: zeros are equal, and what is no number equals nothing. -/
def Datum.beq : Datum → Datum → Bool
  | .finite s x, .finite s' x' => decide (x = x' ∧ (s = s' ∨ x = 0))
  | .inf s, .inf s' => s == s'
  | _, _ => false

/-- The quotient by `2 ^ k`, rounded to the nearest number and between two to the even one. -/
def roundEven (m k : ℕ) : ℕ :=
  let q := m / 2 ^ k
  let r := m % 2 ^ k
  if 2 ^ k < 2 * r ∨ 2 * r = 2 ^ k ∧ q % 2 = 1 then q + 1 else q

variable (F : BinaryFormat) (n m : ℕ)

def bias : ℕ := 2 ^ (F.expBits - 1) - 1

def maxExponent : ℕ := 2 ^ F.expBits - 1

def sign : Bool := n.testBit (F.expBits + F.fracBits)

def exponent : ℕ := n / 2 ^ F.fracBits % 2 ^ F.expBits

def fraction : ℕ := n % 2 ^ F.fracBits

/-- The leading one is not stored, except for the smallest numbers. -/
def significand : ℕ :=
  if F.exponent n = 0 then F.fraction n else 2 ^ F.fracBits + F.fraction n

/-- The weight of the last bit of the significand. -/
def scale : ℤ := (max 1 (F.exponent n) : ℕ) - F.bias - F.fracBits

def magnitude : ℚ := F.significand n * 2 ^ F.scale n

def IsFinite : Prop := F.exponent n ≠ F.maxExponent

def IsInf : Prop := F.exponent n = F.maxExponent ∧ F.fraction n = 0

def IsNan : Prop := F.exponent n = F.maxExponent ∧ F.fraction n ≠ 0

instance : Decidable (F.IsFinite n) := inferInstanceAs (Decidable (_ ≠ _))

instance : Decidable (F.IsInf n) := inferInstanceAs (Decidable (_ ∧ _))

instance : Decidable (F.IsNan n) := inferInstanceAs (Decidable (_ ∧ _))

def datum : Datum :=
  if F.IsNan n then .nan
  else if F.IsInf n then .inf (F.sign n)
  else .finite (F.sign n) (F.magnitude n)

/-- The pattern with these fields. -/
def pack (sign : Bool) (exponent fraction : ℕ) : ℕ :=
  (sign.toNat * 2 ^ F.expBits + exponent) * 2 ^ F.fracBits + fraction

/-- The pattern of the number one. -/
def one : ℕ := F.pack false F.bias 0

/-- The significand of a number that is not zero, with its leading one. -/
def intSignificand (m : ℕ) : ℕ :=
  if m.log2 ≤ F.fracBits then m * 2 ^ (F.fracBits - m.log2) else roundEven m (m.log2 - F.fracBits)

/-- The pattern of the number nearest to an integer. A significand that is rounded up to the next
power of two carries into the exponent. -/
def ofInt (v : ℤ) : ℕ :=
  if v = 0 then 0
  else if F.maxExponent ≤ v.natAbs.log2 + F.bias then F.pack (decide (v < 0)) F.maxExponent 0
  else
    F.pack (decide (v < 0)) (v.natAbs.log2 + F.bias) 0 + (F.intSignificand v.natAbs - 2 ^ F.fracBits)

/-- The pattern has the greatest magnitude of the format up to `x`. -/
def Truncates (x : ℚ) : Prop :=
  F.IsFinite n ∧ F.magnitude n ≤ x ∧ ∀ m, F.IsFinite m → F.magnitude m ≤ x →
    F.magnitude m ≤ F.magnitude n

variable {F n m}

/-! ### Fields -/

section Pack

variable {s : Bool} {e f : ℕ}

@[simp] lemma fraction_pack (hf : f < 2 ^ F.fracBits) : F.fraction (F.pack s e f) = f := by
  rw [fraction, pack, mul_comm, Nat.mul_add_mod, Nat.mod_eq_of_lt hf]

lemma pack_div (hf : f < 2 ^ F.fracBits) :
    F.pack s e f / 2 ^ F.fracBits = s.toNat * 2 ^ F.expBits + e := by
  rw [pack, mul_comm, Nat.mul_add_div (Nat.two_pow_pos _), Nat.div_eq_of_lt hf, Nat.add_zero]

@[simp] lemma exponent_pack (he : e < 2 ^ F.expBits) (hf : f < 2 ^ F.fracBits) :
    F.exponent (F.pack s e f) = e := by
  rw [exponent, pack_div hf, mul_comm, Nat.mul_add_mod, Nat.mod_eq_of_lt he]

@[simp] lemma sign_pack (he : e < 2 ^ F.expBits) (hf : f < 2 ^ F.fracBits) :
    F.sign (F.pack s e f) = s := by
  rw [sign, Nat.testBit_eq_decide_div_mod_eq, pow_add, mul_comm, ← Nat.div_div_eq_div_mul,
    pack_div hf, mul_comm, Nat.mul_add_div (Nat.two_pow_pos _), Nat.div_eq_of_lt he]
  cases s <;> rfl

lemma pack_fields (hn : n < 2 ^ (F.expBits + F.fracBits + 1)) :
    F.pack (F.sign n) (F.exponent n) (F.fraction n) = n := by
  have hsign : (F.sign n).toNat = n / 2 ^ F.fracBits / 2 ^ F.expBits := by
    have hlt : n / 2 ^ F.fracBits / 2 ^ F.expBits < 2 := by
      rw [Nat.div_div_eq_div_mul, ← pow_add, Nat.div_lt_iff_lt_mul (Nat.two_pow_pos _),
        ← pow_succ', add_comm F.fracBits]
      exact hn
    rw [sign, Nat.toNat_testBit, add_comm, pow_add, ← Nat.div_div_eq_div_mul, Nat.mod_eq_of_lt hlt]
  rw [pack, hsign, exponent, fraction, mul_comm (_ / _), Nat.div_add_mod, mul_comm,
    Nat.div_add_mod]

end Pack

lemma exponent_lt : F.exponent n < 2 ^ F.expBits := Nat.mod_lt _ (Nat.two_pow_pos _)

lemma fraction_lt : F.fraction n < 2 ^ F.fracBits := Nat.mod_lt _ (Nat.two_pow_pos _)

lemma significand_lt : F.significand n < 2 ^ (F.fracBits + 1) := by
  have hlt := fraction_lt (F := F) (n := n)
  rw [significand, pow_succ]
  split_ifs <;> omega

/-! ### Magnitudes -/

lemma two_zpow_pos (z : ℤ) : (0 : ℚ) < 2 ^ z := zpow_pos two_pos z

lemma magnitude_nonneg : 0 ≤ F.magnitude n := mul_nonneg (Nat.cast_nonneg _) (two_zpow_pos _).le

lemma magnitude_lt : F.magnitude n < 2 ^ (F.scale n + F.fracBits + 1) := by
  have hsig : (F.significand n : ℚ) < 2 ^ (F.fracBits + 1) := by exact_mod_cast significand_lt
  have hpow : (2 : ℚ) ^ (F.scale n + F.fracBits + 1) = 2 ^ (F.fracBits + 1) * 2 ^ F.scale n := by
    rw [add_assoc, zpow_add₀ two_ne_zero, mul_comm]
    exact_mod_cast rfl
  rw [hpow]
  exact mul_lt_mul_of_pos_right hsig (two_zpow_pos _)

lemma le_magnitude (h : F.exponent n ≠ 0) : 2 ^ (F.scale n + F.fracBits) ≤ F.magnitude n := by
  have hsig : (2 : ℚ) ^ F.fracBits ≤ F.significand n := by
    rw [significand, if_neg h]
    exact_mod_cast Nat.le_add_right _ _
  rw [zpow_add₀ two_ne_zero, zpow_natCast, mul_comm]
  exact mul_le_mul_of_nonneg_right hsig (two_zpow_pos _).le

lemma magnitude_eq_zero : F.magnitude n = 0 ↔ F.exponent n = 0 ∧ F.fraction n = 0 := by
  have hpos := Nat.two_pow_pos F.fracBits
  rw [magnitude, mul_eq_zero, or_iff_left (two_zpow_pos _).ne', Nat.cast_eq_zero, significand]
  split_ifs <;> omega

lemma magnitude_lt_of_scale_lt (h : F.scale m < F.scale n) : F.magnitude m < F.magnitude n := by
  have hexp : F.exponent n ≠ 0 := by
    intro hzero
    rw [scale, scale, hzero] at h
    omega
  calc F.magnitude m < 2 ^ (F.scale m + F.fracBits + 1) := magnitude_lt
    _ ≤ 2 ^ (F.scale n + F.fracBits) := by
        apply zpow_le_zpow_right₀ one_le_two
        omega
    _ ≤ F.magnitude n := le_magnitude hexp

lemma add_le_magnitude (h : F.magnitude n < F.magnitude m) :
    F.magnitude n + 2 ^ F.scale n ≤ F.magnitude m := by
  have hscale : F.scale n ≤ F.scale m := by
    by_contra hlt
    exact absurd (magnitude_lt_of_scale_lt (not_le.mp hlt)) (not_lt.mpr h.le)
  obtain ⟨k, hk⟩ := Int.le.dest hscale
  have hm : F.magnitude m = (F.significand m * 2 ^ k : ℕ) * 2 ^ F.scale n := by
    rw [magnitude, ← hk, zpow_add₀ two_ne_zero, zpow_natCast]
    push_cast
    ring
  rw [hm] at h ⊢
  have hlt : F.significand n < F.significand m * 2 ^ k := by
    have := lt_of_mul_lt_mul_right h (two_zpow_pos _).le
    exact_mod_cast this
  calc F.magnitude n + 2 ^ F.scale n = ((F.significand n + 1 : ℕ) : ℚ) * 2 ^ F.scale n := by
        rw [magnitude]
        push_cast
        ring
    _ ≤ (F.significand m * 2 ^ k : ℕ) * 2 ^ F.scale n := by
        gcongr
        omega

lemma eq_of_magnitude_eq (hn : n < 2 ^ (F.expBits + F.fracBits + 1))
    (hm : m < 2 ^ (F.expBits + F.fracBits + 1)) (hsign : F.sign n = F.sign m)
    (h : F.magnitude n = F.magnitude m) : n = m := by
  have hscale : F.scale n = F.scale m := by
    rcases lt_trichotomy (F.scale n) (F.scale m) with hlt | heq | hgt
    · exact absurd h (magnitude_lt_of_scale_lt hlt).ne
    · exact heq
    · exact absurd h (magnitude_lt_of_scale_lt hgt).ne'
  have hsig : F.significand n = F.significand m := by
    rw [magnitude, magnitude, hscale] at h
    have := mul_right_cancel₀ (two_zpow_pos _).ne' h
    exact_mod_cast this
  have hfrac := fraction_lt (F := F) (n := n)
  have hfrac' := fraction_lt (F := F) (n := m)
  have hfields : F.exponent n = F.exponent m ∧ F.fraction n = F.fraction m := by
    rw [scale, scale] at hscale
    rw [significand, significand] at hsig
    split_ifs at hsig with h0 h0' h0'
    all_goals omega
  rw [← pack_fields hn, ← pack_fields hm, hsign, hfields.1, hfields.2]

lemma truncates_of_lt {x : ℚ} (hfin : F.IsFinite n) (hle : F.magnitude n ≤ x)
    (hlt : x < F.magnitude n + 2 ^ F.scale n) : F.Truncates n x := by
  refine ⟨hfin, hle, ?_⟩
  intro m hm hmx
  by_contra hgt
  exact absurd (add_le_magnitude (not_le.mp hgt)) (not_le.mpr (hmx.trans_lt hlt))

lemma magnitude_eq_of_significand_eq {G : BinaryFormat} {k : ℕ}
    (hsig : G.significand m = F.significand n * 2 ^ k) (hscale : F.scale n = G.scale m + k) :
    G.magnitude m = F.magnitude n := by
  rw [magnitude, magnitude, hsig, hscale, zpow_add₀ two_ne_zero, zpow_natCast]
  push_cast
  ring

lemma two_zpow_scale_le_magnitude (h : F.magnitude n ≠ 0) : 2 ^ F.scale n ≤ F.magnitude n := by
  have hsig : 1 ≤ F.significand n := by
    rw [Nat.one_le_iff_ne_zero]
    intro hzero
    rw [magnitude, hzero, Nat.cast_zero, zero_mul] at h
    exact h rfl
  exact le_mul_of_one_le_left (two_zpow_pos _).le (by exact_mod_cast hsig)

lemma truncates_of_significand_eq {s k : ℕ} {z : ℤ} (hfin : F.IsFinite n)
    (hsig : F.significand n = s / 2 ^ k) (hscale : F.scale n = z + k) :
    F.Truncates n (s * 2 ^ z) := by
  have hz : (2 : ℚ) ^ F.scale n = 2 ^ k * 2 ^ z := by
    rw [hscale, zpow_add₀ two_ne_zero, zpow_natCast, mul_comm]
  have hmag : F.magnitude n = ((s / 2 ^ k * 2 ^ k : ℕ) : ℚ) * 2 ^ z := by
    rw [magnitude, hsig, hz]
    push_cast
    ring
  apply truncates_of_lt hfin
  · rw [hmag]
    gcongr
    exact Nat.div_mul_le_self s _
  · have hlt : s < s / 2 ^ k * 2 ^ k + 2 ^ k := Nat.lt_div_mul_add (Nat.two_pow_pos k)
    rw [hmag, hz, ← add_mul]
    gcongr
    exact_mod_cast hlt

lemma IsFinite.datum_eq (h : F.IsFinite n) : F.datum n = .finite (F.sign n) (F.magnitude n) := by
  rw [datum, if_neg fun hnan => h hnan.1, if_neg fun hinf => h hinf.1]

lemma IsInf.datum_eq (h : F.IsInf n) : F.datum n = .inf (F.sign n) := by
  rw [datum, if_neg fun hnan => hnan.2 h.2, if_pos h]

lemma isFinite_of_datum_eq {s : Bool} {x : ℚ} (h : F.datum n = .finite s x) :
    F.IsFinite n ∧ F.sign n = s ∧ F.magnitude n = x := by
  rw [datum] at h
  split_ifs at h with hnan hinf
  rw [Datum.finite.injEq] at h
  exact ⟨fun hexp => hnan ⟨hexp, fun hfrac => hinf ⟨hexp, hfrac⟩⟩, h⟩

lemma isInf_of_datum_eq {s : Bool} (h : F.datum n = .inf s) : F.IsInf n ∧ F.sign n = s := by
  rw [datum] at h
  split_ifs at h with hnan hinf
  rw [Datum.inf.injEq] at h
  exact ⟨hinf, h⟩

lemma Truncates.magnitude_eq (h : F.Truncates n (F.magnitude m)) (hm : F.IsFinite m) :
    F.magnitude n = F.magnitude m := le_antisymm h.2.1 (h.2.2 m hm le_rfl)

/-! ### Integers -/

section Integers

variable (hF : 2 ≤ F.expBits)

lemma intSignificand_bounds {m : ℕ} (hm : m ≠ 0) :
    2 ^ F.fracBits ≤ F.intSignificand m ∧ F.intSignificand m ≤ 2 ^ F.fracBits * 2 := by
  have hlo := Nat.log2_self_le hm
  have hhi := Nat.lt_log2_self (n := m)
  rw [intSignificand]
  split_ifs with hk
  · have hpow : 2 ^ m.log2 * 2 ^ (F.fracBits - m.log2) = 2 ^ F.fracBits := by
      rw [← pow_add, Nat.add_sub_cancel' hk]
    constructor
    · rw [← hpow]
      exact Nat.mul_le_mul_right _ hlo
    · rw [← hpow, mul_right_comm, ← pow_succ]
      exact Nat.mul_le_mul_right _ hhi.le
  · obtain ⟨k, hk⟩ : ∃ k, m.log2 = F.fracBits + k := ⟨m.log2 - F.fracBits, by omega⟩
    rw [hk, pow_add] at hlo
    rw [hk, Nat.add_right_comm, pow_add, pow_succ] at hhi
    have hlo' : 2 ^ F.fracBits ≤ m / 2 ^ k := (Nat.le_div_iff_mul_le (Nat.two_pow_pos k)).mpr hlo
    have hhi' : m / 2 ^ k < 2 ^ F.fracBits * 2 := Nat.div_lt_of_lt_mul (by rwa [mul_comm])
    rw [hk, Nat.add_sub_cancel_left, roundEven]
    split_ifs <;> omega

include hF

lemma bias_pos : 0 < F.bias := by
  have := Nat.pow_le_pow_right (n := 2) (by decide) (show 1 ≤ F.expBits - 1 by omega)
  rw [bias]
  omega

lemma bias_lt_maxExponent : F.bias < F.maxExponent := by
  have hpow : 2 ^ F.expBits = 2 ^ (F.expBits - 1) * 2 := by
    rw [← pow_succ]
    congr 1
    omega
  have := Nat.two_pow_pos (F.expBits - 1)
  rw [bias, maxExponent]
  omega

omit hF in
lemma maxExponent_lt : F.maxExponent < 2 ^ F.expBits := Nat.sub_lt (Nat.two_pow_pos _) Nat.one_pos

omit hF in
lemma pack_lt {s : Bool} {e f : ℕ} (he : e < 2 ^ F.expBits) (hf : f < 2 ^ F.fracBits) :
    F.pack s e f < 2 ^ (F.expBits + F.fracBits + 1) := by
  have hs := s.toNat_le
  have hupper : s.toNat * 2 ^ F.expBits + e + 1 ≤ 2 ^ (F.expBits + 1) := by
    have := Nat.mul_le_mul_right (2 ^ F.expBits) hs
    rw [pow_succ]
    omega
  calc F.pack s e f < (s.toNat * 2 ^ F.expBits + e) * 2 ^ F.fracBits + 2 ^ F.fracBits :=
        Nat.add_lt_add_left hf _
    _ = (s.toNat * 2 ^ F.expBits + e + 1) * 2 ^ F.fracBits := (Nat.succ_mul _ _).symm
    _ ≤ 2 ^ (F.expBits + 1) * 2 ^ F.fracBits := Nat.mul_le_mul_right _ hupper
    _ = 2 ^ (F.expBits + F.fracBits + 1) := by
        rw [← pow_add]
        congr 1
        omega

lemma ofInt_eq_pack {v : ℤ} (hv : v ≠ 0) :
    ∃ e f, F.ofInt v = F.pack (decide (v < 0)) e f ∧ e < 2 ^ F.expBits ∧ f < 2 ^ F.fracBits ∧
      F.bias ≤ e ∧ (e = F.bias ∧ f = 0 ↔ v.natAbs = 1) := by
  have hm : v.natAbs ≠ 0 := Int.natAbs_ne_zero.mpr hv
  have hpos := Nat.two_pow_pos F.fracBits
  have hmax := maxExponent_lt (F := F)
  have hbias := bias_lt_maxExponent hF
  have hlog : v.natAbs = 1 → v.natAbs.log2 = 0 := by
    intro h
    rw [h]
    rfl
  have hlog' : v.natAbs.log2 = 0 → v.natAbs = 1 := by
    intro h
    have hhi := Nat.lt_log2_self (n := v.natAbs)
    rw [h] at hhi
    omega
  obtain ⟨hlo, hhi⟩ := intSignificand_bounds (F := F) hm
  rw [ofInt, if_neg hv]
  split_ifs with hover
  · refine ⟨F.maxExponent, 0, rfl, hmax, hpos, hbias.le, ?_⟩
    constructor
    · rintro ⟨h, -⟩
      omega
    · intro h
      have := hlog h
      omega
  · have hsig : v.natAbs = 1 → F.intSignificand v.natAbs = 2 ^ F.fracBits := by
      intro h
      rw [intSignificand, hlog h, if_pos (Nat.zero_le _), h, one_mul, Nat.sub_zero]
    by_cases hcarry : F.intSignificand v.natAbs = 2 ^ F.fracBits * 2
    · refine ⟨v.natAbs.log2 + F.bias + 1, 0, ?_, by omega, hpos, by omega, ?_⟩
      · rw [hcarry, pack, pack]
        have hsub : 2 ^ F.fracBits * 2 - 2 ^ F.fracBits = 2 ^ F.fracBits := by omega
        rw [hsub]
        ring
      · constructor
        · rintro ⟨h, -⟩
          omega
        · intro h
          have := hsig h
          omega
    · refine ⟨v.natAbs.log2 + F.bias, F.intSignificand v.natAbs - 2 ^ F.fracBits, rfl, by omega,
        by omega, by omega, ?_⟩
      constructor
      · rintro ⟨h, -⟩
        exact hlog' (by omega)
      · intro h
        have := hlog h
        have := hsig h
        omega

lemma one_lt : F.one < 2 ^ (F.expBits + F.fracBits + 1) :=
  pack_lt ((bias_lt_maxExponent hF).trans maxExponent_lt) (Nat.two_pow_pos _)

lemma ofInt_lt (v : ℤ) : F.ofInt v < 2 ^ (F.expBits + F.fracBits + 1) := by
  by_cases hv : v = 0
  · rw [ofInt, if_pos hv]
    exact Nat.two_pow_pos _
  · obtain ⟨e, f, heq, he, hf, -⟩ := ofInt_eq_pack hF hv
    rw [heq]
    exact pack_lt he hf

lemma ofInt_eq_one_iff (v : ℤ) : F.ofInt v = F.one ↔ v = 1 := by
  have hbias := bias_pos hF
  have hb : F.bias < 2 ^ F.expBits := (bias_lt_maxExponent hF).trans maxExponent_lt
  have hpos := Nat.two_pow_pos F.fracBits
  by_cases hv : v = 0
  · rw [ofInt, if_pos hv, hv]
    refine iff_of_false ?_ (by decide)
    intro h
    have hexp := congrArg F.exponent h
    rw [one, exponent_pack hb hpos, exponent, Nat.zero_div, Nat.zero_mod] at hexp
    omega
  · obtain ⟨e, f, heq, he, hf, -, hone⟩ := ofInt_eq_pack hF hv
    rw [heq, one]
    constructor
    · intro h
      have hsign := congrArg F.sign h
      have hexp := congrArg F.exponent h
      have hfrac := congrArg F.fraction h
      rw [sign_pack he hf, sign_pack hb hpos, decide_eq_false_iff_not] at hsign
      rw [exponent_pack he hf, exponent_pack hb hpos] at hexp
      rw [fraction_pack hf, fraction_pack hpos] at hfrac
      have := hone.mp ⟨hexp, hfrac⟩
      omega
    · intro h
      obtain ⟨rfl, rfl⟩ := hone.mpr (by rw [h]; rfl)
      rw [h]
      rfl

lemma magnitude_ofInt_eq_zero (v : ℤ) : F.magnitude (F.ofInt v) = 0 ↔ v = 0 := by
  have hbias := bias_pos hF
  rw [magnitude_eq_zero]
  by_cases hv : v = 0
  · rw [ofInt, if_pos hv]
    exact iff_of_true ⟨by rw [exponent, Nat.zero_div, Nat.zero_mod], Nat.zero_mod _⟩ hv
  · obtain ⟨e, f, heq, he, hf, hle, -⟩ := ofInt_eq_pack hF hv
    rw [heq, exponent_pack he hf]
    refine iff_of_false ?_ hv
    rintro ⟨h, -⟩
    omega

lemma datum_one : F.datum F.one = .finite false 1 := by
  have hb : F.bias < 2 ^ F.expBits := (bias_lt_maxExponent hF).trans maxExponent_lt
  have hpos := Nat.two_pow_pos F.fracBits
  have hexp : F.exponent F.one = F.bias := exponent_pack hb hpos
  have hfin : F.IsFinite F.one := by
    rw [IsFinite, hexp]
    exact (bias_lt_maxExponent hF).ne
  have hsig : F.significand F.one = 2 ^ F.fracBits := by
    rw [significand, hexp, if_neg (bias_pos hF).ne', one, fraction_pack hpos, Nat.add_zero]
  have hscale : F.scale F.one = -F.fracBits := by
    rw [scale, hexp, max_eq_right (bias_pos hF)]
    omega
  have hsign : F.sign F.one = false := sign_pack hb hpos
  rw [hfin.datum_eq, hsign, magnitude, hsig, hscale, zpow_neg, zpow_natCast]
  push_cast
  rw [mul_inv_cancel₀ (pow_ne_zero _ two_ne_zero)]

lemma beq_one_iff (hn : n < 2 ^ (F.expBits + F.fracBits + 1)) :
    (F.datum n).beq (.finite false 1) = true ↔ n = F.one := by
  constructor
  · intro h
    cases hd : F.datum n with
    | nan | inf s => simp [hd, Datum.beq] at h
    | finite s x =>
      rw [hd, Datum.beq, decide_eq_true_iff] at h
      obtain ⟨rfl, hs⟩ := h
      have hs : s = false := hs.resolve_right one_ne_zero
      obtain ⟨-, hsign, hmag⟩ := isFinite_of_datum_eq hd
      obtain ⟨-, hsign', hmag'⟩ := isFinite_of_datum_eq (datum_one hF)
      exact eq_of_magnitude_eq hn (one_lt hF) (hsign.trans (hs.trans hsign'.symm))
        (hmag.trans hmag'.symm)
  · rintro rfl
    rw [datum_one hF]
    simp [Datum.beq]

lemma beq_zero_iff : (F.datum n).beq (.finite false 0) = true ↔ F.magnitude n = 0 := by
  constructor
  · intro h
    cases hd : F.datum n with
    | nan | inf s => simp [hd, Datum.beq] at h
    | finite s x =>
      rw [hd, Datum.beq, decide_eq_true_iff] at h
      exact (isFinite_of_datum_eq hd).2.2.trans h.1
  · intro hmag
    have hfin : F.IsFinite n := by
      have hexp := (magnitude_eq_zero.mp hmag).1
      rw [IsFinite, hexp]
      exact ((bias_pos hF).trans (bias_lt_maxExponent hF)).ne
    rw [hfin.datum_eq, hmag]
    simp [Datum.beq]

end Integers
end BinaryFormat
