import Maple.Lib.Limbs
import Mathlib.Data.Nat.Digits.Defs
import Mathlib.Data.Nat.Bitwise
import Mathlib.Data.Nat.ModEq
import Mathlib.Tactic.Ring

/-!
# Numbers as lists of 64-bit words

The words of a number stand in the order of their weights, the lowest one first.
-/

namespace Words

/-- The number that a list of words stands for. -/
def value (ws : List UInt64) : Nat := Nat.ofDigits (2 ^ 64) (ws.map UInt64.toNat)

@[simp] lemma value_nil : value [] = 0 := rfl

@[simp] lemma value_cons (w : UInt64) (ws : List UInt64) :
    value (w :: ws) = w.toNat + 2 ^ 64 * value ws := by
  rw [value, List.map_cons, Nat.ofDigits_cons]
  rfl

lemma value_singleton (w : UInt64) : value [w] = w.toNat := by
  rw [value_cons, value_nil, Nat.mul_zero, Nat.add_zero]

lemma value_append (ws vs : List UInt64) :
    value (ws ++ vs) = value ws + 2 ^ (64 * ws.length) * value vs := by
  rw [value, List.map_append, Nat.ofDigits_append, List.length_map, ← pow_mul]
  rfl

lemma value_replicate_zero (n : Nat) : value (List.replicate n 0) = 0 := by
  induction n with
  | zero => rfl
  | succ n ih => rw [List.replicate_succ, value_cons, ih, UInt64.toNat_zero, Nat.mul_zero]

lemma two_pow_succ_words (n : Nat) : 2 ^ (64 * (n + 1)) = 2 ^ 64 * 2 ^ (64 * n) := by
  rw [← pow_add, Nat.mul_succ, Nat.add_comm]

lemma value_lt (ws : List UInt64) : value ws < 2 ^ (64 * ws.length) := by
  induction ws with
  | nil => exact Nat.one_pos
  | cons w ws ih =>
    have hw := w.toNat_lt
    rw [value_cons, List.length_cons, two_pow_succ_words]
    omega

lemma value_eq_of_modEq {ws : List UInt64} {m : Nat} (h : value ws ≡ m [MOD 2 ^ (64 * ws.length)]) :
    value ws = m % 2 ^ (64 * ws.length) := by
  rw [← h, Nat.mod_eq_of_lt (value_lt ws)]

lemma value_inj {ws vs : List UInt64} (hlen : ws.length = vs.length) :
    value ws = value vs ↔ ws = vs := by
  constructor
  · intro h
    induction ws generalizing vs with
    | nil => exact (List.length_eq_zero_iff.mp hlen.symm).symm
    | cons w ws ih =>
      obtain ⟨v, vs, rfl⟩ := List.exists_cons_of_length_eq_add_one hlen.symm
      have hw := w.toNat_lt
      have hv := v.toNat_lt
      rw [value_cons, value_cons] at h
      have hword : w = v := UInt64.toNat_inj.mp (by omega)
      rw [hword, ih (Nat.succ.inj hlen) (by omega)]
  · rintro rfl
    rfl

lemma modEq_cons {w : UInt64} {ws : List UInt64} {n m k : Nat}
    (h : value ws ≡ m [MOD 2 ^ (64 * n)]) (hk : w.toNat + 2 ^ 64 * m = k) :
    value (w :: ws) ≡ k [MOD 2 ^ (64 * (n + 1))] := by
  rw [value_cons, two_pow_succ_words, ← hk]
  exact (h.mul_left' _).add_left _

/-! ### Bitwise operations -/

lemma testBit_value_cons (w : UInt64) (ws : List UInt64) (i : Nat) :
    (value (w :: ws)).testBit i =
      if i < 64 then w.toNat.testBit i else (value ws).testBit (i - 64) := by
  rw [value_cons, Nat.add_comm, Nat.testBit_two_pow_mul_add _ w.toNat_lt]

lemma value_zipWith {f : UInt64 → UInt64 → UInt64} {g : Nat → Nat → Nat} {op : Bool → Bool → Bool}
    (hf : ∀ x y i, (f x y).toNat.testBit i = op (x.toNat.testBit i) (y.toNat.testBit i))
    (hg : ∀ m n i, (g m n).testBit i = op (m.testBit i) (n.testBit i))
    {ws vs : List UInt64} (hlen : ws.length = vs.length) :
    value (List.zipWith f ws vs) = g (value ws) (value vs) := by
  induction ws generalizing vs with
  | nil =>
    obtain rfl := List.length_eq_zero_iff.mp hlen.symm
    apply Nat.eq_of_testBit_eq
    intro i
    have hfalse := hf 0 0 64
    rw [hg, List.zipWith_nil_left, value_nil, Nat.zero_testBit]
    rw [UInt64.toNat_zero, Nat.zero_testBit] at hfalse
    rw [← hfalse, Nat.testBit_lt_two_pow (f 0 0).toNat_lt]
  | cons w ws ih =>
    obtain ⟨v, vs, rfl⟩ := List.exists_cons_of_length_eq_add_one hlen.symm
    apply Nat.eq_of_testBit_eq
    intro i
    rw [hg, List.zipWith_cons_cons, testBit_value_cons, testBit_value_cons, testBit_value_cons,
      ih (Nat.succ.inj hlen), hf, hg]
    split_ifs <;> rfl

lemma toNat_complement (w : UInt64) : (~~~w).toNat = 2 ^ 64 - 1 - w.toNat := UInt64.toNat_not w

lemma value_map_complement (ws : List UInt64) :
    value (ws.map fun w => ~~~w) = 2 ^ (64 * ws.length) - 1 - value ws := by
  induction ws with
  | nil => rfl
  | cons w ws ih =>
    have hw := w.toNat_lt
    have hlt := value_lt ws
    rw [List.map_cons, value_cons, value_cons, ih, toNat_complement, List.length_cons,
      two_pow_succ_words]
    omega

/-! ### Single words -/

lemma toNat_shiftLeft {k : Nat} (h : k < 64) (w : UInt64) :
    (w <<< UInt64.ofNat k).toNat = w.toNat * 2 ^ k % 2 ^ 64 := by
  have hk : (UInt64.ofNat k).toNat = k := UInt64.toNat_ofNat_of_lt' (lt_trans h (by decide))
  rw [UInt64.toNat_shiftLeft, hk, Nat.mod_eq_of_lt h, Nat.shiftLeft_eq]

lemma shiftLeft_mod {k : Nat} (h : k < 2 ^ 64) (w : UInt64) :
    w <<< UInt64.ofNat k = w <<< UInt64.ofNat (k % 64) := by
  have hk : (UInt64.ofNat k).toNat = k := UInt64.toNat_ofNat_of_lt' h
  have hmod : (UInt64.ofNat (k % 64)).toNat = k % 64 :=
    UInt64.toNat_ofNat_of_lt' (lt_of_le_of_lt (Nat.mod_le _ _) h)
  rw [← UInt64.toNat_inj, UInt64.toNat_shiftLeft, UInt64.toNat_shiftLeft, hk, hmod, Nat.mod_mod]

lemma toNat_shiftRight {k : Nat} (h : k < 64) (w : UInt64) :
    (w >>> UInt64.ofNat k).toNat = w.toNat / 2 ^ k := by
  have hk : (UInt64.ofNat k).toNat = k := UInt64.toNat_ofNat_of_lt' (lt_trans h (by decide))
  rw [UInt64.toNat_shiftRight, hk, Nat.mod_eq_of_lt h, Nat.shiftRight_eq_div_pow]

lemma two_pow_mul_two_pow_sub {k : Nat} (h : k ≤ 64) : 2 ^ k * 2 ^ (64 - k) = 2 ^ 64 := by
  rw [← pow_add, Nat.add_sub_cancel' h]

lemma toNat_ones_shiftRight {k : Nat} (hpos : 0 < k) (hle : k ≤ 64) :
    (~~~0 >>> UInt64.ofNat (64 - k)).toNat = 2 ^ k - 1 := by
  have hsplit := two_pow_mul_two_pow_sub hle
  have hrest : 0 < 2 ^ (64 - k) := Nat.two_pow_pos _
  have hwidth : 0 < 2 ^ k := Nat.two_pow_pos _
  have hones : (~~~0 : UInt64).toNat = 2 ^ 64 - 1 := by decide
  rw [toNat_shiftRight (by omega), hones]
  apply Nat.div_eq_of_lt_le
  · rw [Nat.sub_one_mul, hsplit]
    omega
  · rw [Nat.sub_add_cancel hwidth, hsplit]
    decide

lemma toNat_ones_shiftLeft {k : Nat} (h : k < 64) :
    (~~~0 <<< UInt64.ofNat k).toNat = 2 ^ 64 - 2 ^ k := by
  have hones : (~~~0 : UInt64).toNat = 2 ^ 64 - 1 := by decide
  have hpow : 2 ^ k < 2 ^ 64 := Nat.pow_lt_pow_right (by decide) h
  have hpos : 0 < 2 ^ k := Nat.two_pow_pos _
  have hsum : (2 ^ 64 - 1) * 2 ^ k = (2 ^ 64 - 2 ^ k) + 2 ^ 64 * (2 ^ k - 1) := by
    rw [Nat.sub_mul, Nat.mul_sub]
    omega
  rw [toNat_shiftLeft h, hones, hsum, Nat.add_mul_mod_self_left]
  exact Nat.mod_eq_of_lt (by omega)

lemma toNat_one_shiftLeft {k : Nat} (h : k < 64) : (1 <<< UInt64.ofNat k : UInt64).toNat = 2 ^ k := by
  rw [toNat_shiftLeft h, UInt64.toNat_one, Nat.one_mul]
  exact Nat.mod_eq_of_lt (Nat.pow_lt_pow_right (by decide) h)

lemma and_one_shiftLeft_ne_zero {k : Nat} (h : k < 64) (w : UInt64) :
    ((w &&& (1 <<< UInt64.ofNat k)) != 0) = w.toNat.testBit k := by
  have hnat : (w &&& (1 <<< UInt64.ofNat k)).toNat = 2 ^ k * (w.toNat.testBit k).toNat := by
    rw [UInt64.toNat_and, toNat_one_shiftLeft h, Nat.and_two_pow, Nat.mul_comm]
  have hpos : 2 ^ k ≠ 0 := (Nat.two_pow_pos k).ne'
  rw [Bool.eq_iff_iff, bne_iff_ne, ne_eq, ← UInt64.toNat_inj, hnat, UInt64.toNat_zero]
  cases w.toNat.testBit k <;> simp

lemma testBit_complement (w : UInt64) {i : Nat} (h : i < 64) :
    (~~~w).toNat.testBit i = !w.toNat.testBit i := by
  have hlt := w.toNat_lt
  have hnat : (~~~w).toNat = 2 ^ 64 - (w.toNat + 1) := by
    rw [toNat_complement]
    omega
  rw [hnat, Nat.testBit_two_pow_sub_succ hlt, decide_eq_true h, Bool.true_and]

lemma toInt_toInt64 (w : UInt64) : w.toInt64.toInt = (w.toNat : Int).bmod (2 ^ 64) :=
  BitVec.toInt_eq_toNat_bmod w.toBitVec

lemma toInt_int64_shiftRight {k : Nat} (h : k < 64) (x : Int64) :
    (x >>> Int64.ofNat k).toInt = x.toInt / 2 ^ k := by
  have hk : ((Int64.ofNat k).toBitVec.smod 64).toNat = k := by
    have hsmall : ∀ k : Fin 64, ((Int64.ofNat k).toBitVec.smod 64).toNat = k := by decide
    exact hsmall ⟨k, h⟩
  rw [← Int64.toInt_toBitVec, Int64.toBitVec_shiftRight, BitVec.sshiftRight_eq', hk,
    BitVec.toInt_sshiftRight, Int64.toInt_toBitVec, Int.shiftRight_eq_div_pow]
  rfl

/-! ### Limbs -/

lemma value_eq_limbs (ws : List UInt64) : value ws = Limb.value ws := rfl

lemma value_replicate_ones (n : Nat) : value (List.replicate n (~~~0)) = 2 ^ (64 * n) - 1 :=
  Limb.value_replicate_ones (T := UInt64) n

lemma value_take {n : Nat} (ws : List UInt64) (h : n ≤ ws.length) :
    value (ws.take n) = value ws % 2 ^ (64 * n) :=
  Limb.value_take ws n h

lemma testBit_value (ws : List UInt64) (p : Nat) :
    (value ws).testBit p = (ws.getD (p / 64) 0).toNat.testBit (p % 64) :=
  Limb.testBit_value ws p

end Words
