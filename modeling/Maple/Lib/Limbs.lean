import Mathlib.Data.Nat.Digits.Defs
import Mathlib.Data.Nat.ModEq
import Mathlib.Tactic.Ring

/-!
# Numbers as lists of limbs

A limb is an unsigned machine word of some size. The limbs of a number stand in the order of their
weights, the lowest one first.
-/

/-- An unsigned word of `bits` bits. -/
class Limb (T : Type) where
  bits : Nat
  bits_pos : 0 < bits
  toNat : T → Nat
  ofNat : Nat → T
  toNat_ofNat : ∀ n, toNat (ofNat n) = n % 2 ^ bits
  ofNat_toNat : ∀ x, ofNat (toNat x) = x

instance : Limb UInt32 where
  bits := 32
  bits_pos := by decide
  toNat := UInt32.toNat
  ofNat := UInt32.ofNat
  toNat_ofNat _ := UInt32.toNat_ofNat'
  ofNat_toNat _ := UInt32.ofNat_toNat

instance : Limb UInt64 where
  bits := 64
  bits_pos := by decide
  toNat := UInt64.toNat
  ofNat := UInt64.ofNat
  toNat_ofNat _ := UInt64.toNat_ofNat'
  ofNat_toNat _ := UInt64.ofNat_toNat

namespace Limb

attribute [simp] toNat_ofNat ofNat_toNat

variable {T : Type} [Limb T]

lemma toNat_lt (x : T) : toNat x < 2 ^ bits T := by
  rw [← ofNat_toNat x, toNat_ofNat]
  exact Nat.mod_lt _ (Nat.two_pow_pos _)

lemma toNat_inj {x y : T} : toNat x = toNat y ↔ x = y := by
  constructor
  · intro h
    rw [← ofNat_toNat x, h, ofNat_toNat]
  · rintro rfl
    rfl

/-! ### Words -/

/-- The limb of zero. -/
def zero : T := ofNat 0

/-- The limb whose bits are all set. -/
def ones : T := ofNat (2 ^ bits T - 1)

/-- `x << k`. -/
def shl (x : T) (k : Nat) : T := ofNat (toNat x <<< k)

/-- `x >> k`. -/
def shr (x : T) (k : Nat) : T := ofNat (toNat x >>> k)

/-- `x | y`. -/
def or (x y : T) : T := ofNat (toNat x ||| toNat y)

@[simp] lemma toNat_zero : toNat (zero : T) = 0 := by
  rw [zero, toNat_ofNat, Nat.zero_mod]

@[simp] lemma toNat_ones : toNat (ones : T) = 2 ^ bits T - 1 := by
  rw [ones, toNat_ofNat]
  exact Nat.mod_eq_of_lt (Nat.sub_lt (Nat.two_pow_pos _) Nat.one_pos)

lemma toNat_shl (x : T) (k : Nat) : toNat (shl x k) = toNat x * 2 ^ k % 2 ^ bits T := by
  rw [shl, toNat_ofNat, Nat.shiftLeft_eq]

lemma toNat_shr (x : T) (k : Nat) : toNat (shr x k) = toNat x / 2 ^ k := by
  rw [shr, toNat_ofNat, Nat.shiftRight_eq_div_pow]
  exact Nat.mod_eq_of_lt (lt_of_le_of_lt (Nat.div_le_self _ _) (toNat_lt x))

lemma testBit_shl (x : T) (k p : Nat) :
    (toNat (shl x k)).testBit p = (decide (p < bits T) && decide (k ≤ p) &&
      (toNat x).testBit (p - k)) := by
  rw [shl, toNat_ofNat, Nat.testBit_mod_two_pow, Nat.testBit_shiftLeft, Bool.and_assoc]

lemma testBit_shr (x : T) (k p : Nat) :
    (toNat (shr x k)).testBit p = (toNat x).testBit (k + p) := by
  rw [toNat_shr, ← Nat.shiftRight_eq_div_pow, Nat.testBit_shiftRight]

lemma testBit_or (x y : T) (p : Nat) :
    (toNat (or x y)).testBit p = ((toNat x).testBit p || (toNat y).testBit p) := by
  rw [or, toNat_ofNat, Nat.mod_eq_of_lt (Nat.or_lt_two_pow (toNat_lt x) (toNat_lt y)),
    Nat.testBit_or]

lemma testBit_ones (p : Nat) : (toNat (ones : T)).testBit p = decide (p < bits T) := by
  rw [toNat_ones, Nat.testBit_two_pow_sub_one]

lemma testBit_of_le (x : T) {p : Nat} (h : bits T ≤ p) : (toNat x).testBit p = false :=
  Nat.testBit_lt_two_pow (lt_of_lt_of_le (toNat_lt x) (Nat.pow_le_pow_right (by decide) h))

/-! ### Lists -/

/-- The number that a list of limbs stands for. -/
def value (ws : List T) : Nat := Nat.ofDigits (2 ^ bits T) (ws.map toNat)

@[simp] lemma value_nil : value ([] : List T) = 0 := rfl

@[simp] lemma value_cons (w : T) (ws : List T) :
    value (w :: ws) = toNat w + 2 ^ bits T * value ws := by
  rw [value, List.map_cons, Nat.ofDigits_cons]
  rfl

lemma value_singleton (w : T) : value [w] = toNat w := by
  rw [value_cons, value_nil, Nat.mul_zero, Nat.add_zero]

lemma two_pow_bits_succ (n : Nat) : 2 ^ (bits T * (n + 1)) = 2 ^ bits T * 2 ^ (bits T * n) := by
  rw [← pow_add, Nat.mul_succ, Nat.add_comm]

lemma value_append (ws vs : List T) :
    value (ws ++ vs) = value ws + 2 ^ (bits T * ws.length) * value vs := by
  rw [value, List.map_append, Nat.ofDigits_append, List.length_map, ← pow_mul]
  rfl

@[simp] lemma value_replicate_zero (n : Nat) : value (List.replicate n (zero : T)) = 0 := by
  induction n with
  | zero => rfl
  | succ n ih => rw [List.replicate_succ, value_cons, ih, toNat_zero, Nat.mul_zero]

lemma value_replicate_ones (n : Nat) :
    value (List.replicate n (ones : T)) = 2 ^ (bits T * n) - 1 := by
  induction n with
  | zero => rfl
  | succ n ih =>
    have hbits : 0 < 2 ^ bits T := Nat.two_pow_pos _
    have hrest : 0 < 2 ^ (bits T * n) := Nat.two_pow_pos _
    rw [List.replicate_succ, value_cons, ih, toNat_ones, two_pow_bits_succ, Nat.mul_sub,
      Nat.mul_one]
    have hle : 2 ^ bits T ≤ 2 ^ bits T * 2 ^ (bits T * n) := Nat.le_mul_of_pos_right _ hrest
    omega

lemma value_lt (ws : List T) : value ws < 2 ^ (bits T * ws.length) := by
  induction ws with
  | nil => exact Nat.one_pos
  | cons w ws ih =>
    have hw := toNat_lt w
    have hmul : 2 ^ bits T * (value ws + 1) ≤ 2 ^ bits T * 2 ^ (bits T * ws.length) :=
      Nat.mul_le_mul_left _ ih
    rw [Nat.mul_add, Nat.mul_one] at hmul
    rw [value_cons, List.length_cons, two_pow_bits_succ]
    omega

lemma value_take (ws : List T) (n : Nat) (h : n ≤ ws.length) :
    value (ws.take n) = value ws % 2 ^ (bits T * n) := by
  have hlen : (ws.take n).length = n := List.length_take_of_le h
  have hlt := value_lt (ws.take n)
  have hsplit := value_append (ws.take n) (ws.drop n)
  rw [List.take_append_drop, hlen] at hsplit
  rw [hlen] at hlt
  rw [hsplit, Nat.add_mul_mod_self_left, Nat.mod_eq_of_lt hlt]

/-- The lowest `k` limbs of a number. -/
def digits : Nat → Nat → List T
  | 0, _ => []
  | k + 1, n => ofNat n :: digits k (n / 2 ^ bits T)

@[simp] lemma length_digits (k n : Nat) : (digits k n : List T).length = k := by
  induction k generalizing n with
  | zero => rfl
  | succ k ih => exact congrArg Nat.succ (ih _)

lemma value_digits (k n : Nat) : value (digits k n : List T) = n % 2 ^ (bits T * k) := by
  induction k generalizing n with
  | zero => exact (Nat.mod_one n).symm
  | succ k ih => rw [digits, value_cons, ih, toNat_ofNat, two_pow_bits_succ, Nat.mod_mul]

lemma toNat_getD (ws : List T) (i : Nat) :
    toNat (ws.getD i zero) = value ws / 2 ^ (bits T * i) % 2 ^ bits T := by
  induction ws generalizing i with
  | nil => rw [List.getD_nil, toNat_zero, value_nil, Nat.zero_div, Nat.zero_mod]
  | cons w ws ih =>
    have hw := toNat_lt w
    cases i with
    | zero =>
      rw [List.getD_cons_zero, value_cons, Nat.mul_zero, pow_zero, Nat.div_one,
        Nat.add_mul_mod_self_left, Nat.mod_eq_of_lt hw]
    | succ i =>
      rw [List.getD_cons_succ, ih, value_cons, two_pow_bits_succ, ← Nat.div_div_eq_div_mul,
        Nat.add_mul_div_left _ _ (Nat.two_pow_pos _), Nat.div_eq_of_lt hw, Nat.zero_add]

lemma value_set {ws : List T} {i : Nat} (h : i < ws.length) (w : T) :
    value (ws.set i w) + 2 ^ (bits T * i) * toNat (ws.getD i zero) =
      value ws + 2 ^ (bits T * i) * toNat w := by
  induction ws generalizing i with
  | nil => exact absurd h (Nat.not_lt_zero i)
  | cons v ws ih =>
    cases i with
    | zero =>
      rw [List.set_cons_zero, List.getD_cons_zero, value_cons, value_cons, Nat.mul_zero, pow_zero]
      ring
    | succ i =>
      have hrest := ih (Nat.lt_of_succ_lt_succ h)
      rw [List.set_cons_succ, List.getD_cons_succ, value_cons, value_cons, two_pow_bits_succ,
        Nat.mul_assoc, Nat.mul_assoc, Nat.add_assoc, ← Nat.mul_add, hrest, Nat.mul_add,
        Nat.add_assoc]

lemma testBit_value (ws : List T) (p : Nat) :
    (value ws).testBit p = (toNat (ws.getD (p / bits T) zero)).testBit (p % bits T) := by
  have hpos := bits_pos (T := T)
  induction ws generalizing p with
  | nil => simp
  | cons w ws ih =>
    rw [value_cons, Nat.add_comm, Nat.testBit_two_pow_mul_add _ (toNat_lt w)]
    split_ifs with hp
    · rw [Nat.div_eq_of_lt hp, Nat.mod_eq_of_lt hp, List.getD_cons_zero]
    · obtain ⟨q, rfl⟩ : ∃ q, p = q + bits T := ⟨p - bits T, by omega⟩
      rw [Nat.add_sub_cancel, ih, Nat.add_mod_right, Nat.add_div_right _ hpos, List.getD_cons_succ]

end Limb
