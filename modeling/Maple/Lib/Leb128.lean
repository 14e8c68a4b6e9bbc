import Mathlib.Data.Nat.Log
import Mathlib.Tactic.Ring

/-!
# Groups of seven bits

Numbers as lists of bytes: seven bits in a byte, the lowest first, and the top bit of a byte says
that another one follows.
-/

namespace Leb128

/-- The shortest list of groups for a number whose last group is below `limit`. -/
inductive Groups (limit : Nat) : Nat → List UInt8 → Prop
  | last {w : Nat} : w < limit → Groups limit w [UInt8.ofNat w]
  | more {w : Nat} {bytes : List UInt8} : limit ≤ w → Groups limit (w / 128) bytes →
      Groups limit w (UInt8.ofNat (w % 128 + 128) :: bytes)

variable {limit w : Nat} {bytes : List UInt8}

lemma toNat_last (h : w < limit) (hlimit : limit ≤ 256) : (UInt8.ofNat w).toNat = w := by
  rw [UInt8.toNat_ofNat', Nat.mod_eq_of_lt (by omega)]

lemma toNat_more (w : Nat) : (UInt8.ofNat (w % 128 + 128)).toNat = w % 128 + 128 := by
  rw [UInt8.toNat_ofNat', Nat.mod_eq_of_lt (by omega)]

lemma add_shift (acc w shift : Nat) :
    acc + w % 128 * 2 ^ shift + w / 128 * 2 ^ (shift + 7) = acc + w * 2 ^ shift := by
  have hw := Nat.mod_add_div w 128
  calc acc + w % 128 * 2 ^ shift + w / 128 * 2 ^ (shift + 7)
      = acc + (w % 128 + 128 * (w / 128)) * 2 ^ shift := by ring
    _ = acc + w * 2 ^ shift := by rw [hw]

namespace Groups

lemma lt_two_pow (h : Groups limit w bytes) (hlimit : limit ≤ 128) :
    w < 2 ^ (7 * bytes.length) := by
  induction h with
  | @last w hw =>
    have hpow : 2 ^ (7 * [UInt8.ofNat w].length) = 128 := rfl
    omega
  | @more w bytes _ _ ih =>
    rw [List.length_cons, Nat.mul_add, Nat.pow_add]
    omega

lemma length_eq (h : Groups 128 w bytes) : bytes.length = w.log2 / 7 + 1 := by
  induction h with
  | @last w hw =>
    have hlog : w.log2 < 7 := by
      by_cases hzero : w = 0
      · simp [hzero]
      · exact (Nat.log2_lt hzero).mpr hw
    simp [Nat.div_eq_of_lt hlog]
  | @more w bytes hw _ ih =>
    have hlog : (w / 128).log2 + 7 = w.log2 := by
      rw [Nat.log2_eq_log_two, Nat.log2_eq_log_two]
      have hdiv := Nat.log_div_base_pow 2 w 7
      have hle : 7 ≤ Nat.log 2 w := Nat.le_log_of_pow_le (by omega) hw
      have hpow : 2 ^ 7 = 128 := rfl
      rw [hpow] at hdiv
      omega
    rw [List.length_cons, ih, ← hlog]
    omega

end Groups

end Leb128
