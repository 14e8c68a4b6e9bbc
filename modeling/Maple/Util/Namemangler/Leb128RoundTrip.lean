import Maple.Util.Namemangler.Leb128
import Mathlib.Tactic.NormNum

/-!
# LEB128, read back

The decoders take the groups off one by one. What is read so far and the groups that are left always
add up to the number.
-/

namespace Maple
namespace Namemangler

open Leb128 (Groups add_shift)

variable {w : Nat} {bytes : List UInt8}

/-! ### Unsigned numbers -/

lemma toNat_slice (byte : UInt8) : (byte.toUInt64 &&& 0x7f).toNat = byte.toNat % 128 := by
  rw [UInt64.toNat_and, UInt8.toNat_toUInt64]
  exact Nat.and_two_pow_sub_one_eq_mod byte.toNat 7

lemma toNat_slice_shiftLeft {slice : UInt64} {shift : UInt32} (hshift : shift.toNat < 64)
    (hfits : slice.toNat * 2 ^ shift.toNat < 2 ^ 64) :
    (slice <<< shift.toUInt64).toNat = slice.toNat * 2 ^ shift.toNat := by
  rw [UInt64.toNat_shiftLeft, UInt32.toNat_toUInt64, Nat.mod_eq_of_lt hshift, Nat.shiftLeft_eq,
    Nat.mod_eq_of_lt hfits]

lemma slice_shiftLeft_shiftRight {slice : UInt64} {shift : UInt32} (hshift : shift.toNat < 64)
    (hfits : slice.toNat * 2 ^ shift.toNat < 2 ^ 64) :
    (slice <<< shift.toUInt64) >>> shift.toUInt64 = slice := by
  apply UInt64.toNat_inj.mp
  rw [UInt64.toNat_shiftRight, toNat_slice_shiftLeft hshift hfits, UInt32.toNat_toUInt64,
    Nat.mod_eq_of_lt hshift, Nat.shiftRight_eq_div_pow, Nat.mul_div_cancel _ (Nat.two_pow_pos _)]

lemma toNat_shift_add {shift : UInt32} (h : shift.toNat < 64) :
    (shift + 7).toNat = shift.toNat + 7 := by
  rw [UInt32.toNat_add]
  exact Nat.mod_eq_of_lt (show shift.toNat + 7 < 2 ^ 32 by omega)

lemma decodeULEB128Loop_cons (byte : UInt8) (p : List UInt8) (n : Nat) {value : UInt64}
    {shift : UInt32} (hshift : shift.toNat < 64) {slice : Nat} (hslice : byte.toNat % 128 = slice)
    (hfits : value.toNat + slice * 2 ^ shift.toNat < 2 ^ 64) :
    decodeULEB128Loop (byte :: p) n value shift =
      if 128 ≤ byte.toNat then
        decodeULEB128Loop p (n + 1) (UInt64.ofNat (value.toNat + slice * 2 ^ shift.toNat)) (shift + 7)
      else .ok (UInt64.ofNat (value.toNat + slice * 2 ^ shift.toNat), n + 1) := by
  subst hslice
  have hslice : (byte.toUInt64 &&& 0x7f).toNat * 2 ^ shift.toNat < 2 ^ 64 := by
    rw [toNat_slice]
    omega
  have hadded : value + (byte.toUInt64 &&& 0x7f) <<< shift.toUInt64 =
      UInt64.ofNat (value.toNat + byte.toNat % 128 * 2 ^ shift.toNat) := by
    apply UInt64.toNat_inj.mp
    rw [UInt64.toNat_add, toNat_slice_shiftLeft hshift hslice, toNat_slice, UInt64.toNat_ofNat']
  have hguard : decide (shift ≥ 64) = false := by
    apply decide_eq_false
    rw [ge_iff_le, UInt32.le_iff_toNat_le, not_le]
    exact hshift
  have hback := slice_shiftLeft_shiftRight hshift hslice
  have hmore : byte ≥ 128 ↔ 128 ≤ byte.toNat := UInt8.le_iff_toNat_le
  simp only [decodeULEB128Loop, hguard, Bool.false_and, Bool.false_or, hback, bne_self_eq_false,
    Bool.false_eq_true, if_false, hadded, hmore]

lemma shift_add_lt {w shift bits k : Nat} (hw : 2 ^ k ≤ w) (hfits : w * 2 ^ shift < 2 ^ bits) :
    shift + k < bits := by
  have hle : 2 ^ (shift + k) ≤ w * 2 ^ shift := by
    rw [Nat.pow_add, Nat.mul_comm]
    exact Nat.mul_le_mul_right _ hw
  exact (Nat.pow_lt_pow_iff_right (by omega)).mp (hle.trans_lt hfits)

lemma decodeULEB128Loop_groups (h : Groups 128 w bytes) (rest : List UInt8) (n : Nat)
    (value : UInt64) (shift : UInt32) (hshift : shift.toNat < 64)
    (hfits : value.toNat + w * 2 ^ shift.toNat < 2 ^ 64) :
    decodeULEB128Loop (bytes ++ rest) n value shift =
      .ok (UInt64.ofNat (value.toNat + w * 2 ^ shift.toNat), n + bytes.length) := by
  induction h generalizing n value shift with
  | @last w hw =>
    have hbyte := Leb128.toNat_last hw (by omega)
    have hstep := decodeULEB128Loop_cons (UInt8.ofNat w) rest n hshift
      (by rw [hbyte, Nat.mod_eq_of_lt hw]) hfits
    rw [hbyte, if_neg (by omega)] at hstep
    exact hstep
  | @more w bytes hw _ ih =>
    have hbyte := Leb128.toNat_more w
    have hsum := add_shift value.toNat w shift.toNat
    have hnext : shift.toNat + 7 < 64 := shift_add_lt hw (by omega)
    have hstep := decodeULEB128Loop_cons (UInt8.ofNat (w % 128 + 128)) (bytes ++ rest) n hshift
      (by rw [hbyte]; omega) (show value.toNat + w % 128 * 2 ^ shift.toNat < 2 ^ 64 by omega)
    rw [hbyte, if_pos (by omega)] at hstep
    have hvalue : (UInt64.ofNat (value.toNat + w % 128 * 2 ^ shift.toNat)).toNat =
        value.toNat + w % 128 * 2 ^ shift.toNat := by
      rw [UInt64.toNat_ofNat', Nat.mod_eq_of_lt (by omega)]
    have hloop := ih (n + 1) (UInt64.ofNat (value.toNat + w % 128 * 2 ^ shift.toNat)) (shift + 7)
      (by rwa [toNat_shift_add hshift]) (by rwa [toNat_shift_add hshift, hvalue, hsum])
    rw [toNat_shift_add hshift, hvalue, hsum] at hloop
    rw [List.cons_append, hstep, hloop, List.length_cons, Nat.add_right_comm, Nat.add_assoc]

lemma or_shift {result shift : Nat} (hresult : result < 2 ^ shift) (slice : Nat) :
    result ||| slice * 2 ^ shift = result + slice * 2 ^ shift := by
  rw [Nat.or_comm, Nat.mul_comm, ← Nat.two_pow_add_eq_or_of_lt hresult, Nat.add_comm]

lemma or_shift_lt {result shift slice : Nat} (hresult : result < 2 ^ shift) (hslice : slice < 128) :
    result + slice * 2 ^ shift < 2 ^ (shift + 7) := by
  have hmul : slice * 2 ^ shift ≤ 127 * 2 ^ shift := Nat.mul_le_mul_right _ (by omega)
  rw [Nat.pow_add]
  omega

lemma and_bit_seven_eq_zero {byte : UInt8} : byte &&& 0x80 = 0 ↔ byte.toNat < 128 := by
  have hlt := byte.toNat_lt
  rw [and_bit_eq_zero (n := 7) rfl]
  omega

lemma getUnsignedLeb128DecodeLoop_cons (byte : UInt8) (ptr : List UInt8) {result shift : UInt32}
    (hshift : shift.toNat < 32) (hresult : result.toNat < 2 ^ shift.toNat) {slice : Nat}
    (hslice : byte.toNat % 128 = slice)
    (hfits : result.toNat + slice * 2 ^ shift.toNat < 2 ^ 32) :
    getUnsignedLeb128DecodeLoop (byte :: ptr) result shift =
      if byte.toNat < 128 then
        some (UInt32.ofNat (result.toNat + slice * 2 ^ shift.toNat), ptr)
      else getUnsignedLeb128DecodeLoop ptr
        (UInt32.ofNat (result.toNat + slice * 2 ^ shift.toNat)) (shift + 7) := by
  have hand : (byte &&& 0x7f).toUInt32.toNat = slice := by
    rw [UInt8.toNat_toUInt32, UInt8.toNat_and, ← hslice]
    exact Nat.and_two_pow_sub_one_eq_mod byte.toNat 7
  have hor : result ||| (byte &&& 0x7f).toUInt32 <<< shift =
      UInt32.ofNat (result.toNat + slice * 2 ^ shift.toNat) := by
    apply UInt32.toNat_inj.mp
    rw [UInt32.toNat_or, UInt32.toNat_shiftLeft, hand, Nat.mod_eq_of_lt hshift, Nat.shiftLeft_eq,
      Nat.mod_eq_of_lt (by omega), or_shift hresult, UInt32.toNat_ofNat', Nat.mod_eq_of_lt hfits]
  simp only [getUnsignedLeb128DecodeLoop, hor, and_bit_seven_eq_zero]

lemma getUnsignedLeb128DecodeLoop_groups (h : Groups 128 w bytes) (rest : List UInt8)
    (result shift : UInt32) (hshift : shift.toNat < 32) (hresult : result.toNat < 2 ^ shift.toNat)
    (hfits : result.toNat + w * 2 ^ shift.toNat < 2 ^ 32) :
    getUnsignedLeb128DecodeLoop (bytes ++ rest) result shift =
      some (UInt32.ofNat (result.toNat + w * 2 ^ shift.toNat), rest) := by
  induction h generalizing result shift with
  | @last w hw =>
    have hbyte := Leb128.toNat_last hw (by omega)
    have hstep := getUnsignedLeb128DecodeLoop_cons (UInt8.ofNat w) rest hshift hresult
      (by rw [hbyte, Nat.mod_eq_of_lt hw]) hfits
    rw [hbyte, if_pos hw] at hstep
    exact hstep
  | @more w bytes hw _ ih =>
    have hbyte := Leb128.toNat_more w
    have hsum := add_shift result.toNat w shift.toNat
    have hnext : shift.toNat + 7 < 32 := shift_add_lt hw (by omega)
    have hstep := getUnsignedLeb128DecodeLoop_cons (UInt8.ofNat (w % 128 + 128)) (bytes ++ rest)
      hshift hresult (by rw [hbyte]; omega)
      (show result.toNat + w % 128 * 2 ^ shift.toNat < 2 ^ 32 by omega)
    rw [hbyte, if_neg (by omega)] at hstep
    have hvalue : (UInt32.ofNat (result.toNat + w % 128 * 2 ^ shift.toNat)).toNat =
        result.toNat + w % 128 * 2 ^ shift.toNat := by
      rw [UInt32.toNat_ofNat', Nat.mod_eq_of_lt (by omega)]
    have hadd := toNat_shift_add (show shift.toNat < 64 by omega)
    have hloop := ih (UInt32.ofNat (result.toNat + w % 128 * 2 ^ shift.toNat)) (shift + 7)
      (by rwa [hadd]) (by rw [hadd, hvalue]; exact or_shift_lt hresult (by omega))
      (by rwa [hadd, hvalue, hsum])
    rw [hadd, hvalue, hsum] at hloop
    rw [List.cons_append, hstep, hloop]

/-- Unsigned numbers of any size come back, with the length that the encoder has counted. -/
theorem decodeULEB128_encodeULEB128 (v : UInt64) (v32 : UInt32) (rest : List UInt8) :
    decodeULEB128 ((encodeULEB128 v).2 ++ rest) = .ok (v, (encodeULEB128 v).1) ∧
      (encodeULEB128 v).1 = (encodeULEB128 v).2.length ∧
      (1 ≤ v → (encodeULEB128 v).1 = getUleb128Size v) ∧
      getUnsignedLeb128Decode (getUnsignedLeb128Encode v32 ++ rest) = some (v32, rest) := by
  obtain ⟨hgroups, hcount⟩ := encodeULEB128_groups v
  refine ⟨?_, hcount, ?_, ?_⟩
  · have hloop := decodeULEB128Loop_groups hgroups rest 0 0 0 (by decide)
      (by simpa using v.toNat_lt)
    rw [decodeULEB128, hloop, hcount]
    simp
  · intro hv
    have hlog : v.toNat.log2 < 64 := by
      have hne : v.toNat ≠ 0 := by
        have hle := UInt64.le_iff_toNat_le.mp hv
        have hone : (1 : UInt64).toNat = 1 := rfl
        omega
      exact (Nat.log2_lt hne).mpr v.toNat_lt
    rw [hcount, hgroups.length_eq, getUleb128Size]
    omega
  · have hloop := getUnsignedLeb128DecodeLoop_groups (getUnsignedLeb128Encode_groups v32) rest 0 0
      (by decide) (by decide) (by simpa using v32.toNat_lt)
    rw [getUnsignedLeb128Decode, hloop]
    simp

/-! ### Signed numbers -/

/-- One group of a signed number, as long as it leaves the highest bit alone. The last group must
not have the bit that is taken for the sign. -/
lemma decodeSLEB128Loop_cons (byte : UInt8) (p : List UInt8) (n : Nat) {value : Int64}
    {shift : UInt32} (hshift : shift.toNat < 64)
    (hvalue : value.toUInt64.toNat < 2 ^ shift.toNat) {slice : Nat}
    (hslice : byte.toNat % 128 = slice) (hlast : byte.toNat < 128 → slice < 64)
    (hfits : value.toUInt64.toNat + slice * 2 ^ shift.toNat < 2 ^ 63) :
    decodeSLEB128Loop (byte :: p) n value shift =
      if 128 ≤ byte.toNat then decodeSLEB128Loop p (n + 1)
        (UInt64.ofNat (value.toUInt64.toNat + slice * 2 ^ shift.toNat)).toInt64 (shift + 7)
      else .ok ((UInt64.ofNat (value.toUInt64.toNat + slice * 2 ^ shift.toNat)).toInt64, n + 1) := by
  have hnat := toNat_slice byte
  rw [hslice] at hnat
  have hor : value.toUInt64 ||| (byte.toUInt64 &&& 0x7f) <<< shift.toUInt64 =
      UInt64.ofNat (value.toUInt64.toNat + slice * 2 ^ shift.toNat) := by
    have hshifted : ((byte.toUInt64 &&& 0x7f) <<< shift.toUInt64).toNat = _ :=
      toNat_slice_shiftLeft hshift (by rw [hnat]; omega)
    apply UInt64.toNat_inj.mp
    rw [UInt64.toNat_or, hshifted, hnat, or_shift hvalue, UInt64.toNat_ofNat',
      Nat.mod_eq_of_lt (by omega)]
  have hguard : decide (shift ≥ 64) = false := by
    apply decide_eq_false
    rw [ge_iff_le, UInt32.le_iff_toNat_le, not_le]
    exact hshift
  have hhighest : (shift == 63 && (byte.toUInt64 &&& 0x7f) != 0) = false := by
    by_cases h63 : shift = 63
    · have hzero : byte.toUInt64 &&& 0x7f = 0 := by
        apply UInt64.toNat_inj.mp
        rw [hnat, UInt64.toNat_zero]
        have hpow : 2 ^ shift.toNat = 2 ^ 63 := by rw [h63]; rfl
        rw [hpow] at hfits
        omega
      simp [hzero]
    · simp [h63]
  have hmore : byte ≥ 128 ↔ 128 ≤ byte.toNat := UInt8.le_iff_toNat_le
  simp only [decodeSLEB128Loop, hguard, Bool.false_and, Bool.false_or, hhighest, hor, hmore,
    Bool.false_eq_true, if_false]
  split_ifs with hcond hsign
  · rfl
  · rw [Bool.and_eq_true, bne_iff_ne, ne_eq, and_bit_six_eq_zero] at hsign
    have hsmall := hlast (by omega)
    omega
  · rfl

lemma toNat_ofNat_lt {n : Nat} (h : n < 2 ^ 63) : (UInt64.ofNat n).toInt64.toUInt64.toNat = n := by
  rw [UInt64.toUInt64_toInt64, UInt64.toNat_ofNat', Nat.mod_eq_of_lt (by omega)]

lemma decodeSLEB128Loop_groups (h : Groups 64 w bytes) (rest : List UInt8) (n : Nat)
    (value : Int64) (shift : UInt32) (hshift : shift.toNat < 64)
    (hvalue : value.toUInt64.toNat < 2 ^ shift.toNat)
    (hfits : value.toUInt64.toNat + w * 2 ^ shift.toNat < 2 ^ 63) :
    decodeSLEB128Loop (bytes ++ rest) n value shift =
      .ok ((UInt64.ofNat (value.toUInt64.toNat + w * 2 ^ shift.toNat)).toInt64,
        n + bytes.length) := by
  induction h generalizing n value shift with
  | @last w hw =>
    have hbyte := Leb128.toNat_last hw (by omega)
    have hstep := decodeSLEB128Loop_cons (UInt8.ofNat w) rest n hshift hvalue
      (by rw [hbyte, Nat.mod_eq_of_lt (by omega)]) (fun _ => hw) hfits
    rw [hbyte, if_neg (by omega)] at hstep
    exact hstep
  | @more w bytes hw _ ih =>
    have hbyte := Leb128.toNat_more w
    have hsum := add_shift value.toUInt64.toNat w shift.toNat
    have hnext : shift.toNat + 6 < 63 := shift_add_lt hw (by omega)
    have hadd := toNat_shift_add hshift
    have hstep := decodeSLEB128Loop_cons (UInt8.ofNat (w % 128 + 128)) (bytes ++ rest) n hshift
      hvalue (by rw [hbyte]; omega) (by rw [hbyte]; omega)
      (show value.toUInt64.toNat + w % 128 * 2 ^ shift.toNat < 2 ^ 63 by omega)
    rw [hbyte, if_pos (by omega)] at hstep
    have hread := toNat_ofNat_lt
      (show value.toUInt64.toNat + w % 128 * 2 ^ shift.toNat < 2 ^ 63 by omega)
    have hloop := ih (n + 1)
      (UInt64.ofNat (value.toUInt64.toNat + w % 128 * 2 ^ shift.toNat)).toInt64 (shift + 7)
      (by rw [hadd]; omega) (by rw [hadd, hread]; exact or_shift_lt hvalue (by omega))
      (by rwa [hadd, hread, hsum])
    rw [hadd, hread, hsum] at hloop
    rw [List.cons_append, hstep, hloop, List.length_cons, Nat.add_right_comm, Nat.add_assoc]

lemma decodeSLEB128Loop_highest (byte : UInt8) (p : List UInt8) (n : Nat) (value : Int64)
    (hslice : byte.toNat % 128 = 1) : decodeSLEB128Loop (byte :: p) n value 63 = .error n := by
  have hone : byte.toUInt64 &&& 0x7f = 1 := by
    apply UInt64.toNat_inj.mp
    rw [toNat_slice, hslice]
    rfl
  rw [decodeSLEB128Loop, hone]
  rfl

lemma decodeSLEB128Loop_error (h : Groups 64 w bytes) (rest : List UInt8) (n : Nat)
    (value : Int64) (shift : UInt32) (hshift : shift.toNat < 64) (hgroup : shift.toNat % 7 = 0)
    (hvalue : value.toUInt64.toNat < 2 ^ shift.toNat)
    (hneg : 2 ^ 63 ≤ value.toUInt64.toNat + w * 2 ^ shift.toNat)
    (hfits : value.toUInt64.toNat + w * 2 ^ shift.toNat < 2 ^ 64) :
    decodeSLEB128Loop (bytes ++ rest) n value shift = .error (n + (63 - shift.toNat) / 7) := by
  induction h generalizing n value shift with
  | @last w hw =>
    -- below the highest bit a last group would leave the number below it as well
    have h63 : shift.toNat = 63 := by
      by_contra hne
      have hlt := or_shift_lt hvalue (show w < 128 by omega)
      have hpow : 2 ^ (shift.toNat + 7) ≤ 2 ^ 63 := Nat.pow_le_pow_right (by omega) (by omega)
      omega
    have hshift63 : shift = 63 := UInt32.toNat_inj.mp h63
    rw [h63] at hvalue hneg hfits
    subst hshift63
    have hone : w = 1 := by omega
    subst hone
    exact decodeSLEB128Loop_highest (UInt8.ofNat 1) rest n value rfl
  | @more w bytes hw _ ih =>
    have hnext : shift.toNat + 6 < 64 := shift_add_lt hw (by omega)
    have hbyte := Leb128.toNat_more w
    have hsum := add_shift value.toUInt64.toNat w shift.toNat
    have hadd := toNat_shift_add hshift
    have hpow : 2 ^ (shift.toNat + 7) ≤ 2 ^ 63 := Nat.pow_le_pow_right (by omega) (by omega)
    have hlt := or_shift_lt hvalue (show w % 128 < 128 by omega)
    have hstep := decodeSLEB128Loop_cons (UInt8.ofNat (w % 128 + 128)) (bytes ++ rest) n hshift
      hvalue (by rw [hbyte]; omega) (by rw [hbyte]; omega) (hlt.trans_le hpow)
    rw [hbyte, if_pos (by omega)] at hstep
    have hread := toNat_ofNat_lt (hlt.trans_le hpow)
    have hloop := ih (n + 1)
      (UInt64.ofNat (value.toUInt64.toNat + w % 128 * 2 ^ shift.toNat)).toInt64 (shift + 7)
      (by rw [hadd]; omega) (by rw [hadd]; omega) (by rwa [hadd, hread])
      (by rwa [hadd, hread, hsum]) (by rwa [hadd, hread, hsum])
    rw [hadd] at hloop
    rw [List.cons_append, hstep, hloop]
    have hcount : n + 1 + (63 - (shift.toNat + 7)) / 7 = n + (63 - shift.toNat) / 7 := by omega
    rw [hcount]

/-! ### The predicted length of signed numbers -/

lemma toInt_signBits (v : Int32) : (signBits v).toInt = if 0 ≤ v.toInt then 0 else -1 := by
  have hle : v ≥ 0 ↔ 0 ≤ v.toInt := Int32.le_iff_toInt_le
  simp only [signBits, hle]
  split_ifs <;> rfl

lemma sleb128SizeLoop_eq (v stop : Int32) (hstop : stop = signBits v) :
    sleb128SizeLoop v stop hstop =
      if -64 ≤ v.toInt ∧ v.toInt < 64 then 1
      else sleb128SizeLoop (shiftGroup v) stop (hstop.trans (signBits_shiftGroup v).symm) + 1 := by
  have hshift := toInt_shiftGroup v
  have hv := toInt_eq_cond v
  have hrem := toInt_eq_cond (shiftGroup v)
  have hlt := v.toUInt32.toNat_lt
  have hremlt := (shiftGroup v).toUInt32.toNat_lt
  have hstay : shiftGroup v = stop ↔ -128 ≤ v.toInt ∧ v.toInt < 128 := by
    rw [hstop, ← Int32.toInt_inj, hshift, toInt_signBits]
    split_ifs <;> omega
  have hbits : (shiftGroup v).toUInt32 &&& (1 : UInt32) = v.toUInt32 >>> 6 &&& (1 : UInt32) ↔
      (shiftGroup v).toUInt32.toNat % 2 = v.toUInt32.toNat / 64 % 2 := by
    have hsix : (v.toUInt32 >>> 6).toNat = v.toUInt32.toNat / 64 := by
      rw [UInt32.toNat_shiftRight]
      exact Nat.shiftRight_eq_div_pow _ 6
    have hone : (1 : UInt32).toNat = 1 := rfl
    rw [← UInt32.toNat_inj, UInt32.toNat_and, UInt32.toNat_and, hsix, hone, Nat.and_one_is_mod,
      Nat.and_one_is_mod]
  have hmore : (shiftGroup v != stop ||
      (shiftGroup v).toUInt32 &&& (1 : UInt32) != v.toUInt32 >>> 6 &&& (1 : UInt32)) = true ↔
      ¬ (-64 ≤ v.toInt ∧ v.toInt < 64) := by
    rw [Bool.or_eq_true, bne_iff_ne, bne_iff_ne, ne_eq, ne_eq, hstay, hbits]
    split_ifs at hv hrem <;> omega
  rw [sleb128SizeLoop]
  by_cases hfits : -64 ≤ v.toInt ∧ v.toInt < 64
  · rw [if_neg (by rwa [hmore, not_not]), if_pos hfits]
  · rw [if_pos (hmore.mpr hfits), if_neg hfits]

lemma sleb128SizeLoop_groups (h : Groups 64 w bytes) (v stop : Int32) (hstop : stop = signBits v)
    (hv : v.toInt = w) : sleb128SizeLoop v stop hstop = bytes.length := by
  induction h generalizing v with
  | @last w hw =>
    rw [sleb128SizeLoop_eq, if_pos (by omega)]
    rfl
  | @more w bytes hw _ ih =>
    rw [sleb128SizeLoop_eq, if_neg (by omega), ih, List.length_cons]
    rw [toInt_shiftGroup]
    omega

lemma sleb128SizeLoop_le (n : Nat) (v stop : Int32) (hstop : stop = signBits v)
    (hv : v.toInt < 0) (hbound : -(128 ^ n) ≤ v.toInt) : sleb128SizeLoop v stop hstop ≤ n + 1 := by
  induction n generalizing v with
  | zero => rw [sleb128SizeLoop_eq, if_pos (by omega)]
  | succ n ih =>
    rw [sleb128SizeLoop_eq]
    split_ifs
    · omega
    · have hnext := ih (shiftGroup v) (hstop.trans (signBits_shiftGroup v).symm)
        (by rw [toInt_shiftGroup]; omega) (by rw [toInt_shiftGroup]; omega)
      omega

/-! ### The results -/

lemma toInt_eq_cond_wide (v : Int64) : v.toInt =
    if 2 * v.toUInt64.toNat < 2 ^ 64 then (v.toUInt64.toNat : Int) else v.toUInt64.toNat - 2 ^ 64 :=
  BitVec.toInt_eq_toNat_cond v.toBitVec

lemma nonneg_iff (v : Int64) : 0 ≤ v ↔ v.toUInt64.toNat < 2 ^ 63 := by
  have hlt := v.toUInt64.toNat_lt
  have hv := toInt_eq_cond_wide v
  have hle : 0 ≤ v ↔ 0 ≤ v.toInt := Int64.le_iff_toInt_le
  rw [hle]
  split_ifs at hv <;> omega

lemma toNat_zero_start : (0 : Int64).toUInt64.toNat = 0 := rfl

lemma decodeSLEB128_of_neg {v : Int64} (hv : ¬ 0 ≤ v) (rest : List UInt8) :
    decodeSLEB128 ((encodeSLEB128 v.toUInt64).2 ++ rest) = .error 9 := by
  rw [nonneg_iff, not_lt] at hv
  have hlt := v.toUInt64.toNat_lt
  exact decodeSLEB128Loop_error (encodeSLEB128_groups v.toUInt64).1 rest 0 0 0 (by decide)
    (by decide) (by decide)
    (by simpa [toNat_zero_start] using hv) (by simpa [toNat_zero_start] using hlt)

lemma ten_le_encodeSLEB128 {v : Int64} (hv : ¬ 0 ≤ v) : 10 ≤ (encodeSLEB128 v.toUInt64).1 := by
  rw [nonneg_iff, not_lt] at hv
  obtain ⟨hgroups, hcount⟩ := encodeSLEB128_groups v.toUInt64
  have hpow := (Nat.pow_lt_pow_iff_right (by omega)).mp
    (hv.trans_lt (hgroups.lt_two_pow (by omega)))
  omega

/-- What is true of signed numbers: they come back if and only if they are not negative, and their
length is predicted if and only if they are not negative. -/
theorem decodeSLEB128_encodeSLEB128_iff (v : Int64) (v32 : Int32) (rest : List UInt8) :
    (decodeSLEB128 ((encodeSLEB128 v.toUInt64).2 ++ rest) = .ok (v, (encodeSLEB128 v.toUInt64).1) ∧
        (encodeSLEB128 v.toUInt64).1 = (encodeSLEB128 v.toUInt64).2.length ↔ 0 ≤ v) ∧
      (getSleb128Size v32 = (encodeSLEB128 v32.toInt64.toUInt64).1 ↔ 0 ≤ v32) := by
  refine ⟨⟨?_, ?_⟩, ?_⟩
  · rintro ⟨hdecode, -⟩
    by_contra hv
    rw [decodeSLEB128_of_neg hv] at hdecode
    cases hdecode
  · intro hv
    rw [nonneg_iff] at hv
    obtain ⟨hgroups, hcount⟩ := encodeSLEB128_groups v.toUInt64
    have hloop := decodeSLEB128Loop_groups hgroups rest 0 0 0 (by decide) (by decide)
      (by simpa [toNat_zero_start] using hv)
    refine ⟨?_, hcount⟩
    rw [decodeSLEB128, hloop, hcount]
    simp [toNat_zero_start]
  · have hsign : 0 ≤ v32.toInt64 ↔ 0 ≤ v32 := by
      rw [Int64.le_iff_toInt_le, Int32.le_iff_toInt_le, Int32.toInt_toInt64]
      rfl
    obtain ⟨hgroups, hcount⟩ := encodeSLEB128_groups v32.toInt64.toUInt64
    by_cases hv : 0 ≤ v32
    · have hwide := hsign.mpr hv
      have hnat : v32.toInt = v32.toInt64.toUInt64.toNat := by
        have hcond := toInt_eq_cond_wide v32.toInt64
        rw [nonneg_iff] at hwide
        rwa [Int32.toInt_toInt64, if_pos (by omega)] at hcond
      simp only [hv, iff_true]
      rw [getSleb128Size, sleb128SizeLoop_groups hgroups v32 _ rfl hnat, hcount]
    · simp only [hv, iff_false]
      have hten := ten_le_encodeSLEB128 (fun h => hv (hsign.mp h))
      have hneg : v32.toInt < 0 := by
        rw [Int32.le_iff_toInt_le, not_le] at hv
        exact hv
      have hsize := sleb128SizeLoop_le 5 v32 _ rfl hneg
        (le_trans (by norm_num) (Int32.le_toInt v32))
      rw [getSleb128Size]
      omega

/-- The number -1 is written as ten bytes, the last of which is an error for the decoder. -/
theorem decodeSLEB128_minus_one :
    (encodeSLEB128 (-1 : Int64).toUInt64).1 = 10 ∧ getSleb128Size (-1) = 1 ∧
      decodeSLEB128 (encodeSLEB128 (-1 : Int64).toUInt64).2 = .error 9 := by
  decide +kernel

end Namemangler
end Maple
