import Maple.Lib.Leb128

/-!
# LEB128

The encoders of `namemangler` for numbers of variable length, their decoders and the functions that
predict the length. The encoders give the number of bytes and the bytes that go to the stream.
-/

namespace Maple
namespace Namemangler

/-! ### The encoders -/

/-- The byte of the lowest group. -/
def groupOf (value : UInt64) : UInt8 := (value &&& 0x7f).toUInt8

@[simp] lemma toNat_groupOf (value : UInt64) : (groupOf value).toNat = value.toNat % 128 := by
  have hand : (value &&& 0x7f).toNat = value.toNat % 128 := by
    rw [UInt64.toNat_and]
    exact Nat.and_two_pow_sub_one_eq_mod value.toNat 7
  rw [groupOf, UInt64.toNat_toUInt8, hand]
  omega

@[simp] lemma toNat_shiftRight_seven (value : UInt64) : (value >>> 7).toNat = value.toNat / 128 := by
  rw [UInt64.toNat_shiftRight]
  exact Nat.shiftRight_eq_div_pow value.toNat 7

def encodeULEB128 (value : UInt64) : Nat × List UInt8 :=
  let byte := groupOf value
  if value >>> 7 ≠ 0 then
    let rest := encodeULEB128 (value >>> 7)
    (rest.1 + 1, (byte ||| 0x80) :: rest.2)
  else (1, [byte])
termination_by value.toNat
decreasing_by
  rename_i h
  have hne : (value >>> 7).toNat ≠ 0 := fun hzero => h (UInt64.toNat_inj.mp hzero)
  rw [toNat_shiftRight_seven] at hne ⊢
  omega

/-- The loop of `EncodeSLEB128` goes on: what is left is not the sign of the last group. -/
def more (byte : UInt8) (value : UInt64) : Bool :=
  !((value == 0 && byte &&& 0x40 == 0) || (value == -1 && byte &&& 0x40 != 0))

/-- `EncodeSLEB128`. The shift is that of an unsigned number. -/
def encodeSLEB128 (value : UInt64) : Nat × List UInt8 :=
  let byte := groupOf value
  if more byte (value >>> 7) then
    let rest := encodeSLEB128 (value >>> 7)
    (rest.1 + 1, (byte ||| 0x80) :: rest.2)
  else (1, [byte])
termination_by value.toNat
decreasing_by
  rename_i h
  have hne : value.toNat ≠ 0 := by
    intro hzero
    have hvalue : value = 0 := UInt64.toNat_inj.mp hzero
    subst hvalue
    exact absurd h (by decide)
  rw [toNat_shiftRight_seven]
  omega

def getUnsignedLeb128Encode (value : UInt32) : List UInt8 :=
  let byte := (value &&& 0x7f).toUInt8
  if value >>> 7 = 0 then [byte]
  else (byte ||| 0x80) :: getUnsignedLeb128Encode (value >>> 7)
termination_by value.toNat
decreasing_by
  rename_i h
  have hne : (value >>> 7).toNat ≠ 0 := fun hzero => h (UInt32.toNat_inj.mp hzero)
  have hshift : (value >>> 7).toNat = value.toNat / 128 := by
    rw [UInt32.toNat_shiftRight]
    exact Nat.shiftRight_eq_div_pow value.toNat 7
  rw [hshift] at hne ⊢
  omega

/-! ### The decoders -/

/-- The loop of `DecodeULEB128` over the bytes up to `end`. An error holds what `n` is then set to. -/
def decodeULEB128Loop : List UInt8 → Nat → UInt64 → UInt32 → Except Nat (UInt64 × Nat)
  | [], n, _, _ => .error n
  | byte :: p, n, value, shift =>
    let slice := byte.toUInt64 &&& 0x7f
    if (shift ≥ 64 && slice != 0) || (slice <<< shift.toUInt64) >>> shift.toUInt64 != slice then
      .error n
    else
      let value := value + slice <<< shift.toUInt64
      if byte ≥ 128 then decodeULEB128Loop p (n + 1) value (shift + 7) else .ok (value, n + 1)

/-- `DecodeULEB128`: the value and the number of bytes. -/
def decodeULEB128 (p : List UInt8) : Except Nat (UInt64 × Nat) := decodeULEB128Loop p 0 0 0

/-- The loop of `DecodeSLEB128` over the bytes up to `end`, with the sign extension behind it. -/
def decodeSLEB128Loop : List UInt8 → Nat → Int64 → UInt32 → Except Nat (Int64 × Nat)
  | [], n, _, _ => .error n
  | byte :: p, n, value, shift =>
    let slice := byte.toUInt64 &&& 0x7f
    if (shift ≥ 64 && slice != (if value < 0 then 0x7f else 0)) ||
        (shift == 63 && slice != 0 && slice != 0x7f) then
      .error n
    else
      let value := (value.toUInt64 ||| slice <<< shift.toUInt64).toInt64
      let shift := shift + 7
      if byte ≥ 128 then decodeSLEB128Loop p (n + 1) value shift
      else if shift < 64 && byte &&& 0x40 != 0 then
        .ok ((value.toUInt64 ||| 0xffffffffffffffff <<< shift.toUInt64).toInt64, n + 1)
      else .ok (value, n + 1)

/-- `DecodeSLEB128`: the value and the number of bytes. -/
def decodeSLEB128 (p : List UInt8) : Except Nat (Int64 × Nat) := decodeSLEB128Loop p 0 0 0

/-- The loop of `GetUnsignedLeb128Decode`, with the bytes that are left. -/
def getUnsignedLeb128DecodeLoop : List UInt8 → UInt32 → UInt32 → Option (UInt32 × List UInt8)
  | [], _, _ => none
  | byte :: ptr, result, shift =>
    let result := result ||| (byte &&& 0x7f).toUInt32 <<< shift
    if byte &&& 0x80 = 0 then some (result, ptr)
    else getUnsignedLeb128DecodeLoop ptr result (shift + 7)

/-- `GetUnsignedLeb128Decode`. Behind the end of the data nothing is known. -/
def getUnsignedLeb128Decode (data : List UInt8) : Option (UInt32 × List UInt8) :=
  getUnsignedLeb128DecodeLoop data 0 0

/-! ### The lengths -/

/-- `GetUleb128Size`, for a value that is not 0. -/
def getUleb128Size (v : UInt64) : Nat :=
  let clz := 63 - v.toNat.log2
  (64 - clz + 6) / 7

/-- The signed shift by a group, made of unsigned operations. -/
def shiftGroup (v : Int32) : Int32 :=
  let rem := v.toUInt32 >>> 7
  if v < 0 then (rem ||| (0xffffffff : UInt32) <<< 25).toInt32 else rem.toInt32

/-- The sign bits of a number, `end`. -/
def signBits (v : Int32) : Int32 := if v ≥ 0 then 0 else -1

lemma toInt_eq_cond (v : Int32) : v.toInt =
    if 2 * v.toUInt32.toNat < 2 ^ 32 then (v.toUInt32.toNat : Int) else v.toUInt32.toNat - 2 ^ 32 :=
  BitVec.toInt_eq_toNat_cond v.toBitVec

lemma neg_iff (v : Int32) : v < 0 ↔ v.toInt < 0 := Int32.lt_iff_toInt_lt

lemma toInt_shiftGroup (v : Int32) : (shiftGroup v).toInt = v.toInt / 128 := by
  have hlt := v.toUInt32.toNat_lt
  have hv := toInt_eq_cond v
  have hrem : (v.toUInt32 >>> 7).toNat = v.toUInt32.toNat / 128 := by
    rw [UInt32.toNat_shiftRight]
    exact Nat.shiftRight_eq_div_pow _ 7
  have hor : (v.toUInt32 >>> 7 ||| (0xffffffff : UInt32) <<< 25).toNat =
      v.toUInt32.toNat / 128 + 127 * 2 ^ 25 := by
    have hmask : ((0xffffffff : UInt32) <<< 25).toNat = 2 ^ 25 * 127 := by decide
    have hsmall : v.toUInt32.toNat / 128 < 2 ^ 25 := by omega
    have hdisjoint := Nat.two_pow_add_eq_or_of_lt hsmall 127
    rw [UInt32.toNat_or, hrem, hmask, Nat.or_comm, ← hdisjoint]
    omega
  unfold shiftGroup
  simp only [neg_iff]
  split_ifs with hneg
  · have hresult := toInt_eq_cond (v.toUInt32 >>> 7 ||| (0xffffffff : UInt32) <<< 25).toInt32
    rw [UInt32.toUInt32_toInt32, hor] at hresult
    rw [hresult]
    split_ifs at hv ⊢ <;> omega
  · have hresult := toInt_eq_cond (v.toUInt32 >>> 7).toInt32
    rw [UInt32.toUInt32_toInt32, hrem] at hresult
    rw [hresult]
    split_ifs at hv ⊢ <;> omega

lemma signBits_shiftGroup (v : Int32) : signBits (shiftGroup v) = signBits v := by
  have hsign : shiftGroup v ≥ 0 ↔ v ≥ 0 := by
    rw [ge_iff_le, Int32.le_iff_toInt_le, ge_iff_le, Int32.le_iff_toInt_le, toInt_shiftGroup]
    have hzero : (0 : Int32).toInt = 0 := rfl
    omega
  simp only [signBits, hsign]

/-- The loop of `GetSleb128Size`, in which `rem` is what the signed shift leaves of `v`. -/
def sleb128SizeLoop (v stop : Int32) (hstop : stop = signBits v) : Nat :=
  let rem := shiftGroup v
  let hasMore := rem != stop || rem.toUInt32 &&& (1 : UInt32) != v.toUInt32 >>> 6 &&& (1 : UInt32)
  if hasMore then sleb128SizeLoop rem stop (hstop.trans (signBits_shiftGroup v).symm) + 1
  else 1
termination_by v.toInt.natAbs
decreasing_by
  rename_i h
  have hzero : v.toInt ≠ 0 := by
    intro hv
    have hvalue : v = 0 := Int32.toInt_inj.mp hv
    subst hvalue hstop
    exact absurd h (by decide)
  have hone : v.toInt ≠ -1 := by
    intro hv
    have hvalue : v = -1 := Int32.toInt_inj.mp hv
    subst hvalue hstop
    exact absurd h (by decide)
  rw [toInt_shiftGroup]
  omega

def getSleb128Size (v : Int32) : Nat := sleb128SizeLoop v (signBits v) rfl

/-! ### What the encoders write -/

open Leb128 (Groups)

lemma toNat_or_mark {byte : UInt8} (h : byte.toNat < 128) :
    (byte ||| 0x80).toNat = byte.toNat + 128 := by
  have hdisjoint := Nat.two_pow_add_eq_or_of_lt (i := 7) h 1
  rw [UInt8.toNat_or, Nat.or_comm]
  exact hdisjoint.symm.trans (Nat.add_comm _ _)

lemma groupOf_eq_last {value : UInt64} (h : value.toNat < 128) :
    groupOf value = UInt8.ofNat value.toNat := by
  apply UInt8.toNat_inj.mp
  rw [toNat_groupOf, UInt8.toNat_ofNat', Nat.mod_eq_of_lt h, Nat.mod_eq_of_lt (by omega)]

lemma groupOf_or_mark (value : UInt64) :
    groupOf value ||| 0x80 = UInt8.ofNat (value.toNat % 128 + 128) := by
  apply UInt8.toNat_inj.mp
  have hgroup : (groupOf value).toNat < 128 := by
    rw [toNat_groupOf]
    omega
  rw [toNat_or_mark hgroup, toNat_groupOf, Leb128.toNat_more]

lemma shiftRight_seven_eq_zero {value : UInt64} : value >>> 7 = 0 ↔ value.toNat < 128 := by
  rw [← UInt64.toNat_inj, toNat_shiftRight_seven, UInt64.toNat_zero]
  omega

lemma encodeULEB128_groups (value : UInt64) :
    Groups 128 value.toNat (encodeULEB128 value).2 ∧
      (encodeULEB128 value).1 = (encodeULEB128 value).2.length := by
  induction value using encodeULEB128.induct with
  | case1 value hne ih =>
    obtain ⟨hgroups, hcount⟩ := ih
    rw [encodeULEB128, if_pos hne]
    rw [ne_eq, shiftRight_seven_eq_zero, not_lt] at hne
    rw [toNat_shiftRight_seven] at hgroups
    constructor
    · rw [groupOf_or_mark]
      exact Groups.more hne hgroups
    · simp [hcount]
  | case2 value hzero =>
    rw [encodeULEB128, if_neg hzero]
    rw [ne_eq, not_not, shiftRight_seven_eq_zero] at hzero
    constructor
    · rw [groupOf_eq_last hzero]
      exact Groups.last hzero
    · rfl

lemma and_bit_eq_zero {byte bit : UInt8} {n : Nat} (hbit : bit.toNat = 2 ^ n) :
    byte &&& bit = 0 ↔ byte.toNat / 2 ^ n % 2 = 0 := by
  have hdiv : (byte.toNat &&& 2 ^ n) / 2 ^ n = byte.toNat / 2 ^ n % 2 := by
    rw [Nat.and_div_two_pow, Nat.div_self (Nat.two_pow_pos n), Nat.and_one_is_mod]
  have hmod : (byte.toNat &&& 2 ^ n) % 2 ^ n = 0 := by
    rw [Nat.and_mod_two_pow, Nat.mod_self, Nat.and_zero]
  rw [← UInt8.toNat_inj, UInt8.toNat_and, UInt8.toNat_zero, hbit, ← hdiv]
  constructor
  · intro hzero
    rw [hzero, Nat.zero_div]
  · intro hzero
    rw [← Nat.div_add_mod (byte.toNat &&& 2 ^ n) (2 ^ n), hzero, hmod, Nat.mul_zero]

lemma and_bit_six_eq_zero {byte : UInt8} : byte &&& 0x40 = 0 ↔ byte.toNat / 64 % 2 = 0 :=
  and_bit_eq_zero (n := 6) rfl

lemma more_iff (value : UInt64) : more (groupOf value) (value >>> 7) = true ↔ 64 ≤ value.toNat := by
  have hbit : groupOf value &&& 0x40 = 0 ↔ value.toNat % 128 < 64 := by
    rw [and_bit_six_eq_zero, toNat_groupOf]
    omega
  have hrest : (value >>> 7 == -1) = false := by
    apply beq_false_of_ne
    intro heq
    have hnat := congrArg UInt64.toNat heq
    rw [toNat_shiftRight_seven] at hnat
    have hmax : (-1 : UInt64).toNat = 2 ^ 64 - 1 := by decide
    have hlt := value.toNat_lt
    omega
  simp only [more, hrest, Bool.false_and, Bool.or_false, Bool.not_eq_true', Bool.and_eq_false_iff,
    beq_eq_false_iff_ne, ne_eq, hbit, shiftRight_seven_eq_zero]
  omega

lemma encodeSLEB128_groups (value : UInt64) :
    Groups 64 value.toNat (encodeSLEB128 value).2 ∧
      (encodeSLEB128 value).1 = (encodeSLEB128 value).2.length := by
  induction value using encodeSLEB128.induct with
  | case1 value byte hmore ih =>
    obtain ⟨hgroups, hcount⟩ := ih
    rw [encodeSLEB128, if_pos hmore]
    rw [more_iff] at hmore
    rw [toNat_shiftRight_seven] at hgroups
    constructor
    · rw [groupOf_or_mark]
      exact Groups.more hmore hgroups
    · simp [hcount]
  | case2 value byte hmore =>
    rw [encodeSLEB128, if_neg hmore]
    rw [more_iff, not_le] at hmore
    constructor
    · rw [groupOf_eq_last (by omega)]
      exact Groups.last hmore
    · rfl

lemma getUnsignedLeb128Encode_groups (value : UInt32) :
    Groups 128 value.toNat (getUnsignedLeb128Encode value) := by
  have hbyte : ∀ v : UInt32, (v &&& 0x7f).toUInt8.toNat = v.toNat % 128 := by
    intro v
    have hand : (v &&& 0x7f).toNat = v.toNat % 128 := by
      rw [UInt32.toNat_and]
      exact Nat.and_two_pow_sub_one_eq_mod v.toNat 7
    rw [UInt32.toNat_toUInt8, hand]
    omega
  have hshift : ∀ v : UInt32, (v >>> 7).toNat = v.toNat / 128 := by
    intro v
    rw [UInt32.toNat_shiftRight]
    exact Nat.shiftRight_eq_div_pow v.toNat 7
  have hzero : ∀ v : UInt32, v >>> 7 = 0 ↔ v.toNat < 128 := by
    intro v
    rw [← UInt32.toNat_inj, hshift, UInt32.toNat_zero]
    omega
  induction value using getUnsignedLeb128Encode.induct with
  | case1 value h =>
    rw [getUnsignedLeb128Encode, if_pos h]
    rw [hzero] at h
    have hlast : (value &&& 0x7f).toUInt8 = UInt8.ofNat value.toNat := by
      apply UInt8.toNat_inj.mp
      rw [hbyte, UInt8.toNat_ofNat', Nat.mod_eq_of_lt h, Nat.mod_eq_of_lt (by omega)]
    rw [hlast]
    exact Groups.last h
  | case2 value h ih =>
    rw [getUnsignedLeb128Encode, if_neg h]
    rw [hzero, not_lt] at h
    rw [hshift] at ih
    have hmore : (value &&& 0x7f).toUInt8 ||| 0x80 = UInt8.ofNat (value.toNat % 128 + 128) := by
      apply UInt8.toNat_inj.mp
      rw [toNat_or_mark (by rw [hbyte]; omega), hbyte, Leb128.toNat_more]
    rw [hmore]
    exact Groups.more h ih

end Namemangler
end Maple
