import Maple.IR.FPConstTable
import Maple.Lib.BinaryFormat

/-!
# Floating point constants of 32, 64 and 128 bits

`MIRFloatConst`, `MIRDoubleConst` and `MIRFloat128Const` (`mir_const.h`). A constant is kept as the
pattern of its value.
-/

namespace Maple

/-- `MIRFloatConst`, by the bits of its value. -/
structure MIRFloatConst where
  intValue : UInt32

/-- `MIRDoubleConst`, by the bits of its value. -/
structure MIRDoubleConst where
  intValue : UInt64

def kDoubleLength : Int := 64
def kFirstBits : Int := 4
def kDoubleExpPos : Nat := 51
def kFloatSignPos : UInt32 := 31
def kFloatExpPos : Nat := 22

open MIRFloat128Const (kDoubleSignPos kDoubleExpShiftBits kDoubleExpLeftBits)

/-- The loop over `numPos` in `GetFloat128Value`, which looks for a one from bit `pos` on down. -/
def findNumPos (mantiss : UInt64) : Nat → Int → Option Int
  | 0, numPos => if mantiss &&& 1 ≠ 1 then none else some numPos
  | pos + 1, numPos =>
    if (mantiss >>> UInt64.ofNat (pos + 1)) &&& 1 ≠ 1 then findNumPos mantiss pos (numPos + 1)
    else some numPos

namespace MIRFloatConst

def isinf (c : MIRFloatConst) : Bool := c.intValue &&& 0x7fffffff == 0x7f800000

def isnan (c : MIRFloatConst) : Bool := c.intValue &&& 0x7fffffff > 0x7f800000

def getSign (c : MIRFloatConst) : UInt32 := (c.intValue &&& (1 <<< kFloatSignPos)) >>> kFloatSignPos

/-- `GetFloat128Value` of a number with a leading one. -/
def normalValue (sign exp mantiss : UInt64) : UInt64 × UInt64 :=
  let ldoubleExp := UInt64.ofInt ((exp.toNat : Int) - 0x7f + 0x3fff)
  ((sign <<< kDoubleSignPos) ||| (ldoubleExp <<< kDoubleExpShiftBits) ||| (mantiss <<< 25), 0)

/-- `GetFloat128Value` of a number without a leading one. -/
def subnormalValue (sign mantiss : UInt64) (numPos : Int) : UInt64 × UInt64 :=
  let ldoubleExp := UInt64.ofInt (-0x7e - (numPos + 1) + 0x3fff)
  let numLdoubleMantissBits := 23 - (numPos + 1)
  let ldoubleMantiss := mantiss &&& ((1 <<< UInt64.ofInt numLdoubleMantissBits) - 1)
  ((sign <<< kDoubleSignPos) ||| (ldoubleExp <<< kDoubleExpShiftBits) |||
    (ldoubleMantiss <<< UInt64.ofInt (25 + numPos + 1)), 0)

def getFloat128Value (c : MIRFloatConst) : Option (UInt64 × UInt64) :=
  if c.isinf && c.getSign == 0 then some (0x7fff000000000000, 0)
  else if c.isinf && c.getSign == 1 then some (0xffff000000000000, 0)
  else if c.intValue ^^^ (1 <<< kFloatSignPos) == 0 then some (0x8000000000000000, 0)
  else if c.intValue == 0 then some (0, 0)
  else if c.isnan then some (0x7fff800000000000, 0)
  else
    let sign := c.getSign.toUInt64
    let exp := ((c.intValue &&& 0x7f800000) >>> 23).toUInt64
    let mantiss := (c.intValue &&& 0x007fffff).toUInt64
    if exp > 0 && exp < 0xff then some (normalValue sign exp mantiss)
    else if exp == 0 then (findNumPos mantiss kFloatExpPos 0).map (subnormalValue sign mantiss)
    else none

end MIRFloatConst

namespace MIRDoubleConst

def isinf (c : MIRDoubleConst) : Bool := c.intValue &&& 0x7fffffffffffffff == 0x7ff0000000000000

def isnan (c : MIRDoubleConst) : Bool := c.intValue &&& 0x7fffffffffffffff > 0x7ff0000000000000

def getSign (c : MIRDoubleConst) : UInt64 :=
  (c.intValue &&& (1 <<< kDoubleSignPos)) >>> kDoubleSignPos

/-- `GetFloat128Value` of a number with a leading one. -/
def normalValue (sign exp mantiss : UInt64) : UInt64 × UInt64 :=
  let ldoubleExp := (UInt32.ofInt ((exp.toNat : Int) - 0x3ff + 0x3fff)).toUInt64
  let ldoubleMantissFirstBits := mantiss >>> UInt64.ofInt kFirstBits
  let ldoubleMantissSecondBits := (mantiss &&& 0xf) <<< 60
  ((sign <<< kDoubleSignPos) ||| (ldoubleExp <<< kDoubleExpShiftBits) ||| ldoubleMantissFirstBits,
    ldoubleMantissSecondBits)

/-- `GetFloat128Value` of a number without a leading one. -/
def subnormalValue (sign mantiss : UInt64) (numPos : Int) : UInt64 × UInt64 :=
  let ldoubleExp := (UInt32.ofInt (-0x3fe - (numPos + 1) + 0x3fff)).toUInt64
  let numLdoubleMantissBits := 52 - (numPos + 1)
  let ldoubleMantiss := mantiss &&& ((1 <<< UInt64.ofInt numLdoubleMantissBits) - 1)
  let ldoubleMantissHighBits :=
    if kFirstBits - (numPos + 1) > 0 then
      ldoubleMantiss >>> UInt64.ofInt (kFirstBits - (numPos + 1))
    else ldoubleMantiss <<< UInt64.ofInt |kFirstBits - (numPos + 1)|
  let lowByte :=
    if kDoubleLength - numLdoubleMantissBits + kDoubleExpShiftBits.toNat < kDoubleLength then
      ldoubleMantiss <<<
        UInt64.ofInt (kDoubleLength - numLdoubleMantissBits + kDoubleExpShiftBits.toNat)
    else 0
  ((sign <<< kDoubleSignPos) ||| (ldoubleExp <<< kDoubleExpShiftBits) ||| ldoubleMantissHighBits,
    lowByte)

def getFloat128Value (c : MIRDoubleConst) : Option (UInt64 × UInt64) :=
  if c.isinf && c.getSign == 0 then some (0x7fff000000000000, 0)
  else if c.isinf && c.getSign == 1 then some (0xffff000000000000, 0)
  else if c.intValue ^^^ (1 <<< kDoubleSignPos) == 0 then some (0x8000000000000000, 0)
  else if c.intValue == 0 then some (0, 0)
  else if c.isnan then some (0x7fff800000000000, 0)
  else
    let sign := c.getSign
    let exp := (c.intValue &&& 0x7ff0000000000000) >>> 52
    let mantiss := c.intValue &&& 0x000fffffffffffff
    if exp > 0 && exp < 0x7ff then some (normalValue sign exp mantiss)
    else if exp == 0 then (findNumPos mantiss kDoubleExpPos 0).map (subnormalValue sign mantiss)
    else none

end MIRDoubleConst

namespace MIRFloat128Const

def getExponent (c : MIRFloat128Const) : Int :=
  ((c.val0 &&& 0x7fff000000000000) >>> kDoubleExpShiftBits).toNat

/-- The value of `GetDoubleValue` for a double with a leading one. -/
def normalDouble (c : MIRFloat128Const) : UInt64 :=
  let doubleMantiss :=
    ((c.val0 &&& 0x0000ffffffffffff) <<< UInt64.ofInt kFirstBits) ||| (c.val1 >>> 60)
  let doubleExp := (UInt32.ofInt (c.getExponent - 0x3fff + 0x3ff)).toUInt64
  (c.getSign <<< 63) ||| (doubleExp <<< 52) ||| doubleMantiss

/-- The value of `GetDoubleValue` for a double without a leading one. -/
def subnormalDouble (c : MIRFloat128Const) : UInt64 :=
  let doubleMantiss := ((c.val0 &&& 0x0000ffffffffffff) <<< UInt64.ofInt kFirstBits) |||
    (c.val1 >>> 60) ||| 0x0010000000000000
  let doubleMantiss := doubleMantiss >>> UInt64.ofInt (-0x3fe - (c.getExponent - 0x3fff))
  (c.getSign <<< 63) ||| doubleMantiss

/-- `GetDoubleValue`, by the bits of the double. -/
def getDoubleValue (c : MIRFloat128Const) : UInt64 :=
  if c.val1 == 0 && c.val0 == 1 <<< kDoubleSignPos then 0x8000000000000000
  else if c.val1 == 0 && c.val0 == 0 then 0
  else if c.val1 == 0 && c.val0 == 0x7fff000000000000 then 0x7ff0000000000000
  else if c.val1 == 0 && c.val0 == 0xffff000000000000 then 0xfff0000000000000
  else if c.val0 >>> kDoubleExpShiftBits == 0x7fff &&
      (c.val0 <<< kDoubleExpLeftBits != 0 || c.val1 != 0) then 0x7ff8000000000000
  else if c.getExponent - 0x3fff > 0x3ff then
    if c.getSign ≠ 0 then 0xfff0000000000000 else 0x7ff0000000000000
  else if c.getExponent - 0x3fff < -0x3fe - 52 then 0
  else if c.getExponent - 0x3fff ≥ -0x3fe then c.normalDouble
  else c.subnormalDouble

end MIRFloat128Const

/-! ### The formats -/

def single : BinaryFormat := ⟨8, 23⟩

def double : BinaryFormat := ⟨11, 52⟩

def quad : BinaryFormat := ⟨15, 112⟩

/-- The pattern of the two words. -/
def MIRFloat128Const.bits (c : MIRFloat128Const) : Nat := c.val0.toNat * 2 ^ 64 + c.val1.toNat

/-! ### Fields of words -/

section Words

variable {w sign exp mantiss : UInt64} {sh : Nat}

lemma toNat_ofInt {x : Int} (h0 : 0 ≤ x) (h : x < 2 ^ 64) : (UInt64.ofInt x).toNat = x.toNat := by
  rw [UInt64.ofInt, Int.emod_eq_of_lt h0 h, UInt64.toNat_ofNat', Nat.mod_eq_of_lt (by omega)]

lemma toNat_toUInt64_ofInt {x : Int} (h0 : 0 ≤ x) (h : x < 2 ^ 32) :
    (UInt32.ofInt x).toUInt64.toNat = x.toNat := by
  rw [UInt32.toNat_toUInt64, UInt32.ofInt, Int.emod_eq_of_lt h0 h, UInt32.toNat_ofNat',
    Nat.mod_eq_of_lt (by omega)]

lemma toNat_field {mask amount : UInt64} (len : Nat) (hamount : amount.toNat = sh) (hsh : sh < 64)
    (hmask : mask.toNat >>> sh = 2 ^ len - 1) :
    ((w &&& mask) >>> amount).toNat = w.toNat / 2 ^ sh % 2 ^ len := by
  rw [UInt64.toNat_shiftRight, UInt64.toNat_and, hamount, Nat.mod_eq_of_lt hsh,
    Nat.shiftRight_and_distrib, hmask, Nat.and_two_pow_sub_one_eq_mod, Nat.shiftRight_eq_div_pow]

lemma toNat_and_mask {mask : UInt64} (len : Nat) (hmask : mask.toNat = 2 ^ len - 1) :
    (w &&& mask).toNat = w.toNat % 2 ^ len := by
  rw [UInt64.toNat_and, hmask, Nat.and_two_pow_sub_one_eq_mod]

lemma toNat_shiftLeft_of_lt {amount : UInt64} (hamount : amount.toNat = sh) (hsh : sh < 64)
    (h : w.toNat * 2 ^ sh < 2 ^ 64) : (w <<< amount).toNat = w.toNat * 2 ^ sh := by
  rw [UInt64.toNat_shiftLeft, hamount, Nat.mod_eq_of_lt hsh, Nat.shiftLeft_eq, Nat.mod_eq_of_lt h]

lemma toNat_or_of_lt {low : UInt64} {k : Nat} (hw : w.toNat = k * 2 ^ sh)
    (hlow : low.toNat < 2 ^ sh) : (w ||| low).toNat = k * 2 ^ sh + low.toNat := by
  rw [UInt64.toNat_or, hw, ← Nat.shiftLeft_eq, Nat.shiftLeft_add_eq_or_of_lt hlow]

lemma toNat_sign {s : Bool} (hsign : sign.toNat = s.toNat) :
    (sign <<< 63).toNat = s.toNat * 2 ^ 63 := by
  have hle := s.toNat_le
  have h63 : (63 : UInt64).toNat = 63 := rfl
  rw [toNat_shiftLeft_of_lt h63 (by omega) (by omega), hsign]

lemma toNat_pack (sh : Nat) {amount : UInt64} {s : Bool} (hamount : amount.toNat = sh) (hsh : sh < 63)
    (hsign : sign.toNat = s.toNat) (hexp : exp.toNat < 2 ^ (63 - sh))
    (hmantiss : mantiss.toNat < 2 ^ sh) :
    ((sign <<< 63) ||| (exp <<< amount) ||| mantiss).toNat =
      (s.toNat * 2 ^ (63 - sh) + exp.toNat) * 2 ^ sh + mantiss.toNat := by
  have hpow : 2 ^ (63 - sh) * 2 ^ sh = 2 ^ 63 := by
    rw [← pow_add, Nat.sub_add_cancel hsh.le]
  have hexp63 : exp.toNat * 2 ^ sh < 2 ^ 63 := by
    rw [← hpow]
    exact Nat.mul_lt_mul_of_pos_right hexp (Nat.two_pow_pos _)
  have hexpSh : (exp <<< amount).toNat = exp.toNat * 2 ^ sh :=
    toNat_shiftLeft_of_lt hamount (by omega) (by omega)
  have hsignSh := toNat_sign hsign
  have hupper : ((sign <<< 63) ||| (exp <<< amount)).toNat =
      (s.toNat * 2 ^ (63 - sh) + exp.toNat) * 2 ^ sh := by
    rw [toNat_or_of_lt hsignSh (by omega), hexpSh, Nat.add_mul, mul_assoc, hpow]
  exact toNat_or_of_lt hupper hmantiss

end Words

end Maple
