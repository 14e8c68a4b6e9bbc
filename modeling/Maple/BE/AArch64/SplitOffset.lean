import Maple.BE.AArch64.Imm.Basic
import Mathlib.Tactic.Linarith

/-!
# Splitting the offset of a memory access

`SplitOffsetWithAddInstruction` replaces an access at an offset that its instruction cannot encode by
an addition to the base register and an access at what remains of the offset. An `int64` is here
the integer that it holds, a `uint64` its bits.
-/

namespace Maple
namespace AArch64
namespace SplitOffset

def ctz (x : BitVec 32) : Nat := ((List.range 32).find? fun i => x.getLsbD i).getD 32

/-- The table with the bounds of the unsigned offsets of single accesses. -/
def kMaxPimm : List Int := [4095, 8190, 16380, 32760, 65520]

/-- The table with the bounds of the offsets of pair accesses. -/
def kMaxPairPimm : List Int := [256, 512, 512]

/-- `n` where the alignment is `2 ^ n` bytes; `dSize` is at least 8. -/
def getImmediateOffsetAlignment (dSize : Nat) : Nat := ctz (BitVec.ofNat 32 dSize) - 3

def getMaxPIMM (dSize : Nat) : Int :=
  let dSize := if dSize > 64 then 64 else dSize
  kMaxPimm.getD (getImmediateOffsetAlignment dSize) 0

/-- The index is a `uint32`. -/
def getMaxPairPIMM (dSize : Nat) : Int :=
  kMaxPairPimm.getD ((getImmediateOffsetAlignment dSize + 2 ^ 32 - 2) % 2 ^ 32) 0

def isPIMMOffsetOutOfRange (offset : Int) (dSize : Nat) : Bool :=
  offset < 0 || offset > getMaxPIMM dSize

/-- `static_cast<int32>`. -/
def asInt32 (x : Int) : Int := x.bmod (2 ^ 32)

/-- The mask `(1u << alignment) - 1`. -/
def lowMask (alignment : Nat) : BitVec 64 := BitVec.ofNat 64 (2 ^ alignment - 1)

/-- The bound of the remaining offset. -/
def maxOffset (bitLen : Nat) (forPair : Bool) : Int :=
  if forPair then getMaxPairPIMM bitLen else getMaxPIMM bitLen

/-- The bits that the last step of `SplitAndGetRemained` takes out of the addend. -/
def suffixClear (forPair : Bool) : BitVec 64 := if forPair then 0xff#64 else 0xfff#64

/-- The value of the immediate that is added to the base register. -/
def splitAndGetRemained (bitLen : Nat) (ofstVal : Int) (forPair : Bool) : Int :=
  let maxPimm := maxOffset bitLen forPair
  let q0 := ofstVal.tdiv maxPimm + (if ofstVal < 0 then -1 else 0)
  let addend := q0 * maxPimm
  let r0 := BitVec.ofInt 64 (ofstVal - addend)
  let alignment := getImmediateOffsetAlignment bitLen
  let q1 := r0 >>> alignment
  let r1 := (r0 &&& lowMask alignment).toInt
  let remained := (q1 <<< alignment).toInt
  let addend := addend + r1
  if addend > 0 then
    let remainedTmp := remained + (BitVec.ofInt 64 addend &&& suffixClear forPair).toInt
    if !isPIMMOffsetOutOfRange (asInt32 remainedTmp) bitLen &&
        BitVec.ofInt 64 remainedTmp &&& lowMask alignment = 0#64 then
      (BitVec.ofInt 64 addend &&& ~~~suffixClear forPair).toInt
    else addend
  else addend

/-- What is added to the base register, and the offset from the sum. -/
structure Split where
  addend : Int
  remained : Int
  deriving DecidableEq, Repr

def splitOffsetWithAddInstruction (bitLen : Nat) (ofstVal : Int) (forPair : Bool) : Split :=
  let immAddend := splitAndGetRemained bitLen ofstVal forPair
  ⟨immAddend, ofstVal - immAddend⟩

/-! ### Masks and shifts -/

lemma lowMask_toNat {a : Nat} (ha : a < 64) : (lowMask a).toNat = 2 ^ a - 1 := by
  have hpow : (2 : Nat) ^ a < 2 ^ 64 := Nat.pow_lt_pow_right (by decide) ha
  rw [lowMask, BitVec.toNat_ofNat, Nat.mod_eq_of_lt (by omega)]

lemma toNat_and_lowMask (x : BitVec 64) {a : Nat} (ha : a < 64) :
    (x &&& lowMask a).toNat = x.toNat % 2 ^ a := by
  rw [BitVec.toNat_and, lowMask_toNat ha, Nat.and_two_pow_sub_one_eq_mod]

lemma toNat_shift_back (x : BitVec 64) (a : Nat) :
    ((x >>> a) <<< a).toNat = x.toNat - x.toNat % 2 ^ a := by
  have hlt := x.isLt
  have hdiv := Nat.div_add_mod x.toNat (2 ^ a)
  have hback : x.toNat / 2 ^ a * 2 ^ a = x.toNat - x.toNat % 2 ^ a := by
    rw [Nat.mul_comm]
    omega
  rw [BitVec.toNat_shiftLeft, BitVec.toNat_ushiftRight, Nat.shiftLeft_eq,
    Nat.shiftRight_eq_div_pow, hback, Nat.mod_eq_of_lt (by omega)]

lemma toInt_of_small {x : BitVec 64} (h : x.toNat < 2 ^ 63) : x.toInt = x.toNat := by
  apply BitVec.toInt_eq_toNat_of_lt
  omega

lemma toNat_ofInt_of_small {k : Nat} (h : k < 2 ^ 63) : (BitVec.ofInt 64 (k : Int)).toNat = k := by
  rw [BitVec.ofInt_natCast, BitVec.toNat_ofNat, Nat.mod_eq_of_lt (by omega)]

lemma toInt_ofInt_and {k a : Nat} (hk : k < 2 ^ 63) (ha : a < 64) :
    (BitVec.ofInt 64 (k : Int) &&& lowMask a).toInt = (k % 2 ^ a : Nat) := by
  have hmod := toNat_and_lowMask (BitVec.ofInt 64 (k : Int)) ha
  rw [toNat_ofInt_of_small hk] at hmod
  have hle := Nat.mod_le k (2 ^ a)
  rw [toInt_of_small (by omega), hmod]

lemma toInt_ofInt_and_not {k : Nat} (a : Nat) (hk : k < 2 ^ 63) :
    (BitVec.ofInt 64 (k : Int) &&& ~~~lowMask a).toInt = (k - k % 2 ^ a : Nat) := by
  have hclear : BitVec.ofInt 64 (k : Int) &&& ~~~lowMask a =
      ((BitVec.ofInt 64 (k : Int) >>> a) <<< a) := by
    apply BitVec.eq_of_getLsbD_eq
    intro i hi
    simp only [BitVec.getLsbD_and, BitVec.getLsbD_not, BitVec.getLsbD_shiftLeft,
      BitVec.getLsbD_ushiftRight, hi, decide_true, Bool.true_and, lowMask, BitVec.getLsbD_ofNat,
      Nat.testBit_two_pow_sub_one]
    by_cases hia : i < a
    · simp [hia]
    · simp [hia, Nat.add_sub_cancel' (Nat.le_of_not_lt hia)]
  have hback := toNat_shift_back (BitVec.ofInt 64 (k : Int)) a
  rw [toNat_ofInt_of_small hk] at hback
  rw [hclear, toInt_of_small (by omega), hback]

lemma toInt_ofInt_shift_back {k : Nat} (a : Nat) (hk : k < 2 ^ 63) :
    ((BitVec.ofInt 64 (k : Int) >>> a) <<< a).toInt = (k - k % 2 ^ a : Nat) := by
  have hback := toNat_shift_back (BitVec.ofInt 64 (k : Int)) a
  rw [toNat_ofInt_of_small hk] at hback
  rw [toInt_of_small (by omega), hback]

/-! ### The parts of an offset -/

lemma rest_mem {m : Int} (hm : 0 < m) (v : Int) :
    0 ≤ v - (v.tdiv m + if v < 0 then -1 else 0) * m ∧
      v - (v.tdiv m + if v < 0 then -1 else 0) * m ≤ m := by
  have hmod := Int.mul_tdiv_add_tmod v m
  by_cases hv : v < 0
  · have hlo := Int.lt_tmod_of_pos v hm
    have hhi : v.tmod m ≤ 0 := by
      have hneg := Int.tmod_nonneg m (show (0 : Int) ≤ -v by omega)
      rw [Int.neg_tmod] at hneg
      omega
    have hrest : v - (v.tdiv m + -1) * m = v.tmod m + m := by linarith
    rw [if_pos hv, hrest]
    omega
  · have hlo := Int.tmod_nonneg m (Int.not_lt.mp hv)
    have hhi := Int.tmod_lt_of_pos v hm
    have hrest : v - (v.tdiv m + 0) * m = v.tmod m := by linarith
    rw [if_neg hv, hrest]
    omega

lemma asInt32_natCast {k : Nat} (h : k < 2 ^ 31) : asInt32 k = k := by
  rw [asInt32, Int.bmod_eq_of_le] <;> omega

lemma le_of_inRange {offset : Int} {dSize : Nat}
    (h : isPIMMOffsetOutOfRange offset dSize = false) : offset ≤ getMaxPIMM dSize := by
  rw [isPIMMOffsetOutOfRange, Bool.or_eq_false_iff, decide_eq_false_iff_not,
    decide_eq_false_iff_not] at h
  omega

/-- The mask of the last step, as a mask of low bits. -/
def suffixBits (forPair : Bool) : Nat := if forPair then 8 else 12

lemma suffixClear_eq (forPair : Bool) : suffixClear forPair = lowMask (suffixBits forPair) := by
  cases forPair <;> rfl

/-- The two outcomes: `addend` takes what the alignment leaves over, or gives its low bits back when
the access can take them. -/
lemma splitAndGetRemained_cases {bitLen : Nat} {forPair : Bool} {v q m : Int} {r a : Nat}
    (hm : maxOffset bitLen forPair = m) (ha : getImmediateOffsetAlignment bitLen = a) (ha4 : a ≤ 4)
    (hq : v.tdiv m + (if v < 0 then -1 else 0) = q) (hr : v - q * m = r) (hrlt : r < 2 ^ 15)
    (hv : v < 2 ^ 31) :
    v - splitAndGetRemained bitLen v forPair = (r - r % 2 ^ a : Nat) ∨
      ∃ c : Nat, q * m + (r % 2 ^ a : Nat) = c ∧
        v - splitAndGetRemained bitLen v forPair =
          (r - r % 2 ^ a + c % 2 ^ suffixBits forPair : Nat) ∧
        (r - r % 2 ^ a + c % 2 ^ suffixBits forPair : Nat) ≤ getMaxPIMM bitLen ∧
        (r - r % 2 ^ a + c % 2 ^ suffixBits forPair) % 2 ^ a = 0 := by
  have hmask := toInt_ofInt_and (k := r) (a := a) (by omega) (by omega)
  have hback := toInt_ofInt_shift_back (k := r) a (by omega)
  have hle := Nat.mod_le r (2 ^ a)
  unfold splitAndGetRemained
  simp only [hm, ha, hq, hr, hmask, hback]
  split
  case isTrue hpos =>
    obtain ⟨c, hc⟩ := Int.eq_ofNat_of_zero_le (Int.le_of_lt hpos)
    have hclt : c < 2 ^ 63 := by omega
    have hbits : suffixBits forPair ≤ 12 := by cases forPair <;> decide
    have hsuffix : c % 2 ^ suffixBits forPair < 2 ^ 12 :=
      lt_of_lt_of_le (Nat.mod_lt _ (Nat.two_pow_pos _)) (Nat.pow_le_pow_right (by decide) hbits)
    have hcle := Nat.mod_le c (2 ^ suffixBits forPair)
    rw [hc, suffixClear_eq, toInt_ofInt_and hclt (by omega), toInt_ofInt_and_not _ hclt]
    split
    case isTrue hfits =>
      right
      have hcast : ((r - r % 2 ^ a : Nat) : Int) + (c % 2 ^ suffixBits forPair : Nat) =
          (r - r % 2 ^ a + c % 2 ^ suffixBits forPair : Nat) := by push_cast; rfl
      rw [hcast, Bool.and_eq_true, Bool.not_eq_true', decide_eq_true_eq] at hfits
      obtain ⟨hrange, haligned⟩ := hfits
      rw [asInt32_natCast (by omega)] at hrange
      refine ⟨c, rfl, by omega, le_of_inRange hrange, ?_⟩
      have hmod := toNat_and_lowMask
        (BitVec.ofInt 64 (r - r % 2 ^ a + c % 2 ^ suffixBits forPair : Nat)) (show a < 64 by omega)
      rw [haligned, toNat_ofInt_of_small (by omega)] at hmod
      exact hmod.symm
    case isFalse => left; omega
  case isFalse => left; omega

/-- The bound of the offset suits the alignment: the bounds of pairs are multiples of the bits that
the last step may move. -/
structure Bounds (bitLen : Nat) (forPair : Bool) : Prop where
  alignment_le : getImmediateOffsetAlignment bitLen ≤ 4
  bytes : 2 ^ getImmediateOffsetAlignment bitLen = bitLen / 8
  pos : 0 < maxOffset bitLen forPair
  le : maxOffset bitLen forPair < 2 ^ 15
  pair : forPair = true → maxOffset bitLen forPair % 256 = 0
  single : forPair = false → maxOffset bitLen forPair = getMaxPIMM bitLen

lemma bounds_of_size {bitLen : Nat} {forPair : Bool} (hsize : bitLen ∈ [8, 16, 32, 64, 128])
    (hpair : forPair = true → 32 ≤ bitLen) : Bounds bitLen forPair := by
  simp only [List.mem_cons, List.not_mem_nil, or_false] at hsize
  obtain rfl | rfl | rfl | rfl | rfl := hsize <;> cases forPair <;>
    first
    | constructor <;> decide
    | exact absurd (hpair rfl) (by decide)

lemma low_bits_of_pair {q m : Int} {c r a : Nat} (hm : m % 256 = 0) (ha : a ≤ 4)
    (hc : q * m + (r % 2 ^ a : Nat) = c) : c % 256 = r % 2 ^ a := by
  have hlt : r % 2 ^ a < 2 ^ 4 :=
    lt_of_lt_of_le (Nat.mod_lt _ (Nat.two_pow_pos _)) (Nat.pow_le_pow_right (by decide) ha)
  obtain ⟨k, hk⟩ := Int.dvd_of_emod_eq_zero hm
  rw [hk, mul_left_comm] at hc
  omega

/-- The addition and the access after it reach the offset, and the access can be encoded. -/
structure Split.Encodes (split : Split) (ofstVal : Int) (bitLen : Nat) (forPair : Bool) : Prop where
  sum : split.addend + split.remained = ofstVal
  nonneg : 0 ≤ split.remained
  aligned : ((bitLen / 8 : Nat) : Int) ∣ split.remained
  le : split.remained ≤ if forPair then getMaxPairPIMM bitLen else getMaxPIMM bitLen

/-- Splitting keeps the offset, and what remains can be encoded, for single and for pair accesses. -/
theorem splitOffset_encodable {bitLen : Nat} {forPair : Bool} (ofst : Int32)
    (hsize : bitLen ∈ [8, 16, 32, 64, 128]) (hpair : forPair = true → 32 ≤ bitLen) :
    (splitOffsetWithAddInstruction bitLen ofst.toInt forPair).Encodes ofst.toInt bitLen forPair := by
  have hhi := ofst.toInt_lt
  generalize ofst.toInt = ofstVal at hhi ⊢
  have hb := bounds_of_size hsize hpair
  have hrest := rest_mem hb.pos ofstVal
  generalize hq : ofstVal.tdiv (maxOffset bitLen forPair) + (if ofstVal < 0 then -1 else 0) = q
    at hrest
  obtain ⟨r, hr⟩ := Int.eq_ofNat_of_zero_le hrest.1
  have hle := hb.le
  have hbytes := hb.bytes
  suffices h : 0 ≤ ofstVal - splitAndGetRemained bitLen ofstVal forPair ∧
      ((bitLen / 8 : Nat) : Int) ∣ ofstVal - splitAndGetRemained bitLen ofstVal forPair ∧
      ofstVal - splitAndGetRemained bitLen ofstVal forPair ≤ maxOffset bitLen forPair from
    ⟨by simp [splitOffsetWithAddInstruction], h.1, h.2.1, h.2.2⟩
  have hmodle := Nat.mod_le r (2 ^ getImmediateOffsetAlignment bitLen)
  obtain h | ⟨c, hc, heq, hmax, hmod⟩ :=
    splitAndGetRemained_cases rfl rfl hb.alignment_le hq hr (by omega) hhi
  · rw [← hbytes, h]
    exact ⟨by omega, Int.natCast_dvd_natCast.mpr (Nat.dvd_sub_mod r), by omega⟩
  · rw [← hbytes, heq]
    refine ⟨by omega, Int.natCast_dvd_natCast.mpr (Nat.dvd_of_mod_eq_zero hmod), ?_⟩
    cases forPair with
    | false => rwa [hb.single rfl]
    | true =>
      have hsame : c % 2 ^ suffixBits true = r % 2 ^ getImmediateOffsetAlignment bitLen :=
        low_bits_of_pair (hb.pair rfl) hb.alignment_le hc
      rw [hsame, Nat.sub_add_cancel hmodle, ← hr]
      exact hrest.2

/-- An access of 8 bytes far below the base register, and a pair access. -/
theorem splitOffset_encodable_examples :
    (splitOffsetWithAddInstruction 64 (-40000) false).Encodes (-40000) 64 false ∧
      (splitOffsetWithAddInstruction 32 1001 true).Encodes 1001 32 true :=
  ⟨splitOffset_encodable (-40000) (by decide) (by decide),
    splitOffset_encodable 1001 (by decide) (by decide)⟩

end SplitOffset
end AArch64
end Maple
