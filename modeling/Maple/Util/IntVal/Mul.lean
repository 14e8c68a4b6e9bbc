import Maple.Util.IntVal.Basic

/-!
# Multiplication of wide values

Two words are multiplied by halves of 32 bits; `WideMul` adds the products of all pairs of words
whose weight is below the capacity.
-/

namespace Maple
namespace IntVal

open Words

/-- `LoHi`: a `uint64` as two `uint32`. -/
structure LoHi where
  lo : UInt32
  hi : UInt32
  deriving DecidableEq, Repr

def getLoHi (value : UInt64) : LoHi := ⟨value.toUInt32, (value >>> 32).toUInt32⟩

def combineLoHi (halfs : LoHi) : UInt64 := (halfs.hi.toUInt64 <<< 32) + halfs.lo.toUInt64

/-- `AddCarry` of `uint32`. -/
def addCarry32 (dst src : UInt32) : UInt32 × UInt32 :=
  (dst + src, if dst + src < src then 1 else 0)

/-- `MulOverflow`: the upper and the lower word of a product. -/
def mulOverflow (src0 src1 : LoHi) : UInt64 × UInt64 :=
  let mulLo0Lo1 := getLoHi (src0.lo.toUInt64 * src1.lo.toUInt64)
  let mulLo0Hi1 := getLoHi (src0.lo.toUInt64 * src1.hi.toUInt64)
  let mulHi0Lo1 := getLoHi (src0.hi.toUInt64 * src1.lo.toUInt64)
  let mulHi0Hi1 := getLoHi (src0.hi.toUInt64 * src1.hi.toUInt64)
  let high1 := addCarry32 mulLo0Lo1.hi mulLo0Hi1.lo
  let high2 := addCarry32 high1.1 mulHi0Lo1.lo
  let result := combineLoHi ⟨mulLo0Lo1.lo, high2.1⟩
  let over1 := addCarry32 (high1.2 + high2.2) mulLo0Hi1.hi
  let over2 := addCarry32 over1.1 mulHi0Lo1.hi
  let over3 := addCarry32 over2.1 mulHi0Hi1.lo
  let overflowHi := mulHi0Hi1.hi + (over1.2 + over2.2 + over3.2)
  (combineLoHi ⟨over3.1, overflowHi⟩, result)

/-- The words above the one that `MulPart` has just changed take its carry and the upper word of
the product. -/
def addUpper (carry overflow : UInt64) : List UInt64 → List UInt64
  | [] => []
  | u :: us =>
    let first := addCarry u carry
    let second := addCarry first.1 overflow
    second.1 :: carryLoop (fun carry => carry != 0) (first.2 + second.2) us

/-- The loop of `MulPart` over the words of `src` and of `dst` from the word `part` on. -/
def mulPartLoop (multiplier : UInt64) : List UInt64 → List UInt64 → List UInt64
  | d :: ds, s :: ss =>
    let mul := mulOverflow (getLoHi s) (getLoHi multiplier)
    let low := addCarry d mul.2
    low.1 :: mulPartLoop multiplier (addUpper low.2 mul.1 ds) ss
  | ds, _ => ds

def mulPart (dst src : List UInt64) (multiplier : UInt64) (part : Nat) : List UInt64 :=
  dst.take part ++ mulPartLoop multiplier (dst.drop part) src

/-- The loop of `WideMul` over the words of the second factor. -/
def wideMul (src0 src1 : List UInt64) : List UInt64 :=
  src1.zipIdx.foldl (fun dst word => mulPart dst src0 word.1 word.2)
    (List.replicate src1.length 0)

/-! ### Halves -/

/-- The number that two halves stand for. -/
def LoHi.toNat (x : LoHi) : Nat := x.lo.toNat + 2 ^ 32 * x.hi.toNat

lemma toNat_getLoHi (v : UInt64) : (getLoHi v).toNat = v.toNat := by
  have hv := v.toNat_lt
  have hshift : (v >>> 32).toNat = v.toNat / 2 ^ 32 := by
    rw [UInt64.toNat_shiftRight, Nat.shiftRight_eq_div_pow]
    rfl
  simp only [LoHi.toNat, getLoHi, UInt64.toNat_toUInt32, hshift]
  omega

lemma toNat_combineLoHi (x : LoHi) : (combineLoHi x).toNat = x.toNat := by
  have hlo := x.lo.toNat_lt
  have hhi := x.hi.toNat_lt
  have hshift : (x.hi.toUInt64 <<< 32).toNat = x.hi.toNat * 2 ^ 32 := by
    rw [UInt64.toNat_shiftLeft, Nat.shiftLeft_eq, UInt32.toNat_toUInt64]
    change x.hi.toNat * 2 ^ 32 % 2 ^ 64 = _
    omega
  rw [combineLoHi, UInt64.toNat_add, hshift, UInt32.toNat_toUInt64, LoHi.toNat]
  omega

lemma addCarry32_spec (dst src : UInt32) :
    (addCarry32 dst src).1.toNat + 2 ^ 32 * (addCarry32 dst src).2.toNat =
      dst.toNat + src.toNat ∧ (addCarry32 dst src).2.toNat ≤ 1 := by
  have hd := dst.toNat_lt
  have hs := src.toNat_lt
  simp only [addCarry32, UInt32.lt_iff_toNat_lt, UInt32.toNat_add]
  split_ifs
  · rw [UInt32.toNat_one]
    omega
  · rw [UInt32.toNat_zero]
    omega

lemma toNat_getLoHi_mul (a b : UInt32) :
    (getLoHi (a.toUInt64 * b.toUInt64)).toNat = a.toNat * b.toNat ∧
      a.toNat * b.toNat ≤ (2 ^ 32 - 1) * (2 ^ 32 - 1) := by
  have ha := a.toNat_lt
  have hb := b.toNat_lt
  have hle : a.toNat * b.toNat ≤ (2 ^ 32 - 1) * (2 ^ 32 - 1) :=
    Nat.mul_le_mul (by omega) (by omega)
  refine ⟨?_, hle⟩
  rw [toNat_getLoHi, UInt64.toNat_mul, UInt32.toNat_toUInt64, UInt32.toNat_toUInt64]
  omega

lemma mulOverflow_spec (src0 src1 : LoHi) :
    (mulOverflow src0 src1).2.toNat + 2 ^ 64 * (mulOverflow src0 src1).1.toNat =
      src0.toNat * src1.toNat := by
  obtain ⟨h00, hle00⟩ := toNat_getLoHi_mul src0.lo src1.lo
  obtain ⟨h01, hle01⟩ := toNat_getLoHi_mul src0.lo src1.hi
  obtain ⟨h10, hle10⟩ := toNat_getLoHi_mul src0.hi src1.lo
  obtain ⟨h11, hle11⟩ := toNat_getLoHi_mul src0.hi src1.hi
  have hproduct : src0.toNat * src1.toNat = src0.lo.toNat * src1.lo.toNat +
      2 ^ 32 * (src0.lo.toNat * src1.hi.toNat + src0.hi.toNat * src1.lo.toNat) +
      2 ^ 64 * (src0.hi.toNat * src1.hi.toNat) := by
    rw [LoHi.toNat, LoHi.toNat]
    ring
  rw [hproduct, ← h00, ← h01, ← h10, ← h11]
  rw [← h00] at hle00
  rw [← h01] at hle01
  rw [← h10] at hle10
  rw [← h11] at hle11
  simp only [mulOverflow, toNat_combineLoHi]
  generalize getLoHi (src0.lo.toUInt64 * src1.lo.toUInt64) = p00 at *
  generalize getLoHi (src0.lo.toUInt64 * src1.hi.toUInt64) = p01 at *
  generalize getLoHi (src0.hi.toUInt64 * src1.lo.toUInt64) = p10 at *
  generalize getLoHi (src0.hi.toUInt64 * src1.hi.toUInt64) = p11 at *
  simp only [LoHi.toNat] at *
  -- the second digit of 32 bits
  obtain ⟨hhigh1, hc1⟩ := addCarry32_spec p00.hi p01.lo
  generalize addCarry32 p00.hi p01.lo = high1 at *
  obtain ⟨hhigh2, hc2⟩ := addCarry32_spec high1.1 p10.lo
  generalize addCarry32 high1.1 p10.lo = high2 at *
  have hcarry : (high1.2 + high2.2).toNat = high1.2.toNat + high2.2.toNat := by
    rw [UInt32.toNat_add]
    omega
  -- the third digit
  obtain ⟨hover1, hc3⟩ := addCarry32_spec (high1.2 + high2.2) p01.hi
  generalize addCarry32 (high1.2 + high2.2) p01.hi = over1 at *
  obtain ⟨hover2, hc4⟩ := addCarry32_spec over1.1 p10.hi
  generalize addCarry32 over1.1 p10.hi = over2 at *
  obtain ⟨hover3, hc5⟩ := addCarry32_spec over2.1 p11.lo
  generalize addCarry32 over2.1 p11.lo = over3 at *
  -- the fourth digit does not overflow
  have hfourth : (p11.hi + (over1.2 + over2.2 + over3.2)).toNat =
      p11.hi.toNat + over1.2.toNat + over2.2.toNat + over3.2.toNat := by
    simp only [UInt32.toNat_add]
    omega
  rw [hfourth]
  omega

/-! ### Rows -/

lemma value_addUpper (carry overflow : UInt64) (us : List UInt64) :
    value (addUpper carry overflow us) ≡ carry.toNat + overflow.toNat + value us
      [MOD 2 ^ (64 * us.length)] := by
  cases us with
  | nil => exact Nat.modEq_one
  | cons u us =>
    obtain ⟨hfirst, hc1⟩ := addCarry_spec u carry
    obtain ⟨hsecond, hc2⟩ := addCarry_spec (addCarry u carry).1 overflow
    have hsum : ((addCarry u carry).2 + (addCarry (addCarry u carry).1 overflow).2).toNat =
        (addCarry u carry).2.toNat + (addCarry (addCarry u carry).1 overflow).2.toNat := by
      rw [UInt64.toNat_add]
      omega
    have hzero : ∀ c : UInt64, (c != 0) = false → c = 0 := fun c hc => by simpa using hc
    rw [addUpper, List.length_cons, value_cons u]
    refine modEq_cons (value_carryLoop (fun c hc _ => hzero c hc) (hzero _) us) ?_
    rw [hsum]
    omega

@[simp] lemma length_addUpper (carry overflow : UInt64) (us : List UInt64) :
    (addUpper carry overflow us).length = us.length := by
  cases us with
  | nil => rfl
  | cons u us => exact congrArg Nat.succ (length_carryLoop _ _ us)

@[simp] lemma length_mulPartLoop (multiplier : UInt64) (ds ss : List UInt64) :
    (mulPartLoop multiplier ds ss).length = ds.length := by
  induction ss generalizing ds with
  | nil => cases ds <;> rfl
  | cons s ss ih =>
    cases ds with
    | nil => rfl
    | cons d ds => exact congrArg Nat.succ ((ih _).trans (length_addUpper _ _ ds))

lemma value_mulPartLoop (multiplier : UInt64) (ds ss : List UInt64) (hlen : ds.length ≤ ss.length) :
    value (mulPartLoop multiplier ds ss) ≡ value ds + value ss * multiplier.toNat
      [MOD 2 ^ (64 * ds.length)] := by
  induction ss generalizing ds with
  | nil =>
    obtain rfl := List.length_eq_zero_iff.mp (Nat.le_zero.mp hlen)
    exact Nat.modEq_one
  | cons s ss ih =>
    cases ds with
    | nil => exact Nat.modEq_one
    | cons d ds =>
      have hmul := mulOverflow_spec (getLoHi s) (getLoHi multiplier)
      rw [toNat_getLoHi, toNat_getLoHi] at hmul
      have hlow := (addCarry_spec d (mulOverflow (getLoHi s) (getLoHi multiplier)).2).1
      have hupper := value_addUpper (addCarry d (mulOverflow (getLoHi s) (getLoHi multiplier)).2).2
        (mulOverflow (getLoHi s) (getLoHi multiplier)).1 ds
      have hrow := ih (addUpper (addCarry d (mulOverflow (getLoHi s)
        (getLoHi multiplier)).2).2 (mulOverflow (getLoHi s) (getLoHi multiplier)).1 ds) (by
          rw [length_addUpper]
          exact Nat.le_of_succ_le_succ hlen)
      rw [length_addUpper] at hrow
      rw [mulPartLoop, List.length_cons, value_cons d, value_cons s]
      refine modEq_cons (hrow.trans (hupper.add_right _)) ?_
      rw [Nat.add_mul, Nat.mul_assoc]
      omega

lemma value_mulPart {dst src : List UInt64} (multiplier : UInt64) {part : Nat}
    (hlen : dst.length ≤ src.length) (hpart : part ≤ dst.length) :
    value (mulPart dst src multiplier part) ≡
      value dst + value src * (2 ^ (64 * part) * multiplier.toNat)
      [MOD 2 ^ (64 * dst.length)] := by
  have htake : (dst.take part).length = part := List.length_take_of_le hpart
  have hdrop : (dst.drop part).length = dst.length - part := List.length_drop
  have hrow := value_mulPartLoop multiplier (dst.drop part) src (by omega)
  have hcap : 2 ^ (64 * dst.length) = 2 ^ (64 * part) * 2 ^ (64 * (dst.drop part).length) := by
    rw [← pow_add, hdrop]
    congr 1
    omega
  have hsplit : value dst = value (dst.take part) + 2 ^ (64 * part) * value (dst.drop part) := by
    have happend := value_append (dst.take part) (dst.drop part)
    rwa [List.take_append_drop, htake] at happend
  rw [mulPart, value_append, htake, hcap, hsplit, Nat.add_assoc]
  refine Nat.ModEq.add_left _ ?_
  convert hrow.mul_left' (2 ^ (64 * part)) using 1
  ring

lemma length_mulPart (dst src : List UInt64) (multiplier : UInt64) (part : Nat) :
    (mulPart dst src multiplier part).length = dst.length := by
  rw [mulPart, List.length_append, length_mulPartLoop, ← List.length_append,
    List.take_append_drop]

lemma value_foldl_mulPart (src words : List UInt64) (k : Nat) (dst : List UInt64)
    (hlen : dst.length ≤ src.length) (hk : k + words.length ≤ dst.length) :
    ((words.zipIdx k).foldl (fun dst word => mulPart dst src word.1 word.2) dst).length =
        dst.length ∧
      value ((words.zipIdx k).foldl (fun dst word => mulPart dst src word.1 word.2) dst) ≡
        value dst + value src * (2 ^ (64 * k) * value words) [MOD 2 ^ (64 * dst.length)] := by
  induction words generalizing k dst with
  | nil => simp [Nat.ModEq.refl]
  | cons w words ih =>
    rw [List.length_cons] at hk
    have hpart : k ≤ dst.length := by omega
    have hlength := length_mulPart dst src w k
    obtain ⟨ihlen, ihvalue⟩ := ih (k + 1) (mulPart dst src w k)
      (by rw [hlength]; exact hlen) (by rw [hlength]; omega)
    rw [hlength] at ihlen ihvalue
    rw [List.zipIdx_cons, List.foldl_cons]
    refine ⟨ihlen, ihvalue.trans ?_⟩
    convert (value_mulPart w hlen hpart).add_right _ using 1
    rw [value_cons, two_pow_succ_words]
    ring

lemma value_wideMul {us rs : List UInt64} (hlen : us.length = rs.length) :
    (wideMul us rs).length = us.length ∧
      value (wideMul us rs) ≡ value us * value rs [MOD 2 ^ (64 * us.length)] := by
  have hzero : (List.replicate rs.length (0 : UInt64)).length = us.length := by
    rw [List.length_replicate, hlen]
  obtain ⟨hlength, hvalue⟩ := value_foldl_mulPart us rs 0
    (List.replicate rs.length 0) (by rw [hzero]) (by rw [hzero, hlen, Nat.zero_add])
  rw [hzero] at hlength hvalue
  rw [value_replicate_zero, Nat.mul_zero, pow_zero, Nat.one_mul, Nat.zero_add] at hvalue
  exact ⟨hlength, hvalue⟩

end IntVal
end Maple
