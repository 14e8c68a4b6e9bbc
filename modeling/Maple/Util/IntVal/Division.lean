import Maple.Util.IntVal.BasecaseDivRem
import Maple.Util.IntVal.Typed

/-!
# Division of `IntVal`

Values in several words are divided by their absolute values, in base `2 ^ 32`. The quotient is
truncated.
-/

namespace Maple
namespace IntVal

open Words

def getNumHalfWords (bitWidth : Nat) : Nat := (bitWidth + 32 - 1) % 2 ^ 16 / 32

/-- The `uint32` words in the memory of words. -/
def halfWords (ws : List UInt64) : List UInt32 :=
  ws.flatMap fun w => [(getLoHi w).lo, (getLoHi w).hi]

/-- The words in the memory of `uint32` words, filled up with zeros. -/
def joinHalfWords : List UInt32 → List UInt64
  | lo :: hi :: rest => combineLoHi ⟨lo, hi⟩ :: joinHalfWords rest
  | [lo] => [combineLoHi ⟨lo, 0⟩]
  | [] => []

def copyUint32ToUint64 (dstSize : Nat) (src : List UInt32) : Option (List UInt64) :=
  let dstBytes := dstSize * 8
  let srcBytes := src.length * 4
  if srcBytes ≤ dstBytes then
    some (joinHalfWords src ++ List.replicate (dstSize - (joinHalfWords src).length) 0)
  else none

/-- What `WideUnsignedDivRem` gives to `BasecaseDivRem`, and the number of bits of the
normalization. -/
structure BasecaseArgs where
  a : List UInt32
  b : List UInt32
  n : Nat
  m : Nat
  k : Nat

/-- The part of `WideUnsignedDivRem` before the call of `BasecaseDivRem`. -/
def basecaseArgs (delimer divisor : IntVal) : BasecaseArgs :=
  let n := getNumHalfWords divisor.countSignificantBits
  -- +1 because normalization may lead to increasing of width
  let m := (getNumHalfWords delimer.countSignificantBits + 2 ^ 16 - n + 1) % 2 ^ 16
  let a := (halfWords delimer.words).take (n + m - 1) ++ [0]
  let b := (halfWords divisor.words).take n
  let (a, b, k) := normalize a b n
  ⟨a, b, n, m, k⟩

/-- `IntVal::WideUnsignedDivRem`, with its assertion about `q[m]`. -/
def wideUnsignedDivRem (delimer divisor : IntVal) : Option (IntVal × IntVal) :=
  -- fast division for values which can be fit into uint64
  if delimer.IsOneSignificantWord ∧ divisor.IsOneSignificantWord then
    let retShape := { divisor.shape with sign := false }
    let delimerVal := delimer.word
    let divisorVal := divisor.word
    if divisorVal = 0 then none
    else some (ofNumber retShape (delimerVal / divisorVal), ofNumber retShape (delimerVal % divisorVal))
  else
    let args := basecaseArgs delimer divisor
    do
      let (r, q) ← basecaseDivRem args.a args.b args.n args.m
      -- unnormalize remainder
      let r := shiftRight r args.k false
      let numWords := delimer.words.length
      if q.getD args.m 0 ≠ 0 then none
      else
        let quotient ← copyUint32ToUint64 numWords (q.take args.m)
        let remainder ← copyUint32ToUint64 numWords (r.take (args.n + args.m - 1))
        let uQuotient ← ofPointer delimer.shape quotient
        let uRemainder ← ofPointer delimer.shape remainder
        return (uQuotient, uRemainder)

def abs (val : IntVal) : IntVal :=
  if !val.sign then val.copy
  else
    let ret := val.withSign false
    if val.getSignBit then ret.neg else ret.copy

/-- `operator<` of values in several words. `BitwiseCompare` begins with the last word of the
width, which has to be there. -/
def wideLess (a b : IntVal) : Option Bool :=
  if (a.width + kWordBitSize - 1) % 2 ^ 16 / kWordBitSize ≤ min a.words.length b.words.length then
    some (a.lt b)
  else none

/-- `IntVal::WideDivRem`: the quotient and the remainder. -/
def wideDivRem (a rhs : IntVal) : Option (IntVal × IntVal) := do
  let isDivizorNeg := rhs.sign && rhs.getSignBit
  let divisor := rhs.abs
  let isDelimerNeg := a.sign && a.getSignBit
  let delimer := a.abs
  let isResultNeg := isDivizorNeg != isDelimerNeg
  if ← wideLess delimer divisor then
    return (ofNumber a.shape 0, a.copy)
  else if delimer.eq divisor then
    return (ofNumber a.shape (if isResultNeg then kAllOnes else 1), ofNumber a.shape 0)
  else
    let uRes ← wideUnsignedDivRem delimer divisor
    let quotient := uRes.1.withSign a.sign
    let remainder := uRes.2.withSign a.sign
    return (if isResultNeg then quotient.neg else quotient,
      if isDelimerNeg then remainder.neg else remainder)

/-- The operands of the division of values in one word, without their signs. -/
def oneWordOperands (a divisor : IntVal) : UInt64 × UInt64 :=
  (if a.sign && a.getSignBit then a.neg.word else a.word,
    if divisor.sign && divisor.getSignBit then divisor.neg.word else divisor.word)

def div (a divisor : IntVal) : Option IntVal :=
  if a.IsOneWord then
    let isNeg := a.sign && a.getSignBit
    let isDivisorNeg := divisor.sign && divisor.getSignBit
    let (dividendVal, divisorVal) := oneWordOperands a divisor
    if divisorVal = 0 then none
    else
      let quotient := ofNumber a.shape (dividendVal / divisorVal)
      some (if isNeg != isDivisorNeg then quotient.neg else quotient)
  else (wideDivRem a divisor).map Prod.fst

def mod (a divisor : IntVal) : Option IntVal :=
  if a.IsOneWord then
    let isNeg := a.sign && a.getSignBit
    let (dividendVal, divisorVal) := oneWordOperands a divisor
    if divisorVal = 0 then none
    else
      let remainder := ofNumber a.shape (dividendVal % divisorVal)
      some (if isNeg then remainder.neg else remainder)
  else (wideDivRem a divisor).map Prod.snd

/-! ### Half words -/

lemma length_halfWords (ws : List UInt64) : (halfWords ws).length = 2 * ws.length := by
  induction ws with
  | nil => rfl
  | cons w ws ih =>
    rw [halfWords, List.flatMap_cons, List.length_append, ← halfWords, ih, List.length_cons]
    simp only [List.length_cons, List.length_nil]
    omega

lemma value_halfWords (ws : List UInt64) : Limb.value (halfWords ws) = Words.value ws := by
  induction ws with
  | nil => rfl
  | cons w ws ih =>
    have hhalves := toNat_getLoHi w
    rw [LoHi.toNat] at hhalves
    rw [halfWords, List.flatMap_cons, ← halfWords, List.cons_append, List.singleton_append,
      value32_cons, value32_cons, ih, Words.value_cons, ← hhalves]
    ring

lemma length_joinHalfWords (ws : List UInt32) :
    (joinHalfWords ws).length = (ws.length + 1) / 2 := by
  fun_induction joinHalfWords ws with
  | case1 lo hi rest ih =>
    simp only [List.length_cons, ih]
    omega
  | case2 lo => rw [List.length_singleton, List.length_singleton]
  | case3 => rfl

lemma value_joinHalfWords (ws : List UInt32) : Words.value (joinHalfWords ws) = Limb.value ws := by
  fun_induction joinHalfWords ws with
  | case1 lo hi rest ih =>
    rw [Words.value_cons, toNat_combineLoHi, ih, value32_cons, value32_cons, LoHi.toNat]
    ring
  | case2 lo =>
    rw [Words.value_singleton, toNat_combineLoHi, LoHi.toNat, value32_cons, UInt32.toNat_zero]
    rfl
  | case3 => rfl

lemma copyUint32ToUint64_spec {dstSize : Nat} {src : List UInt32} (h : src.length ≤ 2 * dstSize) :
    ∃ words, copyUint32ToUint64 dstSize src = some words ∧ words.length = dstSize ∧
      Words.value words = Limb.value src := by
  have hlen := length_joinHalfWords src
  refine ⟨_, if_pos (by omega), ?_, ?_⟩
  · rw [List.length_append, List.length_replicate]
    omega
  · rw [Words.value_append, Words.value_replicate_zero, Nat.mul_zero, Nat.add_zero,
      value_joinHalfWords]

/-! ### Division without signs -/

section Unsigned

variable {x : IntVal} (hsign : x.sign = false) (hcanon : x.Canonical)
  (hcap : x.width ≤ x.storageBits) (hne : x.value ≠ 0)

include hsign hcanon hcap hne

lemma countSignificantBits_spec :
    0 < x.countSignificantBits ∧ x.countSignificantBits ≤ x.width ∧
      2 ^ (x.countSignificantBits - 1) ≤ x.value ∧ x.value < 2 ^ x.countSignificantBits := by
  have hle := Nat.leadingRun_le false x.width x.value
  have hpos := x.width_pos
  have hhigh := (Nat.le_leadingRun_false_iff hle hcanon).mp (le_refl _)
  have hlt : Nat.leadingRun false x.width x.value < x.width := by
    rcases hle.lt_or_eq with hlt | heq
    · exact hlt
    · rw [heq, Nat.sub_self, pow_zero] at hhigh
      omega
  have hlow : ¬x.value < 2 ^ (x.width - (Nat.leadingRun false x.width x.value + 1)) := by
    rw [← Nat.le_leadingRun_false_iff hlt hcanon]
    omega
  have hcount : x.countSignificantBits = x.width - Nat.leadingRun false x.width x.value := by
    rw [countSignificantBits, hsign, countLeadingZeros_eq hcanon hcap]
    simp only [Bool.false_eq_true, ↓reduceIte]
    omega
  rw [hcount]
  refine ⟨by omega, Nat.sub_le _ _, ?_, hhigh⟩
  rw [Nat.sub_sub]
  exact not_lt.mp hlow

lemma getNumHalfWords_spec (hfit : x.width + 31 < 2 ^ 16) :
    0 < getNumHalfWords x.countSignificantBits ∧
      getNumHalfWords x.countSignificantBits ≤ 2 * x.words.length ∧
      2 ^ (32 * (getNumHalfWords x.countSignificantBits - 1)) ≤ x.value ∧
      x.value < 2 ^ (32 * getNumHalfWords x.countSignificantBits) := by
  obtain ⟨hpos, hle, hlow, hhigh⟩ := countSignificantBits_spec hsign hcanon hcap hne
  have hbits : x.width ≤ 64 * x.words.length := hcap
  have hnum : getNumHalfWords x.countSignificantBits = (x.countSignificantBits + 31) / 32 := by
    rw [getNumHalfWords, Nat.mod_eq_of_lt (by omega)]
    rfl
  rw [hnum]
  refine ⟨by omega, by omega, ?_, ?_⟩
  · exact (Nat.pow_le_pow_right (by decide) (by omega)).trans hlow
  · exact hhigh.trans_le (Nat.pow_le_pow_right (by decide) (by omega))

end Unsigned

lemma value32_shiftLeft {ws : List UInt32} {n k : Nat} (hlen : ws.length = n) (hn : 0 < n)
    (hk : k < 32) (h : Limb.value ws * 2 ^ k < 2 ^ (32 * n)) :
    (shiftLeft ws k).length = n ∧ Limb.value (shiftLeft ws k) = Limb.value ws * 2 ^ k := by
  have hshift : k / Limb.bits UInt32 ≤ ws.length := by
    change k / 32 ≤ ws.length
    omega
  refine ⟨(length_shiftLeft hshift).trans hlen, ?_⟩
  rw [value_shiftLeft hshift, hlen]
  exact Nat.mod_eq_of_lt h

/-- The numbers that the division starts with: the first bit of the divisor is set, and the
dividend has a word more than it needs. -/
lemma normalize_spec {a b : List UInt32} {n m : Nat} (hb : b.length = n) (hn : 0 < n)
    (hblow : 2 ^ (32 * (n - 1)) ≤ Limb.value b) (ha : a.length = n + m) (hm : 0 < m)
    (halt : Limb.value a < 2 ^ (32 * (n + m - 1))) :
    ∃ a' b' k, normalize a b n = (a', b', k) ∧ Normalized b' n ∧ a'.length = n + m ∧ k < 32 ∧
      Limb.value b' = Limb.value b * 2 ^ k ∧ Limb.value a' = Limb.value a * 2 ^ k ∧
      Limb.value a' < Limb.value b' * 2 ^ (32 * m) := by
  have htop := toNat_getD_last hb hn
  have htop_lt := (b.getD (n - 1) 0).toNat_lt
  have hcount : countLeadingZerosWord (b.getD (n - 1) 0) =
      Nat.leadingRun false 32 (b.getD (n - 1) 0).toNat := countLeadingZerosWord_eq _
  rw [normalize, hcount]
  have hP : 0 < 2 ^ (32 * (n - 1)) := Nat.two_pow_pos _
  have hword : 2 ^ (32 * n) = 2 ^ 32 * 2 ^ (32 * (n - 1)) := by
    rw [← two_pow_succ_halfWords, Nat.sub_add_cancel hn]
  have htop_pos : 0 < (b.getD (n - 1) 0).toNat := by
    rw [htop]
    exact Nat.div_pos hblow hP
  generalize (b.getD (n - 1) 0).toNat = top at *
  have hle := Nat.leadingRun_le false 32 top
  have hhigh := (Nat.le_leadingRun_false_iff hle htop_lt).mp (le_refl _)
  have hk : Nat.leadingRun false 32 top < 32 := by
    rcases hle.lt_or_eq with hlt | heq
    · exact hlt
    · rw [heq, Nat.sub_self, pow_zero] at hhigh
      omega
  have hlow : ¬top < 2 ^ (32 - (Nat.leadingRun false 32 top + 1)) := by
    rw [← Nat.le_leadingRun_false_iff hk htop_lt]
    omega
  generalize Nat.leadingRun false 32 top = k at *
  have hsplit : 2 ^ (32 - (k + 1)) * 2 ^ k = 2 ^ 31 := by
    rw [← pow_add]
    congr 1
    omega
  -- the first bit of the divisor
  have hnorm : 2 ^ 31 * 2 ^ (32 * (n - 1)) ≤ Limb.value b * 2 ^ k := by
    calc 2 ^ 31 * 2 ^ (32 * (n - 1))
        = 2 ^ (32 - (k + 1)) * 2 ^ (32 * (n - 1)) * 2 ^ k := by rw [← hsplit]; ring
      _ ≤ top * 2 ^ (32 * (n - 1)) * 2 ^ k :=
          Nat.mul_le_mul_right _ (Nat.mul_le_mul_right _ (not_lt.mp hlow))
      _ ≤ Limb.value b * 2 ^ k := by
          rw [htop]
          exact Nat.mul_le_mul_right _ (Nat.div_mul_le_self _ _)
  have hbval : Limb.value b * 2 ^ k < 2 ^ (32 * n) := by
    have hpow : 2 ^ (32 - k) * 2 ^ k = 2 ^ 32 := by
      rw [← pow_add, Nat.sub_add_cancel hle]
    calc Limb.value b * 2 ^ k < (top + 1) * 2 ^ (32 * (n - 1)) * 2 ^ k :=
          Nat.mul_lt_mul_of_pos_right
            (Nat.lt_mul_of_div_lt (htop ▸ Nat.lt_succ_self top) hP) (Nat.two_pow_pos _)
      _ ≤ 2 ^ (32 - k) * 2 ^ (32 * (n - 1)) * 2 ^ k :=
          Nat.mul_le_mul_right _ (Nat.mul_le_mul_right _ hhigh)
      _ = 2 ^ (32 * n) := by rw [hword, ← hpow]; ring
  have hroom : 2 ^ 31 * 2 ^ (32 * (n - 1)) * 2 ^ (32 * m) = 2 ^ (32 * (n + m - 1)) * 2 ^ 31 := by
    have hexp : 32 * (n + m - 1) = 32 * (n - 1) + 32 * m := by omega
    rw [hexp, pow_add]
    ring
  have haval : Limb.value a * 2 ^ k < 2 ^ (32 * (n + m - 1)) * 2 ^ 31 := by
    calc Limb.value a * 2 ^ k < 2 ^ (32 * (n + m - 1)) * 2 ^ k :=
          Nat.mul_lt_mul_of_pos_right halt (Nat.two_pow_pos _)
      _ ≤ 2 ^ (32 * (n + m - 1)) * 2 ^ 31 :=
          Nat.mul_le_mul_left _ (Nat.pow_le_pow_right (by decide) (by omega))
  obtain ⟨hblen, hbshift⟩ := value32_shiftLeft hb hn hk hbval
  obtain ⟨halen, hashift⟩ := value32_shiftLeft ha (by omega) hk (haval.trans_le (by
    rw [← pow_add]
    exact Nat.pow_le_pow_right (by decide) (by omega)))
  refine ⟨_, _, k, rfl, ⟨hblen, hn, ?_⟩, halen, hk, hbshift, hashift, ?_⟩
  · rw [toNat_getD_last hblen hn, hbshift, Nat.le_div_iff_mul_le hP]
    exact hnorm
  · rw [hashift, hbshift]
    calc Limb.value a * 2 ^ k < 2 ^ 31 * 2 ^ (32 * (n - 1)) * 2 ^ (32 * m) := hroom ▸ haval
      _ ≤ Limb.value b * 2 ^ k * 2 ^ (32 * m) := Nat.mul_le_mul_right _ hnorm

lemma ofPointer_words {x : IntVal} (hone : ¬x.IsOneWord) {words : List UInt64}
    (hlen : words.length = x.words.length) :
    ∃ r, ofPointer x.shape words = some r ∧ r.shape = x.shape ∧ r.value = Words.value words := by
  have hnum : x.shape.numWords = words.length := x.words_length.symm.trans hlen.symm
  refine ⟨_, ofPointer_eq hnum.le, shape_ofShape _ _ _, ?_⟩
  rw [value_ofShape (isOneWord_shape.not.mpr hone), hnum, List.take_length]

lemma value_ofNumber {s : Shape} (hone : ¬s.IsOneWord) (val : UInt64) :
    (ofNumber s val).value = val.toNat + if s.sign && decide (val.toInt64 < 0) then
      2 ^ s.capacity - 2 ^ 64 else 0 := by
  have hpos : 0 < s.numWords := Nat.pos_of_ne_zero s.numWords_ne_zero
  rw [ofNumber, value_ofShape hone, initNumber, Words.value_cons]
  congr 1
  split_ifs
  · have hexp : s.capacity = 64 + 64 * (s.numWords - 1) := by
      rw [Shape.capacity]
      change 64 * s.numWords = 64 + 64 * (s.numWords - 1)
      omega
    have hones : Words.value (List.replicate (s.numWords - 1) kAllOnes) =
        2 ^ (64 * (s.numWords - 1)) - 1 := Words.value_replicate_ones _
    rw [hones, hexp, pow_add, Nat.mul_sub, Nat.mul_one]
  · rw [Words.value_replicate_zero, Nat.mul_zero]

lemma div_mod_of_mul {X Y Q R K : Nat} (hK : 0 < K) (hsum : Q * (Y * K) + R = X * K)
    (hlt : R < Y * K) : Q = X / Y ∧ R / K = X % Y := by
  obtain ⟨t, rfl⟩ : K ∣ R := by
    have hdvd : K ∣ Q * (Y * K) + R := hsum ▸ Nat.dvd_mul_left K X
    exact (Nat.dvd_add_right (Dvd.intro_left (Q * Y) (Nat.mul_assoc ..))).mp hdvd
  have ht : t < Y := Nat.lt_of_mul_lt_mul_left (a := K) (by rwa [Nat.mul_comm K Y])
  have heq : t + Y * Q = X := by
    apply Nat.eq_of_mul_eq_mul_right hK
    rw [← hsum]
    ring
  obtain ⟨hdiv, hmod⟩ := (Nat.div_mod_unique (Nat.zero_lt_of_lt ht)).mpr ⟨heq, ht⟩
  rw [Nat.mul_div_cancel_left t hK]
  exact ⟨hdiv.symm, hmod.symm⟩

lemma value_take_of_lt {ws : List UInt32} {n : Nat} (hn : n ≤ ws.length)
    (hlt : Limb.value ws < 2 ^ (32 * n)) : Limb.value (ws.take n) = Limb.value ws := by
  rw [Limb.value_take _ _ hn]
  exact Nat.mod_eq_of_lt hlt

section Unsigned

variable {x y : IntVal}

lemma value_take_halfWords {n : Nat} (hn : n ≤ 2 * x.words.length) (hlt : x.value < 2 ^ (32 * n)) :
    ((halfWords x.words).take n).length = n ∧
      Limb.value ((halfWords x.words).take n) = x.value := by
  have hlen := length_halfWords x.words
  refine ⟨List.length_take_of_le (by omega), ?_⟩
  rw [Limb.value_take _ _ (by omega), value_halfWords]
  exact Nat.mod_eq_of_lt hlt

section Divide

variable (hshape : x.shape = y.shape) (hsign : x.sign = false) (hone : ¬x.IsOneWord)
  (hx : x.Canonical) (hy : y.Canonical) (hcap : x.width ≤ x.storageBits)
  (hfit : x.storageBits + 64 ≤ 2 ^ 16) (hne : y.value ≠ 0) (hle : y.value ≤ x.value)

include hshape hsign hx hy hcap hfit hne hle

lemma basecaseDivRem_args :
    let args := basecaseArgs x y
    args.k < 32 ∧ 0 < args.n ∧ 0 < args.m ∧ args.n + args.m ≤ 2 * x.words.length + 1 ∧
      x.value < 2 ^ (32 * (args.n + args.m - 1)) ∧
      ∃ r q, basecaseDivRem args.a args.b args.n args.m = some (r, q) ∧
        r.length = args.n + args.m ∧ q.length = args.m + 1 ∧ q.getD args.m 0 = 0 ∧
        Limb.value q = x.value / y.value ∧ Limb.value r / 2 ^ args.k = x.value % y.value := by
  have hwidth : x.width = y.width := congrArg Shape.width hshape
  have hsigny : y.sign = false := (congrArg Shape.sign hshape).symm.trans hsign
  have hlen := length_eq_of_width hwidth
  have hcapy : y.width ≤ y.storageBits := by
    rw [← capacity_shape, ← hshape, capacity_shape, ← hwidth]
    exact hcap
  have hbits : x.storageBits = 64 * x.words.length := rfl
  obtain ⟨hn, hnle, hnlow, hnhigh⟩ := getNumHalfWords_spec hsigny hy hcapy hne (by omega)
  obtain ⟨-, hdle, -, hdhigh⟩ := getNumHalfWords_spec hsign hx hcap (by omega) (by omega)
  simp only [basecaseArgs]
  generalize getNumHalfWords y.countSignificantBits = n at *
  generalize getNumHalfWords x.countSignificantBits = d at *
  have hnd : n ≤ d := by
    have hexp := (Nat.pow_lt_pow_iff_right (by decide : 1 < 2)).mp
      (lt_of_le_of_lt (hnlow.trans hle) hdhigh)
    omega
  obtain ⟨m, rfl⟩ : ∃ m, d = n + m := ⟨d - n, by omega⟩
  have hm : (n + m + 2 ^ 16 - n + 1) % 2 ^ 16 = m + 1 := by omega
  have hnm : n + (m + 1) - 1 = n + m := rfl
  rw [hm, hnm]
  obtain ⟨hblen, hbval⟩ := value_take_halfWords (x := y) (hlen ▸ hnle) hnhigh
  obtain ⟨halen, haval⟩ := value_take_halfWords (x := x) hdle hdhigh
  have hzero : Limb.value [(0 : UInt32)] = 0 := rfl
  have haval' : Limb.value ((halfWords x.words).take (n + m) ++ [0]) = x.value := by
    rw [Limb.value_append, hzero, Nat.mul_zero, Nat.add_zero, haval]
  obtain ⟨a', b', k, hnormalize, hb', ha', hk, hbk, hak, hlt⟩ :=
    normalize_spec (a := (halfWords x.words).take (n + m) ++ [0]) (m := m + 1) hblen hn
      (hbval ▸ hnlow) (by rw [List.length_append, halen]; rfl) (Nat.succ_pos m)
      (haval' ▸ hdhigh)
  obtain ⟨r, q, hrun, hr, hq, htop, hsum, hrlt⟩ := basecaseDivRem_spec hb' ha' (by omega) hlt
  rw [hbval] at hbk
  rw [haval'] at hak
  rw [hbk, hak] at hsum
  rw [hbk] at hrlt
  obtain ⟨hquot, hrem⟩ := div_mod_of_mul (Nat.two_pow_pos k) hsum hrlt
  rw [hnormalize]
  exact ⟨hk, hn, Nat.succ_pos m, by omega, hdhigh, r, q, hrun, hr, hq, htop, hquot, hrem⟩

include hone

lemma wideUnsignedDivRem_spec :
    ∃ q r, wideUnsignedDivRem x y = some (q, r) ∧ q.shape = x.shape ∧ r.shape = x.shape ∧
      q.value = x.value / y.value ∧ r.value = x.value % y.value := by
  have hssign : x.shape.sign = false := hsign
  rw [wideUnsignedDivRem]
  by_cases hfast : x.IsOneSignificantWord ∧ y.IsOneSignificantWord
  · have hlt : x.value < 2 ^ 64 := by
      obtain ⟨-, -, -, hhigh⟩ := countSignificantBits_spec hsign hx hcap (by omega)
      exact hhigh.trans_le (Nat.pow_le_pow_right (by decide) (hfast.1.resolve_left hone))
    have hwx : x.word.toNat = x.value := (toNat_word x).trans (Nat.mod_eq_of_lt hlt)
    have hwy : y.word.toNat = y.value := (toNat_word y).trans (Nat.mod_eq_of_lt (by omega))
    have hword : y.word ≠ 0 := by
      rw [ne_eq, ← UInt64.toNat_inj, hwy, UInt64.toNat_zero]
      exact hne
    have hret : { y.shape with sign := false } = x.shape := by
      rw [hshape] at hssign ⊢
      rw [← hssign]
    rw [if_pos hfast]
    dsimp only
    rw [if_neg hword, hret]
    refine ⟨_, _, rfl, rfl, rfl, ?_, ?_⟩
    · rw [value_ofNumber (isOneWord_shape.not.mpr hone), hssign, UInt64.toNat_div, hwx, hwy]
      rfl
    · rw [value_ofNumber (isOneWord_shape.not.mpr hone), hssign, UInt64.toNat_mod, hwx, hwy]
      rfl
  · obtain ⟨hk, hn, hm, hroom, hxlt, r, q, hrun, hr, hq, htop, hquot, hrem⟩ :=
      basecaseDivRem_args hshape hsign hx hy hcap hfit hne hle
    rw [if_neg hfast]
    generalize basecaseArgs x y = args at *
    simp only [hrun, Option.bind_eq_bind, Option.bind_some]
    rw [if_neg (not_not.mpr htop)]
    have hqlt : Limb.value q < 2 ^ (32 * args.m) := by
      have hlast := toNat_getD_last hq (Nat.succ_pos _)
      rw [Nat.add_sub_cancel, htop, UInt32.toNat_zero] at hlast
      exact (Nat.div_eq_zero_iff_lt (Nat.two_pow_pos _)).mp hlast.symm
    have hshift : Limb.value (shiftRight r args.k false) = x.value % y.value := by
      rw [value_shiftRight (by rw [hr]; change args.k < 32 * _; omega), hrem]
      rfl
    have hrlen : (shiftRight r args.k false).length = args.n + args.m := by
      rw [length_shiftRight (by rw [hr]; change args.k / 32 ≤ _; omega), hr]
    have hmod : x.value % y.value < 2 ^ (32 * (args.n + args.m - 1)) :=
      (Nat.mod_le _ _).trans_lt hxlt
    have hqroom : (q.take args.m).length ≤ 2 * x.words.length := by
      rw [List.length_take_of_le (by omega)]
      omega
    have hrroom : ((shiftRight r args.k false).take (args.n + args.m - 1)).length ≤
        2 * x.words.length := by
      rw [List.length_take_of_le (by omega)]
      omega
    obtain ⟨quotient, hqcopy, hqlen, hqval⟩ := copyUint32ToUint64_spec hqroom
    obtain ⟨remainder, hrcopy, hrlen', hrval⟩ := copyUint32ToUint64_spec hrroom
    obtain ⟨uQuotient, hqptr, hqshape, hqvalue⟩ := ofPointer_words hone hqlen
    obtain ⟨uRemainder, hrptr, hrshape, hrvalue⟩ := ofPointer_words hone hrlen'
    simp only [hqcopy, hrcopy, hqptr, hrptr, Option.bind_some]
    refine ⟨_, _, rfl, hqshape, hrshape, ?_, ?_⟩
    · rw [hqvalue, hqval, value_take_of_lt (by omega) hqlt, hquot]
    · rw [hrvalue, hrval, value_take_of_lt (by omega) (by rw [hshift]; exact hmod), hshift]

end Divide

end Unsigned

end IntVal
end Maple
