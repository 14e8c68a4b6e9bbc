import Maple.Util.IntVal.ConvertExact
import Mathlib.Data.List.Induction

/-!
# Comparisons of `IntVal`
-/

namespace Maple
namespace IntVal

open Words

section Templates

variable {T : Type} [Limb T]

/-- The loop of `BitwiseCompare` over the words below the last one, from the upper end. -/
def compareLoop : List T → List T → Int
  | l :: ls, r :: rs =>
    if Limb.toNat l ≠ Limb.toNat r then (if Limb.toNat l < Limb.toNat r then -1 else 1)
    else compareLoop ls rs
  | _, _ => 0

/-- The template `BitwiseCompare`. Where the width is a multiple of 64 the mask comes from a shift
by 64, which leaves all bits where shifts are taken modulo 64. -/
def bitwiseCompare (lhs rhs : List T) (comparedWidth : Nat) : Int :=
  let bitSize := Limb.bits T
  let remain := comparedWidth % bitSize
  let numWords := (comparedWidth + bitSize - 1) % 2 ^ 16 / bitSize
  let i := numWords - 1
  let mask := (kAllOnes >>> UInt64.ofNat (bitSize - remain)).toNat
  let l := Limb.toNat (lhs.getD i Limb.zero) &&& mask
  let r := Limb.toNat (rhs.getD i Limb.zero) &&& mask
  if l ≠ r then (if l < r then -1 else 1)
  else compareLoop (lhs.take i).reverse (rhs.take i).reverse

end Templates

def wideCompare (lhs rhs : IntVal) : Int :=
  let lhsSign := lhs.getSignBit
  let rhsSign := rhs.getSignBit
  if lhs.sign ∧ lhsSign ≠ rhsSign then (if lhsSign then -1 else 1)
  -- signs are equal so we can use unsigned comparison
  else bitwiseCompare lhs.words rhs.words lhs.width

def lt (a b : IntVal) : Bool :=
  if a.IsOneWord then
    (if a.sign then decide (a.getSXTValue 0 < b.getSXTValue 0) else decide (a.word < b.word))
  else decide (wideCompare a b < 0)

def gt (a b : IntVal) : Bool :=
  if a.IsOneWord then
    (if a.sign then decide (a.getSXTValue 0 > b.getSXTValue 0) else decide (a.word > b.word))
  else decide (wideCompare a b > 0)

def le (a b : IntVal) : Bool := !a.gt b

def ge (a b : IntVal) : Bool := !a.lt b

/-! ### The templates -/

/-- The three results of a comparison. -/
def cmpNat (x y : Nat) : Int := if x < y then -1 else if x = y then 0 else 1

lemma cmpNat_add_mul {M x y l r : Nat} (hx : x < M) (hy : y < M) :
    cmpNat (x + M * l) (y + M * r) = if l ≠ r then (if l < r then -1 else 1) else cmpNat x y := by
  have key : ∀ {x y l r : Nat}, x < M → l < r → x + M * l < y + M * r := by
    intro x y l r hx hlt
    have hmul : M * (l + 1) ≤ M * r := Nat.mul_le_mul_left M hlt
    rw [Nat.mul_add, Nat.mul_one] at hmul
    omega
  rw [cmpNat, cmpNat]
  rcases lt_trichotomy l r with hlt | rfl | hgt
  · rw [if_pos (key hx hlt), if_pos hlt.ne, if_pos hlt]
  · simp
  · have hlt := key (y := x) hy hgt
    rw [if_neg (by omega), if_neg (by omega), if_pos hgt.ne', if_neg (by omega)]

section Templates

variable {T : Type} [Limb T]

lemma compareLoop_reverse {ls rs : List T} (hlen : ls.length = rs.length) :
    compareLoop ls.reverse rs.reverse = cmpNat (Limb.value ls) (Limb.value rs) := by
  induction ls using List.reverseRecOn generalizing rs with
  | nil =>
    obtain rfl := List.length_eq_zero_iff.mp hlen.symm
    rfl
  | append_singleton ls l ih =>
    obtain ⟨rs, r, rfl⟩ : ∃ rs' r, rs = rs' ++ [r] :=
      ⟨_, _, (List.dropLast_append_getLast (List.ne_nil_of_length_pos (by
        rw [← hlen]
        simp))).symm⟩
    have hlen' : ls.length = rs.length := by simpa using hlen
    have hl := Limb.value_lt ls
    have hr := Limb.value_lt rs
    rw [← hlen'] at hr
    rw [List.reverse_append, List.reverse_append, List.reverse_singleton, List.reverse_singleton,
      List.singleton_append, List.singleton_append, compareLoop, ih hlen', Limb.value_append,
      Limb.value_append, ← hlen', Limb.value_singleton, Limb.value_singleton, cmpNat_add_mul hl hr]

lemma bitwiseCompare_eq {lhs rhs : List T} {w n : Nat} (hl : lhs.length = n + 1)
    (hr : rhs.length = n + 1) (hlo : Limb.bits T * n < w) (hhi : w ≤ Limb.bits T * (n + 1))
    (hfit : w + Limb.bits T ≤ 2 ^ 16)
    (hmask : ∀ x : T, Limb.toNat x &&&
        (kAllOnes >>> UInt64.ofNat (Limb.bits T - w % Limb.bits T)).toNat =
      Limb.toNat x % 2 ^ (w - Limb.bits T * n)) :
    bitwiseCompare lhs rhs w = cmpNat (Limb.value lhs % 2 ^ w) (Limb.value rhs % 2 ^ w) := by
  have hpos := Limb.bits_pos (T := T)
  have hnum : (w + Limb.bits T - 1) % 2 ^ 16 / Limb.bits T - 1 = n := by
    rw [Nat.mod_eq_of_lt (by omega)]
    have hdiv : (w + Limb.bits T - 1) / Limb.bits T = n + 1 := by
      apply Nat.div_eq_of_lt_le
      · rw [Nat.mul_comm, Nat.mul_add, Nat.mul_one]
        omega
      · rw [Nat.mul_comm, Nat.mul_add, Nat.mul_one]
        omega
    rw [hdiv, Nat.add_sub_cancel]
  -- the number is made of the lower words and the masked last one
  have hvalue : ∀ {ws : List T}, ws.length = n + 1 → Limb.value ws % 2 ^ w =
      Limb.value (ws.take n) +
        2 ^ (Limb.bits T * n) * (Limb.toNat (ws.getD n Limb.zero) % 2 ^ (w - Limb.bits T * n)) := by
    intro ws hws
    have hlen : (ws.take n).length = n := List.length_take_of_le (by omega)
    have hlast : ws = ws.take n ++ [ws.getD n Limb.zero] := by
      conv_lhs => rw [← List.take_append_drop n ws]
      congr 1
      have hn : n < ws.length := by omega
      rw [List.drop_eq_getElem_cons hn, List.drop_of_length_le (by omega), List.getD_eq_getElem _ _ hn]
    have hlt := Limb.value_lt (ws.take n)
    rw [hlen] at hlt
    have hsplit : 2 ^ w = 2 ^ (Limb.bits T * n) * 2 ^ (w - Limb.bits T * n) := by
      rw [← pow_add, Nat.add_sub_cancel' hlo.le]
    conv_lhs => rw [hlast]
    rw [Limb.value_append, hlen, Limb.value_singleton, hsplit, Nat.mod_mul,
      Nat.add_mul_mod_self_left, Nat.mod_eq_of_lt hlt, Nat.add_mul_div_left _ _ (Nat.two_pow_pos _),
      Nat.div_eq_of_lt hlt, Nat.zero_add]
  have htake : ∀ {ws : List T}, ws.length = n + 1 → (ws.take n).length = n :=
    fun hws => List.length_take_of_le (by omega)
  have hlt : ∀ {ws : List T}, ws.length = n + 1 → Limb.value (ws.take n) < 2 ^ (Limb.bits T * n) := by
    intro ws hws
    have := Limb.value_lt (ws.take n)
    rwa [htake hws] at this
  rw [bitwiseCompare, hnum, hvalue hl, hvalue hr, cmpNat_add_mul (hlt hl) (hlt hr)]
  rw [hmask, hmask, compareLoop_reverse ((htake hl).trans (htake hr).symm)]

end Templates

/-! ### The order -/

lemma and_mask_eq {w n : Nat} (hlo : 64 * n < w) (hhi : w ≤ 64 * (n + 1)) (x : UInt64) :
    x.toNat &&& (kAllOnes >>> UInt64.ofNat (64 - w % 64)).toNat = x.toNat % 2 ^ (w - 64 * n) := by
  by_cases hmod : w % 64 = 0
  · have hones : (kAllOnes >>> UInt64.ofNat (64 - w % 64)).toNat = 2 ^ 64 - 1 := by
      rw [hmod]
      decide
    have hexp : w - 64 * n = 64 := by omega
    rw [hones, hexp, Nat.and_two_pow_sub_one_eq_mod]
  · have hones : (kAllOnes >>> UInt64.ofNat (64 - w % 64)).toNat = 2 ^ (w % 64) - 1 :=
      toNat_ones_shiftRight (by omega) (by omega)
    have hexp : w - 64 * n = w % 64 := by omega
    rw [hones, hexp, Nat.and_two_pow_sub_one_eq_mod]

section Order

variable {a b : IntVal}

lemma bitwiseCompare_words (hshape : a.shape = b.shape) (hone : ¬a.IsOneWord) (ha : a.Canonical)
    (hb : b.Canonical) (hcap : a.width ≤ a.storageBits) :
    bitwiseCompare a.words b.words a.width = cmpNat a.value b.value := by
  have hwidth : a.width = b.width := congrArg Shape.width hshape
  have hlen := length_eq_of_width hwidth
  have hnum := numWords_shape hcap
  have hgt : 64 < a.width := not_le.mp hone
  have hbits : a.words.length < 2 ^ 8 := by
    rw [a.words_length]
    exact Nat.mod_lt _ (by decide)
  have hbits' : a.width ≤ 64 * a.words.length := hcap
  have hcmp : bitwiseCompare a.words b.words a.width = _ := bitwiseCompare_eq
    (n := a.words.length - 1) (by omega) (by omega) (by change 64 * _ < _; omega)
    (by change _ ≤ 64 * _; omega) (by change _ + 64 ≤ _; omega)
    (and_mask_eq (by omega) (by omega))
  have hva : Limb.value a.words % 2 ^ a.width = a.value := Nat.mod_eq_of_lt ha
  have hvb : Limb.value b.words % 2 ^ a.width = b.value := by
    rw [hwidth]
    exact Nat.mod_eq_of_lt hb
  rw [hcmp, hva, hvb]

lemma wideCompare_spec (hshape : a.shape = b.shape) (hone : ¬a.IsOneWord) (ha : a.Canonical)
    (hb : b.Canonical) (hcap : a.width ≤ a.storageBits) :
    (wideCompare a b < 0 ↔ a.toInt < b.toInt) ∧ (wideCompare a b > 0 ↔ b.toInt < a.toInt) := by
  have hwidth : a.width = b.width := congrArg Shape.width hshape
  have hsign : a.sign = b.sign := congrArg Shape.sign hshape
  have hcap' : b.width ≤ b.storageBits := by
    rw [← capacity_shape, ← hshape, capacity_shape, ← hwidth]
    exact hcap
  have hva : (a.value : Int) < 2 ^ b.width := by
    rw [← hwidth]
    exact_mod_cast ha
  have hvb : (b.value : Int) < 2 ^ b.width := by exact_mod_cast hb
  rw [wideCompare, bitwiseCompare_words hshape hone ha hb hcap, toInt_eq ha, toInt_eq hb,
    ← getSignBit_eq hcap, ← getSignBit_eq hcap', hsign, hwidth, cmpNat]
  cases b.sign with
  | false =>
    simp only [Bool.false_eq_true, false_and, ↓reduceIte]
    split_ifs <;> omega
  | true =>
    simp only [true_and]
    cases a.getSignBit with
    | false =>
      cases b.getSignBit with
      | false =>
        simp only [Bool.false_eq_true, ne_eq, not_true_eq_false, ↓reduceIte]
        split_ifs <;> omega
      | true =>
        simp only [Bool.false_eq_true, ne_eq, not_false_eq_true, ↓reduceIte]
        omega
    | true =>
      cases b.getSignBit with
      | false =>
        simp only [ne_eq, reduceCtorEq, not_false_eq_true, ↓reduceIte]
        omega
      | true =>
        simp only [ne_eq, not_true_eq_false, ↓reduceIte]
        split_ifs <;> omega

lemma toInt_getSXTValue_eq (hone : a.IsOneWord) (ha : a.Canonical) (hsign : a.sign = true) :
    (a.getSXTValue 0).toInt = a.toInt := by
  have hsigned : a.shape.format.signed = true := hsign
  rw [toInt_getSXTValue hone ha, toInt, IntFormat.wrap, if_pos hsigned]
  rfl

lemma toInt_eq_value (ha : a.Canonical) (hsign : a.sign = false) : a.toInt = a.value := by
  rw [toInt_eq ha, hsign]
  simp

lemma lt_iff (hshape : a.shape = b.shape) (ha : a.Canonical) (hb : b.Canonical)
    (hcap : a.width ≤ a.storageBits) : a.lt b = true ↔ a.toInt < b.toInt := by
  have hwidth : a.width = b.width := congrArg Shape.width hshape
  have hsign : a.sign = b.sign := congrArg Shape.sign hshape
  rw [lt]
  by_cases hone : a.IsOneWord
  · have hone' : b.IsOneWord := le_of_eq_of_le hwidth.symm hone
    rw [if_pos hone]
    cases hs : a.sign with
    | true =>
      rw [if_pos rfl, decide_eq_true_iff, Int64.lt_iff_toInt_lt, toInt_getSXTValue_eq hone ha hs,
        toInt_getSXTValue_eq hone' hb (hsign ▸ hs)]
    | false =>
      rw [if_neg Bool.false_ne_true, decide_eq_true_iff, UInt64.lt_iff_toNat_lt, hone.word_eq,
        hone'.word_eq, toInt_eq_value ha hs, toInt_eq_value hb (hsign ▸ hs), Nat.cast_lt]
  · rw [if_neg hone, decide_eq_true_iff]
    exact (wideCompare_spec hshape hone ha hb hcap).1

lemma gt_iff (hshape : a.shape = b.shape) (ha : a.Canonical) (hb : b.Canonical)
    (hcap : a.width ≤ a.storageBits) : a.gt b = true ↔ b.toInt < a.toInt := by
  have hwidth : a.width = b.width := congrArg Shape.width hshape
  have hsign : a.sign = b.sign := congrArg Shape.sign hshape
  rw [gt]
  by_cases hone : a.IsOneWord
  · have hone' : b.IsOneWord := le_of_eq_of_le hwidth.symm hone
    rw [if_pos hone]
    cases hs : a.sign with
    | true =>
      rw [if_pos rfl, decide_eq_true_iff, gt_iff_lt, Int64.lt_iff_toInt_lt,
        toInt_getSXTValue_eq hone ha hs, toInt_getSXTValue_eq hone' hb (hsign ▸ hs)]
    | false =>
      rw [if_neg Bool.false_ne_true, decide_eq_true_iff, gt_iff_lt, UInt64.lt_iff_toNat_lt,
        hone.word_eq, hone'.word_eq, toInt_eq_value ha hs, toInt_eq_value hb (hsign ▸ hs),
        Nat.cast_lt]
  · rw [if_neg hone, decide_eq_true_iff]
    exact (wideCompare_spec hshape hone ha hb hcap).2

lemma le_iff (hshape : a.shape = b.shape) (ha : a.Canonical) (hb : b.Canonical)
    (hcap : a.width ≤ a.storageBits) : a.le b = true ↔ a.toInt ≤ b.toInt := by
  rw [le, Bool.not_eq_true', ← Bool.not_eq_true, gt_iff hshape ha hb hcap, not_lt]

end Order

end IntVal
end Maple
