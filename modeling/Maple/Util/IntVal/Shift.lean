import Maple.Lib.Limbs
import Mathlib.Data.List.GetD
import Mathlib.Tactic.SplitIfs

/-!
# Shifts of arrays of words

The templates `ShiftLeft` and `ShiftRight` move the words of a number in place.
-/

namespace Maple
namespace IntVal

variable {T : Type} [Limb T]

/-- The body of the loop of `ShiftLeft`. -/
def shiftLeftStep (shiftWords shiftBits : Nat) (dst : List T) (i : Nat) : List T :=
  let dst := dst.set i (Limb.shl (dst.getD (i - shiftWords) Limb.zero) shiftBits)
  if i > shiftWords then
    dst.set i (Limb.or (dst.getD i Limb.zero)
      (Limb.shr (dst.getD (i - (shiftWords + 1)) Limb.zero) (Limb.bits T - shiftBits)))
  else dst

/-- `ShiftLeft`. The loop runs from the last word down to the one with the number `shiftWords`. -/
def shiftLeft (dst : List T) (bits : Nat) : List T :=
  if bits = 0 then dst
  else
    let numWords := dst.length
    let shiftWords := bits / Limb.bits T
    let shiftBits := bits % Limb.bits T
    let dst :=
      if shiftBits = 0 then dst.take shiftWords ++ dst.take (numWords - shiftWords)
      else (List.range' shiftWords (numWords - shiftWords)).reverse.foldl
        (shiftLeftStep shiftWords shiftBits) dst
    -- fill the remainder with zeros
    List.replicate shiftWords Limb.zero ++ dst.drop shiftWords

/-- The body of the loop of `ShiftRight`. -/
def shiftRightStep (shiftWords shiftBits : Nat) (dst : List T) (i : Nat) : List T :=
  let tmp := dst.getD i Limb.zero
  let dst := dst.set (i - shiftWords) (Limb.shr (dst.getD i Limb.zero) shiftBits)
  if shiftWords + 1 ≤ i then
    dst.set (i - (shiftWords + 1)) (Limb.or (dst.getD (i - (shiftWords + 1)) Limb.zero)
      (Limb.shl tmp (Limb.bits T - shiftBits)))
  else dst

/-- The words that `ShiftRight` fills in: for negative values ones. -/
def remainderFiller (negRemainder : Bool) : T := if negRemainder then Limb.ones else Limb.zero

def shiftRight (dst : List T) (bits : Nat) (negRemainder : Bool) : List T :=
  if bits = 0 then dst
  else
    let numWords := dst.length
    let shiftWords := bits / Limb.bits T
    let shiftBits := bits % Limb.bits T
    let dst :=
      if shiftBits = 0 then dst.drop shiftWords ++ dst.drop (numWords - shiftWords)
      else (List.range' shiftWords (numWords - shiftWords)).foldl
        (shiftRightStep shiftWords shiftBits) dst
    let filler : T := remainderFiller negRemainder
    let dst := dst.take (numWords - shiftWords) ++ List.replicate shiftWords filler
    if shiftBits ≠ 0 then
      dst.modify (numWords - (shiftWords + 1))
        (Limb.or · (Limb.shl filler (Limb.bits T - shiftBits)))
    else dst

/-! ### The loops -/

/-- A word of a number that is shifted to the left. -/
def leftWord (dst : List T) (shiftWords shiftBits j : Nat) : T :=
  if j > shiftWords then
    Limb.or (Limb.shl (dst.getD (j - shiftWords) Limb.zero) shiftBits)
      (Limb.shr (dst.getD (j - (shiftWords + 1)) Limb.zero) (Limb.bits T - shiftBits))
  else Limb.shl (dst.getD (j - shiftWords) Limb.zero) shiftBits

/-- A word of a number that is shifted to the right, if there is one above it. -/
def rightWord (dst : List T) (shiftWords shiftBits j : Nat) : T :=
  Limb.or (Limb.shr (dst.getD (j + shiftWords) Limb.zero) shiftBits)
    (Limb.shl (dst.getD (j + shiftWords + 1) Limb.zero) (Limb.bits T - shiftBits))

omit [Limb T] in
lemma getD_set (ws : List T) (i j : Nat) (w d : T) :
    (ws.set i w).getD j d = if i = j ∧ i < ws.length then w else ws.getD j d := by
  rw [List.getD_eq_getElem?_getD, List.getD_eq_getElem?_getD, List.getElem?_set]
  by_cases hij : i = j
  · subst hij
    by_cases hlt : i < ws.length
    · simp [hlt]
    · simp [hlt]
  · simp [hij]

lemma length_shiftLeftStep (shiftWords shiftBits : Nat) (dst : List T) (i : Nat) :
    (shiftLeftStep shiftWords shiftBits dst i).length = dst.length := by
  simp only [shiftLeftStep]
  split_ifs <;> simp

lemma getD_shiftLeftStep {shiftWords shiftBits : Nat} {dst : List T} {i : Nat}
    (h : i < dst.length) (j : Nat) :
    (shiftLeftStep shiftWords shiftBits dst i).getD j Limb.zero =
      if i = j then leftWord dst shiftWords shiftBits i else dst.getD j Limb.zero := by
  simp only [shiftLeftStep, leftWord]
  split_ifs with hi hij hij
  · rw [getD_set, getD_set, getD_set, if_pos ⟨hij, by simpa using h⟩, if_pos ⟨rfl, h⟩,
      if_neg (by omega)]
  · rw [getD_set, if_neg (not_and_of_not_left _ hij), getD_set, if_neg (not_and_of_not_left _ hij)]
  · rw [getD_set, if_pos ⟨hij, h⟩]
  · rw [getD_set, if_neg (not_and_of_not_left _ hij)]

lemma getD_foldl_shiftLeftStep {shiftWords shiftBits m : Nat} {dst : List T}
    (h : shiftWords + m ≤ dst.length) (j : Nat) :
    ((List.range' shiftWords m).reverse.foldl (shiftLeftStep shiftWords shiftBits) dst).getD j
        Limb.zero =
      if shiftWords ≤ j ∧ j < shiftWords + m then leftWord dst shiftWords shiftBits j
      else dst.getD j Limb.zero := by
  induction m generalizing dst with
  | zero =>
    rw [if_neg (by omega)]
    rfl
  | succ m ih =>
    have hlen := length_shiftLeftStep shiftWords shiftBits dst (shiftWords + m)
    have hlt : shiftWords + m < dst.length := by omega
    rw [List.range'_concat, List.reverse_append, List.reverse_singleton, List.singleton_append,
      List.foldl_cons, Nat.one_mul, ih (by omega), getD_shiftLeftStep hlt]
    have hget : ∀ k < shiftWords + m,
        (shiftLeftStep shiftWords shiftBits dst (shiftWords + m)).getD k Limb.zero =
          dst.getD k Limb.zero := by
      intro k hk
      rw [getD_shiftLeftStep hlt, if_neg (by omega)]
    split_ifs with h₁ h₂ h₃ h₄ h₅
    · rw [leftWord, leftWord, hget _ (by omega), hget _ (by omega)]
    · omega
    · exact congrArg _ h₃
    · omega
    · omega
    · rfl

lemma length_foldl_shiftLeftStep (shiftWords shiftBits : Nat) (is : List Nat) (dst : List T) :
    (is.foldl (shiftLeftStep shiftWords shiftBits) dst).length = dst.length := by
  induction is generalizing dst with
  | nil => rfl
  | cons i is ih => rw [List.foldl_cons, ih, length_shiftLeftStep]

lemma length_shiftRightStep (shiftWords shiftBits : Nat) (dst : List T) (i : Nat) :
    (shiftRightStep shiftWords shiftBits dst i).length = dst.length := by
  simp only [shiftRightStep]
  split_ifs <;> simp

lemma length_foldl_shiftRightStep (shiftWords shiftBits : Nat) (is : List Nat) (dst : List T) :
    (is.foldl (shiftRightStep shiftWords shiftBits) dst).length = dst.length := by
  induction is generalizing dst with
  | nil => rfl
  | cons i is ih => rw [List.foldl_cons, ih, length_shiftRightStep]

lemma getD_shiftRightStep {shiftWords shiftBits m : Nat} {dst : List T}
    (h : shiftWords + m < dst.length) (j : Nat) :
    (shiftRightStep shiftWords shiftBits dst (shiftWords + m)).getD j Limb.zero =
      if j = m then Limb.shr (dst.getD (shiftWords + m) Limb.zero) shiftBits
      else if j + 1 = m then Limb.or (dst.getD j Limb.zero)
        (Limb.shl (dst.getD (shiftWords + m) Limb.zero) (Limb.bits T - shiftBits))
      else dst.getD j Limb.zero := by
  have hm : shiftWords + m - shiftWords = m := by omega
  have hpred : shiftWords + m - (shiftWords + 1) = m - 1 := by omega
  simp only [shiftRightStep, hm, hpred]
  split_ifs with h₁ h₂ h₃ h₄ h₅
  · rw [getD_set, if_neg (by omega), getD_set, if_pos ⟨h₂.symm, by omega⟩]
  · rw [getD_set, if_pos ⟨by omega, by simp only [List.length_set]; omega⟩, getD_set,
      if_neg (by omega)]
    congr 2
    omega
  · rw [getD_set, if_neg (by omega), getD_set, if_neg (by omega)]
  · rw [getD_set, if_pos ⟨h₄.symm, by omega⟩]
  · omega
  · rw [getD_set, if_neg (by omega)]

lemma getD_foldl_shiftRightStep {shiftWords shiftBits m : Nat} {dst : List T}
    (h : shiftWords + m ≤ dst.length) (j : Nat) :
    ((List.range' shiftWords m).foldl (shiftRightStep shiftWords shiftBits) dst).getD j Limb.zero =
      if j + 1 < m then rightWord dst shiftWords shiftBits j
      else if j + 1 = m then Limb.shr (dst.getD (j + shiftWords) Limb.zero) shiftBits
      else dst.getD j Limb.zero := by
  induction m generalizing j with
  | zero =>
    rw [if_neg (by omega), if_neg (by omega)]
    rfl
  | succ m ih =>
    have hlen := length_foldl_shiftRightStep shiftWords shiftBits (List.range' shiftWords m) dst
    have hrest := ih (by omega) (shiftWords + m)
    rw [if_neg (by omega), if_neg (by omega)] at hrest
    rw [List.range'_concat, List.foldl_append, List.foldl_cons, List.foldl_nil, Nat.one_mul,
      getD_shiftRightStep (by omega), hrest, ih (by omega)]
    obtain hj | hj | rfl | hj : j + 1 < m ∨ j + 1 = m ∨ j = m ∨ m < j := by omega
    · rw [if_neg (by omega), if_neg (by omega), if_pos hj, if_pos (by omega)]
    · -- the word gets its upper part
      rw [if_neg (by omega), if_pos hj, if_neg (by omega), if_pos hj, if_pos (by omega), rightWord,
        Nat.add_comm j shiftWords, Nat.add_assoc shiftWords, hj]
    · rw [if_pos rfl, if_neg (by omega), if_pos rfl, Nat.add_comm]
    · rw [if_neg (by omega), if_neg (by omega), if_neg (by omega), if_neg (by omega),
        if_neg (by omega), if_neg (by omega)]

/-! ### Values -/

lemma testBit_value_mul_add (ws : List T) (j : Nat) {q : Nat} (h : q < Limb.bits T) :
    (Limb.value ws).testBit (Limb.bits T * j + q) =
      (Limb.toNat (ws.getD j Limb.zero)).testBit q := by
  have hpos := Limb.bits_pos (T := T)
  rw [Limb.testBit_value, Nat.mul_add_div hpos, Nat.div_eq_of_lt h, Nat.add_zero, Nat.mul_add_mod,
    Nat.mod_eq_of_lt h]

lemma testBit_leftWord (dst : List T) (shiftWords j : Nat) {shiftBits q : Nat}
    (hbits : shiftBits < Limb.bits T) (hj : shiftWords ≤ j) (hq : q < Limb.bits T) :
    (Limb.toNat (leftWord dst shiftWords shiftBits j)).testBit q =
      (decide (Limb.bits T * shiftWords + shiftBits ≤ Limb.bits T * j + q) &&
        (Limb.value dst).testBit
          (Limb.bits T * j + q - (Limb.bits T * shiftWords + shiftBits))) := by
  obtain ⟨k, rfl⟩ : ∃ k, j = shiftWords + k := ⟨j - shiftWords, by omega⟩
  have hsub : shiftWords + k - shiftWords = k := by omega
  have hmul : Limb.bits T * (shiftWords + k) = Limb.bits T * shiftWords + Limb.bits T * k :=
    Nat.mul_add ..
  rw [leftWord, hsub]
  by_cases hle : shiftBits ≤ q
  · -- the bit comes from the word itself
    have hpos : Limb.bits T * (shiftWords + k) + q - (Limb.bits T * shiftWords + shiftBits) =
        Limb.bits T * k + (q - shiftBits) := by omega
    have hhigh : (Limb.toNat (dst.getD (shiftWords + k - (shiftWords + 1)) Limb.zero)).testBit
        (Limb.bits T - shiftBits + q) = false := Limb.testBit_of_le _ (by omega)
    rw [hpos, testBit_value_mul_add dst k (by omega), decide_eq_true (by omega), Bool.true_and]
    split_ifs
    · rw [Limb.testBit_or, Limb.testBit_shl, Limb.testBit_shr, hhigh, decide_eq_true hq,
        decide_eq_true hle, Bool.or_false, Bool.true_and, Bool.true_and]
    · rw [Limb.testBit_shl, decide_eq_true hq, decide_eq_true hle, Bool.true_and, Bool.true_and]
  · -- the bit comes from the word below
    have hshl : (Limb.toNat (Limb.shl (dst.getD k Limb.zero) shiftBits)).testBit q = false := by
      rw [Limb.testBit_shl, decide_eq_false hle, Bool.and_false, Bool.false_and]
    split_ifs with hgt
    · obtain ⟨l, rfl⟩ : ∃ l, k = l + 1 := ⟨k - 1, by omega⟩
      have hmul' : Limb.bits T * (l + 1) = Limb.bits T * l + Limb.bits T := Nat.mul_succ ..
      have hidx : shiftWords + (l + 1) - (shiftWords + 1) = l := by omega
      have hpos : Limb.bits T * (shiftWords + (l + 1)) + q -
          (Limb.bits T * shiftWords + shiftBits) = Limb.bits T * l + (Limb.bits T - shiftBits + q) := by
        omega
      rw [Limb.testBit_or, hshl, Limb.testBit_shr, Bool.false_or, hidx, hpos,
        testBit_value_mul_add dst l (by omega), decide_eq_true (by omega), Bool.true_and]
    · have hk : k = 0 := by omega
      subst hk
      rw [hshl, decide_eq_false (by omega), Bool.false_and]

lemma length_shiftLeft {dst : List T} {bits : Nat} (h : bits / Limb.bits T ≤ dst.length) :
    (shiftLeft dst bits).length = dst.length := by
  rw [shiftLeft]
  split_ifs
  · rfl
  · simp only [List.length_append, List.length_replicate, List.length_drop]
    split_ifs
    · rw [List.length_append, List.length_take_of_le h, List.length_take_of_le (Nat.sub_le _ _)]
      omega
    · rw [length_foldl_shiftLeftStep]
      omega

lemma getD_shiftLeft {dst : List T} {bits : Nat} (h : bits / Limb.bits T ≤ dst.length)
    (hbits : bits ≠ 0) {j : Nat} (hj : j < dst.length) :
    (shiftLeft dst bits).getD j Limb.zero =
      if j < bits / Limb.bits T then Limb.zero
      else if bits % Limb.bits T = 0 then dst.getD (j - bits / Limb.bits T) Limb.zero
      else leftWord dst (bits / Limb.bits T) (bits % Limb.bits T) j := by
  rw [shiftLeft, if_neg hbits]
  dsimp only
  by_cases hlt : j < bits / Limb.bits T
  · rw [if_pos hlt, List.getD_append _ _ _ _ (by simpa using hlt), List.getD_replicate _ hlt]
  · rw [if_neg hlt, List.getD_append_right _ _ _ _ (by simpa using not_lt.mp hlt),
      List.length_replicate, List.getD_eq_getElem?_getD, List.getElem?_drop,
      Nat.add_sub_cancel' (not_lt.mp hlt), ← List.getD_eq_getElem?_getD]
    split_ifs with hzero
    · have hlen : (dst.take (bits / Limb.bits T)).length = bits / Limb.bits T :=
        List.length_take_of_le h
      rw [List.getD_append_right _ _ _ _ (by omega), hlen, List.getD_eq_getElem?_getD,
        List.getElem?_take, if_pos (by omega), ← List.getD_eq_getElem?_getD]
    · rw [getD_foldl_shiftLeftStep (by omega), if_pos (by omega)]

lemma testBit_value_shiftLeft {dst : List T} {bits : Nat} (h : bits / Limb.bits T ≤ dst.length)
    {p : Nat} (hp : p < Limb.bits T * dst.length) :
    (Limb.value (shiftLeft dst bits)).testBit p =
      (decide (bits ≤ p) && (Limb.value dst).testBit (p - bits)) := by
  have hpos := Limb.bits_pos (T := T)
  by_cases hbits : bits = 0
  · subst hbits
    rw [shiftLeft, if_pos rfl, Nat.sub_zero, decide_eq_true (Nat.zero_le p), Bool.true_and]
  have hq := Nat.mod_lt p hpos
  have hqb := Nat.mod_lt bits hpos
  have hsplit := Nat.div_add_mod p (Limb.bits T)
  have hsplitb := Nat.div_add_mod bits (Limb.bits T)
  have hj : p / Limb.bits T < dst.length := Nat.div_lt_of_lt_mul hp
  rw [← hsplit, testBit_value_mul_add _ _ hq, getD_shiftLeft h hbits hj]
  split_ifs with hlt hzero
  · have hmul : Limb.bits T * (p / Limb.bits T + 1) ≤ Limb.bits T * (bits / Limb.bits T) :=
      Nat.mul_le_mul_left _ hlt
    rw [Nat.mul_succ] at hmul
    rw [Limb.toNat_zero, Nat.zero_testBit, decide_eq_false (by omega), Bool.false_and]
  · have hle := not_lt.mp hlt
    have hmul : Limb.bits T * (bits / Limb.bits T) ≤ Limb.bits T * (p / Limb.bits T) :=
      Nat.mul_le_mul_left _ hle
    have hidx : Limb.bits T * (p / Limb.bits T) + p % Limb.bits T - bits =
        Limb.bits T * (p / Limb.bits T - bits / Limb.bits T) + p % Limb.bits T := by
      rw [Nat.mul_sub]
      omega
    rw [hidx, testBit_value_mul_add _ _ hq, decide_eq_true (by omega), Bool.true_and]
  · rw [testBit_leftWord dst _ _ hqb (not_lt.mp hlt) hq, hsplitb]

lemma length_shiftRight {dst : List T} {bits : Nat} (h : bits / Limb.bits T ≤ dst.length)
    (negRemainder : Bool) : (shiftRight dst bits negRemainder).length = dst.length := by
  by_cases hbits : bits = 0
  · rw [shiftRight, if_pos hbits]
  rw [shiftRight, if_neg hbits]
  generalize bits / Limb.bits T = shiftWords at *
  generalize bits % Limb.bits T = shiftBits
  have hlen : (if shiftBits = 0 then dst.drop shiftWords ++ dst.drop (dst.length - shiftWords)
      else (List.range' shiftWords (dst.length - shiftWords)).foldl
        (shiftRightStep shiftWords shiftBits) dst).length = dst.length := by
    split_ifs
    · rw [List.length_append, List.length_drop, List.length_drop]
      omega
    · exact length_foldl_shiftRightStep ..
  dsimp only
  rw [apply_ite List.length, List.length_modify, ite_self, List.length_append,
    List.length_replicate, List.length_take_of_le (by omega)]
  omega

/-- A word of a number that is shifted to the right. -/
def rightWordOf (dst : List T) (shiftWords shiftBits : Nat) (negRemainder : Bool) (j : Nat) : T :=
  if dst.length ≤ j + shiftWords then remainderFiller negRemainder
  else if shiftBits = 0 then dst.getD (j + shiftWords) Limb.zero
  else if j + shiftWords + 1 < dst.length then rightWord dst shiftWords shiftBits j
  else Limb.or (Limb.shr (dst.getD (j + shiftWords) Limb.zero) shiftBits)
    (Limb.shl (remainderFiller negRemainder) (Limb.bits T - shiftBits))

omit [Limb T] in
lemma getD_modify {ws : List T} {i : Nat} (f : T → T) (d : T) {j : Nat} (hj : j < ws.length) :
    (ws.modify i f).getD j d = if i = j then f (ws.getD j d) else ws.getD j d := by
  rw [List.getD_eq_getElem _ _ (by simpa using hj), List.getElem_modify,
    List.getD_eq_getElem _ _ hj]

omit [Limb T] in
lemma getD_take_append_replicate {ws : List T} {n k : Nat} (hlen : ws.length = n + k) (w d : T)
    {j : Nat} (hj : j < n + k) :
    (ws.take n ++ List.replicate k w).getD j d = if n ≤ j then w else ws.getD j d := by
  have hlen' : (ws.take n).length = n := List.length_take_of_le (by omega)
  split_ifs with hle
  · rw [List.getD_append_right _ _ _ _ (by omega), hlen', List.getD_replicate _ (by omega)]
  · rw [List.getD_append _ _ _ _ (by omega), List.getD_eq_getElem?_getD, List.getElem?_take,
      if_pos (by omega), ← List.getD_eq_getElem?_getD]

lemma getD_shiftRight {dst : List T} {bits : Nat} (h : bits / Limb.bits T < dst.length)
    (hbits : bits ≠ 0) (negRemainder : Bool) {j : Nat} (hj : j < dst.length) :
    (shiftRight dst bits negRemainder).getD j Limb.zero =
      rightWordOf dst (bits / Limb.bits T) (bits % Limb.bits T) negRemainder j := by
  rw [shiftRight, if_neg hbits, rightWordOf]
  dsimp only
  generalize bits / Limb.bits T = shiftWords at *
  generalize bits % Limb.bits T = shiftBits
  obtain ⟨n, hn⟩ : ∃ n, dst.length = n + shiftWords := ⟨dst.length - shiftWords, by omega⟩
  have hsub : n + shiftWords - shiftWords = n := Nat.add_sub_cancel ..
  rw [hn, hsub]
  by_cases hzero : shiftBits = 0
  · have hlen : (dst.drop shiftWords ++ dst.drop n).length = n + shiftWords := by
      rw [List.length_append, List.length_drop, List.length_drop]
      omega
    rw [if_neg (not_not.mpr hzero), if_pos hzero, if_pos hzero,
      getD_take_append_replicate hlen _ _ (by omega)]
    by_cases hle : n ≤ j
    · rw [if_pos hle, if_pos (by omega)]
    · rw [if_neg hle, if_neg (by omega), List.getD_append _ _ _ _ (by rw [List.length_drop]; omega),
        List.getD_eq_getElem?_getD, List.getElem?_drop, Nat.add_comm, ← List.getD_eq_getElem?_getD]
  · have hlen := length_foldl_shiftRightStep shiftWords shiftBits (List.range' shiftWords n) dst
    have hroom : shiftWords + n ≤ dst.length := by omega
    rw [if_pos hzero, if_neg hzero, if_neg hzero,
      getD_modify _ _ (by rw [List.length_append, List.length_take, List.length_replicate]; omega),
      getD_take_append_replicate (by omega) _ _ (by omega), getD_foldl_shiftRightStep hroom]
    obtain hlt | hlast | hle : j + 1 < n ∨ j + 1 = n ∨ n ≤ j := by omega
    · rw [if_neg (by omega), if_neg (by omega), if_pos hlt, if_neg (by omega), if_pos (by omega)]
    · -- the last word that is kept gets its upper part from the filler
      rw [if_pos (by omega), if_neg (by omega), if_neg (by omega), if_pos hlast, if_neg (by omega),
        if_neg (by omega)]
    · rw [if_neg (by omega), if_pos hle, if_pos (by omega)]

lemma testBit_remainderFiller (negRemainder : Bool) {q : Nat} (h : q < Limb.bits T) :
    (Limb.toNat (remainderFiller negRemainder : T)).testBit q = negRemainder := by
  rw [remainderFiller]
  cases negRemainder with
  | false => rw [if_neg Bool.false_ne_true, Limb.toNat_zero, Nat.zero_testBit]
  | true => rw [if_pos rfl, Limb.testBit_ones, decide_eq_true h]

lemma testBit_or_shr_shl (w x : T) {shiftBits q : Nat}
    (hbits : shiftBits < Limb.bits T) (hq : q < Limb.bits T) :
    (Limb.toNat (Limb.or (Limb.shr w shiftBits) (Limb.shl x (Limb.bits T - shiftBits)))).testBit q =
      if q + shiftBits < Limb.bits T then (Limb.toNat w).testBit (q + shiftBits)
      else (Limb.toNat x).testBit (q + shiftBits - Limb.bits T) := by
  rw [Limb.testBit_or, Limb.testBit_shr, Limb.testBit_shl, decide_eq_true hq, Bool.true_and,
    Nat.add_comm shiftBits q]
  split_ifs with hin
  · rw [decide_eq_false (by omega), Bool.false_and, Bool.or_false]
  · have hidx : q - (Limb.bits T - shiftBits) = q + shiftBits - Limb.bits T := by omega
    rw [Limb.testBit_of_le w (by omega), decide_eq_true (by omega), Bool.false_or, Bool.true_and,
      hidx]

lemma testBit_rightWordOf {dst : List T} {shiftWords shiftBits j q : Nat} (negRemainder : Bool)
    (hbits : shiftBits < Limb.bits T) (hq : q < Limb.bits T) :
    (Limb.toNat (rightWordOf dst shiftWords shiftBits negRemainder j)).testBit q =
      if Limb.bits T * (j + shiftWords) + (q + shiftBits) < Limb.bits T * dst.length then
        (Limb.value dst).testBit (Limb.bits T * (j + shiftWords) + (q + shiftBits))
      else negRemainder := by
  have hmul : ∀ {k l : Nat}, k < l → Limb.bits T * k + Limb.bits T ≤ Limb.bits T * l := by
    intro k l hkl
    rw [← Nat.mul_succ]
    exact Nat.mul_le_mul_left _ hkl
  rw [rightWordOf]
  by_cases hle : dst.length ≤ j + shiftWords
  · have hge := Nat.mul_le_mul_left (Limb.bits T) hle
    rw [if_pos hle, if_neg (by omega), testBit_remainderFiller _ hq]
  have hroom := hmul (not_le.mp hle)
  rw [if_neg hle]
  by_cases hzero : shiftBits = 0
  · rw [if_pos hzero, if_pos (by omega), hzero, Nat.add_zero, testBit_value_mul_add _ _ hq]
  rw [if_neg hzero]
  by_cases hlast : j + shiftWords + 1 < dst.length
  · have hroom' := hmul hlast
    have hsucc : Limb.bits T * (j + shiftWords + 1) =
        Limb.bits T * (j + shiftWords) + Limb.bits T := Nat.mul_succ ..
    rw [if_pos hlast, if_pos (by omega), rightWord, testBit_or_shr_shl _ _ hbits hq]
    split_ifs with hin
    · rw [testBit_value_mul_add _ _ hin]
    · have hidx : Limb.bits T * (j + shiftWords) + (q + shiftBits) =
          Limb.bits T * (j + shiftWords + 1) + (q + shiftBits - Limb.bits T) := by omega
      rw [hidx, testBit_value_mul_add _ _ (by omega)]
  · have hlen : dst.length = j + shiftWords + 1 := by omega
    have hsucc : Limb.bits T * (j + shiftWords + 1) =
        Limb.bits T * (j + shiftWords) + Limb.bits T := Nat.mul_succ ..
    rw [if_neg hlast, hlen, hsucc, testBit_or_shr_shl _ _ hbits hq]
    split_ifs with hin hlt hlt
    · rw [testBit_value_mul_add _ _ hin]
    · omega
    · omega
    · exact testBit_remainderFiller _ (by omega)

lemma testBit_value_shiftRight {dst : List T} {bits : Nat} (h : bits < Limb.bits T * dst.length)
    (negRemainder : Bool) {p : Nat} (hp : p < Limb.bits T * dst.length) :
    (Limb.value (shiftRight dst bits negRemainder)).testBit p =
      if p + bits < Limb.bits T * dst.length then (Limb.value dst).testBit (p + bits)
      else negRemainder := by
  by_cases hbits : bits = 0
  · rw [shiftRight, if_pos hbits, hbits, Nat.add_zero, if_pos hp]
  have hpos := Limb.bits_pos (T := T)
  have hq := Nat.mod_lt p hpos
  have hqb := Nat.mod_lt bits hpos
  have hsplit := Nat.div_add_mod p (Limb.bits T)
  have hsplitb := Nat.div_add_mod bits (Limb.bits T)
  have hj : p / Limb.bits T < dst.length := Nat.div_lt_of_lt_mul hp
  have hsw : bits / Limb.bits T < dst.length := Nat.div_lt_of_lt_mul h
  have hsum : Limb.bits T * (p / Limb.bits T + bits / Limb.bits T) +
      (p % Limb.bits T + bits % Limb.bits T) = p + bits := by
    rw [Nat.mul_add]
    omega
  conv_lhs => rw [← hsplit]
  rw [testBit_value_mul_add _ _ hq, getD_shiftRight hsw hbits negRemainder hj,
    testBit_rightWordOf negRemainder hqb hq, hsum]

lemma value_shiftLeft {dst : List T} {bits : Nat} (h : bits / Limb.bits T ≤ dst.length) :
    Limb.value (shiftLeft dst bits) = Limb.value dst * 2 ^ bits % 2 ^ (Limb.bits T * dst.length) := by
  have hlt := Limb.value_lt (shiftLeft dst bits)
  rw [length_shiftLeft h] at hlt
  apply Nat.eq_of_testBit_eq
  intro p
  rw [Nat.testBit_mod_two_pow, Nat.mul_comm (Limb.value dst), Nat.testBit_two_pow_mul]
  by_cases hp : p < Limb.bits T * dst.length
  · rw [testBit_value_shiftLeft h hp, decide_eq_true hp, Bool.true_and]
  · rw [decide_eq_false hp, Bool.false_and]
    exact Nat.testBit_lt_two_pow
      (lt_of_lt_of_le hlt (Nat.pow_le_pow_right (by decide) (not_lt.mp hp)))

lemma value_shiftRight {dst : List T} {bits : Nat} (h : bits < Limb.bits T * dst.length)
    (negRemainder : Bool) :
    Limb.value (shiftRight dst bits negRemainder) = Limb.value dst / 2 ^ bits +
      if negRemainder then
        2 ^ (Limb.bits T * dst.length) - 2 ^ (Limb.bits T * dst.length - bits) else 0 := by
  have hlen : (shiftRight dst bits negRemainder).length = dst.length :=
    length_shiftRight (Nat.div_lt_of_lt_mul h).le negRemainder
  have hlt := Limb.value_lt (shiftRight dst bits negRemainder)
  have hval := Limb.value_lt dst
  rw [hlen] at hlt
  generalize hn : Limb.bits T * dst.length = n at *
  have hquot : Limb.value dst / 2 ^ bits < 2 ^ (n - bits) := by
    rw [Nat.div_lt_iff_lt_mul (Nat.two_pow_pos _), ← pow_add, Nat.sub_add_cancel h.le]
    exact hval
  -- the upper part is free for the bits that are filled in
  have hfill : (if negRemainder then 2 ^ n - 2 ^ (n - bits) else 0) =
      2 ^ (n - bits) * (if negRemainder then 2 ^ bits - 1 else 0) := by
    split_ifs
    · rw [Nat.mul_sub, ← pow_add, Nat.sub_add_cancel h.le, Nat.mul_one]
    · rfl
  apply Nat.eq_of_testBit_eq
  intro p
  rw [hfill, Nat.add_comm, Nat.testBit_two_pow_mul_add _ hquot, Nat.testBit_div_two_pow]
  by_cases hp : p < n
  · have hp' : p < Limb.bits T * dst.length := by omega
    have hshift := testBit_value_shiftRight (hn ▸ h) negRemainder hp'
    rw [hn] at hshift
    rw [hshift]
    by_cases hin : p + bits < n
    · rw [if_pos hin, if_pos (by omega), Nat.add_comm]
    · rw [if_neg hin, if_neg (by omega)]
      split_ifs with hneg
      · rw [Nat.testBit_two_pow_sub_one, decide_eq_true (by omega), hneg]
      · rw [Nat.zero_testBit]
        simpa using hneg
  · have hpow : 2 ^ n ≤ 2 ^ p := Nat.pow_le_pow_right (by decide) (not_lt.mp hp)
    rw [Nat.testBit_lt_two_pow (hlt.trans_le hpow), if_neg (by omega)]
    split_ifs with hneg
    · rw [Nat.testBit_two_pow_sub_one, decide_eq_false (by omega)]
    · rw [Nat.zero_testBit]

end IntVal
end Maple
