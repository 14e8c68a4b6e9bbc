import Maple.Lib.IntFormat
import Mathlib.Data.Int.Bitwise

/-!
# Bits of integers

The bits of an integer in two's complement, of which there are infinitely many. A number that is
cut down to a format has its bits up to the width, and from there on its sign.
-/

namespace Int

lemma testBit_emod_two_pow (x : Int) {i n : Nat} (h : i < n) :
    (x % 2 ^ n).toNat.testBit i = x.testBit i := by
  cases x with
  | ofNat m =>
    have hnat : ((Int.ofNat m) % 2 ^ n).toNat = m % 2 ^ n := by
      rw [Int.ofNat_eq_natCast]
      norm_cast
    rw [hnat, Nat.testBit_mod_two_pow, decide_eq_true h, Bool.true_and]
    rfl
  | negSucc m =>
    have hlt := Nat.mod_lt m (Nat.two_pow_pos n)
    have hpow : ((2 ^ n : Nat) : Int) = 2 ^ n := by
      push_cast
      rfl
    have hnat : ((Int.negSucc m) % 2 ^ n).toNat = 2 ^ n - (m % 2 ^ n + 1) := by
      have hdiv := Int.emod_add_mul_ediv (Int.negSucc m) (2 ^ n)
      have hmod : (Int.negSucc m) % 2 ^ n = ((2 ^ n - (m % 2 ^ n + 1) : Nat) : Int) := by
        rw [Int.negSucc_emod m (by positivity), ← hpow]
        omega
      rw [hmod, Int.toNat_natCast]
    rw [hnat, Nat.testBit_two_pow_sub_succ hlt, Nat.testBit_mod_two_pow, decide_eq_true h,
      Bool.true_and, Bool.true_and]
    rfl

lemma testBit_of_mem {x : Int} {n : Nat} (hlo : -2 ^ n ≤ x) (hhi : x < 2 ^ n) {i : Nat}
    (hi : n ≤ i) : x.testBit i = decide (x < 0) := by
  have hpow : (2 : Nat) ^ n ≤ 2 ^ i := Nat.pow_le_pow_right (by decide) hi
  have hcast : ((2 ^ n : Nat) : Int) = 2 ^ n := by push_cast; rfl
  cases x with
  | ofNat m =>
    rw [Int.ofNat_eq_natCast] at hhi ⊢
    have hbit : m.testBit i = false := Nat.testBit_lt_two_pow (by omega)
    exact hbit.trans (decide_eq_false (by omega)).symm
  | negSucc m =>
    have hbit : m.testBit i = false := Nat.testBit_lt_two_pow (by omega)
    have hneg : decide (Int.negSucc m < 0) = true := decide_eq_true (Int.negSucc_lt_zero m)
    rw [hneg]
    exact congrArg not hbit

lemma testBit_ediv_two_pow (x : Int) (n i : Nat) : (x / 2 ^ n).testBit i = x.testBit (n + i) := by
  have hcast : ((2 ^ n : Nat) : Int) = 2 ^ n := by push_cast; rfl
  cases x with
  | ofNat m =>
    have hdiv : (Int.ofNat m) / 2 ^ n = Int.ofNat (m / 2 ^ n) := by
      rw [← hcast]
      rfl
    rw [hdiv]
    exact (Nat.testBit_div_two_pow m i).trans (congrArg m.testBit (Nat.add_comm i n))
  | negSucc m =>
    have hdiv : (Int.negSucc m) / 2 ^ n = Int.negSucc (m / 2 ^ n) := by
      rw [← hcast, Int.negSucc_ediv m (by positivity)]
      rfl
    rw [hdiv]
    exact congrArg not
      ((Nat.testBit_div_two_pow m i).trans (congrArg m.testBit (Nat.add_comm i n)))

lemma eq_of_testBit_eq {x y : Int} (h : ∀ i, x.testBit i = y.testBit i) : x = y := by
  obtain ⟨n, hn⟩ : ∃ n : Nat, |x - y| < 2 ^ n := by
    refine ⟨(x - y).natAbs, ?_⟩
    have hlt : (x - y).natAbs < 2 ^ (x - y).natAbs := Nat.lt_two_pow_self
    rw [Int.abs_eq_natAbs]
    exact_mod_cast hlt
  have hpos : (0 : Int) < 2 ^ n := by positivity
  have hmod : x % 2 ^ n = y % 2 ^ n := by
    have hx := Int.emod_nonneg x hpos.ne'
    have hy := Int.emod_nonneg y hpos.ne'
    rw [← Int.toNat_of_nonneg hx, ← Int.toNat_of_nonneg hy]
    congr 1
    apply Nat.eq_of_testBit_eq
    intro i
    rcases Nat.lt_or_ge i n with hi | hi
    · rw [testBit_emod_two_pow x hi, testBit_emod_two_pow y hi, h i]
    · have hsmall : ∀ z : Int, (z % 2 ^ n).toNat < 2 ^ i := by
        intro z
        have hlt := Int.emod_lt_of_pos z hpos
        have hnn := Int.emod_nonneg z hpos.ne'
        have hpow : (2 : Int) ^ n ≤ 2 ^ i := pow_le_pow_right₀ (by decide) hi
        zify
        rw [Int.toNat_of_nonneg hnn]
        omega
      rw [Nat.testBit_lt_two_pow (hsmall x), Nat.testBit_lt_two_pow (hsmall y)]
  have hdvd : (2 : Int) ^ n ∣ x - y :=
    Int.dvd_of_emod_eq_zero (Int.emod_eq_emod_iff_emod_sub_eq_zero.mp hmod)
  have hzero := Int.eq_zero_of_abs_lt_dvd hdvd hn
  omega

end Int

namespace IntFormat

lemma mem_unsigned_iff (n : Nat) (v : Int) :
    (IntFormat.mk n false).Mem v ↔ 0 ≤ v ∧ v < 2 ^ n := by
  have hmod : (((IntFormat.mk n false).modulus : Nat) : Int) = 2 ^ n := by simp [modulus]
  rw [Mem, minValue, if_neg Bool.false_ne_true, maxValue, if_neg Bool.false_ne_true, hmod]
  omega

lemma mem_signed_iff {n : Nat} (hn : 0 < n) (v : Int) :
    (IntFormat.mk n true).Mem v ↔ -2 ^ (n - 1) ≤ v ∧ v < 2 ^ (n - 1) := by
  have hmod : (((IntFormat.mk n true).modulus : Nat) : Int) = 2 * 2 ^ (n - 1) := by
    rw [← pow_succ', Nat.sub_add_cancel hn]
    simp [modulus]
  rw [Mem, minValue, if_pos rfl, maxValue, if_pos rfl, hmod]
  omega

lemma testBit_wrap {f : IntFormat} (hf : 0 < f.width) (x : Int) (i : Nat) :
    (f.wrap x).testBit i =
      if i < f.width then x.testBit i else f.signed && x.testBit (f.width - 1) := by
  have hmod : ((f.modulus : Nat) : Int) = 2 ^ f.width := by simp [modulus]
  have hlow : ∀ j < f.width, (f.wrap x).testBit j = x.testBit j := by
    intro j hj
    rw [← Int.testBit_emod_two_pow _ hj, ← Int.testBit_emod_two_pow x hj, ← hmod, f.wrap_emod]
  split_ifs with hi
  · exact hlow i hi
  · cases hs : f.signed with
    | true =>
      have hmem : (IntFormat.mk f.width true).Mem (f.wrap x) := hs ▸ f.wrap_mem x
      rw [mem_signed_iff hf] at hmem
      have hsign := fun j => Int.testBit_of_mem (i := j) hmem.1 hmem.2
      rw [Bool.true_and, ← hlow (f.width - 1) (by omega), hsign i (by omega), hsign _ (le_refl _)]
    | false =>
      have hmem : (IntFormat.mk f.width false).Mem (f.wrap x) := hs ▸ f.wrap_mem x
      rw [mem_unsigned_iff] at hmem
      rw [Bool.false_and, Int.testBit_of_mem (by omega) hmem.2 (not_lt.mp hi)]
      exact decide_eq_false (by omega)

end IntFormat

/-! ### Sources of bits -/

/-- Where a bit of a number comes from: it is known, or it is a bit of the variable. -/
inductive BitSource where
  | known (b : Bool)
  | leaf (k : Nat)
  deriving DecidableEq, Repr

namespace BitSource

def eval (v : Int) : BitSource → Bool
  | known b => b
  | leaf k => v.testBit k

/-- The source is one of the lowest `n` bits of the variable, if it is one of its bits. -/
def Below (n : Nat) : BitSource → Prop
  | known _ => True
  | leaf k => k < n

lemma exists_eval_ne {f : IntFormat} {a b : BitSource} (ha : a.Below f.width)
    (hb : b.Below f.width) (hne : a ≠ b) : ∃ v, f.Mem v ∧ a.eval v ≠ b.eval v := by
  have hpow : ∀ k i : Nat, ((2 ^ k : Nat) : Int).testBit i = decide (k = i) := fun k i =>
    Nat.testBit_two_pow
  have hzero : ∀ i, (0 : Int).testBit i = false := fun i => Nat.zero_testBit i
  have hlow : ∀ (x : Int) {k : Nat}, k < f.width → (f.wrap x).testBit k = x.testBit k := by
    intro x k hk
    rw [IntFormat.testBit_wrap (by omega), if_pos hk]
  cases a with
  | known b₁ =>
    cases b with
    | known b₂ => exact ⟨f.wrap 0, f.wrap_mem 0, fun h => hne (congrArg known h)⟩
    | leaf k =>
      refine ⟨f.wrap (if b₁ then 0 else ((2 ^ k : Nat) : Int)), f.wrap_mem _, ?_⟩
      rw [eval, eval, hlow _ hb]
      cases b₁ with
      | true => simp [hzero]
      | false => rw [if_neg Bool.false_ne_true, hpow]; simp
  | leaf k =>
    refine ⟨f.wrap (if b = known true then 0 else ((2 ^ k : Nat) : Int)), f.wrap_mem _, ?_⟩
    rw [eval, hlow _ ha]
    cases b with
    | known b₂ =>
      cases b₂ with
      | true => simp [eval, hzero]
      | false => rw [if_neg (by simp), hpow]; simp [eval]
    | leaf k' =>
      have hkk : k ≠ k' := fun h => hne (congrArg leaf h)
      rw [eval, hlow _ hb, if_neg (by simp), hpow, hpow]
      simp [hkk]

end BitSource

namespace IntFormat

/-- The sources of a number that is cut down to the format. -/
def sources (f : IntFormat) (s : Nat → BitSource) (i : Nat) : BitSource :=
  if i < f.width then s i else if f.signed then s (f.width - 1) else .known false

lemma testBit_wrap_sources {f : IntFormat} (hf : 0 < f.width) {s : Nat → BitSource} {x v : Int}
    (h : ∀ i, x.testBit i = (s i).eval v) (i : Nat) :
    (f.wrap x).testBit i = (f.sources s i).eval v := by
  rw [testBit_wrap hf, sources]
  split_ifs with hi hs
  · exact h i
  · rw [hs, Bool.true_and, h]
  · rw [Bool.not_eq_true] at hs
    rw [hs, Bool.false_and, BitSource.eval]

lemma sources_congr {f : IntFormat} (hf : 0 < f.width) {s s' : Nat → BitSource} :
    (∀ i, f.sources s i = f.sources s' i) ↔ ∀ i < f.width, s i = s' i := by
  constructor
  · intro h i hi
    have := h i
    rwa [sources, sources, if_pos hi, if_pos hi] at this
  · intro h i
    rw [sources, sources]
    split_ifs with hi hs
    · exact h i hi
    · exact h _ (by omega)
    · rfl

lemma sources_below {f : IntFormat} {s : Nat → BitSource} {n : Nat}
    (h : ∀ i, (s i).Below n) (i : Nat) : (f.sources s i).Below n := by
  rw [sources]
  split_ifs
  · exact h i
  · exact h _
  · trivial

lemma testBit_sources_leaf {f : IntFormat} (hf : 0 < f.width) {v : Int} (hv : f.Mem v) (i : Nat) :
    v.testBit i = (f.sources .leaf i).eval v := by
  rw [← testBit_wrap_sources hf (fun _ => rfl), f.wrap_of_mem hv]

lemma sources_leaf_below {f : IntFormat} (hf : 0 < f.width) (i : Nat) :
    (f.sources .leaf i).Below f.width := by
  rw [sources]
  split_ifs with hi
  · exact hi
  · exact Nat.sub_lt hf Nat.one_pos
  · trivial

end IntFormat
