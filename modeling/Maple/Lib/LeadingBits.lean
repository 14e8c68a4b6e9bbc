import Mathlib.Data.Nat.Bitwise
import Mathlib.Order.Lattice

/-!
# Runs of equal bits at an end

The run of bits `b` at the upper and at the lower end of the lowest `n` bits of a number.
-/

namespace Nat

/-- The number of leading bits `b` of the lowest `n` bits. -/
def leadingRun (b : Bool) : Nat → Nat → Nat
  | 0, _ => 0
  | n + 1, v => if v.testBit n = b then leadingRun b n v + 1 else 0

/-- The number of trailing bits `b` of the lowest `n` bits. -/
def trailingRun (b : Bool) : Nat → Nat → Nat
  | 0, _ => 0
  | n + 1, v => if v.testBit 0 = b then trailingRun b n (v / 2) + 1 else 0

variable {b : Bool}

lemma leadingRun_succ_of_eq {n v : Nat} (h : v.testBit n = b) :
    leadingRun b (n + 1) v = leadingRun b n v + 1 := if_pos h

lemma leadingRun_succ_of_ne {n v : Nat} (h : v.testBit n ≠ b) : leadingRun b (n + 1) v = 0 :=
  if_neg h

lemma leadingRun_le (b : Bool) (n v : Nat) : leadingRun b n v ≤ n := by
  induction n with
  | zero => exact le_refl 0
  | succ n ih =>
    rw [leadingRun]
    split_ifs
    · exact Nat.succ_le_succ ih
    · exact Nat.zero_le _

lemma leadingRun_succ_eq_zero_iff {n v : Nat} :
    leadingRun b (n + 1) v = 0 ↔ v.testBit n ≠ b := by
  rw [leadingRun]
  split_ifs with h
  · simp [h]
  · simp [h]

lemma le_leadingRun_iff {n k v : Nat} (h : k ≤ n) :
    k ≤ leadingRun b n v ↔ ∀ i, n - k ≤ i → i < n → v.testBit i = b := by
  induction n generalizing k with
  | zero =>
    obtain rfl : k = 0 := Nat.le_zero.mp h
    simp
  | succ n ih =>
    rcases k.eq_zero_or_pos with rfl | hk
    · refine iff_of_true (Nat.zero_le _) ?_
      intro i hle hlt
      omega
    by_cases hbit : v.testBit n = b
    · rw [leadingRun_succ_of_eq hbit]
      have hsucc : k ≤ leadingRun b n v + 1 ↔ k - 1 ≤ leadingRun b n v := by omega
      rw [hsucc, ih (by omega)]
      constructor
      · intro hall i hle hlt
        rcases (Nat.lt_succ_iff_lt_or_eq.mp hlt) with hlt | rfl
        · exact hall i (by omega) hlt
        · exact hbit
      · intro hall i hle hlt
        exact hall i (by omega) (by omega)
    · rw [leadingRun_succ_of_ne hbit]
      refine iff_of_false (by omega) ?_
      intro hall
      exact hbit (hall n (by omega) (Nat.lt_succ_self n))

lemma leadingRun_eq_iff {n v : Nat} :
    leadingRun b n v = n ↔ ∀ i < n, v.testBit i = b := by
  have hle := leadingRun_le b n v
  have hiff := le_leadingRun_iff (b := b) (v := v) (le_refl n)
  rw [Nat.sub_self] at hiff
  constructor
  · intro h i hi
    exact hiff.mp h.ge i (Nat.zero_le i) hi
  · intro h
    exact le_antisymm hle (hiff.mpr fun i _ => h i)

lemma leadingRun_congr {n v w : Nat} (h : ∀ i < n, v.testBit i = w.testBit i) :
    leadingRun b n v = leadingRun b n w := by
  induction n with
  | zero => rfl
  | succ n ih =>
    rw [leadingRun, leadingRun, h n (lt_succ_self n), ih fun i hi => h i (lt_succ_of_lt hi)]

lemma leadingRun_add_of_forall {n m v : Nat} (h : ∀ i, n ≤ i → i < n + m → v.testBit i = b) :
    leadingRun b (n + m) v = m + leadingRun b n v := by
  induction m with
  | zero => exact (Nat.zero_add _).symm
  | succ m ih =>
    rw [← Nat.add_assoc, leadingRun_succ_of_eq (h _ (Nat.le_add_right n m) (by omega)),
      ih fun i hle hlt => h i hle (by omega)]
    omega

lemma leadingRun_append {m lo : Nat} (hlo : lo < 2 ^ m) (n hi : Nat) :
    leadingRun b (m + n) (lo + 2 ^ m * hi) =
      if leadingRun b n hi = n then n + leadingRun b m lo else leadingRun b n hi := by
  have hbits : ∀ i, (lo + 2 ^ m * hi).testBit i =
      if i < m then lo.testBit i else hi.testBit (i - m) := by
    intro i
    rw [Nat.add_comm, Nat.testBit_two_pow_mul_add _ hlo]
  induction n with
  | zero =>
    rw [leadingRun, if_pos rfl, Nat.add_zero, Nat.zero_add]
    apply leadingRun_congr
    intro i hi
    rw [hbits, if_pos hi]
  | succ n ih =>
    have htop : (lo + 2 ^ m * hi).testBit (m + n) = hi.testBit n := by
      rw [hbits, if_neg (by omega), Nat.add_sub_cancel_left]
    rw [← Nat.add_assoc]
    by_cases hbit : hi.testBit n = b
    · rw [leadingRun_succ_of_eq (htop.trans hbit), leadingRun_succ_of_eq hbit, ih]
      split_ifs <;> omega
    · rw [leadingRun_succ_of_ne (fun h => hbit (htop.symm.trans h)), leadingRun_succ_of_ne hbit,
        if_neg (by omega)]

lemma le_leadingRun_false_iff {n k v : Nat} (h : k ≤ n) (hv : v < 2 ^ n) :
    k ≤ leadingRun false n v ↔ v < 2 ^ (n - k) := by
  rw [le_leadingRun_iff h]
  constructor
  · intro hall
    apply Nat.lt_pow_two_of_testBit
    intro i hi
    by_cases hlt : i < n
    · exact hall i hi hlt
    · exact Nat.testBit_lt_two_pow (lt_of_lt_of_le hv (Nat.pow_le_pow_right (by decide) (by omega)))
  · intro hlt i hle _
    exact Nat.testBit_lt_two_pow (lt_of_lt_of_le hlt (Nat.pow_le_pow_right (by decide) hle))

lemma leadingRun_complement {n v w : Nat} (h : ∀ i < n, w.testBit i = !v.testBit i) :
    leadingRun (!b) n w = leadingRun b n v := by
  induction n with
  | zero => rfl
  | succ n ih =>
    rw [leadingRun, leadingRun, h n (lt_succ_self n), ih fun i hi => h i (lt_succ_of_lt hi)]
    simp

/-! ### Trailing runs -/

lemma trailingRun_le (b : Bool) (n v : Nat) : trailingRun b n v ≤ n := by
  induction n generalizing v with
  | zero => exact le_refl 0
  | succ n ih =>
    rw [trailingRun]
    split_ifs
    · exact Nat.succ_le_succ (ih _)
    · exact Nat.zero_le _

lemma le_trailingRun_iff {n k v : Nat} (h : k ≤ n) :
    k ≤ trailingRun b n v ↔ ∀ i < k, v.testBit i = b := by
  induction n generalizing k v with
  | zero =>
    obtain rfl : k = 0 := Nat.le_zero.mp h
    simp
  | succ n ih =>
    cases k with
    | zero => exact iff_of_true (Nat.zero_le _) nofun
    | succ k =>
      rw [trailingRun, Nat.forall_lt_succ_left]
      have hrest : (∀ i < k, v.testBit (i + 1) = b) ↔ ∀ i < k, (v / 2).testBit i = b := by
        simp only [Nat.testBit_succ]
      split_ifs with hbit
      · rw [Nat.succ_le_succ_iff, ih (Nat.le_of_succ_le_succ h), hrest, and_iff_right hbit]
      · exact iff_of_false (Nat.not_succ_le_zero k) (fun h => hbit h.1)

lemma trailingRun_eq_iff {n v : Nat} : trailingRun b n v = n ↔ ∀ i < n, v.testBit i = b := by
  have hle := trailingRun_le b n v
  rw [← le_trailingRun_iff (le_refl n)]
  omega

lemma trailingRun_append {m lo : Nat} (hlo : lo < 2 ^ m) (n hi : Nat) :
    trailingRun b (m + n) (lo + 2 ^ m * hi) =
      if trailingRun b m lo = m then m + trailingRun b n hi else trailingRun b m lo := by
  induction m generalizing lo with
  | zero =>
    obtain rfl : lo = 0 := Nat.lt_one_iff.mp hlo
    simp [trailingRun]
  | succ m ih =>
    have hpow : 2 ^ (m + 1) = 2 * 2 ^ m := Nat.pow_succ'
    have hbit : (lo + 2 ^ (m + 1) * hi).testBit 0 = lo.testBit 0 := by
      rw [Nat.testBit_zero, Nat.testBit_zero, hpow, Nat.mul_assoc, Nat.add_mul_mod_self_left]
    have hhalf : (lo + 2 ^ (m + 1) * hi) / 2 = lo / 2 + 2 ^ m * hi := by
      rw [hpow, Nat.mul_assoc, Nat.add_mul_div_left _ _ (by decide)]
    rw [Nat.add_right_comm, trailingRun, trailingRun, hbit, hhalf, ih (by omega)]
    by_cases hzero : lo.testBit 0 = b
    · rw [if_pos hzero, if_pos hzero]
      by_cases hrun : trailingRun b m (lo / 2) = m
      · rw [if_pos hrun, if_pos (by rw [hrun])]
        omega
      · rw [if_neg hrun, if_neg (fun h => hrun (Nat.succ.inj h))]
    · rw [if_neg hzero, if_neg hzero, if_neg (Nat.succ_ne_zero m).symm]

lemma trailingRun_min {n m v : Nat} (h : m ≤ n) :
    min (trailingRun b n v) m = trailingRun b m v := by
  apply eq_of_forall_le_iff
  intro k
  rw [Nat.le_min]
  constructor
  · rintro ⟨hrun, hk⟩
    exact (le_trailingRun_iff hk).mpr ((le_trailingRun_iff (hk.trans h)).mp hrun)
  · intro hrun
    have hk := hrun.trans (trailingRun_le b m v)
    exact ⟨(le_trailingRun_iff (hk.trans h)).mpr ((le_trailingRun_iff hk).mp hrun), hk⟩

lemma trailingRun_true_eq_iff {n v : Nat} :
    v.testBit n = false ∧ trailingRun true (n + 1) v = n ↔ v % 2 ^ (n + 1) = 2 ^ n - 1 := by
  have hle := trailingRun_le true (n + 1) v
  have hlow := le_trailingRun_iff (b := true) (v := v) (k := n) (n := n + 1) (by omega)
  have hall := trailingRun_eq_iff (b := true) (n := n + 1) (v := v)
  constructor
  · rintro ⟨htop, hrun⟩
    have hbits := hlow.mp hrun.ge
    apply Nat.eq_of_testBit_eq
    intro i
    rw [Nat.testBit_mod_two_pow, Nat.testBit_two_pow_sub_one]
    rcases lt_trichotomy i n with hi | rfl | hi
    · simp [hbits i hi, hi, Nat.lt_succ_of_lt hi]
    · simp [htop]
    · simp [Nat.not_lt.mpr hi.le, Nat.not_lt.mpr (Nat.succ_le_of_lt hi)]
  · intro heq
    have hbit : ∀ i < n + 1, v.testBit i = decide (i < n) := by
      intro i hi
      have hmod := congrArg (·.testBit i) heq
      simpa [Nat.testBit_mod_two_pow, Nat.testBit_two_pow_sub_one, hi] using hmod
    have htop : v.testBit n = false := by simpa using hbit n (Nat.lt_succ_self n)
    have hge := hlow.mpr fun i hi => by simpa [hi] using hbit i (Nat.lt_succ_of_lt hi)
    have hne : trailingRun true (n + 1) v ≠ n + 1 := by
      intro h
      have := hall.mp h n (Nat.lt_succ_self n)
      rw [htop] at this
      exact Bool.false_ne_true this
    exact ⟨htop, by omega⟩

lemma trailingRun_false_eq_iff {n v : Nat} :
    v.testBit n = true ∧ trailingRun false (n + 1) v = n ↔ v % 2 ^ (n + 1) = 2 ^ n := by
  have hle := trailingRun_le false (n + 1) v
  have hlow := le_trailingRun_iff (b := false) (v := v) (k := n) (n := n + 1) (by omega)
  have hall := trailingRun_eq_iff (b := false) (n := n + 1) (v := v)
  constructor
  · rintro ⟨htop, hrun⟩
    have hbits := hlow.mp hrun.ge
    apply Nat.eq_of_testBit_eq
    intro i
    rw [Nat.testBit_mod_two_pow, Nat.testBit_two_pow]
    rcases lt_trichotomy i n with hi | rfl | hi
    · simp [hbits i hi, hi.ne']
    · simp [htop]
    · simp [hi.ne, Nat.not_lt.mpr (Nat.succ_le_of_lt hi)]
  · intro heq
    have hbit : ∀ i < n + 1, v.testBit i = decide (n = i) := by
      intro i hi
      have hmod := congrArg (·.testBit i) heq
      simpa [Nat.testBit_mod_two_pow, Nat.testBit_two_pow, hi] using hmod
    have htop : v.testBit n = true := by simpa using hbit n (Nat.lt_succ_self n)
    have hge := hlow.mpr fun i hi => by simpa [hi.ne'] using hbit i (Nat.lt_succ_of_lt hi)
    have hne : trailingRun false (n + 1) v ≠ n + 1 := by
      intro h
      have := hall.mp h n (Nat.lt_succ_self n)
      rw [htop] at this
      exact Bool.false_ne_true this.symm
    exact ⟨htop, by omega⟩

lemma trailingRun_true_eq_self_iff {n v : Nat} :
    trailingRun true n v = n ↔ v % 2 ^ n = 2 ^ n - 1 := by
  rw [trailingRun_eq_iff]
  constructor
  · intro hall
    apply Nat.eq_of_testBit_eq
    intro i
    rw [Nat.testBit_mod_two_pow, Nat.testBit_two_pow_sub_one]
    by_cases hi : i < n
    · simp [hall i hi, hi]
    · simp [hi]
  · intro heq i hi
    have hmod := congrArg (·.testBit i) heq
    simpa [Nat.testBit_mod_two_pow, Nat.testBit_two_pow_sub_one, hi] using hmod

lemma trailingRun_false_eq_self_iff {n v : Nat} : trailingRun false n v = n ↔ v % 2 ^ n = 0 := by
  rw [trailingRun_eq_iff]
  constructor
  · intro hall
    apply Nat.eq_of_testBit_eq
    intro i
    rw [Nat.testBit_mod_two_pow, Nat.zero_testBit]
    by_cases hi : i < n
    · simp [hall i hi]
    · simp [hi]
  · intro heq i hi
    have hmod := congrArg (·.testBit i) heq
    simpa [Nat.testBit_mod_two_pow, hi] using hmod

lemma trailingRun_complement {n v w : Nat} (h : ∀ i < n, w.testBit i = !v.testBit i) :
    trailingRun (!b) n w = trailingRun b n v := by
  induction n generalizing v w with
  | zero => rfl
  | succ n ih =>
    have hrest : ∀ i < n, (w / 2).testBit i = !(v / 2).testBit i := by
      intro i hi
      rw [← Nat.testBit_succ, ← Nat.testBit_succ]
      exact h (i + 1) (Nat.succ_lt_succ hi)
    rw [trailingRun, trailingRun, h 0 (Nat.succ_pos n), ih hrest]
    simp

end Nat
