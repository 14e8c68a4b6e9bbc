import Mathlib.Data.Nat.Bitwise
import Mathlib.Tactic.Ring
import Mathlib.Tactic.Linarith

/-!
# Runs of ones in words

The lowest run of ones of a number, the two operations on words that isolate and clear it, numbers
that repeat a pattern of bits, and runs of ones that are rotated within a period.
-/

namespace BitRuns

/-! ### The lowest run of ones -/

/-- The lowest run of ones of `x` covers the bits from `start` up to `stop`; above the zero that
follows it stand the bits of `rest`. -/
structure LowestRun (x start stop rest : Nat) : Prop where
  lt : start < stop
  eq : x + 2 ^ start = 2 ^ stop + 2 ^ (stop + 1) * rest

lemma LowestRun.double {x start stop rest : Nat} (h : LowestRun x start stop rest) :
    LowestRun (2 * x) (start + 1) (stop + 1) rest where
  lt := by have := h.lt; omega
  eq := by
    have heq := h.eq
    calc 2 * x + 2 ^ (start + 1) = 2 * (x + 2 ^ start) := by ring
      _ = 2 * (2 ^ stop + 2 ^ (stop + 1) * rest) := by rw [heq]
      _ = 2 ^ (stop + 1) + 2 ^ (stop + 1 + 1) * rest := by ring

lemma exists_lowestRun {x : Nat} (hx : 0 < x) :
    ∃ start stop rest, LowestRun x start stop rest ∧ (x % 2 = 1 → start = 0) := by
  induction x using Nat.strongRecOn with
  | _ x ih =>
    obtain heven | hodd := Nat.mod_two_eq_zero_or_one x
    · obtain ⟨start, stop, rest, h, -⟩ := ih (x / 2) (by omega) (by omega)
      have hdouble := h.double
      rw [show 2 * (x / 2) = x by omega] at hdouble
      exact ⟨start + 1, stop + 1, rest, hdouble, by omega⟩
    · obtain heven' | hodd' := Nat.mod_two_eq_zero_or_one (x / 2)
      · refine ⟨0, 1, x / 4, ⟨by decide, ?_⟩, fun _ => rfl⟩
        simp only [pow_zero, pow_one]
        omega
      · obtain ⟨start, stop, rest, h, hstart⟩ := ih (x / 2) (by omega) (by omega)
        obtain rfl := hstart hodd'
        refine ⟨0, stop + 1, rest, ⟨by omega, ?_⟩, fun _ => rfl⟩
        have heq := h.eq
        calc x + 2 ^ 0 = 2 * (x / 2 + 2 ^ 0) := by omega
          _ = 2 * (2 ^ stop + 2 ^ (stop + 1) * rest) := by rw [heq]
          _ = 2 ^ (stop + 1) + 2 ^ (stop + 1 + 1) * rest := by ring

namespace LowestRun

variable {x start stop rest : Nat}

lemma pow_lt (h : LowestRun x start stop rest) : 2 ^ start < 2 ^ stop :=
  Nat.pow_lt_pow_right (by decide) h.lt

lemma ones_eq (h : LowestRun x start stop rest) :
    2 ^ stop - 2 ^ start = 2 ^ start * (2 ^ (stop - start) - 1) := by
  rw [Nat.mul_sub, ← pow_add, Nat.add_sub_cancel' (Nat.le_of_lt h.lt), mul_one]

lemma testBit (h : LowestRun x start stop rest) (i : Nat) :
    x.testBit i =
      if i < stop + 1 then decide (start ≤ i ∧ i < stop) else rest.testBit (i - (stop + 1)) := by
  have hpow := h.pow_lt
  have hlt : 2 ^ stop - 2 ^ start < 2 ^ (stop + 1) :=
    lt_of_le_of_lt (Nat.sub_le _ _) (Nat.pow_lt_pow_right (by decide) (Nat.lt_succ_self stop))
  have hx : x = 2 ^ (stop + 1) * rest + (2 ^ stop - 2 ^ start) := by
    have heq := h.eq
    omega
  rw [hx, Nat.testBit_two_pow_mul_add _ hlt, h.ones_eq, Nat.testBit_two_pow_mul,
    Nat.testBit_two_pow_sub_one]
  have hlt := h.lt
  congr 1
  rw [← Bool.decide_and, decide_eq_decide]
  omega

lemma start_set (h : LowestRun x start stop rest) : x.testBit start = true := by
  have hlt := h.lt
  rw [h.testBit, if_pos (by omega), decide_eq_true_eq]
  omega

lemma below_start (h : LowestRun x start stop rest) {i : Nat} (hi : i < start) :
    x.testBit i = false := by
  have hlt := h.lt
  rw [h.testBit, if_pos (by omega), decide_eq_false_iff_not]
  omega

lemma run_set (h : LowestRun x start stop rest) {i : Nat} (hlo : start ≤ i) (hhi : i < stop) :
    x.testBit i = true := by
  rw [h.testBit, if_pos (by omega), decide_eq_true_eq]
  exact ⟨hlo, hhi⟩

lemma stop_clear (h : LowestRun x start stop rest) : x.testBit stop = false := by
  rw [h.testBit, if_pos (by omega), decide_eq_false_iff_not]
  omega

lemma above_stop (h : LowestRun x start stop rest) (i : Nat) :
    x.testBit (stop + 1 + i) = rest.testBit i := by
  rw [h.testBit, if_neg (by omega), Nat.add_sub_cancel_left]

lemma eq_odd (h : LowestRun x start stop rest) :
    ∃ k, x = 2 ^ start * (2 * k + 1) := by
  obtain ⟨d, hd⟩ := Nat.exists_eq_add_of_lt h.lt
  refine ⟨2 ^ d * (1 + 2 * rest) - 1, ?_⟩
  have hpos : 0 < 2 ^ d * (1 + 2 * rest) := Nat.mul_pos (Nat.two_pow_pos d) (by omega)
  have heq := h.eq
  have hodd : 2 * (2 ^ d * (1 + 2 * rest) - 1) + 1 = 2 * (2 ^ d * (1 + 2 * rest)) - 1 := by omega
  rw [hodd, Nat.mul_sub, mul_one, show 2 ^ start * (2 * (2 ^ d * (1 + 2 * rest))) =
    2 ^ stop + 2 ^ (stop + 1) * rest by rw [hd]; ring, ← heq, Nat.add_sub_cancel]

end LowestRun

/-! ### Isolating and clearing the lowest one -/

lemma and_two_pow_sub {n t k : Nat} (hlt : 2 ^ t * (2 * k + 1) < 2 ^ n) :
    (2 ^ t * (2 * k + 1)) &&& (2 ^ n - 2 ^ t * (2 * k + 1)) = 2 ^ t := by
  have htn : t < n := by
    have hle : 2 ^ t ≤ 2 ^ t * (2 * k + 1) := Nat.le_mul_of_pos_right _ (by omega)
    exact (Nat.pow_lt_pow_iff_right (by decide)).mp (lt_of_le_of_lt hle hlt)
  have hsplit : 2 ^ n = 2 ^ t * 2 ^ (n - t) := by
    rw [← pow_add, Nat.add_sub_cancel' (Nat.le_of_lt htn)]
  have hk : 2 * k < 2 ^ (n - t) := by
    rw [hsplit] at hlt
    have := Nat.lt_of_mul_lt_mul_left hlt
    omega
  rw [hsplit, ← Nat.mul_sub]
  apply Nat.eq_of_testBit_eq
  intro i
  rw [Nat.testBit_and, Nat.testBit_two_pow_mul, Nat.testBit_two_pow_mul,
    Nat.testBit_two_pow_sub_succ hk, Nat.testBit_two_pow]
  obtain hi | ⟨j, rfl⟩ : i < t ∨ ∃ j, i = t + j := by
    by_cases hi : i < t
    · exact .inl hi
    · exact .inr ⟨i - t, by omega⟩
  · simp [Nat.not_le_of_lt hi, Nat.ne_of_gt hi]
  · rw [Nat.add_sub_cancel_left]
    cases j with
    | zero => simp [htn]
    | succ j =>
      simp only [Nat.testBit_succ, show (2 * k + 1) / 2 = k by omega,
        Nat.mul_div_cancel_left k (show 0 < 2 by decide)]
      cases k.testBit j <;> simp

lemma and_sub_one (t k : Nat) :
    (2 ^ t * (2 * k + 1)) &&& (2 ^ t * (2 * k + 1) - 1) = 2 ^ (t + 1) * k := by
  have hpos := Nat.two_pow_pos t
  have hlt : 2 ^ t < 2 ^ (t + 1) := Nat.pow_lt_pow_right (by decide) (Nat.lt_succ_self t)
  have hlow : 2 ^ t * (2 * k + 1) = 2 ^ (t + 1) * k + 2 ^ t := by ring
  rw [hlow, Nat.add_sub_assoc hpos]
  apply Nat.eq_of_testBit_eq
  intro i
  rw [Nat.testBit_and, Nat.testBit_two_pow_mul_add _ hlt,
    Nat.testBit_two_pow_mul_add _ (by omega), Nat.testBit_two_pow_mul]
  by_cases hi : i < t + 1
  · rw [if_pos hi, if_pos hi, Nat.testBit_two_pow, Nat.testBit_two_pow_sub_one]
    by_cases hti : t = i
    · simp [hti]
    · simp only [hti, decide_false, Bool.false_and]
      simp
      omega
  · have hle : t + 1 ≤ i := by omega
    simp [hi, hle]

section

variable {n : Nat} {x : BitVec n} {t k : Nat}

lemma toNat_allOnes_sub_add_one (x : BitVec n) (hx : 0 < x.toNat) :
    (BitVec.allOnes n - x + 1#n).toNat = 2 ^ n - x.toNat := by
  have hneg : BitVec.allOnes n - x + 1#n = -x := by
    rw [BitVec.allOnes_sub_eq_not, BitVec.neg_eq_not_add]
  rw [hneg, BitVec.toNat_neg, Nat.mod_eq_of_lt (by have := x.isLt; omega)]

lemma toNat_add_lowest (hx : x.toNat = 2 ^ t * (2 * k + 1)) :
    (x + (x &&& (BitVec.allOnes n - x + 1#n))).toNat = (x.toNat + 2 ^ t) % 2 ^ n := by
  have hpos : 0 < x.toNat := by rw [hx]; positivity
  have hlt := x.isLt
  rw [BitVec.toNat_add, BitVec.toNat_and, toNat_allOnes_sub_add_one x hpos]
  rw [hx] at hlt ⊢
  rw [and_two_pow_sub hlt]

lemma toNat_and_sub_one (hx : x.toNat = 2 ^ t * (2 * k + 1)) :
    (x &&& (x - 1#n)).toNat = 2 ^ (t + 1) * k := by
  have hpos : 0 < x.toNat := by rw [hx]; positivity
  have hle : 1#n ≤ x := by
    rw [BitVec.le_def, BitVec.toNat_ofNat]
    exact le_trans (Nat.mod_le _ _) hpos
  have hn : 0 < n := by
    by_contra hzero
    obtain rfl : n = 0 := by omega
    have hlt := x.isLt
    omega
  rw [BitVec.toNat_and, BitVec.toNat_sub_of_le hle, BitVec.toNat_ofNat,
    Nat.mod_eq_of_lt (Nat.one_lt_two_pow (by omega)), hx, and_sub_one]

end

/-! ### Repeated patterns -/

/-- The number whose product with a pattern of `period` bits is `count` copies of the pattern. -/
def repunit (period : Nat) : Nat → Nat
  | 0 => 0
  | count + 1 => 1 + 2 ^ period * repunit period count

lemma mul_repunit_succ (a period count : Nat) :
    a * repunit period (count + 1) = 2 ^ period * (a * repunit period count) + a := by
  rw [repunit]
  ring

lemma testBit_mul_repunit {a period : Nat} (ha : a < 2 ^ period) (count i : Nat)
    (hi : i < period * count) : (a * repunit period count).testBit i = a.testBit (i % period) := by
  induction count generalizing i with
  | zero => omega
  | succ count ih =>
    rw [mul_repunit_succ, Nat.testBit_two_pow_mul_add _ ha]
    rw [Nat.mul_succ] at hi
    split
    case isTrue hlt => rw [Nat.mod_eq_of_lt hlt]
    case isFalse hge => rw [ih (i - period) (by omega), ← Nat.mod_eq_sub_mod (by omega)]

lemma mul_repunit_lt {a period : Nat} (ha : a < 2 ^ period) (count : Nat) :
    a * repunit period count < 2 ^ (period * count) := by
  induction count with
  | zero => simp [repunit]
  | succ count ih =>
    rw [mul_repunit_succ, Nat.mul_succ, pow_add]
    calc 2 ^ period * (a * repunit period count) + a
        < 2 ^ period * (a * repunit period count) + 2 ^ period := by omega
      _ = 2 ^ period * (a * repunit period count + 1) := by ring
      _ ≤ 2 ^ period * 2 ^ (period * count) := Nat.mul_le_mul_left _ ih
      _ = 2 ^ (period * count) * 2 ^ period := Nat.mul_comm _ _

lemma eq_mul_repunit_iff {x a period count : Nat} (ha : a < 2 ^ period)
    (hx : x < 2 ^ (period * count)) :
    x = a * repunit period count ↔
      ∀ i < period * count, x.testBit i = a.testBit (i % period) := by
  constructor
  · rintro rfl i hi
    exact testBit_mul_repunit ha count i hi
  · intro h
    apply Nat.eq_of_testBit_eq
    intro i
    by_cases hi : i < period * count
    · rw [h i hi, testBit_mul_repunit ha count i hi]
    · have hpow : 2 ^ (period * count) ≤ 2 ^ i := Nat.pow_le_pow_right (by decide) (by omega)
      rw [Nat.testBit_lt_two_pow (lt_of_lt_of_le hx hpow),
        Nat.testBit_lt_two_pow (lt_of_lt_of_le (mul_repunit_lt ha count) hpow)]

/-! ### Rotated runs -/

/-- Below `n`, the function is one on a run of places in each period, rotated by `rot`. -/
def IsRotatedRun (period run rot n : Nat) (f : Nat → Bool) : Prop :=
  ∀ i < n, f i = decide ((i + rot) % period < run)

instance (period run rot n : Nat) (f : Nat → Bool) : Decidable (IsRotatedRun period run rot n f) :=
  inferInstanceAs (Decidable (∀ i < n, _))

namespace IsRotatedRun

variable {period run rot n : Nat} {f : Nat → Bool}

lemma compl (h : IsRotatedRun period run rot n f) (hrun : run < period) :
    IsRotatedRun period (period - run) ((rot + (period - run)) % period) n fun i => !f i := by
  intro i hi
  have hlt : (i + rot) % period < period := Nat.mod_lt _ (by omega)
  have hshift : (i + (rot + (period - run)) % period) % period =
      ((i + rot) % period + (period - run)) % period := by
    rw [Nat.add_mod_mod, Nat.mod_add_mod, Nat.add_assoc]
  change (!f i) = _
  rw [h i hi, hshift, ← decide_not, decide_eq_decide]
  generalize (i + rot) % period = c at hlt
  by_cases hc : c < run
  · rw [Nat.mod_eq_of_lt (by omega)]
    omega
  · rw [Nat.mod_eq_sub_mod (by omega), Nat.mod_eq_of_lt (by omega)]
    omega

lemma congr {g : Nat → Bool} (h : IsRotatedRun period run rot n f) (hfg : ∀ i < n, g i = f i) :
    IsRotatedRun period run rot n g := by
  intro i hi
  rw [hfg i hi, h i hi]

lemma between (h : IsRotatedRun period run rot n f) (hrot : rot < period) (hn : 0 < n)
    (hzero : f 0 = false) :
    ∃ u, 0 < u ∧ u + run ≤ period ∧
      ∀ i < n, (f i = true ↔ u ≤ i % period ∧ i % period < u + run) := by
  have hle : run ≤ rot := by
    have hfirst := h 0 hn
    rw [hzero, Nat.zero_add, Nat.mod_eq_of_lt hrot, eq_comm, decide_eq_false_iff_not] at hfirst
    omega
  refine ⟨period - rot, by omega, by omega, fun i hi => ?_⟩
  have hlt : i % period < period := Nat.mod_lt _ (by omega)
  rw [h i hi, decide_eq_true_eq, Nat.add_mod, Nat.mod_eq_of_lt hrot]
  generalize i % period = c at hlt
  by_cases hc : c + rot < period
  · rw [Nat.mod_eq_of_lt hc]
    omega
  · rw [Nat.mod_eq_sub_mod (by omega), Nat.mod_eq_of_lt (by omega)]
    omega

lemma of_between {u : Nat} (hu : 0 < u) (hle : u + run ≤ period)
    (h : ∀ i < n, (f i = true ↔ u ≤ i % period ∧ i % period < u + run)) :
    IsRotatedRun period run (period - u) n f := by
  intro i hi
  have hlt : i % period < period := Nat.mod_lt _ (by omega)
  rw [Bool.eq_iff_iff, h i hi, decide_eq_true_eq, ← Nat.mod_add_mod]
  generalize i % period = c at hlt
  by_cases hc : c < u
  · rw [Nat.mod_eq_of_lt (by omega)]
    omega
  · rw [Nat.mod_eq_sub_mod (by omega), Nat.mod_eq_of_lt (by omega)]
    omega

end IsRotatedRun

/-! ### The distance between the two lowest runs -/

namespace LowestRun

variable {x start stop rest start' stop' rest' n : Nat}

lemma gap_clear (h : LowestRun x start stop rest) (hnext : LowestRun rest start' stop' rest')
    {i : Nat} (hlo : stop ≤ i) (hhi : i < stop + 1 + start') : x.testBit i = false := by
  obtain rfl | hlt := Nat.eq_or_lt_of_le hlo
  · exact h.stop_clear
  · obtain ⟨j, rfl⟩ := Nat.exists_eq_add_of_le hlt
    rw [Nat.succ_eq_add_one, h.above_stop]
    exact hnext.below_start (by omega)

lemma next_set (h : LowestRun x start stop rest) (hnext : LowestRun rest start' stop' rest') :
    x.testBit (stop + 1 + start') = true := by
  rw [h.above_stop]
  exact hnext.start_set

lemma next_of_rotated {period run rot : Nat} (h : LowestRun x start stop rest)
    (hnext : LowestRun rest start' stop' rest') (hx : x < 2 ^ n)
    (hrot : IsRotatedRun period run rot n x.testBit) (hlt : rot < period) (hrun : 0 < run)
    (hperiod : period ∣ n) (hn : 0 < n) (hzero : x.testBit 0 = false) :
    stop + 1 + start' = start + period ∧ period < n := by
  obtain ⟨u, hu, hle, hbits⟩ := hrot.between hlt hn hzero
  have hbelow : ∀ i, x.testBit i = true → i < n := by
    intro i hi
    by_contra hge
    rw [Nat.testBit_lt_two_pow
      (lt_of_lt_of_le hx (Nat.pow_le_pow_right (by decide) (Nat.le_of_not_lt hge)))] at hi
    exact absurd hi (by decide)
  have hq := h.next_set hnext
  have hqn := hbelow _ hq
  have hpn := Nat.le_of_dvd hn hperiod
  have hlt := h.lt
  -- both the lowest run and the run of each period start at `u`
  have hstart : start = u := by
    have hmod := (hbits start (hbelow _ h.start_set)).mp h.start_set
    have hset : x.testBit u = true := by
      rw [hbits u (by omega), Nat.mod_eq_of_lt (by omega)]
      omega
    have hle : start ≤ u := by
      by_contra hgt
      rw [h.below_start (by omega)] at hset
      exact absurd hset (by decide)
    have := Nat.mod_le start period
    omega
  subst hstart
  have hstop : stop ≤ start + run := by
    by_contra hgt
    have hset := h.run_set (show start ≤ start + run by omega) (by omega)
    have hmod := (hbits _ (by omega)).mp hset
    obtain heq | hne := Nat.eq_or_lt_of_le hle
    · rw [heq, Nat.mod_self] at hmod
      omega
    · rw [Nat.mod_eq_of_lt hne] at hmod
      omega
  have hmodq := (hbits _ hqn).mp hq
  have hge : period ≤ stop + 1 + start' := by
    by_contra hlt'
    rw [Nat.mod_eq_of_lt (by omega)] at hmodq
    have hclear := h.stop_clear
    have hset := (hbits stop (by omega)).mpr (by rw [Nat.mod_eq_of_lt (by omega)]; omega)
    rw [hset] at hclear
    exact absurd hclear (by decide)
  have hhalf : period + period ≤ n := by
    obtain ⟨c, rfl⟩ := hperiod
    have hc : 2 ≤ c := by
      by_contra hc
      have : period * c ≤ period * 1 := Nat.mul_le_mul_left _ (by omega)
      omega
    calc period + period = period * 2 := by ring
      _ ≤ period * c := Nat.mul_le_mul_left _ hc
  have hset : x.testBit (start + period) = true := by
    rw [hbits _ (by omega), Nat.add_mod_right, Nat.mod_eq_of_lt (by omega)]
    omega
  refine ⟨Nat.le_antisymm ?_ ?_, by omega⟩
  · by_contra hgt
    rw [h.gap_clear hnext (by omega) (by omega)] at hset
    exact absurd hset (by decide)
  · by_contra hlt'
    rw [Nat.mod_eq_sub_mod hge, Nat.mod_eq_of_lt (by omega)] at hmodq
    omega

/-- If the two lowest runs are `period` apart and the number consists of copies of its lowest
`period` bits, it is a rotated run. -/
lemma rotated_of_next {period count : Nat} (h : LowestRun x start stop rest)
    (hnext : LowestRun rest start' stop' rest') (hq : stop + 1 + start' = start + period)
    (hstart : 0 < start) (hx : x < 2 ^ (period * count))
    (hcopies : x = x % 2 ^ period * repunit period count) :
    start < period ∧ IsRotatedRun period (min stop period - start) (period - start)
      (period * count) x.testBit := by
  have hlt := h.lt
  have hmod : x % 2 ^ period < 2 ^ period := Nat.mod_lt _ (Nat.two_pow_pos _)
  have hbits := (eq_mul_repunit_iff hmod hx).mp hcopies
  have hpos : 0 < period := by omega
  have hlow : ∀ i < period * count, x.testBit i = x.testBit (i % period) := by
    intro i hi
    rw [hbits i hi, Nat.testBit_mod_two_pow, decide_eq_true (Nat.mod_lt i hpos), Bool.true_and]
  have hin : start < period * count := by
    by_contra hge
    have hset := h.start_set
    rw [Nat.testBit_lt_two_pow
      (lt_of_lt_of_le hx (Nat.pow_le_pow_right (by decide) (Nat.le_of_not_lt hge)))] at hset
    exact absurd hset (by decide)
  have hstartlt : start < period := by
    by_contra hge
    have hset := h.start_set
    have hmodlt := Nat.mod_lt start hpos
    rw [hlow start hin, h.below_start (by omega)] at hset
    exact absurd hset (by decide)
  refine ⟨hstartlt, IsRotatedRun.of_between hstart (by omega) fun i hi => ?_⟩
  have hc := Nat.mod_lt i hpos
  rw [hlow i hi]
  generalize i % period = c at hc
  by_cases hcs : c < start
  · rw [h.below_start hcs]
    simp
    omega
  · by_cases hce : c < stop
    · rw [h.run_set (by omega) hce]
      simp
      omega
    · rw [h.gap_clear hnext (by omega) (by omega)]
      simp
      omega

end LowestRun

end BitRuns
