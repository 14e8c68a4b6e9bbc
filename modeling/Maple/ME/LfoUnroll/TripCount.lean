import Maple.IR.Opcode
import Maple.Lib.IntFormat

/-!
# Trip counts

How often a loop from `start` runs that counts by one and compares with `stop`, what the difference
of the two values is in a format, and when a remainder of it splits the loop in the right place.
-/

namespace Maple
namespace LfoUnroll

open IntFormat (wrap_of_lt wrap_of_gt)

/-- The trip count that `Process` and `DoUnroll` compute, as an integer. -/
def distance (op : CmpOp) (start stop : Int) : Int :=
  stop - start + if op = .ge ∨ op = .le then 1 else 0

/-- Whenever the loop increments its variable, the sum is a value of the format. -/
def NoOverflow (f : IntFormat) (op : CmpOp) (start stop : Int) : Prop :=
  ∀ k : Nat, (∀ j ≤ k, op.eval (start + j) stop = true) → start + k + 1 ≤ f.maxValue

/-- The loop runs `n` times and ends without an overflow. -/
structure Trips (f : IntFormat) (op : CmpOp) (start stop : Int) (n : Nat) : Prop where
  holds : ∀ j < n, op.eval (start + j) stop = true
  ends : op.eval (start + n) stop = false
  le_max : start + n ≤ f.maxValue

variable {f : IntFormat} {op : CmpOp} {start stop : Int}

lemma NoOverflow.exists_trips (h : NoOverflow f op start stop) (hstart : f.Mem start) :
    ∃ n, Trips f op start stop n := by
  have hends : ∃ n : Nat, op.eval (start + n) stop = false := by
    by_contra hall
    have htrue : ∀ n : Nat, op.eval (start + n) stop = true := by
      intro n
      by_contra hn
      exact hall ⟨n, by simpa using hn⟩
    have := h (f.maxValue - start).toNat fun j _ => htrue j
    have := hstart.2
    omega
  classical
  refine ⟨Nat.find hends, ?_, Nat.find_spec hends, ?_⟩
  · intro j hj
    simpa using Nat.find_min hends hj
  · cases hn : Nat.find hends with
    | zero => simpa using hstart.2
    | succ n =>
      have := h n fun j hj => by simpa using Nat.find_min hends (by omega : j < Nat.find hends)
      push_cast
      omega

lemma Trips.eq_distance {n : Nat} (h : Trips f op start stop n) (hop : op ≠ .eq) (hn : n ≠ 0) :
    (n : Int) = distance op start stop := by
  obtain ⟨k, rfl⟩ : ∃ k, n = k + 1 := ⟨n - 1, by omega⟩
  have hlast := h.holds k (Nat.lt_succ_self k)
  have hend := h.ends
  unfold distance
  cases op with
  | eq => exact absurd rfl hop
  | ne | lt | le | gt | ge =>
    simp [CmpOp.eval] at hlast hend ⊢
    omega

lemma Trips.entered {n : Nat} (h : Trips f op start stop n) (hn : n ≠ 0) :
    op.eval start stop = true := by
  simpa using h.holds 0 (Nat.pos_of_ne_zero hn)

lemma Trips.not_entered (h : Trips f op start stop 0) : op.eval start stop = false := by
  simpa using h.ends

lemma neg_tmod_natCast {q : Int} (hq : 0 ≤ q) (m : Nat) : (-q).tmod m = -(q % m) := by
  rw [Int.neg_tmod, Int.tmod_eq_emod_of_nonneg hq]

/-! ### The place of the split -/

/-- A remainder of `k` rounds before a loop from `p` that counts by `m` makes `n` rounds. -/
def Splits (op : CmpOp) (start stop : Int) (m n k : Nat) (p : Int) : Prop :=
  k ≤ n ∧ (n = 0 → op.eval p stop = false) ∧ (n ≠ 0 → p = start + k ∧ m ∣ n - k)

/-- The start of the unrolled loop if the trip count is not a constant. -/
def splitPoint (f : IntFormat) (op : CmpOp) (start stop : Int) (m : Nat) : Int :=
  f.wrap (start + (f.wrap (distance op start stop)).tmod m)

/-- The condition under which a run-time remainder is right. `distance` is the trip count of a loop
that runs. If it is a value of the format, loops that run or that compare upwards are right, and
loops that compare downwards only without a remainder. -/
def RuntimeExact (f : IntFormat) (op : CmpOp) (start stop : Int) (m : Nat) : Prop :=
  let d := distance op start stop
  if op.eval start stop = true then
    f.Mem d ∨ ((m : Int) ∣ d ∧ (m : Int) ∣ f.modulus - d) ∨ f.modulus - d < m
  else if op = .gt ∨ op = .ge then
    if f.Mem d then (m : Int) ∣ d ∨ (op = .ge ∧ stop = f.maxValue ∧ d < m)
    else f.minValue ≤ start - (f.modulus - d) % m
  else f.Mem d ∨ (m : Int) ∣ d + f.modulus ∨ d + f.modulus < m

section Exact

lemma wrap_add_cases (hstart : f.Mem start) {x : Int} (hx : 0 ≤ x) (hlt : x < f.modulus) :
    (start + x ≤ f.maxValue ∧ f.wrap (start + x) = start + x) ∨
      (f.maxValue < start + x ∧ f.wrap (start + x) = start + x - f.modulus) := by
  have hspan := f.maxValue_sub_minValue
  obtain ⟨hmin, hmax⟩ := hstart
  by_cases hle : start + x ≤ f.maxValue
  · exact Or.inl ⟨hle, f.wrap_of_mem ⟨by omega, hle⟩⟩
  · exact Or.inr ⟨by omega, wrap_of_gt (by omega) (by omega)⟩

lemma wrap_sub_cases (hstart : f.Mem start) {x : Int} (hx : 0 ≤ x) (hlt : x < f.modulus) :
    (f.minValue ≤ start - x ∧ f.wrap (start + -x) = start - x) ∨
      (start - x < f.minValue ∧ f.wrap (start + -x) = start - x + f.modulus) := by
  have hspan := f.maxValue_sub_minValue
  obtain ⟨hmin, hmax⟩ := hstart
  rw [← Int.sub_eq_add_neg]
  by_cases hle : f.minValue ≤ start - x
  · exact Or.inl ⟨hle, f.wrap_of_mem ⟨hle, by omega⟩⟩
  · exact Or.inr ⟨by omega, wrap_of_lt (by omega) (by omega)⟩

variable {m : Nat}

lemma emod_facts (hm : 0 < m) {u : Int} (hu : 0 ≤ u) :
    0 ≤ u % m ∧ u % m < m ∧ u % m ≤ u ∧ (u % m = u ↔ u < m) ∧ (u % m = 0 ↔ (m : Int) ∣ u) := by
  have hm' : (0 : Int) < m := by exact_mod_cast hm
  have hlt := Int.emod_lt_of_pos u hm'
  have hle : u % m ≤ u := by
    obtain ⟨k, rfl⟩ := Int.eq_ofNat_of_zero_le hu
    exact_mod_cast Nat.mod_le k m
  refine ⟨Int.emod_nonneg u (by omega), hlt, hle, ?_, ?_⟩
  · constructor
    · intro h
      omega
    · exact Int.emod_eq_of_lt hu
  · exact ⟨Int.dvd_of_emod_eq_zero, Int.emod_eq_zero_of_dvd⟩

lemma splits_entered (hm : 0 < m) (hstart : f.Mem start) {n : Nat}
    (h : Trips f op start stop n) (hop : op ≠ .eq) (hn : n ≠ 0) :
    Splits op start stop m n (splitPoint f op start stop m - start).toNat
      (splitPoint f op start stop m) ↔ RuntimeExact f op start stop m := by
  have hspan := f.maxValue_sub_minValue
  have hmin := f.minValue_nonpos
  have hmax := f.maxValue_nonneg
  have hd := h.eq_distance hop hn
  have hle := h.le_max
  have hS₁ := hstart.1
  have hS₂ := hstart.2
  have hn' : (0 : Int) < n := by exact_mod_cast Nat.pos_of_ne_zero hn
  have hdvd : ∀ k : Nat, (m : Int) ∣ k ↔ m ∣ k := fun k => Int.natCast_dvd_natCast
  simp only [RuntimeExact, h.entered hn, if_true, Splits, hn, false_imp_iff, true_and, ne_eq,
    not_false_eq_true, true_imp_iff, splitPoint, ← hd]
  by_cases hmem : f.Mem n
  · -- the trip count is exact: the remainder loop takes the remainder of it
    obtain ⟨hx, -, hxn, -, -⟩ := emod_facts hm hn'.le
    have hsum : f.wrap (start + (n : Int) % m) = start + (n : Int) % m :=
      f.wrap_of_mem ⟨by omega, by omega⟩
    have hk : (start + (n : Int) % m - start).toNat = n % m := by
      rw [add_sub_cancel_left]
      exact_mod_cast Int.toNat_natCast (n % m)
    simp only [hmem, true_or, iff_true]
    rw [f.wrap_of_mem hmem, Int.tmod_eq_emod_of_nonneg hn'.le, hsum, hk]
    refine ⟨Nat.mod_le n m, by push_cast; rfl, Nat.dvd_sub_mod n⟩
  · -- the trip count is too large for the format, and the remainder of it is not positive
    have hbig : f.maxValue < n := by
      by_contra hle
      exact hmem ⟨by omega, by omega⟩
    obtain ⟨hx, hxm, hxq, hxq', hx0⟩ := emod_facts hm (by omega : 0 ≤ (f.modulus : Int) - n)
    have hwrap : f.wrap n = -(f.modulus - n) := by
      rw [wrap_of_gt hbig (by omega)]
      omega
    simp only [hmem, false_or]
    rw [hwrap, neg_tmod_natCast (by omega), ← hx0, ← hxq']
    rcases wrap_sub_cases hstart hx (by omega) with ⟨hlow, hp⟩ | ⟨hlow, hp⟩
    · rw [hp]
      have hk : (start - (f.modulus - n : Int) % m - start).toNat = 0 := by omega
      rw [hk, Nat.sub_zero, hdvd]
      constructor
      · rintro ⟨-, hp', hdvd'⟩
        rw [Nat.cast_zero, add_zero] at hp'
        exact Or.inl ⟨hdvd', by omega⟩
      · rintro (⟨hdvd', hzero⟩ | hq)
        · exact ⟨Nat.zero_le n, by rw [Nat.cast_zero]; omega, hdvd'⟩
        · omega
    · rw [hp]
      constructor
      · rintro ⟨hkn, -, -⟩
        exact Or.inr (by omega)
      · rintro (⟨-, hzero⟩ | hq)
        · omega
        · have hk : (start - (f.modulus - n : Int) % m + f.modulus - start).toNat = n := by omega
          rw [hk]
          exact ⟨le_refl n, by omega, by simp⟩

lemma splits_up (hm : 0 < m) (hstart : f.Mem start) (hstop : f.Mem stop)
    (h : op.eval start stop = false) (hop : op = .ne ∨ op = .lt ∨ op = .le) :
    Splits op start stop m 0 (splitPoint f op start stop m - start).toNat
      (splitPoint f op start stop m) ↔ RuntimeExact f op start stop m := by
  have hspan := f.maxValue_sub_minValue
  have hmin := f.minValue_nonpos
  have hmax := f.maxValue_nonneg
  have hdown : ¬(op = .gt ∨ op = .ge) := by
    rcases hop with rfl | rfl | rfl <;> simp
  -- the loop ends from the stop value, or the value after it, on
  obtain ⟨hd, hlow, hends⟩ : distance op start stop ≤ 0 ∧
      f.minValue ≤ start + distance op start stop ∧
      ∀ p ≤ start, op.eval p stop = false ↔ start + distance op start stop ≤ p := by
    obtain ⟨hE₁, hE₂⟩ := hstop
    unfold distance
    rcases hop with rfl | rfl | rfl
    · simp [CmpOp.eval] at h
      refine ⟨by simp; omega, by simp; omega, ?_⟩
      intro p hp
      simp [CmpOp.eval]
      omega
    · simp [CmpOp.eval] at h
      refine ⟨by simp; omega, by simp; omega, ?_⟩
      intro p hp
      simp [CmpOp.eval]
    · simp [CmpOp.eval] at h
      refine ⟨by simp; omega, by simp; omega, ?_⟩
      intro p hp
      simp [CmpOp.eval]
      omega
  obtain ⟨hS₁, hS₂⟩ := hstart
  simp only [RuntimeExact, h, Bool.false_eq_true, if_false, hdown, Splits, Nat.le_zero_eq,
    true_imp_iff, ne_eq, not_true_eq_false, false_imp_iff, and_true, splitPoint]
  generalize distance op start stop = d at *
  by_cases hmem : f.Mem d
  · -- the trip count is not positive, and neither is the remainder
    obtain ⟨hx, -, hxd, -, -⟩ := emod_facts hm (by omega : 0 ≤ -d)
    have hsum : f.wrap (start + d.tmod m) = start - -d % m := by
      have htmod : d.tmod m = -(-d % m) := by
        rw [← neg_tmod_natCast (by omega), neg_neg]
      rw [htmod, ← Int.sub_eq_add_neg]
      exact f.wrap_of_mem ⟨by omega, by omega⟩
    simp only [hmem, true_or, iff_true]
    rw [f.wrap_of_mem hmem, hsum, hends _ (by omega)]
    omega
  · -- the trip count is cut down to a positive number
    have hsmall : d < f.minValue := by
      by_contra hle
      exact hmem ⟨by omega, by omega⟩
    obtain ⟨hx, -, hxu, hxu', hx0⟩ := emod_facts hm (by omega : 0 ≤ d + (f.modulus : Int))
    simp only [hmem, false_or]
    rw [wrap_of_lt hsmall (by omega), Int.tmod_eq_emod_of_nonneg (by omega), ← hx0, ← hxu']
    rcases wrap_add_cases ⟨hS₁, hS₂⟩ hx (by omega) with ⟨hhigh, hp⟩ | ⟨hhigh, hp⟩
    · rw [hp]
      constructor
      · rintro ⟨hk, -⟩
        exact Or.inl (by omega)
      · rintro (hzero | hu)
        · rw [hzero, add_zero]
          exact ⟨by simp, (hends start (le_refl _)).mpr (by omega)⟩
        · omega
    · rw [hp, hends _ (by omega)]
      omega

lemma splits_down (hm : 0 < m) (hstart : f.Mem start) (hstop : f.Mem stop)
    (h : op.eval start stop = false) (hop : op = .gt ∨ op = .ge) :
    Splits op start stop m 0 (splitPoint f op start stop m - start).toNat
      (splitPoint f op start stop m) ↔ RuntimeExact f op start stop m := by
  have hspan := f.maxValue_sub_minValue
  have hmin := f.minValue_nonpos
  have hmax := f.maxValue_nonneg
  obtain ⟨hS₁, hS₂⟩ := id hstart
  obtain ⟨hE₁, hE₂⟩ := hstop
  have hends : ∀ p ≤ start, op.eval p stop = false := by
    intro p hp
    rcases hop with rfl | rfl
    · simp [CmpOp.eval] at h ⊢
      omega
    · simp [CmpOp.eval] at h ⊢
      omega
  have hdist : 0 ≤ distance op start stop ∧ distance op start stop ≤ f.modulus ∧
      (start + distance op start stop = stop ∧ op ≠ .ge ∨
        start + distance op start stop = stop + 1 ∧ op = .ge ∧ start < stop) := by
    unfold distance
    rcases hop with rfl | rfl
    · simp [CmpOp.eval] at h
      simp
      omega
    · simp [CmpOp.eval] at h
      simp
      omega
  obtain ⟨hd, hdM, hend⟩ := hdist
  simp only [RuntimeExact, h, Bool.false_eq_true, if_false, hop, if_true, Splits, Nat.le_zero_eq,
    true_imp_iff, ne_eq, not_true_eq_false, false_imp_iff, and_true, splitPoint]
  generalize distance op start stop = d at *
  by_cases hmem : f.Mem d
  · -- the remainder loop runs unless the remainder is zero or its end overflows
    obtain ⟨hx, -, hxd, hxd', hx0⟩ := emod_facts hm hd
    simp only [hmem, if_true]
    rw [f.wrap_of_mem hmem, Int.tmod_eq_emod_of_nonneg hd, ← hx0]
    rcases wrap_add_cases hstart hx (by have := hmem.2; omega) with ⟨hhigh, hp⟩ | ⟨hhigh, hp⟩
    · rw [hp]
      constructor
      · rintro ⟨hk, -⟩
        exact Or.inl (by omega)
      · rintro (hzero | ⟨hge', hstop', hdm⟩)
        · rw [hzero, add_zero]
          exact ⟨by simp, hends start (le_refl _)⟩
        · have hxd'' := hxd'.mpr hdm
          rcases hend with ⟨-, hne⟩ | ⟨hend, -, -⟩
          · exact absurd hge' hne
          · omega
    · rcases hend with ⟨hend, -⟩ | ⟨hend, hge', hlt⟩
      · omega
      · have hxd'' : d % m = d := by omega
        have hp' : start + d % m - f.modulus = f.minValue := by omega
        have hfalse : op.eval f.minValue stop = false := by
          subst hge'
          simp [CmpOp.eval]
          omega
        rw [hp, hp', hfalse]
        have hk : (f.minValue - start).toNat = 0 := by omega
        simp only [hk, true_and, true_iff]
        exact Or.inr ⟨hge', by omega, hxd'.mp hxd''⟩
  · -- the trip count is cut down to a number that is not positive
    have hbig : f.maxValue < d := by
      by_contra hle
      exact hmem ⟨by omega, by omega⟩
    obtain ⟨hx, -, hxq, -, -⟩ := emod_facts hm (by omega : 0 ≤ (f.modulus : Int) - d)
    have hwrap : f.wrap d = -(f.modulus - d) := by
      rw [wrap_of_gt hbig (by omega)]
      omega
    simp only [hmem, if_false]
    rw [hwrap, neg_tmod_natCast (by omega)]
    rcases wrap_sub_cases hstart hx (by omega) with ⟨hlow, hp⟩ | ⟨hlow, hp⟩
    · rw [hp, hends _ (by omega)]
      simp only [hlow, iff_true, and_true]
      omega
    · rw [hp]
      constructor
      · rintro ⟨hk, -⟩
        omega
      · intro hle
        omega

/-- The split at the run-time remainder is right exactly under `RuntimeExact`. -/
theorem splits_iff_runtimeExact (hm : 0 < m) (hstart : f.Mem start) (hstop : f.Mem stop) {n : Nat}
    (h : Trips f op start stop n) (hop : op ≠ .eq) :
    Splits op start stop m n (splitPoint f op start stop m - start).toNat
      (splitPoint f op start stop m) ↔ RuntimeExact f op start stop m := by
  by_cases hn : n = 0
  · subst hn
    cases op with
    | eq => exact absurd rfl hop
    | ne => exact splits_up hm hstart hstop h.not_entered (by simp)
    | lt => exact splits_up hm hstart hstop h.not_entered (by simp)
    | le => exact splits_up hm hstart hstop h.not_entered (by simp)
    | gt => exact splits_down hm hstart hstop h.not_entered (by simp)
    | ge => exact splits_down hm hstart hstop h.not_entered (by simp)
  · exact splits_entered hm hstart h hop hn

end Exact

/-! ### Constant trip counts -/

lemma Trips.lt_modulus {n : Nat} (h : Trips f op start stop n) (hstart : f.Mem start) :
    (n : Int) < f.modulus := by
  have hspan := f.maxValue_sub_minValue
  have := h.le_max
  have := hstart.1
  omega

lemma Trips.emod_distance {n : Nat} (h : Trips f op start stop n) (hop : op ≠ .eq)
    (hstart : f.Mem start) (hn : n ≠ 0) : (distance op start stop % f.modulus).toNat = n := by
  rw [← h.eq_distance hop hn, Int.emod_eq_of_lt (by omega) (h.lt_modulus hstart), Int.toNat_natCast]

/-- The start of the unrolled loop if the trip count is the constant `k`. -/
def constSplitPoint (f : IntFormat) (start : Int) (r : Nat) : Int :=
  if r = 0 then start else f.wrap (start + r)

/-- How often the body is executed before the unrolled loop: one copy for the remainder one, else
a loop. -/
def constSplitCount (f : IntFormat) (start : Int) (r : Nat) : Nat :=
  if r = 1 then 1 else (constSplitPoint f start r - start).toNat

lemma not_ends_of_overflow {m : Nat} (hstart : f.Mem start) (hstop : f.Mem stop) (hop : op ≠ .eq)
    (h : op.eval start stop = false) {r : Nat} (hr : r < m)
    (hk : (m : Int) ≤ distance op start stop % f.modulus)
    (hover : f.maxValue < start + r) : op.eval (start + r - f.modulus) stop = true := by
  have hspan := f.maxValue_sub_minValue
  obtain ⟨hS₁, hS₂⟩ := hstart
  obtain ⟨hE₁, hE₂⟩ := hstop
  have hle : ∀ {v : Int}, 0 ≤ v → v % f.modulus ≤ v := by
    intro v hv
    obtain ⟨k, rfl⟩ := Int.eq_ofNat_of_zero_le hv
    exact_mod_cast Nat.mod_le k f.modulus
  have hle' : ∀ {v : Int}, 0 ≤ v + f.modulus → v % f.modulus ≤ v + f.modulus := by
    intro v hv
    rw [← Int.add_emod_right]
    exact hle hv
  unfold distance at hk
  cases op with
  | eq => exact absurd rfl hop
  | ne | gt =>
    simp [CmpOp.eval] at h hk ⊢
    have := hle (v := stop - start) (by omega)
    omega
  | ge =>
    simp [CmpOp.eval] at h hk ⊢
    have := hle (v := stop - start + 1) (by omega)
    omega
  | lt =>
    simp [CmpOp.eval] at h hk ⊢
    have := hle' (v := stop - start) (by omega)
    omega
  | le =>
    simp [CmpOp.eval] at h hk ⊢
    have := hle' (v := stop - start + 1) (by omega)
    omega

/-- The split at a constant remainder is right if the loop runs or nothing remains. -/
theorem splits_const_iff {m : Nat} (hm : 0 < m) (hstart : f.Mem start) (hstop : f.Mem stop)
    {n : Nat} (h : Trips f op start stop n) (hop : op ≠ .eq) {k : Nat}
    (hk : (k : Int) = distance op start stop % f.modulus) (hle : m ≤ k) :
    Splits op start stop m n (constSplitCount f start (k % m)) (constSplitPoint f start (k % m)) ↔
      (op.eval start stop = true ∨ m ∣ k) := by
  have hr := Nat.mod_lt k hm
  by_cases hn : n = 0
  · subst hn
    have hfalse := h.not_entered
    simp only [hfalse, Bool.false_eq_true, false_or, Nat.dvd_iff_mod_eq_zero]
    generalize hrem : k % m = r at *
    by_cases hr0 : r = 0
    · subst hr0
      simp [Splits, constSplitCount, constSplitPoint, hfalse]
    · simp only [hr0, iff_false]
      rintro ⟨hcount, hends, -⟩
      unfold constSplitCount constSplitPoint at hcount
      split_ifs at hcount with hr1
      · omega
      · rcases wrap_add_cases hstart (by omega : (0 : Int) ≤ r)
          (by have := Int.emod_lt_of_pos (distance op start stop) f.modulus_pos'; omega) with
          ⟨-, hp⟩ | ⟨hover, hp⟩
        · omega
        · have htrue := not_ends_of_overflow hstart hstop hop hfalse hr
            (by rw [← hk]; exact_mod_cast hle) hover
          have := hends rfl
          rw [constSplitPoint, if_neg hr0, hp, htrue] at this
          cases this
  · have hentered := h.entered hn
    have hkn : k = n := by
      have := h.emod_distance hop hstart hn
      omega
    subst hkn
    have hmax := h.le_max
    have hrk := Nat.mod_le k m
    have hp : constSplitPoint f start (k % m) = start + (k % m : Nat) := by
      unfold constSplitPoint
      split_ifs with hr0
      · simp [hr0]
      · apply f.wrap_of_mem
        have := hstart.1
        exact ⟨by omega, by omega⟩
    have hcount : constSplitCount f start (k % m) = k % m := by
      unfold constSplitCount
      rw [hp]
      split_ifs with hr1
      · exact hr1.symm
      · omega
    simp only [hentered, true_or, iff_true, hcount, hp]
    exact ⟨hrk, fun h0 => absurd h0 hn, fun _ => ⟨rfl, Nat.dvd_sub_mod k⟩⟩

end LfoUnroll
end Maple
