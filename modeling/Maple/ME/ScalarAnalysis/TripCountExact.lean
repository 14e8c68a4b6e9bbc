import Maple.ME.ScalarAnalysis.TripCount

/-!
# When constant trip counts are right

The count of `ComputeTripCountWithSimpleConstCR` is compared with the loop, for each comparison and
both directions of the stride.
-/

namespace Maple
namespace TripCount

variable {isSigned : Bool} {value start stride : Int64}

/-! ### Loops that approach the bound -/

section Approach

variable (strict : Bool) {n : Nat}

lemma leavesAfter_up (hstride : 0 < stride.toInt)
    (henter : number isSigned start < number isSigned value + if strict then 0 else 1)
    (htimes : ¬ (value - start) / stride < 0)
    (hn : (n : Int) = strides strict (value - start).toInt stride.toInt) :
    LeavesAfter (fun k => (format isSigned).stepped (number isSigned start) stride.toInt k <
        number isSigned value + if strict then 0 else 1) n ↔
      (format true).Mem (number isSigned value - number isSigned start) ∧
      number isSigned start +
        strides strict (number isSigned value - number isSigned start) stride.toInt * stride.toInt ≤
        (format isSigned).maxValue := by
  have hstart := number_bounds isSigned start
  have hvalue := number_bounds isSigned value
  have hlt := stride.toInt_lt
  have hmod := modulus_format isSigned
  obtain ⟨-, hnonneg⟩ := times_eq htimes
  have hbound : number isSigned value + (if strict then 0 else 1) ≤
      (format isSigned).maxValue + 1 := by
    split <;> omega
  have hd : 0 ≤ number isSigned value - number isSigned start := by
    split at henter <;> omega
  obtain ⟨hpos, hlast, hend⟩ := strides_bounds strict hd hstride
  rcases sub_cases isSigned value start with ⟨hgap, hmem⟩ | ⟨hgap, hfar⟩ | ⟨-, hfar⟩
  · rw [hgap] at hn
    rw [← hn] at hlast hend ⊢
    rw [IntFormat.leavesAfter_up_iff hstart hbound hstride (by omega) (by omega) (by omega)]
    exact ⟨fun h => ⟨hmem, h⟩, fun h => h.2⟩
  · -- the difference overflows, and the code counts one stride
    rw [hgap] at hn hnonneg
    have hformat := format_true
    have hrange : number isSigned value - number isSigned start < 2 ^ 64 := by
      have := (format isSigned).maxValue_sub_minValue
      omega
    rw [strides_of_neg (by omega) hstride hnonneg] at hn
    have hone : n = 1 := by exact_mod_cast hn
    subst hone
    constructor
    · rintro ⟨-, hfail⟩
      obtain ⟨N, hN⟩ := Int.eq_ofNat_of_zero_le hpos
      rw [hN] at hlast hend
      have hN2 : 1 < N := by
        by_contra hle
        have hmul : (N : Int) * stride.toInt ≤ 1 * stride.toInt :=
          mul_le_mul_of_nonneg_right (by omega) hstride.le
        split at hend <;> omega
      exact absurd (IntFormat.stepped_lt_of_lt hstart hbound hstride (by omega) hN2) hfail
    · rintro ⟨⟨-, hle⟩, -⟩
      omega
  · omega

lemma leavesAfter_down (hstride : stride.toInt < 0)
    (henter : number isSigned value - (if strict then 0 else 1) < number isSigned start)
    (htimes : ¬ (value - start) / stride < 0)
    (hn : (n : Int) = strides strict (value - start).toInt stride.toInt) :
    LeavesAfter (fun k => number isSigned value - (if strict then 0 else 1) <
        (format isSigned).stepped (number isSigned start) stride.toInt k) n ↔
      (format true).Mem (number isSigned value - number isSigned start) ∧
      (format isSigned).minValue ≤ number isSigned start +
        strides strict (number isSigned value - number isSigned start) stride.toInt *
          stride.toInt := by
  have hstart := number_bounds isSigned start
  have hvalue := number_bounds isSigned value
  have hlt := stride.le_toInt
  have hmod := modulus_format isSigned
  obtain ⟨-, hnonneg⟩ := times_eq htimes
  have hbound : (format isSigned).minValue ≤
      number isSigned value - (if strict then 0 else 1) + 1 := by
    split <;> omega
  have hd : 0 ≤ -(number isSigned value - number isSigned start) := by
    split at henter <;> omega
  obtain ⟨hpos, hlast, hend⟩ := strides_bounds strict hd (neg_pos.mpr hstride)
  rw [strides_neg] at hpos hlast hend
  rw [mul_neg] at hlast hend
  rcases sub_cases isSigned value start with ⟨hgap, hmem⟩ | ⟨-, hfar⟩ | ⟨hgap, hfar⟩
  · rw [hgap] at hn
    rw [← hn] at hlast hend ⊢
    rw [IntFormat.leavesAfter_down_iff hstart hbound hstride (by omega) (by omega) (by omega)]
    exact ⟨fun h => ⟨hmem, h⟩, fun h => h.2⟩
  · omega
  · rw [hgap] at hn hnonneg
    have hformat := format_true
    have hrange : -2 ^ 64 < number isSigned value - number isSigned start := by
      have := (format isSigned).maxValue_sub_minValue
      omega
    rw [← strides_neg, strides_of_neg (by omega) (neg_pos.mpr hstride)
      (by rwa [Int.neg_tdiv_neg])] at hn
    have hone : n = 1 := by exact_mod_cast hn
    subst hone
    constructor
    · rintro ⟨-, hfail⟩
      obtain ⟨N, hN⟩ := Int.eq_ofNat_of_zero_le hpos
      rw [hN] at hlast hend
      have hN2 : 1 < N := by
        by_contra hle
        have hmul : (1 : Int) * stride.toInt ≤ N * stride.toInt :=
          mul_le_mul_of_nonpos_right (by omega) hstride.le
        split at hend <;> omega
      exact absurd (IntFormat.lt_stepped_of_lt hstart hbound hstride (by omega) hN2) hfail
    · rintro ⟨⟨hle, -⟩, -⟩
      omega

end Approach

/-! ### Unsigned loops that leave the bound behind -/

lemma asUInt64_times_add_one {d stride : Int64} (h : ¬ d / stride < 0) :
    ((d / stride + 1).asUInt64 : Int) = strides false d.toInt stride.toInt := by
  simpa using asUInt64_times false h

lemma tripCount_geZero (h : stride.toInt < 0) (htimes : ¬ (0 - start) / stride < 0) :
    (tripCount .ge false 0 start stride : Int) = strides false (0 - start).toInt stride.toInt := by
  have hzero : (0 : Int64).asUInt64 = 0 := by decide
  have hpos : ¬ 0 < stride := by
    rw [Int64.lt_iff_toInt_lt, Int64.toInt_zero]
    omega
  rw [← asUInt64_times_add_one htimes, tripCount]
  simp only [if_neg htimes, if_neg hpos, hzero, Bool.false_eq_true, Nat.not_lt_zero, false_and,
    and_false, if_false]

lemma tripCount_leMax (h : 0 < stride.toInt) (htimes : ¬ (-1 - start) / stride < 0) :
    (tripCount .le false (-1) start stride : Int) =
      strides false (-1 - start).toInt stride.toInt := by
  have hmax : ¬ (-1 : Int64).asUInt64 < start.asUInt64 := by
    have := (number_bounds false start).2
    rw [number_false, format_false.2] at this
    have hone : (-1 : Int64).asUInt64 = 2 ^ 64 - 1 := by decide
    omega
  have hneg : ¬ stride < 0 := by
    rw [Int64.lt_iff_toInt_lt, Int64.toInt_zero]
    omega
  rw [← asUInt64_times_add_one htimes, tripCount]
  simp [hmax, hneg, htimes]

lemma lt_of_tdiv_nonneg {d stride : Int} (hstride : 0 < stride) (h : 0 ≤ d.tdiv stride) :
    -d < stride := by
  have hsum := Int.mul_tdiv_add_tmod d stride
  have hmod := Int.lt_tmod_of_pos d hstride
  have hmul : 0 ≤ stride * d.tdiv stride := mul_nonneg hstride.le h
  omega

lemma downAround_bounds (hstride : stride.toInt < 0) (htimes : ¬ (0 - start) / stride < 0)
    (hsmall : number false start ≤ 2 ^ 64 + stride.toInt) {n : Nat}
    (hn : (n : Int) = strides false (0 - start).toInt stride.toInt) :
    0 ≤ number false start + (n - 1) * stride.toInt ∧
      number false start + n * stride.toInt < 0 := by
  have hstart := number_bounds false start
  have hzero : number false 0 = 0 := by decide
  rw [format_false.1, format_false.2] at hstart
  obtain ⟨-, hnonneg⟩ := times_eq htimes
  have hgap : (0 - start).toInt = -number false start := by
    rcases sub_cases false 0 start with ⟨hgap, -⟩ | ⟨-, hfar⟩ | ⟨hgap, -⟩
    · omega
    · omega
    · have := @lt_of_tdiv_nonneg (-(0 - start).toInt) (-stride.toInt) (by omega)
        (by rwa [Int.neg_tdiv_neg])
      omega
  obtain ⟨-, hlast, hend⟩ := strides_bounds false hstart.1 (neg_pos.mpr hstride)
  rw [← strides_neg, neg_neg, ← hgap, ← hn] at hlast hend
  simp only [mul_neg, Bool.false_eq_true, if_false] at hlast hend
  omega

lemma upAround_bounds (hstride : 0 < stride.toInt) (htimes : ¬ (-1 - start) / stride < 0)
    (hsmall : stride.toInt ≤ number false start + 1) {n : Nat}
    (hn : (n : Int) = strides false (-1 - start).toInt stride.toInt) :
    number false start + (n - 1) * stride.toInt ≤ 2 ^ 64 - 1 ∧
      2 ^ 64 - 1 < number false start + n * stride.toInt := by
  have hstart := number_bounds false start
  have hmax : number false (-1) = 2 ^ 64 - 1 := by decide
  rw [format_false.1, format_false.2] at hstart
  obtain ⟨-, hnonneg⟩ := times_eq htimes
  have hgap : (-1 - start).toInt = 2 ^ 64 - 1 - number false start := by
    rcases sub_cases false (-1) start with ⟨hgap, -⟩ | ⟨hgap, -⟩ | ⟨-, hfar⟩
    · omega
    · have := lt_of_tdiv_nonneg hstride hnonneg
      omega
    · omega
  have hd : 0 ≤ 2 ^ 64 - 1 - number false start := by omega
  obtain ⟨-, hlast, hend⟩ := strides_bounds false hd hstride
  rw [← hgap, ← hn] at hlast hend
  simp only [Bool.false_eq_true, if_false] at hlast hend
  omega

lemma leavesAfter_lt_down (hstride : stride.toInt < 0)
    (henter : number false start < number false value)
    (htimes : ¬ (value - start) / stride < 0) (hrem : (value - start) % stride = 0)
    (htimes' : ¬ (0 - start) / stride < 0) {n : Nat}
    (hn : (n : Int) = strides false (0 - start).toInt stride.toInt) :
    LeavesAfter (fun k => (format false).stepped (number false start) stride.toInt k <
      number false value) n := by
  have hstart := number_bounds false start
  have hvalue := number_bounds false value
  have hlt := stride.le_toInt
  obtain ⟨-, hnonneg⟩ := times_eq htimes
  have hgap := Int.mul_tdiv_add_tmod (value - start).toInt stride.toInt
  rw [← Int64.toInt_inj, Int64.toInt_mod, Int64.toInt_zero] at hrem
  rw [hrem, add_zero, mul_comm] at hgap
  generalize (value - start).toInt.tdiv stride.toInt = q at hgap hnonneg
  have hle : q * stride.toInt ≤ 0 := mul_nonpos_of_nonneg_of_nonpos hnonneg hstride.le
  have hformat := format_false
  rcases sub_cases false value start with ⟨hgap', -⟩ | ⟨hgap', hfar⟩ | ⟨-, hfar⟩
  · omega
  · obtain ⟨hlast, hend⟩ := downAround_bounds hstride htimes' (by omega) hn
    have hnq : (n : Int) ≤ q := by
      by_contra hgt
      have : ((n : Int) - 1) * stride.toInt ≤ q * stride.toInt :=
        mul_le_mul_of_nonpos_right (by omega) hstride.le
      omega
    have hmul : q * stride.toInt ≤ n * stride.toInt := mul_le_mul_of_nonpos_right hnq hstride.le
    rw [IntFormat.leavesAfter_downAround_iff hstart henter hstride (by rw [modulus_format]; omega)
      (by omega) (by omega), modulus_format]
    omega
  · omega

lemma leavesAfter_le_down (hstride : stride.toInt < 0)
    (henter : number false start ≤ number false value)
    (hvalue : number false value < 2 ^ 64 + stride.toInt)
    (htimes' : ¬ (0 - start) / stride < 0) {n : Nat}
    (hn : (n : Int) = strides false (0 - start).toInt stride.toInt) :
    LeavesAfter (fun k => (format false).stepped (number false start) stride.toInt k <
      number false value + 1) n := by
  have hstart := number_bounds false start
  have hlt := stride.le_toInt
  have hformat := format_false
  obtain ⟨hlast, hend⟩ := downAround_bounds hstride htimes' (by omega) hn
  have hstep : ((n : Int) - 1) * stride.toInt = n * stride.toInt - stride.toInt := by ring
  rw [IntFormat.leavesAfter_downAround_iff hstart (by omega) hstride
    (by rw [modulus_format]; omega) (by omega) (by omega), modulus_format]
  omega

lemma leavesAfter_gt_up (hstride : 0 < stride.toInt)
    (henter : number false value < number false start)
    (htimes : ¬ (value - start) / stride < 0) (hrem : (value - start) % stride = 0)
    (htimes' : ¬ (-1 - start) / stride < 0) {n : Nat}
    (hn : (n : Int) = strides false (-1 - start).toInt stride.toInt) :
    LeavesAfter (fun k => number false value <
      (format false).stepped (number false start) stride.toInt k) n := by
  have hstart := number_bounds false start
  have hvalue := number_bounds false value
  have hlt := stride.toInt_lt
  obtain ⟨-, hnonneg⟩ := times_eq htimes
  have hgap := Int.mul_tdiv_add_tmod (value - start).toInt stride.toInt
  rw [← Int64.toInt_inj, Int64.toInt_mod, Int64.toInt_zero] at hrem
  rw [hrem, add_zero, mul_comm] at hgap
  generalize (value - start).toInt.tdiv stride.toInt = q at hgap hnonneg
  have hle : 0 ≤ q * stride.toInt := mul_nonneg hnonneg hstride.le
  have hformat := format_false
  rcases sub_cases false value start with ⟨hgap', -⟩ | ⟨-, hfar⟩ | ⟨hgap', hfar⟩
  · omega
  · omega
  · obtain ⟨hlast, hend⟩ := upAround_bounds hstride htimes' (by omega) hn
    have hnq : (n : Int) ≤ q := by
      by_contra hgt
      have : q * stride.toInt ≤ ((n : Int) - 1) * stride.toInt :=
        mul_le_mul_of_nonneg_right (by omega) hstride.le
      omega
    have hmul : n * stride.toInt ≤ q * stride.toInt := mul_le_mul_of_nonneg_right hnq hstride.le
    rw [IntFormat.leavesAfter_upAround_iff hstart henter hstride (by rw [modulus_format]; omega)
      (by omega) (by omega), modulus_format]
    omega

lemma leavesAfter_ge_up (hstride : 0 < stride.toInt)
    (henter : number false value ≤ number false start)
    (hvalue : stride.toInt ≤ number false value)
    (htimes' : ¬ (-1 - start) / stride < 0) {n : Nat}
    (hn : (n : Int) = strides false (-1 - start).toInt stride.toInt) :
    LeavesAfter (fun k => number false value - 1 <
      (format false).stepped (number false start) stride.toInt k) n := by
  have hstart := number_bounds false start
  have hlt := stride.toInt_lt
  have hformat := format_false
  obtain ⟨hlast, hend⟩ := upAround_bounds hstride htimes' (by omega) hn
  have hstep : ((n : Int) - 1) * stride.toInt = n * stride.toInt - stride.toInt := by ring
  rw [IntFormat.leavesAfter_upAround_iff hstart (by omega) hstride
    (by rw [modulus_format]; omega) (by omega) (by omega), modulus_format]
  omega

/-! ### Equality -/

lemma leavesAfter_ne (hstride : stride ≠ 0) (htimes : ¬ (value - start) / stride < 0)
    (hrem : (value - start) % stride = 0) :
    LeavesAfter (fun k => (format isSigned).stepped (number isSigned start) stride.toInt k ≠
      number isSigned value) ((value - start) / stride).asUInt64 := by
  have hstart := number_bounds isSigned start
  have hvalue := number_bounds isSigned value
  have hlo := (value - start).le_toInt
  have hhi := (value - start).toInt_lt
  obtain ⟨hq, hnonneg⟩ := times_eq htimes
  have hgap := Int.mul_tdiv_add_tmod (value - start).toInt stride.toInt
  rw [← Int64.toInt_inj, Int64.toInt_mod, Int64.toInt_zero] at hrem
  have hn : (((value - start) / stride).asUInt64 : Int) =
      (value - start).toInt.tdiv stride.toInt := by
    have := ((value - start) / stride).toInt_lt
    rw [Int64.asUInt64_eq, hq]
    omega
  rw [hrem, add_zero, ← hn, mul_comm] at hgap
  generalize ((value - start) / stride).asUInt64 = n at hgap
  have hmod : ∀ k : Nat,
      (format isSigned).stepped (number isSigned start) stride.toInt k = number isSigned value ↔
        (number isSigned start + k * stride.toInt) % 2 ^ 64 = number isSigned value % 2 ^ 64 := by
    intro k
    rw [IntFormat.stepped_eq hstart, ← modulus_format isSigned, ← IntFormat.wrap_eq_wrap_iff,
      (format isSigned).wrap_of_mem hvalue]
  have hdiff : (number isSigned start + n * stride.toInt) % 2 ^ 64 =
      number isSigned value % 2 ^ 64 := by
    rcases sub_cases isSigned value start with ⟨h, -⟩ | ⟨h, -⟩ | ⟨h, -⟩ <;> omega
  refine ⟨?_, fun hfail => hfail ((hmod n).mpr hdiff)⟩
  intro k hk heq
  rw [hmod k] at heq
  have hleft : ((n : Int) - k) * stride.toInt = n * stride.toInt - k * stride.toInt := sub_mul _ _ _
  have hne : stride.toInt ≠ 0 := by
    intro h
    exact hstride (Int64.toInt_inj.mp (by rw [h, Int64.toInt_zero]))
  rcases Int.lt_or_gt_of_ne hne with hneg | hpos
  · have h₁ : ((n : Int) - k) * stride.toInt ≤ 1 * stride.toInt :=
      mul_le_mul_of_nonpos_right (by omega) hneg.le
    have h₂ : (n : Int) * stride.toInt ≤ (n - k) * stride.toInt :=
      mul_le_mul_of_nonpos_right (by omega) hneg.le
    omega
  · have h₁ : 1 * stride.toInt ≤ ((n : Int) - k) * stride.toInt :=
      mul_le_mul_of_nonneg_right (by omega) hpos.le
    have h₂ : ((n : Int) - k) * stride.toInt ≤ n * stride.toInt :=
      mul_le_mul_of_nonneg_right (by omega) hpos.le
    omega

lemma leavesAfter_eq (hstride : stride ≠ 0) :
    LeavesAfter (fun k => (format isSigned).stepped (number isSigned start) stride.toInt k =
      number isSigned start) 1 := by
  have hstart := number_bounds isSigned start
  have hlo := stride.le_toInt
  have hhi := stride.toInt_lt
  have hne : stride.toInt ≠ 0 := by
    intro h
    exact hstride (Int64.toInt_inj.mp (by rw [h, Int64.toInt_zero]))
  constructor
  · intro k hk
    obtain rfl : k = 0 := by omega
    rfl
  · have hmod := IntFormat.wrap_eq_wrap_iff (format isSigned)
      (number isSigned start + (1 : Nat) * stride.toInt) (number isSigned start)
    rw [(format isSigned).wrap_of_mem hstart, modulus_format] at hmod
    simp only [IntFormat.stepped_eq hstart, hmod]
    omega

/-! ### All loops -/

variable {op : CmpOp}

lemma end_le_of_noOverflow (strict : Bool) (hstride : 0 < stride.toInt)
    (hcond : ∀ k, Continues op isSigned value start stride k ↔
      (format isSigned).stepped (number isSigned start) stride.toInt k <
        number isSigned value + if strict then 0 else 1)
    (henter : number isSigned start < number isSigned value + if strict then 0 else 1)
    (hrun : NoOverflow op isSigned value start stride) :
    number isSigned start +
      strides strict (number isSigned value - number isSigned start) stride.toInt * stride.toInt ≤
      (format isSigned).maxValue := by
  have hstart := number_bounds isSigned start
  have hvalue := number_bounds isSigned value
  have hbound : number isSigned value + (if strict then 0 else 1) ≤
      (format isSigned).maxValue + 1 := by
    split <;> omega
  have hd : 0 ≤ number isSigned value - number isSigned start := by
    split at henter <;> omega
  obtain ⟨hpos, hlast, hend⟩ := strides_bounds strict hd hstride
  obtain ⟨N, hN⟩ := Int.eq_ofNat_of_zero_le hpos
  rw [hN] at hlast hend ⊢
  cases N with
  | zero =>
    push_cast at hend
    omega
  | succ N =>
    have hmem := hrun N fun j hj => (hcond j).mpr
      (IntFormat.stepped_lt_of_lt hstart hbound hstride (by omega) (Nat.lt_add_one_of_le hj))
    have hnonneg : 0 ≤ (N : Int) * stride.toInt := mul_nonneg (by omega) hstride.le
    push_cast at hlast ⊢
    rw [add_sub_cancel_right] at hlast
    rw [IntFormat.stepped_of_mem hstart ⟨by omega, by omega⟩] at hmem
    have hmax := hmem.2
    rw [add_mul, one_mul]
    omega

lemma le_end_of_noOverflow (strict : Bool) (hstride : stride.toInt < 0)
    (hcond : ∀ k, Continues op isSigned value start stride k ↔
      number isSigned value - (if strict then 0 else 1) <
        (format isSigned).stepped (number isSigned start) stride.toInt k)
    (henter : number isSigned value - (if strict then 0 else 1) < number isSigned start)
    (hrun : NoOverflow op isSigned value start stride) :
    (format isSigned).minValue ≤ number isSigned start +
      strides strict (number isSigned value - number isSigned start) stride.toInt *
        stride.toInt := by
  have hstart := number_bounds isSigned start
  have hvalue := number_bounds isSigned value
  have hbound : (format isSigned).minValue ≤
      number isSigned value - (if strict then 0 else 1) + 1 := by
    split <;> omega
  have hd : 0 ≤ -(number isSigned value - number isSigned start) := by
    split at henter <;> omega
  obtain ⟨hpos, hlast, hend⟩ := strides_bounds strict hd (neg_pos.mpr hstride)
  rw [strides_neg] at hpos hlast hend
  rw [mul_neg] at hlast hend
  obtain ⟨N, hN⟩ := Int.eq_ofNat_of_zero_le hpos
  rw [hN] at hlast hend ⊢
  cases N with
  | zero =>
    push_cast at hend
    omega
  | succ N =>
    have hmem := hrun N fun j hj => (hcond j).mpr
      (IntFormat.lt_stepped_of_lt hstart hbound hstride (by omega) (Nat.lt_add_one_of_le hj))
    have hnonneg : (N : Int) * stride.toInt ≤ 0 :=
      mul_nonpos_of_nonneg_of_nonpos (by omega) hstride.le
    push_cast at hlast ⊢
    rw [add_sub_cancel_right] at hlast
    rw [IntFormat.stepped_of_mem hstart ⟨by omega, by omega⟩] at hmem
    have hmin := hmem.1
    rw [add_mul, one_mul]
    omega

lemma countsUp_iff (strict : Bool) (hstride : 0 < stride.toInt)
    (hcond : ∀ k, Continues op isSigned value start stride k ↔
      (format isSigned).stepped (number isSigned start) stride.toInt k <
        number isSigned value + if strict then 0 else 1)
    (henter : number isSigned start < number isSigned value + if strict then 0 else 1)
    (htimes : ¬ (value - start) / stride < 0)
    (hrun : isSigned = true → NoOverflow op isSigned value start stride) {n : Nat}
    (hn : (n : Int) = strides strict (value - start).toInt stride.toInt) :
    LeavesAfter (Continues op isSigned value start stride) n ↔
      (format true).Mem (number isSigned value - number isSigned start) ∧
      (isSigned = false → (format false).Mem (number isSigned start +
        strides strict (number isSigned value - number isSigned start) stride.toInt *
          stride.toInt)) := by
  rw [leavesAfter_congr hcond, leavesAfter_up strict hstride henter htimes hn, and_congr_right_iff]
  intro _
  have hstart := number_bounds isSigned start
  have hd : 0 ≤ number isSigned value - number isSigned start := by
    split at henter <;> omega
  have hpos := mul_nonneg (strides_bounds strict hd hstride).1 hstride.le
  cases isSigned with
  | false => exact ⟨fun h _ => ⟨by rw [format_false.1] at hstart ⊢; omega, h⟩, fun h => (h rfl).2⟩
  | true =>
    have hend := end_le_of_noOverflow strict hstride hcond henter (hrun rfl)
    exact ⟨fun _ h => absurd h (by decide), fun _ => hend⟩

lemma countsDown_iff (strict : Bool) (hstride : stride.toInt < 0)
    (hcond : ∀ k, Continues op isSigned value start stride k ↔
      number isSigned value - (if strict then 0 else 1) <
        (format isSigned).stepped (number isSigned start) stride.toInt k)
    (henter : number isSigned value - (if strict then 0 else 1) < number isSigned start)
    (htimes : ¬ (value - start) / stride < 0)
    (hrun : isSigned = true → NoOverflow op isSigned value start stride) {n : Nat}
    (hn : (n : Int) = strides strict (value - start).toInt stride.toInt) :
    LeavesAfter (Continues op isSigned value start stride) n ↔
      (format true).Mem (number isSigned value - number isSigned start) ∧
      (isSigned = false → (format false).Mem (number isSigned start +
        strides strict (number isSigned value - number isSigned start) stride.toInt *
          stride.toInt)) := by
  rw [leavesAfter_congr hcond, leavesAfter_down strict hstride henter htimes hn,
    and_congr_right_iff]
  intro _
  have hstart := number_bounds isSigned start
  have hd : 0 ≤ -(number isSigned value - number isSigned start) := by
    split at henter <;> omega
  have hpos := mul_nonneg (strides_bounds strict hd (neg_pos.mpr hstride)).1
    (neg_pos.mpr hstride).le
  rw [strides_neg, mul_neg] at hpos
  cases isSigned with
  | false => exact ⟨fun h _ => ⟨h, by rw [format_false.2] at hstart ⊢; omega⟩, fun h => (h rfl).1⟩
  | true =>
    have hend := le_end_of_noOverflow strict hstride hcond henter (hrun rfl)
    exact ⟨fun _ h => absurd h (by decide), fun _ => hend⟩

lemma leavesAfter_zero (h : op.eval (number isSigned start) (number isSigned value) ≠ true) :
    LeavesAfter (Continues op isSigned value start stride) 0 ↔
      CountsExactly op isSigned value start stride := by
  rw [leavesAfter_zero_iff]
  exact ⟨fun _ _ henter => absurd henter h, fun _ => h⟩

lemma countsExactly_of_not_approaches (h : ¬ Approaches op stride.toInt) :
    CountsExactly op isSigned value start stride := fun happ => absurd happ h

lemma ite_or_same {α : Type} (a b : Prop) [Decidable a] [Decidable b] (x y : α) :
    (if a then x else if b then x else y) = if a ∨ b then x else y := by
  by_cases ha : a <;> by_cases hb : b <;> simp [ha, hb]

lemma not_neg_of_tripCount (hn : tripCount op isSigned value start stride ≠ kInvalidTripCount) :
    ¬ (value - start) / stride < 0 := by
  intro h
  apply hn
  rw [tripCount]
  exact if_pos h

lemma tripCount_lt (h : ¬ (value - start) / stride < 0) :
    tripCount .lt isSigned value start stride =
      if number isSigned value ≤ number isSigned start then 0
      else if stride < 0 then
        if isSigned ∨ (value - start) % stride ≠ 0 then kInvalidTripCount
        else tripCount .ge false 0 start stride
      else ((value - start) / stride + if (value - start) % stride ≠ 0 then 1 else 0).asUInt64 := by
  rw [tripCount]
  simp only [if_neg h, ite_or_same, le_number_iff]

lemma tripCount_le (h : ¬ (value - start) / stride < 0) :
    tripCount .le isSigned value start stride =
      if number isSigned value < number isSigned start then 0
      else if stride < 0 then
        if isSigned ∨ value = -1 ∨ stride.asUInt64 ≤ value.asUInt64 ∨
            (value - start) % stride ≠ 0 then kInvalidTripCount
        else tripCount .ge false 0 start stride
      else ((value - start) / stride + 1).asUInt64 := by
  rw [tripCount]
  simp only [if_neg h, ite_or_same, lt_number_iff]

lemma tripCount_gt (h : ¬ (value - start) / stride < 0) :
    tripCount .gt isSigned value start stride =
      if number isSigned start ≤ number isSigned value then 0
      else if 0 < stride then
        if isSigned ∨ (value - start) % stride ≠ 0 then kInvalidTripCount
        else tripCount .le false (-1) start stride
      else ((value - start) / stride + if (value - start) % stride ≠ 0 then 1 else 0).asUInt64 := by
  rw [tripCount]
  simp only [if_neg h, ite_or_same, le_number_iff]

lemma tripCount_ge (h : ¬ (value - start) / stride < 0) :
    tripCount .ge isSigned value start stride =
      if number isSigned start < number isSigned value then 0
      else if 0 < stride then
        if isSigned ∨ value = 0 ∨ value < stride ∨ (value - start) % stride ≠ 0 then
          kInvalidTripCount
        else tripCount .le false (-1) start stride
      else ((value - start) / stride + 1).asUInt64 := by
  rw [tripCount]
  simp only [if_neg h, ite_or_same, lt_number_iff]

lemma asUInt64_times_strict {d stride : Int64} (h : ¬ d / stride < 0) :
    ((d / stride + if d % stride ≠ 0 then 1 else 0).asUInt64 : Int) =
      strides true d.toInt stride.toInt := by
  rw [← asUInt64_times true h]
  by_cases hrem : d % stride = 0 <;> simp [hrem]

lemma lt_zero_iff (c : Int64) : c < 0 ↔ c.toInt < 0 := by
  rw [Int64.lt_iff_toInt_lt, Int64.toInt_zero]

lemma zero_lt_iff (c : Int64) : 0 < c ↔ 0 < c.toInt := by
  rw [Int64.lt_iff_toInt_lt, Int64.toInt_zero]

lemma toInt_ne_zero (h : stride ≠ 0) : stride.toInt ≠ 0 := by
  intro hzero
  exact h (Int64.toInt_inj.mp (by rw [hzero, Int64.toInt_zero]))

section Comparisons

/-- What the theorem says of one kind of loops. -/
def ExactIff (op : CmpOp) (isSigned : Bool) (value start stride : Int64) : Prop :=
  LeavesAfter (Continues op isSigned value start stride)
    (tripCount op isSigned value start stride) ↔ CountsExactly op isSigned value start stride

lemma exactIff_lt (hstride : stride ≠ 0)
    (hn : tripCount .lt isSigned value start stride ≠ kInvalidTripCount)
    (hrun : isSigned = true → NoOverflow .lt isSigned value start stride) :
    ExactIff .lt isSigned value start stride := by
  have hne := toInt_ne_zero hstride
  have htimes := not_neg_of_tripCount hn
  have heq := @tripCount_lt isSigned value start stride htimes
  have hcond : ∀ k, Continues .lt isSigned value start stride k ↔
      (format isSigned).stepped (number isSigned start) stride.toInt k <
        number isSigned value + if true = true then 0 else 1 := by
    intro k
    simp [Continues, CmpOp.eval]
  unfold ExactIff
  by_cases henter : number isSigned value ≤ number isSigned start
  · rw [heq, if_pos henter]
    exact leavesAfter_zero (by simpa [CmpOp.eval] using henter)
  · rw [if_neg henter] at heq
    by_cases hneg : stride < 0
    · rw [if_pos hneg] at heq
      by_cases hskip : isSigned = true ∨ (value - start) % stride ≠ 0
      · rw [if_pos hskip] at heq
        exact absurd heq hn
      · rw [if_neg hskip] at heq
        obtain ⟨hsign, hrem⟩ := not_or.mp hskip
        obtain rfl := Bool.eq_false_of_not_eq_true hsign
        rw [heq] at hn ⊢
        have htimes' := not_neg_of_tripCount hn
        rw [lt_zero_iff] at hneg
        have hleaves := leavesAfter_lt_down hneg (not_le.mp henter) htimes (not_not.mp hrem) htimes'
          (tripCount_geZero hneg htimes')
        refine iff_of_true ((leavesAfter_congr (fun k => ?_) _).mpr hleaves)
          (countsExactly_of_not_approaches (not_lt.mpr hneg.le))
        rw [hcond k, if_pos rfl, add_zero]
    · rw [if_neg hneg] at heq
      rw [lt_zero_iff] at hneg
      have hpos : 0 < stride.toInt := by omega
      rw [heq, countsUp_iff true hpos hcond (by simpa using henter) htimes hrun
        (asUInt64_times_strict htimes)]
      exact ⟨fun h _ _ => h, fun h => h hpos (by simpa [CmpOp.eval] using henter)⟩

lemma exactIff_le (hstride : stride ≠ 0)
    (hn : tripCount .le isSigned value start stride ≠ kInvalidTripCount)
    (hrun : isSigned = true → NoOverflow .le isSigned value start stride) :
    ExactIff .le isSigned value start stride := by
  have hne := toInt_ne_zero hstride
  have htimes := not_neg_of_tripCount hn
  have heq := @tripCount_le isSigned value start stride htimes
  have hcond : ∀ k, Continues .le isSigned value start stride k ↔
      (format isSigned).stepped (number isSigned start) stride.toInt k <
        number isSigned value + if false = true then 0 else 1 := by
    intro k
    simp [Continues, CmpOp.eval, Int.lt_add_one_iff]
  unfold ExactIff
  by_cases henter : number isSigned value < number isSigned start
  · rw [heq, if_pos henter]
    exact leavesAfter_zero (by simpa [CmpOp.eval] using henter)
  · rw [if_neg henter] at heq
    by_cases hneg : stride < 0
    · rw [if_pos hneg] at heq
      by_cases hskip : isSigned = true ∨ value = -1 ∨ stride.asUInt64 ≤ value.asUInt64 ∨
          (value - start) % stride ≠ 0
      · rw [if_pos hskip] at heq
        exact absurd heq hn
      · rw [if_neg hskip] at heq
        obtain ⟨hsign, hskip⟩ := not_or.mp hskip
        obtain ⟨-, hskip⟩ := not_or.mp hskip
        obtain ⟨hvalue, -⟩ := not_or.mp hskip
        obtain rfl := Bool.eq_false_of_not_eq_true hsign
        rw [heq] at hn ⊢
        have htimes' := not_neg_of_tripCount hn
        rw [lt_zero_iff] at hneg
        have hbound : number false value < 2 ^ 64 + stride.toInt := by
          have hs := Int64.asUInt64_eq stride
          have hlo := stride.le_toInt
          rw [number_false]
          omega
        have hleaves := leavesAfter_le_down hneg (not_lt.mp henter) hbound htimes'
          (tripCount_geZero hneg htimes')
        exact iff_of_true ((leavesAfter_congr hcond _).mpr hleaves)
          (countsExactly_of_not_approaches (not_lt.mpr hneg.le))
    · rw [if_neg hneg] at heq
      rw [lt_zero_iff] at hneg
      have hpos : 0 < stride.toInt := by omega
      rw [heq, countsUp_iff false hpos hcond (by simp; omega) htimes hrun
        (asUInt64_times_add_one htimes)]
      exact ⟨fun h _ _ => h, fun h => h hpos (by simpa [CmpOp.eval] using henter)⟩

lemma exactIff_gt (hstride : stride ≠ 0)
    (hn : tripCount .gt isSigned value start stride ≠ kInvalidTripCount)
    (hrun : isSigned = true → NoOverflow .gt isSigned value start stride) :
    ExactIff .gt isSigned value start stride := by
  have hne := toInt_ne_zero hstride
  have htimes := not_neg_of_tripCount hn
  have heq := @tripCount_gt isSigned value start stride htimes
  have hcond : ∀ k, Continues .gt isSigned value start stride k ↔
      number isSigned value - (if true = true then 0 else 1) <
        (format isSigned).stepped (number isSigned start) stride.toInt k := by
    intro k
    simp [Continues, CmpOp.eval]
  unfold ExactIff
  by_cases henter : number isSigned start ≤ number isSigned value
  · rw [heq, if_pos henter]
    exact leavesAfter_zero (by simpa [CmpOp.eval] using henter)
  · rw [if_neg henter] at heq
    by_cases hpos : 0 < stride
    · rw [if_pos hpos] at heq
      by_cases hskip : isSigned = true ∨ (value - start) % stride ≠ 0
      · rw [if_pos hskip] at heq
        exact absurd heq hn
      · rw [if_neg hskip] at heq
        obtain ⟨hsign, hrem⟩ := not_or.mp hskip
        obtain rfl := Bool.eq_false_of_not_eq_true hsign
        rw [heq] at hn ⊢
        have htimes' := not_neg_of_tripCount hn
        rw [zero_lt_iff] at hpos
        have hleaves := leavesAfter_gt_up hpos (not_le.mp henter) htimes (not_not.mp hrem) htimes'
          (tripCount_leMax hpos htimes')
        refine iff_of_true ((leavesAfter_congr (fun k => ?_) _).mpr hleaves)
          (countsExactly_of_not_approaches (not_lt.mpr hpos.le))
        rw [hcond k, if_pos rfl, sub_zero]
    · rw [if_neg hpos] at heq
      rw [zero_lt_iff] at hpos
      have hneg : stride.toInt < 0 := by omega
      rw [heq, countsDown_iff true hneg hcond (by simpa using henter) htimes hrun
        (asUInt64_times_strict htimes)]
      exact ⟨fun h _ _ => h, fun h => h hneg (by simpa [CmpOp.eval] using henter)⟩

lemma exactIff_ge (hstride : stride ≠ 0)
    (hn : tripCount .ge isSigned value start stride ≠ kInvalidTripCount)
    (hrun : isSigned = true → NoOverflow .ge isSigned value start stride) :
    ExactIff .ge isSigned value start stride := by
  have hne := toInt_ne_zero hstride
  have htimes := not_neg_of_tripCount hn
  have heq := @tripCount_ge isSigned value start stride htimes
  have hcond : ∀ k, Continues .ge isSigned value start stride k ↔
      number isSigned value - (if false = true then 0 else 1) <
        (format isSigned).stepped (number isSigned start) stride.toInt k := by
    intro k
    simp [Continues, CmpOp.eval, Int.sub_one_lt_iff]
  unfold ExactIff
  by_cases henter : number isSigned start < number isSigned value
  · rw [heq, if_pos henter]
    exact leavesAfter_zero (by simpa [CmpOp.eval] using henter)
  · rw [if_neg henter] at heq
    by_cases hpos : 0 < stride
    · rw [if_pos hpos] at heq
      by_cases hskip : isSigned = true ∨ value = 0 ∨ value < stride ∨ (value - start) % stride ≠ 0
      · rw [if_pos hskip] at heq
        exact absurd heq hn
      · rw [if_neg hskip] at heq
        obtain ⟨hsign, hskip⟩ := not_or.mp hskip
        obtain ⟨-, hskip⟩ := not_or.mp hskip
        obtain ⟨hvalue, -⟩ := not_or.mp hskip
        obtain rfl := Bool.eq_false_of_not_eq_true hsign
        rw [heq] at hn ⊢
        have htimes' := not_neg_of_tripCount hn
        rw [zero_lt_iff] at hpos
        have hbound : stride.toInt ≤ number false value := by
          have hs := Int64.asUInt64_eq value
          have hhi := value.toInt_lt
          rw [Int64.lt_iff_toInt_lt] at hvalue
          rw [number_false]
          omega
        have hleaves := leavesAfter_ge_up hpos (not_lt.mp henter) hbound htimes'
          (tripCount_leMax hpos htimes')
        exact iff_of_true ((leavesAfter_congr hcond _).mpr hleaves)
          (countsExactly_of_not_approaches (not_lt.mpr hpos.le))
    · rw [if_neg hpos] at heq
      rw [zero_lt_iff] at hpos
      have hneg : stride.toInt < 0 := by omega
      rw [heq, countsDown_iff false hneg hcond (by simp; omega) htimes hrun
        (asUInt64_times_add_one htimes)]
      exact ⟨fun h _ _ => h, fun h => h hneg (by simpa [CmpOp.eval] using henter)⟩

lemma exactIff_eq (hstride : stride ≠ 0)
    (hn : tripCount .eq isSigned value start stride ≠ kInvalidTripCount) :
    ExactIff .eq isSigned value start stride := by
  have htimes := not_neg_of_tripCount hn
  have heq : tripCount .eq isSigned value start stride = if start ≠ value then 0 else 1 := by
    rw [tripCount]
    exact if_neg htimes
  unfold ExactIff
  by_cases hsame : start = value
  · subst hsame
    rw [heq, if_neg (not_not.mpr rfl)]
    have hcond : ∀ k, Continues .eq isSigned start start stride k ↔
        (format isSigned).stepped (number isSigned start) stride.toInt k =
          number isSigned start := by
      intro k
      simp [Continues, CmpOp.eval]
    exact iff_of_true ((leavesAfter_congr hcond _).mpr (leavesAfter_eq hstride))
      (countsExactly_of_not_approaches id)
  · rw [heq, if_pos hsame]
    apply leavesAfter_zero
    simpa [CmpOp.eval] using fun h => hsame (number_injective isSigned h)

lemma exactIff_ne (hstride : stride ≠ 0)
    (hn : tripCount .ne isSigned value start stride ≠ kInvalidTripCount) :
    ExactIff .ne isSigned value start stride := by
  have htimes := not_neg_of_tripCount hn
  unfold ExactIff
  by_cases hsame : start = value
  · have heq : tripCount .ne isSigned value start stride = 0 := by
      rw [tripCount]
      simp only [if_neg htimes, if_pos hsame]
    subst hsame
    rw [heq]
    apply leavesAfter_zero
    simp [CmpOp.eval]
  · by_cases hrem : (value - start) % stride ≠ 0
    · refine absurd ?_ hn
      rw [tripCount]
      simp only [if_neg htimes, if_neg hsame, if_pos hrem]
    · have heq : tripCount .ne isSigned value start stride =
          ((value - start) / stride).asUInt64 := by
        rw [tripCount] at hn ⊢
        simp only [if_neg htimes, if_neg hsame, if_neg hrem] at hn ⊢
        split_ifs at hn ⊢ <;> first | rfl | exact absurd rfl hn
      have hcond : ∀ k, Continues .ne isSigned value start stride k ↔
          (format isSigned).stepped (number isSigned start) stride.toInt k ≠
            number isSigned value := by
        intro k
        simp [Continues, CmpOp.eval]
      rw [heq]
      exact iff_of_true
        ((leavesAfter_congr hcond _).mpr (leavesAfter_ne hstride htimes (not_not.mp hrem)))
        (countsExactly_of_not_approaches id)

end Comparisons

/-- A trip count is the number of iterations if and only if, where the stride leads to the bound,
the difference of the constants does not overflow and the last addition of an unsigned loop does not
wrap around. -/
theorem computeTripCountWithSimpleConstCR_exact_iff (op : CmpOp) (isSigned : Bool)
    (value start stride : Int64) {n : Nat}
    (hcount : computeTripCountWithSimpleConstCR op isSigned value start stride = some n)
    (hn : n ≠ kInvalidTripCount)
    (hrun : isSigned = true → NoOverflow op isSigned value start stride) :
    LeavesAfter (Continues op isSigned value start stride) n ↔
      CountsExactly op isSigned value start stride := by
  have hstride : stride ≠ 0 := by
    rintro rfl
    simp [computeTripCountWithSimpleConstCR] at hcount
  rw [computeTripCountWithSimpleConstCR, if_neg hstride] at hcount
  obtain rfl := Option.some.inj hcount
  cases op with
  | lt => exact exactIff_lt hstride hn hrun
  | le => exact exactIff_le hstride hn hrun
  | gt => exact exactIff_gt hstride hn hrun
  | ge => exact exactIff_ge hstride hn hrun
  | eq => exact exactIff_eq hstride hn
  | ne => exact exactIff_ne hstride hn

/-- `for (i = 0; i < 10; i += 3)` over an unsigned variable. -/
theorem computeTripCountWithSimpleConstCR_exact_iff_zeroToTen :
    LeavesAfter (Continues .lt false 10 0 3) 4 ↔ CountsExactly .lt false 10 0 3 := by
  refine computeTripCountWithSimpleConstCR_exact_iff .lt false 10 0 3 ?_ (by decide)
    fun h => absurd h (by decide)
  rw [computeTripCountWithSimpleConstCR, if_neg (by decide), tripCount]
  rfl

/-- The difference of the largest `uint64` and zero is -1 as an `int64`. -/
theorem computeTripCountWithSimpleConstCR_toMax :
    computeTripCountWithSimpleConstCR .lt false (-1) 0 5 = some 1 ∧
      ¬ LeavesAfter (Continues .lt false (-1) 0 5) 1 := by
  constructor
  · rw [computeTripCountWithSimpleConstCR, if_neg (by decide), tripCount]
    rfl
  · rintro ⟨-, hfail⟩
    exact hfail (by unfold Continues; decide)

end TripCount
end Maple
