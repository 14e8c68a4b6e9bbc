import Maple.ME.ScalarAnalysis.NarrowTripCount

/-!
# When the trip counts of narrow loops are right

A 64-bit trip count is right for the narrow loop if and only if the number that the 64-bit loop ends
with fails the test of the narrow loop.
-/

namespace Maple
namespace TripCount

section Formats

/-- The test of a loop over a variable of the format `fv` that is compared in the format `fc`. -/
def narrowTest (fv fc : IntFormat) (op : CmpOp) (init exit stride : Int) (k : Nat) : Prop :=
  op.eval (fc.wrap (fv.stepped init stride k)) exit = true

variable {fv fc : IntFormat} {op : CmpOp} {init exit stride : Int} {n : Nat}

/-- The additions of a loop that has not been left do not overflow. -/
def NarrowNoOverflow (fv fc : IntFormat) (op : CmpOp) (init exit stride : Int) : Prop :=
  ∀ k, (∀ j ≤ k, narrowTest fv fc op init exit stride j) →
    fv.Mem (fv.stepped init stride k + stride)

lemma stepped_of_noOverflow (hrun : NarrowNoOverflow fv fc op init exit stride) {k : Nat}
    (h : ∀ j < k, narrowTest fv fc op init exit stride j) :
    fv.stepped init stride k = init + k * stride := by
  induction k with
  | zero => simp [IntFormat.stepped]
  | succ k ih =>
    have hmem := hrun k fun j hj => h j (Nat.lt_add_one_of_le hj)
    rw [IntFormat.stepped, fv.wrap_of_mem hmem, ih fun j hj => h j (Nat.lt_succ_of_lt hj)]
    push_cast
    ring

/-- The tests of the narrow loop hold where those of the 64-bit loop hold and neither the additions
nor the conversions change the numbers. -/
lemma narrowTest_of_lt (hrun : fv.signed = true → NarrowNoOverflow fv fc op init exit stride)
    (hk : ∀ k < n, op.eval (init + k * stride) exit = true ∧ fc.Mem (init + k * stride))
    (hmem : fv.signed = true ∨
      ∀ k < n, fc.wrap (fv.stepped init stride k) = init + k * stride) {k : Nat} (hkn : k < n) :
    narrowTest fv fc op init exit stride k := by
  induction k using Nat.strong_induction_on with
  | _ k ih =>
  obtain ⟨heval, hfc⟩ := hk k hkn
  have hvalue : fc.wrap (fv.stepped init stride k) = init + k * stride := by
    rcases hmem with hsigned | hmem
    · rw [stepped_of_noOverflow (hrun hsigned) fun j hj => ih j hj (by omega),
        fc.wrap_of_mem hfc]
    · exact hmem k hkn
  rw [narrowTest, hvalue]
  exact heval

lemma leavesAfter_iff_of_agree (hinit : fv.Mem init)
    (hrun : fv.signed = true → NarrowNoOverflow fv fc op init exit stride)
    (hk : ∀ k < n, op.eval (init + k * stride) exit = true ∧ fc.Mem (init + k * stride))
    (hmem : fv.signed = true ∨
      ∀ k < n, fc.wrap (fv.stepped init stride k) = init + k * stride) :
    LeavesAfter (narrowTest fv fc op init exit stride) n ↔
      op.eval (fc.wrap (fv.wrap (init + n * stride))) exit = false := by
  have hlast : narrowTest fv fc op init exit stride n ↔
      op.eval (fc.wrap (fv.wrap (init + n * stride))) exit = true := by
    rw [narrowTest, IntFormat.stepped_eq hinit]
  rw [← Bool.not_eq_true, ← hlast]
  exact ⟨fun h => h.2, fun h => ⟨fun k hkn => narrowTest_of_lt hrun hk hmem hkn, h⟩⟩

lemma wrap_stepped_of_mem (hinit : fv.Mem init) {k : Nat} (hv : fv.Mem (init + k * stride))
    (hc : fc.Mem (init + k * stride)) :
    fc.wrap (fv.stepped init stride k) = init + k * stride := by
  rw [IntFormat.stepped_of_mem hinit hv, fc.wrap_of_mem hc]

lemma wrap_stepped_of_width_le (hinit : fv.Mem init) (hwidth : fc.width ≤ fv.width) {k : Nat}
    (hc : fc.Mem (init + k * stride)) :
    fc.wrap (fv.stepped init stride k) = init + k * stride := by
  have hdvd : (fc.modulus : Int) ∣ fv.modulus := by
    exact_mod_cast pow_dvd_pow 2 hwidth
  apply fc.wrap_eq_of_mem hc
  rw [IntFormat.stepped_eq hinit, ← Int.emod_emod_of_dvd _ hdvd, fv.wrap_emod,
    Int.emod_emod_of_dvd _ hdvd]

lemma leavesAfter_iff_of_unreachable (hfc : ∀ v, fv.Mem v → fc.Mem v) (hinit : fv.Mem init)
    (hexit : ¬ fv.Mem exit) (henter : op.eval init exit = true) (last : Int) :
    LeavesAfter (narrowTest fv fc op init exit stride) n ↔
      op.eval (fc.wrap (fv.wrap last)) exit = false := by
  have hall : ∀ v, fv.Mem v → op.eval (fc.wrap v) exit = true := by
    intro v hv
    rw [fc.wrap_of_mem (hfc v hv)]
    unfold IntFormat.Mem at hinit hexit hv
    cases op <;> simp [CmpOp.eval] at henter ⊢ <;> omega
  have hlast := hall _ (fv.wrap_mem last)
  have htest : narrowTest fv fc op init exit stride n := by
    rw [narrowTest, IntFormat.stepped_eq hinit]
    exact hall _ (fv.wrap_mem _)
  rw [hlast]
  simp [LeavesAfter, htest]

lemma bounds_of_mem {f : IntFormat} (hwidth : f.width ≤ 32) {v : Int} (hv : f.Mem v) :
    -2 ^ 31 ≤ v ∧ v < 2 ^ 32 := by
  have hpow : (f.modulus : Int) ≤ 2 ^ 32 := by
    exact_mod_cast Nat.pow_le_pow_right (by decide : 0 < 2) hwidth
  have hspan := f.maxValue_sub_minValue
  have hmin := f.minValue_nonpos
  have hmin' : -2 ^ 31 ≤ f.minValue := by
    unfold IntFormat.minValue
    split <;> omega
  unfold IntFormat.Mem at hv
  omega

lemma mem_of_width_lt {f g : IntFormat} (hsign : f.signed = true → g.signed = true)
    (hwidth : f.width < g.width) {v : Int} (hv : f.Mem v) : g.Mem v := by
  have htwice : 2 * (f.modulus : Int) ≤ g.modulus := by
    have hpow : 2 ^ (f.width + 1) ≤ 2 ^ g.width := Nat.pow_le_pow_right (by decide) hwidth
    rw [pow_succ] at hpow
    unfold IntFormat.modulus
    omega
  have hpos := f.modulus_pos'
  unfold IntFormat.Mem IntFormat.minValue IntFormat.maxValue at *
  cases hf : f.signed <;> cases hg : g.signed <;> simp_all <;> omega

/-- What the code makes sure of for the formats and constants. -/
structure Compatible (fv fc : IntFormat) (init exit stride : Int) : Prop where
  width : fv.width ≤ 32
  init_mem : fv.Mem init
  init_mem' : fc.Mem init
  exit_mem : fc.Mem exit
  /-- Conversions keep all values of the variable, or the exit constant is near and the conversions
  keep the numbers on the way to it. -/
  reaches : (∀ v, fv.Mem v → fc.Mem v) ∨
    (fv.signed = true ∨ fc.width ≤ fv.width) ∧ (format true).Mem (exit - init)
  unsigned : fc.signed = false → stride < 0 → fv.signed = false

namespace Compatible

variable (h : Compatible fv fc init exit stride)

include h

lemma init_bounds : -2 ^ 31 ≤ init ∧ init < 2 ^ 32 := bounds_of_mem h.width h.init_mem

lemma unreachable_of_far (hfar : ¬ (format true).Mem (exit - init)) :
    (∀ v, fv.Mem v → fc.Mem v) ∧ ¬ fv.Mem exit := by
  have hexit : ¬ fv.Mem exit := by
    intro hmem
    have := bounds_of_mem h.width hmem
    have := h.init_bounds
    unfold IntFormat.Mem at hfar
    rw [format_true.1, format_true.2] at hfar
    omega
  rcases h.reaches with hall | ⟨-, hnear⟩
  · exact ⟨hall, hexit⟩
  · exact absurd hnear hfar

lemma between_mem {x : Int} (hx : init ≤ x ∧ x ≤ exit ∨ exit ≤ x ∧ x ≤ init) :
    fc.Mem x ∧ (fv.Mem exit → fv.Mem x) := by
  have h₁ := h.init_mem
  have h₂ := h.init_mem'
  have h₃ := h.exit_mem
  unfold IntFormat.Mem at *
  omega

lemma leavesAfter_iff_of_between
    (hrun : fv.signed = true → NarrowNoOverflow fv fc op init exit stride)
    (henter : op.eval init exit = true)
    (hk : ∀ k < n, op.eval (init + k * stride) exit = true ∧
      (init ≤ init + k * stride ∧ init + k * stride ≤ exit ∨
        exit ≤ init + k * stride ∧ init + k * stride ≤ init)) :
    LeavesAfter (narrowTest fv fc op init exit stride) n ↔
      op.eval (fc.wrap (fv.wrap (init + n * stride))) exit = false := by
  have hmem : ∀ k < n, fc.Mem (init + k * stride) := fun k hkn => (h.between_mem (hk k hkn).2).1
  have hagree := leavesAfter_iff_of_agree h.init_mem hrun fun k hkn => ⟨(hk k hkn).1, hmem k hkn⟩
  rcases h.reaches with hall | ⟨hsigned | hwidth, -⟩
  · by_cases hexit : fv.Mem exit
    · exact hagree (.inr fun k hkn => wrap_stepped_of_mem h.init_mem
        ((h.between_mem (hk k hkn).2).2 hexit) (hmem k hkn))
    · exact leavesAfter_iff_of_unreachable hall h.init_mem hexit henter _
  · exact hagree (.inl hsigned)
  · exact hagree (.inr fun k hkn => wrap_stepped_of_width_le h.init_mem hwidth (hmem k hkn))

end Compatible

end Formats

/-! ### The counts of the code -/

section Counts

variable {fv fc : IntFormat} {op : CmpOp} {value start stride : Int64} {n : Nat}

/-- What the theorem says, for numbers. -/
def NarrowExactIff (fv fc : IntFormat) (op : CmpOp) (value start stride : Int64) : Prop :=
  LeavesAfter
      (narrowTest fv fc op (number fc.signed start) (number fc.signed value) stride.toInt)
      (tripCount op fc.signed value start stride) ↔
    op.eval (fc.wrap (fv.wrap (lastNumber op (number fc.signed start) (number fc.signed value)
      stride.toInt))) (number fc.signed value) = false

variable
  (h : Compatible fv fc (number fc.signed start) (number fc.signed value) stride.toInt)

include h

lemma narrowExactIff_zero (hcount : tripCount op fc.signed value start stride = 0)
    (henter : op.eval (number fc.signed start) (number fc.signed value) ≠ true) :
    NarrowExactIff fv fc op value start stride := by
  have hfalse := Bool.eq_false_of_not_eq_true henter
  have hlast : lastNumber op (number fc.signed start) (number fc.signed value) stride.toInt =
      number fc.signed start := by
    unfold lastNumber
    exact if_pos hfalse
  rw [NarrowExactIff, hcount, leavesAfter_zero_iff, hlast, narrowTest, IntFormat.stepped,
    fv.wrap_of_mem h.init_mem, fc.wrap_of_mem h.init_mem', Bool.not_eq_true]

lemma narrowExactIff_of_between
    (hrun : fv.signed = true → NarrowNoOverflow fv fc op (number fc.signed start)
      (number fc.signed value) stride.toInt)
    (henter : op.eval (number fc.signed start) (number fc.signed value) = true)
    (hlast : lastNumber op (number fc.signed start) (number fc.signed value) stride.toInt =
      number fc.signed start + tripCount op fc.signed value start stride * stride.toInt)
    (hk : ∀ k < tripCount op fc.signed value start stride,
      op.eval (number fc.signed start + k * stride.toInt) (number fc.signed value) = true ∧
      (number fc.signed start ≤ number fc.signed start + k * stride.toInt ∧
          number fc.signed start + k * stride.toInt ≤ number fc.signed value ∨
        number fc.signed value ≤ number fc.signed start + k * stride.toInt ∧
          number fc.signed start + k * stride.toInt ≤ number fc.signed start)) :
    NarrowExactIff fv fc op value start stride := by
  rw [NarrowExactIff, hlast]
  exact h.leavesAfter_iff_of_between hrun henter hk

lemma narrowExactIff_of_far
    (henter : op.eval (number fc.signed start) (number fc.signed value) = true)
    (hfar : ¬ (format true).Mem (number fc.signed value - number fc.signed start)) :
    NarrowExactIff fv fc op value start stride := by
  obtain ⟨hall, hexit⟩ := h.unreachable_of_far hfar
  exact leavesAfter_iff_of_unreachable hall h.init_mem hexit henter _

omit h in
lemma toInt_sub_of_near
    (hnear : (format true).Mem (number fc.signed value - number fc.signed start)) :
    (value - start).toInt = number fc.signed value - number fc.signed start := by
  unfold IntFormat.Mem at hnear
  rw [format_true.1, format_true.2] at hnear
  rcases sub_cases fc.signed value start with ⟨hgap, -⟩ | ⟨-, hfar⟩ | ⟨-, hfar⟩
  · exact hgap
  · omega
  · omega

lemma narrowExactIff_up (strict : Bool) (hstride : 0 < stride.toInt)
    (hrun : fv.signed = true → NarrowNoOverflow fv fc op (number fc.signed start)
      (number fc.signed value) stride.toInt)
    (heval : ∀ x, op.eval x (number fc.signed value) = true ↔
      x < number fc.signed value + if strict then 0 else 1)
    (henter : number fc.signed start < number fc.signed value + if strict then 0 else 1)
    (hlast : lastNumber op (number fc.signed start) (number fc.signed value) stride.toInt =
      number fc.signed start + strides strict (number fc.signed value - number fc.signed start)
        stride.toInt * stride.toInt)
    (hn : (tripCount op fc.signed value start stride : Int) =
      strides strict (value - start).toInt stride.toInt) :
    NarrowExactIff fv fc op value start stride := by
  by_cases hnear : (format true).Mem (number fc.signed value - number fc.signed start)
  · have hgap := toInt_sub_of_near hnear
    have hd : 0 ≤ number fc.signed value - number fc.signed start := by
      split at henter <;> omega
    obtain ⟨-, hlt, -⟩ := strides_bounds strict hd hstride
    rw [hgap] at hn
    rw [← hn] at hlast hlt
    apply narrowExactIff_of_between h hrun ((heval _).mpr henter) hlast
    intro k hk
    have hle : (k : Int) * stride.toInt ≤
        ((tripCount op fc.signed value start stride : Int) - 1) * stride.toInt :=
      mul_le_mul_of_nonneg_right (by omega) hstride.le
    have hnonneg : 0 ≤ (k : Int) * stride.toInt := mul_nonneg (by omega) hstride.le
    have hloose : (if strict then 0 else 1 : Int) ≤ 1 := by
      split <;> decide
    rw [heval]
    omega
  · exact narrowExactIff_of_far h ((heval _).mpr henter) hnear

lemma narrowExactIff_down (strict : Bool) (hstride : stride.toInt < 0)
    (hrun : fv.signed = true → NarrowNoOverflow fv fc op (number fc.signed start)
      (number fc.signed value) stride.toInt)
    (heval : ∀ x, op.eval x (number fc.signed value) = true ↔
      number fc.signed value - (if strict then 0 else 1) < x)
    (henter : number fc.signed value - (if strict then 0 else 1) < number fc.signed start)
    (hlast : lastNumber op (number fc.signed start) (number fc.signed value) stride.toInt =
      number fc.signed start + strides strict (number fc.signed value - number fc.signed start)
        stride.toInt * stride.toInt)
    (hn : (tripCount op fc.signed value start stride : Int) =
      strides strict (value - start).toInt stride.toInt) :
    NarrowExactIff fv fc op value start stride := by
  by_cases hnear : (format true).Mem (number fc.signed value - number fc.signed start)
  · have hgap := toInt_sub_of_near hnear
    have hd : 0 ≤ -(number fc.signed value - number fc.signed start) := by
      split at henter <;> omega
    obtain ⟨-, hlt, -⟩ := strides_bounds strict hd (neg_pos.mpr hstride)
    rw [strides_neg] at hlt
    rw [hgap] at hn
    rw [← hn] at hlast hlt
    rw [mul_neg] at hlt
    apply narrowExactIff_of_between h hrun ((heval _).mpr henter) hlast
    intro k hk
    have hle : ((tripCount op fc.signed value start stride : Int) - 1) * stride.toInt ≤
        k * stride.toInt :=
      mul_le_mul_of_nonpos_right (by omega) hstride.le
    have hnonneg : (k : Int) * stride.toInt ≤ 0 :=
      mul_nonpos_of_nonneg_of_nonpos (by omega) hstride.le
    have hloose : (if strict then 0 else 1 : Int) ≤ 1 := by
      split <;> decide
    rw [heval]
    omega
  · exact narrowExactIff_of_far h ((heval _).mpr henter) hnear

omit h in
lemma exists_mul_stride (htimes : ¬ (value - start) / stride < 0)
    (hrem : (value - start) % stride = 0) :
    ∃ q : Int, 0 ≤ q ∧ q = (value - start).toInt.tdiv stride.toInt ∧
      (value - start).toInt = q * stride.toInt := by
  obtain ⟨-, hnonneg⟩ := times_eq htimes
  have hgap := Int.mul_tdiv_add_tmod (value - start).toInt stride.toInt
  rw [← Int64.toInt_inj, Int64.toInt_mod, Int64.toInt_zero] at hrem
  rw [hrem, add_zero, mul_comm] at hgap
  exact ⟨_, hnonneg, rfl, hgap.symm⟩

omit h in
lemma not_tripCount_leMax (hpos : 0 < stride.toInt) (hstart : number false start < 2 ^ 32)
    (hvalue : stride ≤ value) (hle : number false value ≤ number false start) :
    ¬ tripCount .le false (-1) start stride ≠ kInvalidTripCount := by
  intro hn
  have htimes := not_neg_of_tripCount hn
  obtain ⟨-, hnonneg⟩ := times_eq htimes
  have hmax : number false (-1) = 2 ^ 64 - 1 := by decide
  have hlt := lt_of_tdiv_nonneg hpos hnonneg
  have hs := Int64.asUInt64_eq value
  have hhi := value.toInt_lt
  rw [Int64.le_iff_toInt_le] at hvalue
  rw [number_false value] at hle
  rcases sub_cases false (-1) start with ⟨-, hmem⟩ | ⟨hgap, -⟩ | ⟨-, hfar⟩
  · have := hmem.2
    rw [format_true.2] at this
    omega
  · omega
  · omega

lemma narrowExactIff_le_down (hneg : stride.toInt < 0) (hsign : fc.signed = false)
    (hsame : number fc.signed value = number fc.signed start)
    (heq : tripCount .le fc.signed value start stride = tripCount .ge false 0 start stride)
    (hn : tripCount .ge false 0 start stride ≠ kInvalidTripCount) :
    NarrowExactIff fv fc .le value start stride := by
  have hbounds := h.init_bounds
  have hnonneg := (number_bounds false start).1
  have hzero : number false 0 = 0 := by decide
  have hfv : fv.minValue = 0 := by
    rw [IntFormat.minValue, h.unsigned hsign hneg]
    rfl
  have hfc : fc.minValue = 0 := by
    rw [IntFormat.minValue, hsign]
    rfl
  have hsigned := h.unsigned hsign hneg
  have hmem := h.init_mem
  have hmem' := h.init_mem'
  have hcount := tripCount_geZero hneg (not_neg_of_tripCount hn)
  unfold NarrowExactIff lastNumber
  rw [heq]
  rw [hsame, hsign] at *
  rw [format_false.1] at hnonneg
  unfold IntFormat.Mem at hmem hmem'
  have hgap : (0 - start).toInt = -number false start := by
    rcases sub_cases false 0 start with ⟨hgap, -⟩ | ⟨-, hfar⟩ | ⟨-, hfar⟩ <;> omega
  obtain ⟨-, hlast, -⟩ := strides_bounds false hnonneg (neg_pos.mpr hneg)
  rw [hgap] at hcount
  rw [← strides_neg, neg_neg, ← hcount, mul_neg] at hlast
  simp only [Bool.false_eq_true, if_false] at hlast
  have hk : ∀ k < tripCount .ge false 0 start stride,
      0 ≤ number false start + k * stride.toInt ∧
        number false start + k * stride.toInt ≤ number false start := by
    intro k hk
    have hle : ((tripCount .ge false 0 start stride : Int) - 1) * stride.toInt ≤
        k * stride.toInt :=
      mul_le_mul_of_nonpos_right (by omega) hneg.le
    have hnonpos : (k : Int) * stride.toInt ≤ 0 :=
      mul_nonpos_of_nonneg_of_nonpos (by omega) hneg.le
    omega
  have hmems : ∀ k < tripCount .ge false 0 start stride,
      fv.Mem (number false start + k * stride.toInt) ∧
        fc.Mem (number false start + k * stride.toInt) := by
    intro k hkn
    have := hk k hkn
    exact ⟨⟨by omega, by omega⟩, ⟨by omega, by omega⟩⟩
  rw [leavesAfter_iff_of_agree hmem (fun hs => absurd hsigned (by simp [hs]))
    (fun k hkn => ⟨by simpa [CmpOp.eval] using (hk k hkn).2, (hmems k hkn).2⟩)
    (.inr fun k hkn => wrap_stepped_of_mem hmem (hmems k hkn).1 (hmems k hkn).2)]
  simp only [CmpOp.eval, le_refl, decide_true, Bool.true_eq_false, if_false,
    not_lt.mpr hneg.le, hcount]

lemma narrowExactIff_lt (hstride : stride ≠ 0)
    (hn : tripCount .lt fc.signed value start stride ≠ kInvalidTripCount)
    (hrun : fv.signed = true → NarrowNoOverflow fv fc .lt (number fc.signed start)
      (number fc.signed value) stride.toInt) :
    NarrowExactIff fv fc .lt value start stride := by
  have hne := toInt_ne_zero hstride
  have htimes := not_neg_of_tripCount hn
  have heq := @tripCount_lt fc.signed value start stride htimes
  by_cases henter : number fc.signed value ≤ number fc.signed start
  · rw [if_pos henter] at heq
    exact narrowExactIff_zero h heq (by simpa [CmpOp.eval] using henter)
  · rw [if_neg henter] at heq
    have heval : CmpOp.lt.eval (number fc.signed start) (number fc.signed value) = true := by
      simpa [CmpOp.eval] using henter
    by_cases hneg : stride < 0
    · rw [if_pos hneg] at heq
      by_cases hskip : fc.signed = true ∨ (value - start) % stride ≠ 0
      · rw [if_pos hskip] at heq
        exact absurd heq hn
      · -- the difference is a multiple of a negative stride, so that it overflows
        obtain ⟨-, hrem⟩ := not_or.mp hskip
        obtain ⟨q, hq, -, hgap⟩ := exists_mul_stride htimes (not_not.mp hrem)
        rw [lt_zero_iff] at hneg
        apply narrowExactIff_of_far h heval
        intro hnear
        have hle : q * stride.toInt ≤ 0 := mul_nonpos_of_nonneg_of_nonpos hq hneg.le
        have := toInt_sub_of_near hnear
        omega
    · rw [if_neg hneg] at heq
      rw [lt_zero_iff] at hneg
      have hpos : 0 < stride.toInt := by omega
      apply narrowExactIff_up h true hpos hrun (fun x => by simp [CmpOp.eval])
        (by simpa using henter)
      · simp only [lastNumber, heval, hpos, if_true, Bool.true_eq_false, if_false]
        rfl
      · rw [heq]
        exact asUInt64_times_strict htimes

lemma narrowExactIff_le (hstride : stride ≠ 0)
    (hn : tripCount .le fc.signed value start stride ≠ kInvalidTripCount)
    (hrun : fv.signed = true → NarrowNoOverflow fv fc .le (number fc.signed start)
      (number fc.signed value) stride.toInt) :
    NarrowExactIff fv fc .le value start stride := by
  have hne := toInt_ne_zero hstride
  have htimes := not_neg_of_tripCount hn
  have heq := @tripCount_le fc.signed value start stride htimes
  by_cases henter : number fc.signed value < number fc.signed start
  · rw [if_pos henter] at heq
    exact narrowExactIff_zero h heq (by simpa [CmpOp.eval] using henter)
  · rw [if_neg henter] at heq
    have heval : CmpOp.le.eval (number fc.signed start) (number fc.signed value) = true := by
      simpa [CmpOp.eval] using henter
    by_cases hneg : stride < 0
    · rw [if_pos hneg] at heq
      by_cases hskip : fc.signed = true ∨ value = -1 ∨ stride.asUInt64 ≤ value.asUInt64 ∨
          (value - start) % stride ≠ 0
      · rw [if_pos hskip] at heq
        exact absurd heq hn
      · rw [if_neg hskip] at heq
        obtain ⟨hsign, hskip⟩ := not_or.mp hskip
        obtain ⟨-, hskip⟩ := not_or.mp hskip
        obtain ⟨-, hrem⟩ := not_or.mp hskip
        obtain ⟨q, hq, -, hgap⟩ := exists_mul_stride htimes (not_not.mp hrem)
        rw [lt_zero_iff] at hneg
        by_cases hnear : (format true).Mem (number fc.signed value - number fc.signed start)
        · exact narrowExactIff_le_down h hneg (Bool.eq_false_of_not_eq_true hsign) (by
            have hle : q * stride.toInt ≤ 0 := mul_nonpos_of_nonneg_of_nonpos hq hneg.le
            have := toInt_sub_of_near hnear
            omega) heq (by rwa [heq] at hn)
        · exact narrowExactIff_of_far h heval hnear
    · rw [if_neg hneg] at heq
      rw [lt_zero_iff] at hneg
      have hpos : 0 < stride.toInt := by omega
      apply narrowExactIff_up h false hpos hrun
        (fun x => by simp [CmpOp.eval, Int.lt_add_one_iff]) (by simp; omega)
      · simp only [lastNumber, heval, hpos, if_true, Bool.true_eq_false, if_false]
        rfl
      · rw [heq]
        exact asUInt64_times_add_one htimes

lemma narrowExactIff_gt (hstride : stride ≠ 0)
    (hn : tripCount .gt fc.signed value start stride ≠ kInvalidTripCount)
    (hrun : fv.signed = true → NarrowNoOverflow fv fc .gt (number fc.signed start)
      (number fc.signed value) stride.toInt) :
    NarrowExactIff fv fc .gt value start stride := by
  have hne := toInt_ne_zero hstride
  have htimes := not_neg_of_tripCount hn
  have heq := @tripCount_gt fc.signed value start stride htimes
  by_cases henter : number fc.signed start ≤ number fc.signed value
  · rw [if_pos henter] at heq
    exact narrowExactIff_zero h heq (by simpa [CmpOp.eval] using henter)
  · rw [if_neg henter] at heq
    have heval : CmpOp.gt.eval (number fc.signed start) (number fc.signed value) = true := by
      simpa [CmpOp.eval] using henter
    by_cases hpos : 0 < stride
    · rw [if_pos hpos] at heq
      by_cases hskip : fc.signed = true ∨ (value - start) % stride ≠ 0
      · rw [if_pos hskip] at heq
        exact absurd heq hn
      · obtain ⟨-, hrem⟩ := not_or.mp hskip
        obtain ⟨q, hq, -, hgap⟩ := exists_mul_stride htimes (not_not.mp hrem)
        rw [zero_lt_iff] at hpos
        apply narrowExactIff_of_far h heval
        intro hnear
        have hle : 0 ≤ q * stride.toInt := mul_nonneg hq hpos.le
        have := toInt_sub_of_near hnear
        omega
    · rw [if_neg hpos] at heq
      rw [zero_lt_iff] at hpos
      have hneg : stride.toInt < 0 := by omega
      apply narrowExactIff_down h true hneg hrun (fun x => by simp [CmpOp.eval])
        (by simpa using henter)
      · simp only [lastNumber, heval, hneg, if_true, Bool.true_eq_false, if_false]
        rfl
      · rw [heq]
        exact asUInt64_times_strict htimes

lemma narrowExactIff_ge (hstride : stride ≠ 0)
    (hn : tripCount .ge fc.signed value start stride ≠ kInvalidTripCount)
    (hrun : fv.signed = true → NarrowNoOverflow fv fc .ge (number fc.signed start)
      (number fc.signed value) stride.toInt) :
    NarrowExactIff fv fc .ge value start stride := by
  have hne := toInt_ne_zero hstride
  have htimes := not_neg_of_tripCount hn
  have heq := @tripCount_ge fc.signed value start stride htimes
  by_cases henter : number fc.signed start < number fc.signed value
  · rw [if_pos henter] at heq
    exact narrowExactIff_zero h heq (by simpa [CmpOp.eval] using henter)
  · rw [if_neg henter] at heq
    have heval : CmpOp.ge.eval (number fc.signed start) (number fc.signed value) = true := by
      simpa [CmpOp.eval] using henter
    by_cases hpos : 0 < stride
    · rw [if_pos hpos] at heq
      by_cases hskip : fc.signed = true ∨ value = 0 ∨ value < stride ∨
          (value - start) % stride ≠ 0
      · rw [if_pos hskip] at heq
        exact absurd heq hn
      · rw [if_neg hskip] at heq
        obtain ⟨hsign, hskip⟩ := not_or.mp hskip
        obtain ⟨-, hskip⟩ := not_or.mp hskip
        obtain ⟨hvalue, hrem⟩ := not_or.mp hskip
        obtain ⟨q, hq, -, hgap⟩ := exists_mul_stride htimes (not_not.mp hrem)
        rw [zero_lt_iff] at hpos
        apply narrowExactIff_of_far h heval
        intro hnear
        have hle : 0 ≤ q * stride.toInt := mul_nonneg hq hpos.le
        have hsame := toInt_sub_of_near hnear
        rw [heq] at hn
        have hbounds := h.init_bounds
        rw [Bool.eq_false_of_not_eq_true hsign] at hsame hbounds henter
        have hback : number false value ≤ number false start := not_lt.mp henter
        exact not_tripCount_leMax hpos hbounds.2 (Int64.not_lt.mp hvalue) hback hn
    · rw [if_neg hpos] at heq
      rw [zero_lt_iff] at hpos
      have hneg : stride.toInt < 0 := by omega
      apply narrowExactIff_down h false hneg hrun
        (fun x => by simp [CmpOp.eval, Int.sub_one_lt_iff]) (by simp; omega)
      · simp only [lastNumber, heval, hneg, if_true, Bool.true_eq_false, if_false]
        rfl
      · rw [heq]
        exact asUInt64_times_add_one htimes

lemma narrowExactIff_eq (hn : tripCount .eq fc.signed value start stride ≠ kInvalidTripCount) :
    NarrowExactIff fv fc .eq value start stride := by
  have htimes := not_neg_of_tripCount hn
  have heq : tripCount .eq fc.signed value start stride = if start ≠ value then 0 else 1 := by
    rw [tripCount]
    simp only [if_neg htimes]
  by_cases hsame : start = value
  · subst hsame
    rw [if_neg (not_not.mpr rfl)] at heq
    have hlast : lastNumber .eq (number fc.signed start) (number fc.signed start) stride.toInt =
        number fc.signed start + stride.toInt := by
      simp [lastNumber, CmpOp.eval]
    have hfirst : narrowTest fv fc .eq (number fc.signed start) (number fc.signed start)
        stride.toInt 0 := by
      simp [narrowTest, IntFormat.stepped, CmpOp.eval, fc.wrap_of_mem h.init_mem']
    rw [NarrowExactIff, heq, hlast, ← Bool.not_eq_true]
    constructor
    · rintro ⟨-, hlast⟩
      exact hlast
    · intro hlast
      refine ⟨fun k hk => ?_, hlast⟩
      obtain rfl := Nat.lt_one_iff.mp hk
      exact hfirst
  · rw [if_pos hsame] at heq
    refine narrowExactIff_zero h heq fun htrue => hsame ?_
    exact number_injective fc.signed (by simpa [CmpOp.eval] using htrue)

omit h in
lemma mul_stride_cases (hstride : stride.toInt ≠ 0) {k : Nat} (hk : k < n) :
    0 ≤ k * stride.toInt ∧ k * stride.toInt < n * stride.toInt ∨
      n * stride.toInt < k * stride.toInt ∧ k * stride.toInt ≤ 0 := by
  have hkn : (k : Int) < n := by exact_mod_cast hk
  rcases lt_or_gt_of_ne hstride with hneg | hpos
  · exact .inr ⟨mul_lt_mul_of_neg_right hkn hneg,
      mul_nonpos_of_nonneg_of_nonpos (by omega) hneg.le⟩
  · exact .inl ⟨mul_nonneg (by omega) hpos.le, mul_lt_mul_of_pos_right hkn hpos⟩

lemma narrowExactIff_ne (hstride : stride ≠ 0)
    (hn : tripCount .ne fc.signed value start stride ≠ kInvalidTripCount)
    (hrun : fv.signed = true → NarrowNoOverflow fv fc .ne (number fc.signed start)
      (number fc.signed value) stride.toInt) :
    NarrowExactIff fv fc .ne value start stride := by
  have hne := toInt_ne_zero hstride
  have htimes := not_neg_of_tripCount hn
  by_cases hsame : start = value
  · have heq : tripCount .ne fc.signed value start stride = 0 := by
      rw [tripCount]
      simp only [if_neg htimes, if_pos hsame]
    exact narrowExactIff_zero h heq (by simp [CmpOp.eval, hsame])
  have henter : CmpOp.ne.eval (number fc.signed start) (number fc.signed value) = true := by
    simpa [CmpOp.eval] using fun heq => hsame (number_injective fc.signed heq)
  by_cases hrem : (value - start) % stride = 0
  · have heq : tripCount .ne fc.signed value start stride =
        ((value - start) / stride).asUInt64 := by
      rw [tripCount] at hn ⊢
      simp only [if_neg htimes, if_neg hsame, hrem, ne_eq, not_true_eq_false, if_false] at hn ⊢
      split_ifs at hn ⊢ <;> first | rfl | exact absurd rfl hn
    by_cases hnear : (format true).Mem (number fc.signed value - number fc.signed start)
    · obtain ⟨q, hq, htdiv, hgap⟩ := exists_mul_stride htimes hrem
      have hcount : (tripCount .ne fc.signed value start stride : Int) = q := by
        rw [heq, Int64.asUInt64_eq, (times_eq htimes).1, ← htdiv]
        have hhi := ((value - start) / stride).toInt_lt
        rw [(times_eq htimes).1, ← htdiv] at hhi
        omega
      rw [toInt_sub_of_near hnear, ← hcount] at hgap
      apply narrowExactIff_of_between h hrun henter
      · simp only [lastNumber, henter, Bool.true_eq_false, if_false]
        omega
      · intro k hk
        have hway := mul_stride_cases hne hk
        refine ⟨?_, by omega⟩
        simp only [CmpOp.eval, bne_iff_ne, ne_eq]
        omega
    · exact narrowExactIff_of_far h henter hnear
  · have heq : tripCount .ne fc.signed value start stride = kInvalidTripCount := by
      rw [tripCount]
      simp only [if_neg htimes, if_neg hsame, ne_eq, hrem, not_false_eq_true, if_true]
    exact absurd heq hn

lemma narrowExactIff (hstride : stride ≠ 0)
    (hn : tripCount op fc.signed value start stride ≠ kInvalidTripCount)
    (hrun : fv.signed = true → NarrowNoOverflow fv fc op (number fc.signed start)
      (number fc.signed value) stride.toInt) :
    NarrowExactIff fv fc op value start stride := by
  cases op with
  | eq => exact narrowExactIff_eq h hn
  | ne => exact narrowExactIff_ne h hstride hn hrun
  | lt => exact narrowExactIff_lt h hstride hn hrun
  | le => exact narrowExactIff_le h hstride hn hrun
  | gt => exact narrowExactIff_gt h hstride hn hrun
  | ge => exact narrowExactIff_ge h hstride hn hrun

end Counts

/-! ### The types of the loop -/

section Types

open PrimType

lemma isNeeded_of_isIntType {t : PrimType} (h : isIntType t) : t.isNeeded := by
  cases t <;> simp_all [isIntType, isNeeded]

lemma isIntType_of_isNarrow {t : PrimType} (h : isNarrow t) : isIntType t := by
  cases t <;> simp_all [isIntType, isNarrow]

variable [Target] {t varType opndType fromType : PrimType} {cvt : Option (PrimType × PrimType)}
  {op : CmpOp} {c initConst strideConst exitConst : Int64} {n : Nat}

lemma not_isUint64_of_isNarrow (h : isNarrow t) : ¬ t.isUint64 := by
  cases t <;> simp_all [isNarrow, isUint64]

lemma width_of_isNarrow (h : isNarrow t) : 0 < t.format.width ∧ t.format.width ≤ 32 := by
  cases t <;> simp [isNarrow] at h <;> simp [PrimType.format, actualBitSize, size]

lemma minValue_neg_of_isNarrow (h : isNarrow t) (hsigned : t.format.signed = true) :
    t.format.minValue < 0 := by
  have htwo := t.format.two_mul_half_modulus (width_of_isNarrow h).1
  have hpos := t.format.modulus_pos'
  rw [IntFormat.minValue, if_pos hsigned]
  omega

omit [Target] in
lemma number_of_mem {f : IntFormat} (h : f.Mem c.toInt) : number f.signed c = c.toInt := by
  cases hsigned : f.signed with
  | true => exact number_true c
  | false =>
    have hmin := h.1
    rw [IntFormat.minValue, hsigned] at hmin
    have hhi := c.toInt_lt
    rw [number_false, Int64.asUInt64_eq]
    simp only [Bool.false_eq_true, if_false] at hmin
    omega

lemma number_eq_read (ht : isIntType t) (hin : t.InType c) :
    number t.isSignedInteger c = t.read c := by
  have hneeded := isNeeded_of_isIntType ht
  by_cases hu : t.isUint64
  · have hformat := format_of_isUint64 hu
    have hsigned : t.isSignedInteger = false := congrArg IntFormat.signed hformat
    rw [hsigned, number_false, PrimType.read, if_pos hu]
  · rw [read_of_inType hu hin]
    exact number_of_mem ((inType_iff_mem hneeded hu c).mp hin)

lemma inType_of_mem (ht : isIntType t) (h : t.format.Mem c.toInt) : t.InType c := by
  by_cases hu : t.isUint64
  · exact inType_of_isUint64 hu c
  · exact (inType_iff_mem (isNeeded_of_isIntType ht) hu c).mpr h

lemma isEqualInBoth_iff (ht : isIntType t) (hf : isIntType fromType) (hin : fromType.InType c) :
    isEqualInBoth c t fromType = true ↔ t.read c = fromType.read c := by
  have hsame : (⟨none, c, t⟩ : Bound Unit).isEqualAfterCVT t t = true := by
    simp [Bound.isEqualAfterCVT, isNeeded_of_isIntType ht]
  rw [isEqualInBoth, Bound.isEqual, Bound.compare_eq, hsame,
    ← @Bound.isEqualAfterCVT_iff Unit _ _ _ (isNeeded_of_isIntType hf)
      (isNeeded_of_isIntType ht) ⟨none, c, fromType⟩ hin]
  simp [CmpOp.eval]

lemma signed_of_represents (hv : isNarrow varType) (hrep : Represents t varType)
    (hsigned : varType.format.signed = true) : t.format.signed = true := by
  have hneg := minValue_neg_of_isNarrow hv hsigned
  by_contra hunsigned
  have hmin := hrep.1
  rw [IntFormat.minValue.eq_def t.format, if_neg hunsigned] at hmin
  omega

lemma represents_of_width_lt (hsign : varType.format.signed = true → t.format.signed = true)
    (hwidth : varType.format.width < t.format.width) : Represents t varType :=
  ⟨(mem_of_width_lt hsign hwidth ⟨le_refl _, IntFormat.minValue_le_maxValue _⟩).1,
    (mem_of_width_lt hsign hwidth ⟨IntFormat.minValue_le_maxValue _, le_refl _⟩).2⟩

lemma represents_of_widening (ht : isIntType t) (hf : isIntType fromType)
    (h : t.isUnsignedInteger ∧ fromType.isUnsignedInteger ∧ fromType.bitSize < t.bitSize) :
    Represents t fromType := by
  obtain ⟨-, hfu, hbits⟩ := h
  have hunsigned : fromType.isSignedInteger = false := by
    unfold PrimType.isUnsignedInteger at hfu
    simp_all [PrimType.isSignedInteger]
  have hone : t ≠ u1 ∧ fromType ≠ u1 := by
    constructor <;> rintro rfl <;> simp [isIntType] at ht hf
  apply represents_of_width_lt
  · intro hsigned
    exact absurd hsigned (by simp [PrimType.format, hunsigned])
  · simpa [PrimType.format, actualBitSize, hone, PrimType.bitSize] using hbits

lemma compatible_of_keeps (hv : isNarrow varType) (hc : isIntType opndType)
    (hkeeps : Represents opndType varType) (hinit : varType.InType initConst)
    (hexit : opndType.InType exitConst) (stride : Int) :
    Compatible varType.format opndType.format (number opndType.isSignedInteger initConst)
      (number opndType.isSignedInteger exitConst) stride := by
  have hmem := (inType_iff_mem (isNeeded_of_isIntType (isIntType_of_isNarrow hv))
    (not_isUint64_of_isNarrow hv) initConst).mp hinit
  have hall : ∀ v, varType.format.Mem v → opndType.format.Mem v := fun v hmem =>
    ⟨hkeeps.1.trans hmem.1, hmem.2.trans hkeeps.2⟩
  have hnumber : number opndType.isSignedInteger initConst = initConst.toInt :=
    number_of_mem (hall _ hmem)
  rw [hnumber]
  exact {
    width := (width_of_isNarrow hv).2
    init_mem := hmem
    init_mem' := hall _ hmem
    exit_mem := number_eq_read hc hexit ▸ read_mem (isNeeded_of_isIntType hc) exitConst
    reaches := .inl hall
    unsigned := by
      intro hunsigned _
      by_contra hsigned
      have := signed_of_represents hv hkeeps (Bool.eq_true_of_not_eq_false hsigned)
      exact absurd hunsigned (by simp [this]) }

lemma nonneg_of_isEqualInBoth (hf : isIntType fromType) (ht : isIntType t)
    (hfs : fromType.isSignedInteger) (htu : t.isUnsignedInteger)
    (h : isEqualInBoth c t fromType = true) : 0 ≤ c.toInt := by
  have hne : fromType ≠ t := by
    rintro rfl
    simp_all [PrimType.isSignedInteger, PrimType.isUnsignedInteger]
  simp only [isEqualInBoth, Bound.isEqual, Bound.compare_eq, Bool.and_eq_true] at h
  have hcvt := h.1.2
  by_contra hneg
  have hlt : c < 0 := by
    rw [lt_zero_iff]
    omega
  simp [Bound.isEqualAfterCVT, isNeeded_of_isIntType hf, isNeeded_of_isIntType ht, hne, hfs, htu,
    hlt] at hcvt

lemma compatible_of_guards (hv : isNarrow varType) (hf : isIntType fromType) (ht : isIntType t)
    (hrep : Represents fromType varType) (hinit : varType.InType initConst)
    (hexit : t.InType exitConst) (hi : isEqualInBoth initConst t fromType = true)
    (hs : isEqualInBoth strideConst t fromType = true)
    (he : isEqualInBoth exitConst t fromType = true) :
    Compatible varType.format t.format (number t.isSignedInteger initConst)
      (number t.isSignedInteger exitConst) strideConst.toInt := by
  have hmem := (inType_iff_mem (isNeeded_of_isIntType (isIntType_of_isNarrow hv))
    (not_isUint64_of_isNarrow hv) initConst).mp hinit
  by_cases hkeeps : Represents t varType
  · exact compatible_of_keeps hv ht hkeeps hinit hexit _
  have hmemFrom : fromType.format.Mem initConst.toInt :=
    ⟨hrep.1.trans hmem.1, hmem.2.trans hrep.2⟩
  have hread : t.read initConst = initConst.toInt := by
    rw [(isEqualInBoth_iff ht hf (inType_of_mem hf hmemFrom)).mp hi,
      ← number_eq_read hf (inType_of_mem hf hmemFrom)]
    exact number_of_mem hmemFrom
  have hmem' : t.format.Mem initConst.toInt := hread ▸ read_mem (isNeeded_of_isIntType ht) initConst
  have hnumber : number t.isSignedInteger initConst = initConst.toInt := number_of_mem hmem'
  have hexitMem : t.format.Mem (number t.isSignedInteger exitConst) :=
    number_eq_read ht hexit ▸ read_mem (isNeeded_of_isIntType ht) exitConst
  have hinitBounds := bounds_of_mem (width_of_isNarrow hv).2 hmem
  rw [hnumber]
  by_cases hsign : varType.format.signed = true ∧ t.format.signed = false
  · -- the constants that are left are not negative, and the stride leads up
    have hfs := signed_of_represents hv hrep hsign.1
    have htu : t.isUnsignedInteger := by
      rcases signed_or_unsigned t (isNeeded_of_isIntType ht) with ⟨hts, -⟩ | ⟨htu, -⟩
      · exact absurd hsign.2 (by simp [PrimType.format, hts])
      · exact htu
    have hinitNonneg := nonneg_of_isEqualInBoth hf ht hfs htu hi
    have hexitNonneg := nonneg_of_isEqualInBoth hf ht hfs htu he
    have hstrideNonneg := nonneg_of_isEqualInBoth hf ht hfs htu hs
    have hhi := exitConst.toInt_lt
    have hexitNumber : number t.isSignedInteger exitConst = exitConst.toInt := by
      have hts : t.isSignedInteger = false := hsign.2
      rw [hts, number_false, Int64.asUInt64_eq]
      omega
    exact ⟨(width_of_isNarrow hv).2, hmem, hmem', hexitMem,
      .inr ⟨.inl hsign.1, by
        rw [hexitNumber, IntFormat.Mem, format_true.1, format_true.2]
        omega⟩,
      fun _ hneg => absurd hneg (by omega)⟩
  · -- the type of the comparison is not wider, and holds no constants that are far away
    have hsigned : varType.format.signed = true → t.format.signed = true := fun h =>
      Bool.eq_true_of_not_eq_false fun h' => hsign ⟨h, h'⟩
    have hwidth : t.format.width ≤ varType.format.width :=
      not_lt.mp fun hlt => hkeeps (represents_of_width_lt hsigned hlt)
    have hexitBounds := bounds_of_mem (hwidth.trans (width_of_isNarrow hv).2) hexitMem
    exact ⟨(width_of_isNarrow hv).2, hmem, hmem', hexitMem,
      .inr ⟨.inr hwidth, by
        rw [IntFormat.Mem, format_true.1, format_true.2]
        omega⟩,
      fun hunsigned _ => Bool.eq_false_of_not_eq_true fun h =>
        absurd hunsigned (by simp [hsigned h])⟩

lemma compatible_of_canCompute (hw : WellTyped varType opndType cvt)
    (hinit : varType.InType initConst) (hexit : opndType.InType exitConst)
    (hret : canComputeTripCountWithCvtOpnd opndType cvt op initConst strideConst exitConst =
      some n) :
    Compatible varType.format opndType.format (number opndType.isSignedInteger initConst)
        (number opndType.isSignedInteger exitConst) strideConst.toInt ∧
      computeTripCountWithSimpleConstCR op opndType.isSignedInteger exitConst initConst
        strideConst = some n := by
  unfold canComputeTripCountWithCvtOpnd at hret
  cases hcount : computeTripCountWithSimpleConstCR op opndType.isSignedInteger exitConst initConst
    strideConst with
  | none =>
    rw [hcount] at hret
    exact absurd hret (by simp)
  | some m =>
    rw [hcount] at hret
    cases cvt with
    | none =>
      obtain ⟨hv, hc, hrep⟩ := hw
      exact ⟨compatible_of_keeps hv hc hrep hinit hexit _, hret⟩
    | some types =>
      obtain ⟨toType, fromType⟩ := types
      obtain ⟨hv, hf, ht, hrep, rfl⟩ := hw
      simp only at hret
      by_cases hwiden : opndType.isUnsignedInteger ∧ fromType.isUnsignedInteger ∧
          fromType.bitSize < opndType.bitSize
      · rw [if_pos hwiden] at hret
        have hrep' := represents_of_widening ht hf hwiden
        exact ⟨compatible_of_keeps hv ht ⟨hrep'.1.trans hrep.1, hrep.2.trans hrep'.2⟩ hinit hexit _,
          hret⟩
      · rw [if_neg hwiden] at hret
        split_ifs at hret with hguards
        exact ⟨compatible_of_guards hv hf ht hrep hinit hexit hguards.1 hguards.2.1 hguards.2.2.1,
          hret⟩

end Types

namespace NarrowLoop

open PrimType

variable [Target] (l : NarrowLoop)

lemma varType_isNarrow : isNarrow l.varType := by
  have hw := l.wellTyped
  cases hcvt : l.cvt <;> rw [hcvt] at hw <;> exact hw.1

lemma opndType_isIntType : isIntType l.opndType := by
  have hw := l.wellTyped
  cases hcvt : l.cvt with
  | none =>
    rw [hcvt] at hw
    exact hw.2.1
  | some types =>
    rw [hcvt] at hw
    obtain ⟨-, -, ht, -, heq⟩ := hw
    exact heq ▸ ht

lemma operand_of_mem {v : Int} (hv : l.varType.format.Mem v) :
    operand l.opndType l.cvt v = l.opndType.format.wrap v := by
  have hw := l.wellTyped
  cases hcvt : l.cvt with
  | none => rfl
  | some types =>
    rw [hcvt] at hw
    obtain ⟨-, -, -, hrep, heq⟩ := hw
    have hmem : types.2.format.Mem v := ⟨hrep.1.trans hv.1, hv.2.trans hrep.2⟩
    rw [operand, types.2.format.wrap_of_mem hmem, heq, IntFormat.wrap_wrap]

lemma read_init_mem : l.varType.format.Mem (l.varType.read l.initConst) :=
  read_mem (isNeeded_of_isIntType (isIntType_of_isNarrow l.varType_isNarrow)) l.initConst

lemma test_iff (k : Nat) : l.test (l.value k) = true ↔
    narrowTest l.varType.format l.opndType.format l.op (l.varType.read l.initConst)
      (l.opndType.read l.exitConst) l.strideConst.toInt k := by
  have hmem : l.varType.format.Mem (l.value k) := by
    rw [value, IntFormat.stepped_eq l.read_init_mem]
    exact IntFormat.wrap_mem _ _
  rw [test, l.operand_of_mem hmem]
  rfl

lemma noOverflow_iff : l.NoOverflow ↔
    NarrowNoOverflow l.varType.format l.opndType.format l.op (l.varType.read l.initConst)
      (l.opndType.read l.exitConst) l.strideConst.toInt := by
  simp only [NoOverflow, NarrowNoOverflow, l.test_iff]
  rfl

lemma number_init (hmem : l.varType.format.Mem (number l.opndType.isSignedInteger l.initConst)) :
    number l.opndType.isSignedInteger l.initConst = l.varType.read l.initConst := by
  have hnarrow := l.varType_isNarrow
  have hread := l.read_init_mem
  rw [read_of_inType (not_isUint64_of_isNarrow hnarrow) l.init_inType] at hread ⊢
  have hmod : number l.opndType.isSignedInteger l.initConst % 2 ^ 64 =
      l.initConst.toInt % 2 ^ 64 := by
    rw [← modulus_format l.opndType.isSignedInteger]
    exact IntFormat.wrap_emod _ _
  have hbounds := bounds_of_mem (width_of_isNarrow hnarrow).2 hmem
  have hbounds' := bounds_of_mem (width_of_isNarrow hnarrow).2 hread
  omega

end NarrowLoop

/-- A count is the number of iterations of the narrow loop if and only if the number that the 64-bit
loop ends with fails the test of the narrow loop. -/
theorem canComputeTripCountWithCvtOpnd_exact_iff [Target] (l : NarrowLoop) {n : Nat}
    (hret : canComputeTripCountWithCvtOpnd l.opndType l.cvt l.op l.initConst l.strideConst
      l.exitConst = some n)
    (hn : n ≠ kInvalidTripCount)
    (hrun : l.varType.isSignedInteger = true → l.NoOverflow) :
    LeavesAfter (fun k => l.test (l.value k) = true) n ↔
      l.test (l.varType.format.wrap (lastNumber l.op (l.varType.read l.initConst)
        (l.opndType.read l.exitConst) l.strideConst.toInt)) = false := by
  obtain ⟨hcompatible, hcount⟩ :=
    compatible_of_canCompute l.wellTyped l.init_inType l.exit_inType hret
  have hstride : l.strideConst ≠ 0 := by
    intro hzero
    simp [computeTripCountWithSimpleConstCR, hzero] at hcount
  rw [computeTripCountWithSimpleConstCR, if_neg hstride] at hcount
  obtain rfl := Option.some.inj hcount
  have hinit := l.number_init hcompatible.init_mem
  have hexit := number_eq_read l.opndType_isIntType l.exit_inType
  have hover : l.varType.format.signed = true → NarrowNoOverflow l.varType.format l.opndType.format
      l.op (number l.opndType.format.signed l.initConst)
      (number l.opndType.format.signed l.exitConst) l.strideConst.toInt := by
    intro hsigned
    have hover := l.noOverflow_iff.mp (hrun hsigned)
    rwa [← hinit, ← hexit] at hover
  have hmain := narrowExactIff hcompatible hstride hn hover
  rw [NarrowExactIff] at hmain
  rw [leavesAfter_congr l.test_iff, NarrowLoop.test, l.operand_of_mem (IntFormat.wrap_mem _ _),
    ← hinit, ← hexit]
  exact hmain

/-- `for (i = 0; (int) i < 10; i += 3)` over an unsigned byte. -/
def byteLoop : @NarrowLoop Target.lp64 :=
  letI := Target.lp64
  { varType := .u8, opndType := .i32, cvt := some (.i32, .u8), op := .lt
    initConst := 0, strideConst := 3, exitConst := 10
    wellTyped := ⟨rfl, rfl, rfl, by unfold Represents; decide, rfl⟩
    init_inType := by decide
    exit_inType := by decide }

theorem canComputeTripCountWithCvtOpnd_exact_iff_byteLoop :
    letI := Target.lp64
    LeavesAfter (fun k => byteLoop.test (byteLoop.value k) = true) 4 ↔
      byteLoop.test (byteLoop.varType.format.wrap (lastNumber byteLoop.op
        (byteLoop.varType.read byteLoop.initConst) (byteLoop.opndType.read byteLoop.exitConst)
          byteLoop.strideConst.toInt)) = false := by
  let _ := Target.lp64
  have hcount : computeTripCountWithSimpleConstCR byteLoop.op byteLoop.opndType.isSignedInteger
      byteLoop.exitConst byteLoop.initConst byteLoop.strideConst = some 4 := by
    rw [computeTripCountWithSimpleConstCR, if_neg (by decide), tripCount]
    rfl
  refine canComputeTripCountWithCvtOpnd_exact_iff byteLoop ?_ (by decide)
    fun h => absurd h (by decide)
  unfold canComputeTripCountWithCvtOpnd
  rw [hcount]
  decide

/-- `for (i = 0; i < 255; i += 2)` over an unsigned byte. -/
def evenLoop : @NarrowLoop Target.lp64 :=
  letI := Target.lp64
  { varType := .u8, opndType := .u8, cvt := none, op := .lt
    initConst := 0, strideConst := 2, exitConst := 255
    wellTyped := ⟨rfl, rfl, by unfold Represents; decide⟩
    init_inType := by decide
    exit_inType := by decide }

/-- The variable goes from 254 to 0, and the loop never ends. -/
theorem canComputeTripCountWithCvtOpnd_evenLoop :
    letI := Target.lp64
    canComputeTripCountWithCvtOpnd evenLoop.opndType evenLoop.cvt evenLoop.op evenLoop.initConst
        evenLoop.strideConst evenLoop.exitConst = some 128 ∧
      ¬ LeavesAfter (fun k => evenLoop.test (evenLoop.value k) = true) 128 := by
  let _ := Target.lp64
  constructor
  · have hcount : computeTripCountWithSimpleConstCR evenLoop.op evenLoop.opndType.isSignedInteger
        evenLoop.exitConst evenLoop.initConst evenLoop.strideConst = some 128 := by
      rw [computeTripCountWithSimpleConstCR, if_neg (by decide), tripCount]
      rfl
    unfold canComputeTripCountWithCvtOpnd
    rw [hcount]
    rfl
  · rintro ⟨-, hfail⟩
    have hvalue : evenLoop.value 128 = 0 := by
      rw [NarrowLoop.value, IntFormat.stepped_eq evenLoop.read_init_mem]
      decide
    apply hfail
    simp only [hvalue]
    decide

end TripCount
end Maple
