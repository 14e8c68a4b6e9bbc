import Maple.ME.ValueRange.Basic
import Maple.ME.ValueRange.AddOrSub
import Mathlib.Algebra.Order.Ring.Abs

/-!
# Ranges of loop variables

`MergeValueRangeOfPhiOperands` joins the initial value of a phi in a loop header with the range of
the value that comes along the back edge. The phi has two operands, so that there is one such value.
-/

namespace Maple
namespace ValueRangePropagation

variable {Var : Type} [Target]

/-- `MakeMonotonicIncreaseOrDecreaseValueRangeForPhi`. -/
def makeMonotonicValueRangeForPhi (stride : Int64) (initBound : Bound Var) :
    Option (ValueRange Var) :=
  if 0 < stride then some { range := .onlyHasLowerBound initBound, stride := stride }
  else if stride < 0 then some { range := .onlyHasUpperBound initBound, stride := stride }
  else none

/-- The range type is `kOnlyHasLowerBound`. -/
def isOnlyHasLowerBound (vr : ValueRange Var) : Bool :=
  match vr.range with
  | .onlyHasLowerBound _ => true
  | _ => false

/-- The test of `MergeVrOrInitAndBackedge` for a `kNotEqual` range with constants: the distance is
more than the stride. -/
def distanceExceedsStride (pType : PrimType) (lowerBound upperBound : Bound Var) (stride : Int64) :
    Bool :=
  lowerBound.isLessThanOrEqualTo upperBound pType &&
    match addOrSubWithConstant pType .sub upperBound.constant lowerBound.constant with
    | none => false
    | some res => (⟨none, res, pType⟩ : Bound Var).isGreaterThan ⟨none, stride, pType⟩ pType

/-- `MergeVrOrInitAndBackedge`: the other bound of the phi. -/
def mergeVrOrInitAndBackedge (pType : PrimType) (vrOfInitExpr valueRange : ValueRange Var) :
    Option (Bound Var) :=
  let onlyLower := isOnlyHasLowerBound vrOfInitExpr
  let upperBound := if onlyLower then valueRange.getBound else vrOfInitExpr.getBound
  let lowerBound := if onlyLower then vrOfInitExpr.getBound else valueRange.getBound
  if valueRange.isNotEqual then
    if (vrOfInitExpr.getBound.var.isNone && valueRange.isConstantRange) &&
        !distanceExceedsStride pType lowerBound upperBound vrOfInitExpr.stride then none
    else
      (addOrSubWithConstant pType (if onlyLower then .sub else .add)
        valueRange.getBound.constant 1).map fun res => ⟨valueRange.getBound.var, res, pType⟩
  else
    let resBound := if onlyLower then valueRange.getUpper else valueRange.getLower
    some { resBound with primType := pType }

/-- The value of the back edge may be on the wrong side of the initial value, after an overflow. -/
def mayOverflow (vrOfInitExpr valueRange : ValueRange Var) : Bool :=
  match valueRange.range with
  | .lowerAndUpper lower upper =>
    (valueRange.isConstantRange && vrOfInitExpr.getBound.var.isNone) &&
      match vrOfInitExpr.range with
      | .onlyHasLowerBound _ =>
        lower.isLessThanOrEqualTo vrOfInitExpr.getLower vrOfInitExpr.getPrimType
      | .onlyHasUpperBound _ =>
        upper.isGreaterThanOrEqualTo vrOfInitExpr.getUpper vrOfInitExpr.getPrimType
      | _ => false
  | _ => false

/-- `abs` of an `int64`. -/
def absInt64 (c : Int64) : Int64 := if c < 0 then -c else c

/-- The rounding of the far bound to the stride; the flag says whether a bound was set. -/
def roundToStride (pType : PrimType) (onlyLower : Bool) (lower upper : Bound Var)
    (stride : Int64) : Range Var × Bool :=
  let constLower := lower.constant
  let constUpper := upper.constant
  if (!ConstantFold.integerOpIsOverflow .sub pType constUpper constLower &&
      (⟨none, constUpper - constLower, pType⟩ : Bound Var).isGreaterThan ⟨none, stride, pType⟩
        pType) && upper.isGreaterThan lower pType then
    let rem := (constUpper - constLower) % stride
    if onlyLower then
      let constantOfNewUpper := constUpper - rem
      if !ConstantFold.integerOpIsOverflow .sub pType constUpper rem &&
          (constLower ≤ constantOfNewUpper && constantOfNewUpper ≤ constUpper) then
        (.lowerAndUpper lower ⟨none, constantOfNewUpper, pType⟩, true)
      else (.lowerAndUpper lower upper, false)
    else
      let constantOfNewLower := constLower + rem
      -- the upper bound is tested here, too
      if !ConstantFold.integerOpIsOverflow .add pType constUpper rem &&
          (constLower ≤ constantOfNewLower && constantOfNewLower ≤ constUpper) then
        (.lowerAndUpper ⟨none, constantOfNewLower, pType⟩ upper, true)
      else (.lowerAndUpper lower upper, false)
  else (.lowerAndUpper lower upper, false)

/-- `MergeValueRangeOfPhiOperands` of a loop for one phi: the range that is recorded.
`canonicalOneExit` is `IsCanonicalAndOnlyHasOneExitBBLoop`. -/
def mergeValueRangeOfPhiOperands (canonicalOneExit : Bool) (pType : PrimType)
    (vrOfInitExpr : ValueRange Var) (backedge : Option (ValueRange Var)) :
    Option (ValueRange Var) := do
  if !vrOfInitExpr.isOneSided || pType.isVector then none
  else
    let valueRange ← backedge
    -- ranges of different kinds are not equal
    if valueRange.isOneSided then none
    else
      let resBound ← mergeVrOrInitAndBackedge pType vrOfInitExpr valueRange
      if mayOverflow vrOfInitExpr valueRange then none
      else
        let isAccurateBound :=
          valueRange.isAccurate || valueRange.isEqualKind || valueRange.isNotEqual
        let stride := absInt64 vrOfInitExpr.stride
        let onlyLower := isOnlyHasLowerBound vrOfInitExpr
        let lower := if onlyLower then vrOfInitExpr.getBound else resBound
        let upper := if onlyLower then resBound else vrOfInitExpr.getBound
        let valueRangeOfPhi : ValueRange Var := { range := .lowerAndUpper lower upper }
        if !valueRangeOfPhi.isConstantRange || stride == 1 then
          some { valueRangeOfPhi with isAccurate := canonicalOneExit && isAccurateBound }
        else
          let rounded := roundToStride pType onlyLower lower upper stride
          some { valueRangeOfPhi with
            range := rounded.1
            isAccurate := canonicalOneExit && rounded.2 && isAccurateBound }

/-! ### Meaning -/

/-- The values of the phi in the runs of the loop: each value of the back edge is the last one plus
the stride, without overflow, and lies in the range. -/
inductive LoopValue (t : PrimType) (init stride : Int) (R : Int → Prop) : Int → Prop where
  | init : LoopValue t init stride R init
  | step {x : Int} (h : LoopValue t init stride R x) (hmem : t.format.Mem (x + stride))
      (hR : R (x + stride)) : LoopValue t init stride R (x + stride)

section LoopValue

variable {t : PrimType} {init stride : Int} {R : Int → Prop}

lemma loopValue_iff {x : Int} :
    LoopValue t init stride R x ↔ ∃ k : Nat, x = init + k * stride ∧
      ∀ j : Nat, 0 < j → j ≤ k →
        t.format.Mem (init + j * stride) ∧ R (init + j * stride) := by
  constructor
  · intro h
    induction h with
    | init =>
      refine ⟨0, by simp, ?_⟩
      intro j hpos hle
      omega
    | @step x _ hmem hR ih =>
      obtain ⟨k, rfl, hall⟩ := ih
      have hnext : init + k * stride + stride = init + (k + 1 : Nat) * stride := by
        push_cast
        ring
      rw [hnext] at hmem hR ⊢
      refine ⟨k + 1, rfl, ?_⟩
      intro j hpos hle
      rcases Nat.lt_or_eq_of_le hle with hlt | rfl
      · exact hall j hpos (Nat.le_of_lt_succ hlt)
      · exact ⟨hmem, hR⟩
  · rintro ⟨k, rfl, hall⟩
    induction k with
    | zero => simpa using LoopValue.init
    | succ k ih =>
      have hlast := ih fun j hpos hle => hall j hpos (Nat.le_succ_of_le hle)
      have hnext : init + (k + 1 : Nat) * stride = init + k * stride + stride := by
        push_cast
        ring
      obtain ⟨hmem, hR⟩ := hall (k + 1) (Nat.succ_pos k) (le_refl _)
      rw [hnext] at hmem hR ⊢
      exact hlast.step hmem hR

lemma LoopValue.dvd {x : Int} (h : LoopValue t init stride R x) : stride ∣ x - init := by
  obtain ⟨k, rfl, -⟩ := loopValue_iff.mp h
  exact ⟨k, by ring⟩

lemma LoopValue.mem {x : Int} (hinit : t.format.Mem init) (h : LoopValue t init stride R x) :
    t.format.Mem x := by
  cases h with
  | init => exact hinit
  | step h hmem hR => exact hmem

lemma LoopValue.eq_or_range {x : Int} (h : LoopValue t init stride R x) : x = init ∨ R x := by
  cases h with
  | init => exact Or.inl rfl
  | step h hmem hR => exact Or.inr hR

lemma LoopValue.ge {x : Int} (hpos : 0 < stride) (h : LoopValue t init stride R x) : init ≤ x := by
  obtain ⟨k, rfl, -⟩ := loopValue_iff.mp h
  have := mul_nonneg k.cast_nonneg hpos.le
  omega

lemma LoopValue.le {x : Int} (hneg : stride < 0) (h : LoopValue t init stride R x) : x ≤ init := by
  obtain ⟨k, rfl, -⟩ := loopValue_iff.mp h
  have := mul_nonpos_of_nonneg_of_nonpos k.cast_nonneg hneg.le
  omega

end LoopValue

/-! ### The excluded value -/

omit [Target] in
lemma tdiv_bounds {d s : Int} (hs : s ≠ 0) (hside : if 0 < s then 0 ≤ d else d ≤ 0) :
    0 ≤ d.tdiv s ∧ d.tdiv s * |s| ≤ |d| ∧ |d| < (d.tdiv s + 1) * |s| := by
  have key : ∀ {d s : Int}, 0 < s → 0 ≤ d →
      0 ≤ d.tdiv s ∧ d.tdiv s * |s| ≤ |d| ∧ |d| < (d.tdiv s + 1) * |s| := by
    intro d s hs hd
    rw [abs_of_pos hs, abs_of_nonneg hd, Int.tdiv_eq_ediv_of_nonneg hd]
    exact ⟨Int.ediv_nonneg hd hs.le, Int.ediv_mul_le d hs.ne', Int.lt_ediv_add_one_mul_self d hs⟩
  split_ifs at hside with hpos
  · exact key hpos hside
  · have hneg := key (d := -d) (s := -s) (by omega) (by omega)
    rwa [Int.neg_tdiv_neg, abs_neg, abs_neg] at hneg

lemma mem_of_le_rounds {t : PrimType} {init s : Int} {j k : Nat} (hinit : t.format.Mem init)
    (hk : t.format.Mem (init + k * s)) (hle : j ≤ k) : t.format.Mem (init + j * s) := by
  unfold IntFormat.Mem at hinit hk ⊢
  have hjk : (j : Int) ≤ k := Int.ofNat_le.mpr hle
  rcases le_total 0 s with hs | hs
  · have h1 := mul_le_mul_of_nonneg_right hjk hs
    have h2 := mul_nonneg (Int.natCast_nonneg j) hs
    omega
  · have h1 := mul_le_mul_of_nonpos_right hjk hs
    have h2 := mul_nonpos_of_nonneg_of_nonpos (Int.natCast_nonneg j) hs
    omega

/-- A run that only leaves out the value `c` stays before `c` exactly when it meets `c`, or when the
first value behind `c` is no value of the type. -/
lemma loopValue_before_iff {t : PrimType} {init s c : Int} {R : Int → Prop}
    (hR : ∀ x, t.format.Mem x → (R x ↔ x ≠ c)) (hinit : t.format.Mem init) (hs : s ≠ 0)
    (hside : if 0 < s then 0 ≤ c - init else c - init ≤ 0) :
    (∀ x, LoopValue t init s R x → |x - init| < |c - init|) ↔
      c ≠ init ∧
        (s ∣ c - init ∨ ¬t.format.Mem (init + ((c - init).tdiv s + 1) * s)) := by
  obtain ⟨hq, hle, hlt⟩ := tdiv_bounds hs hside
  obtain ⟨q, hq'⟩ := Int.eq_ofNat_of_zero_le hq
  rw [hq'] at hle hlt ⊢
  have hround : ∀ k : Nat, |init + k * s - init| = k * |s| := by
    intro k
    rw [add_sub_cancel_left, abs_mul, Nat.abs_cast]
  have hspos : 0 < |s| := abs_pos.mpr hs
  constructor
  · intro hall
    refine ⟨?_, ?_⟩
    · rintro rfl
      exact lt_irrefl _ (hall c .init)
    · by_contra hover
      rw [not_or, not_not] at hover
      obtain ⟨hdvd, hmem⟩ := hover
      rw [← Nat.cast_succ] at hmem
      have hrun : LoopValue t init s R (init + (q + 1 : Nat) * s) := by
        rw [loopValue_iff]
        refine ⟨q + 1, rfl, ?_⟩
        intro j _ hj
        have hmemj := mem_of_le_rounds hinit hmem hj
        refine ⟨hmemj, (hR _ hmemj).mpr ?_⟩
        intro heq
        exact hdvd ⟨j, by rw [← heq]; ring⟩
      have hbefore := hall _ hrun
      rw [hround, Nat.cast_succ] at hbefore
      exact lt_asymm hbefore hlt
  · rintro ⟨hne, hover⟩ x hx
    obtain ⟨k, rfl, hall⟩ := loopValue_iff.mp hx
    rw [hround]
    by_contra hge
    rw [not_lt] at hge
    by_cases hdvd : s ∣ c - init
    · -- the run meets `c` after `q` rounds
      obtain ⟨m, hm⟩ := hdvd
      have hmq : m = q := by rw [← hq', hm, Int.mul_tdiv_cancel_left m hs]
      have hkq : q ≤ k := by exact_mod_cast le_of_mul_le_mul_right (le_trans hle hge) hspos
      have hqpos : 0 < q := by
        rcases Nat.eq_zero_or_pos q with rfl | hpos
        · rw [hmq, Nat.cast_zero, mul_zero] at hm
          exact absurd (sub_eq_zero.mp hm) hne
        · exact hpos
      obtain ⟨hmem, hrange⟩ := hall q hqpos hkq
      apply (hR _ hmem).mp hrange
      rw [hmq, mul_comm] at hm
      rw [← hm, add_sub_cancel]
    · -- the first value behind `c` is in the run
      have hlt' : (q : Int) * |s| < |c - init| := by
        apply lt_of_le_of_ne hle
        intro heq
        exact hdvd (abs_dvd_abs s _ |>.mp ⟨q, by rw [← heq, mul_comm]⟩)
      have hkq : q < k := by
        exact_mod_cast lt_of_mul_lt_mul_right (lt_of_lt_of_le hlt' hge) hspos.le
      have hmem := (hall (q + 1) (Nat.succ_pos q) hkq).1
      rw [Nat.cast_succ] at hmem
      exact hover.resolve_left hdvd hmem

/-! ### The stride and the bounds -/

lemma read_of_sub_one {t : PrimType} (hn : t.isNeeded) {c res : Int64} (hc : t.InType c)
    (h : addOrSubWithConstant t .sub c 1 = some res) :
    t.InType res ∧ t.read res = t.read c - 1 := by
  have hin := (read_of_sub hn hc (inType_one hn) h).1
  have hto := toInt_of_sub_nonneg hn (inType_one hn) (by decide) h
  rw [Int64.toInt_one] at hto
  refine ⟨hin, ?_⟩
  by_cases hu : t.isUint64
  · rw [addOrSubWithConstant_sub_of_isUint64 hu] at h
    split_ifs at h with hlt
    rw [Int64.lt_iff_toInt_lt, Int64.toInt_one, not_lt] at hlt
    have := c.toInt_lt
    rw [PrimType.read_of_isUint64 hu, PrimType.read_of_isUint64 hu, hto]
    omega
  · rw [PrimType.read_of_inType hu hin, PrimType.read_of_inType hu hc, hto]

lemma read_of_add_one {t : PrimType} (hn : t.isNeeded) {c res : Int64} (hc : t.InType c)
    (h : addOrSubWithConstant t .add c 1 = some res) :
    t.InType res ∧ t.read res = t.read c + 1 := by
  obtain ⟨hin, hread⟩ := read_of_add hn hc (inType_one hn) h
  rw [hread]
  refine ⟨hin, ?_⟩
  congr 1
  by_cases hu : t.isUint64
  · rw [PrimType.read_of_isUint64 hu]
    rfl
  · rw [PrimType.read_of_inType hu (inType_one hn)]
    rfl

/-- The end of the range that the back edge gives, in the direction of the stride. -/
def farEnd (env : Var → Int) (stride : Int) (valueRange : ValueRange Var) : Int :=
  match valueRange.range with
  | .notEqual b => if 0 < stride then b.value env - 1 else b.value env + 1
  | .lowerAndUpper lower upper => if 0 < stride then upper.value env else lower.value env
  | .equal b | .onlyHasLowerBound b | .onlyHasUpperBound b => b.value env

/-- The range of the initial value for a stride other than zero. -/
structure IsMonotonic (vrOfInitExpr : ValueRange Var) (stride : Int64) (initBound : Bound Var) :
    Prop where
  getBound_eq : vrOfInitExpr.getBound = initBound
  stride_eq : vrOfInitExpr.stride = stride
  isOneSided : vrOfInitExpr.isOneSided = true
  onlyLower_iff : isOnlyHasLowerBound vrOfInitExpr = true ↔ 0 < stride.toInt
  ne_zero : stride.toInt ≠ 0

omit [Target] in
lemma isMonotonic_of_some {stride : Int64} {initBound : Bound Var} {vr : ValueRange Var}
    (h : makeMonotonicValueRangeForPhi stride initBound = some vr) :
    IsMonotonic vr stride initBound := by
  simp only [makeMonotonicValueRangeForPhi, pos_iff_toInt, neg_iff_toInt] at h
  split_ifs at h with hpos hneg
  · cases h
    exact ⟨rfl, rfl, rfl, by simp [isOnlyHasLowerBound, hpos], hpos.ne'⟩
  · cases h
    exact ⟨rfl, rfl, rfl, by simp [isOnlyHasLowerBound, hpos], hneg.ne⟩

omit [Target] in
lemma le_of_distanceExceedsStride [Target] {t : PrimType} {lowerBound upperBound : Bound Var}
    {stride : Int64} (h : distanceExceedsStride t lowerBound upperBound stride = true) :
    t.read lowerBound.constant ≤ t.read upperBound.constant := by
  rw [distanceExceedsStride, Bool.and_eq_true, Bound.isLessThanOrEqualTo, Bound.compare_eq,
    Bool.and_eq_true] at h
  exact of_decide_eq_true h.1.2

lemma withType_eq {t : PrimType} {b : Bound Var} (hb : b.IsConst t) :
    { b with primType := t } = b := by
  rw [← hb.ofType.primType_eq]

lemma mergeVrOrInitAndBackedge_notEqual {t : PrimType} {vrOfInitExpr valueRange : ValueRange Var}
    {b resBound : Bound Var} (hrange : valueRange.range = .notEqual b)
    (hinit : vrOfInitExpr.getBound.var = none) (hb : b.var = none)
    (h : mergeVrOrInitAndBackedge t vrOfInitExpr valueRange = some resBound) :
    distanceExceedsStride t
        (if isOnlyHasLowerBound vrOfInitExpr then vrOfInitExpr.getBound else b)
        (if isOnlyHasLowerBound vrOfInitExpr then b else vrOfInitExpr.getBound)
        vrOfInitExpr.stride = true ∧
      ∃ res, addOrSubWithConstant t (if isOnlyHasLowerBound vrOfInitExpr then .sub else .add)
        b.constant 1 = some res ∧ resBound = ⟨none, res, t⟩ := by
  have hgetBound : valueRange.getBound = b := by simp only [ValueRange.getBound, hrange]
  have hconst : valueRange.isConstantRange = true := by
    simp only [ValueRange.isConstantRange, hrange, hb, Option.isNone_none]
  have hnotEqual : valueRange.isNotEqual = true := by simp only [ValueRange.isNotEqual, hrange]
  simp only [mergeVrOrInitAndBackedge, hgetBound, hconst, hnotEqual, hinit, hb, Option.isNone_none,
    Bool.and_self, Bool.true_and, ↓reduceIte, Bool.not_eq_true'] at h
  obtain ⟨hfar, hmap⟩ := Option.ite_none_left_eq_some.mp h
  rw [Bool.not_eq_false] at hfar
  obtain ⟨res, hres, rfl⟩ := Option.map_eq_some_iff.mp hmap
  exact ⟨hfar, res, hres, rfl⟩

lemma mergeVrOrInitAndBackedge_spec {t : PrimType} (hn : t.isNeeded) {initBound : Bound Var}
    (hinit : initBound.IsConst t) {stride : Int64} {vrOfInitExpr : ValueRange Var}
    (hmono : IsMonotonic vrOfInitExpr stride initBound) {valueRange : ValueRange Var}
    (hconst : valueRange.isConstantRange) (htype : valueRange.OfType t) {resBound : Bound Var}
    (h : mergeVrOrInitAndBackedge t vrOfInitExpr valueRange = some resBound) (env : Var → Int) :
    resBound.IsConst t ∧ resBound.value env = farEnd env stride.toInt valueRange ∧
      ∀ b, valueRange.range = .notEqual b →
        if 0 < stride.toInt then 0 ≤ b.value env - initBound.value env
        else b.value env - initBound.value env ≤ 0 := by
  obtain ⟨range, vrStride, accurate⟩ := valueRange
  cases range with
  | onlyHasLowerBound b => cases hconst
  | onlyHasUpperBound b => cases hconst
  | equal b =>
    have hb : b.IsConst t := ⟨Option.isNone_iff_eq_none.mp hconst, htype⟩
    have hres : { b with primType := t } = resBound := by
      simpa [mergeVrOrInitAndBackedge, ValueRange.isNotEqual, ValueRange.getUpper,
        ValueRange.getLower] using h
    rw [withType_eq hb] at hres
    subst hres
    exact ⟨hb, rfl, by simp⟩
  | lowerAndUpper lower upper =>
    obtain ⟨hl, hu⟩ : lower.var = none ∧ upper.var = none := by
      simpa [ValueRange.isConstantRange] using hconst
    have hlower : lower.IsConst t := ⟨hl, htype.1⟩
    have hupper : upper.IsConst t := ⟨hu, htype.2⟩
    by_cases hpos : 0 < stride.toInt
    · have hres : { upper with primType := t } = resBound := by
        simpa [mergeVrOrInitAndBackedge, ValueRange.isNotEqual, ValueRange.getUpper,
          hmono.onlyLower_iff, hpos] using h
      rw [withType_eq hupper] at hres
      subst hres
      exact ⟨hupper, (if_pos hpos).symm, by simp⟩
    · have hres : { lower with primType := t } = resBound := by
        simpa [mergeVrOrInitAndBackedge, ValueRange.isNotEqual, ValueRange.getLower,
          hmono.onlyLower_iff, hpos] using h
      rw [withType_eq hlower] at hres
      subst hres
      exact ⟨hlower, (if_neg hpos).symm, by simp⟩
  | notEqual b =>
    have hb : b.IsConst t := ⟨Option.isNone_iff_eq_none.mp hconst, htype⟩
    have hvalue := hb.value_eq env
    have hvar : vrOfInitExpr.getBound.var = none := hmono.getBound_eq ▸ hinit.var_eq
    obtain ⟨hfar, res, hres, rfl⟩ := mergeVrOrInitAndBackedge_notEqual rfl hvar hb.var_eq h
    have hside := le_of_distanceExceedsStride hfar
    rw [hmono.getBound_eq] at hside
    by_cases hpos : 0 < stride.toInt
    · simp only [hmono.onlyLower_iff.mpr hpos, ↓reduceIte] at hres hside
      obtain ⟨hin, hread⟩ := read_of_sub_one hn hb.inType hres
      refine ⟨⟨rfl, rfl, fun _ => hin⟩, ?_, ?_⟩
      · calc t.read res = b.value env - 1 := by rw [hread, hvalue]
          _ = farEnd env stride.toInt _ := (if_pos hpos).symm
      · rintro b' heq
        cases heq
        rw [if_pos hpos, hvalue, hinit.value_eq env]
        exact sub_nonneg.mpr hside
    · have hupper : isOnlyHasLowerBound vrOfInitExpr = false := by
        rw [← Bool.not_eq_true, hmono.onlyLower_iff]
        exact hpos
      simp only [hupper, Bool.false_eq_true, ↓reduceIte] at hres hside
      obtain ⟨hin, hread⟩ := read_of_add_one hn hb.inType hres
      refine ⟨⟨rfl, rfl, fun _ => hin⟩, ?_, ?_⟩
      · calc t.read res = b.value env + 1 := by rw [hread, hvalue]
          _ = farEnd env stride.toInt _ := (if_neg hpos).symm
      · rintro b' heq
        cases heq
        rw [if_neg hpos, hvalue, hinit.value_eq env]
        exact sub_nonpos.mpr hside

/-! ### The rounding to the stride -/

omit [Target] in
lemma tmod_absInt64 (d : Int) (stride : Int64) :
    d.tmod (absInt64 stride).toInt = d.tmod stride.toInt := by
  unfold absInt64
  split_ifs with hneg
  · rw [neg_iff_toInt] at hneg
    have hlo := stride.le_toInt
    have hto : (-stride).toInt = -stride.toInt ∨ (-stride).toInt = stride.toInt := by
      rw [Int64.toInt_neg, Int.bmod_def]
      split_ifs <;> omega
    rcases hto with hto | hto
    · rw [hto, Int.tmod_neg]
    · rw [hto]
  · rfl

omit [Target] in
lemma le_sub_tmod_iff {d m s : Int} (hs : s ≠ 0) (hd : 0 ≤ d) (hdvd : s ∣ m) :
    m ≤ d - d.tmod s ↔ m ≤ d := by
  have hnonneg := Int.tmod_nonneg s hd
  constructor
  · intro h
    omega
  · intro h
    have hlt : d.tmod s < |s| := by
      rw [Int.tmod_eq_emod_of_nonneg hd]
      exact Int.emod_lt_abs d hs
    by_contra hgt
    have hmult : s ∣ m - (d - d.tmod s) := dvd_sub hdvd Int.dvd_self_sub_tmod
    have hle := Int.le_of_dvd (by omega) ((abs_dvd _ _).mpr hmult)
    omega

lemma toInt_sub_of_lt {t : PrimType} (hn : t.isNeeded) {lower upper : Int64} (hl : t.InType lower)
    (hu : t.InType upper) (hlt : t.read lower < t.read upper)
    (hover : ConstantFold.integerOpIsOverflow .sub t upper lower = false) :
    (upper - lower).toInt = t.read upper - t.read lower ∧
      upper.toInt - lower.toInt = t.read upper - t.read lower := by
  have hul := upper.le_toInt
  have huh := upper.toInt_lt
  have hll := lower.le_toInt
  have hlh := lower.toInt_lt
  have hdist : upper.toInt - lower.toInt = t.read upper - t.read lower ∧
      0 ≤ upper.toInt - lower.toInt ∧ upper.toInt - lower.toInt < 2 ^ 63 := by
    by_cases h64 : t.isUint64
    · have hle := mt (ConstantFold.integerOpIsOverflow_sub_of_isUnsignedInteger
        (t.isUnsignedInteger_of_isUint64 h64) upper lower).mpr (by simp [hover])
      rw [Int64.lt_iff_toInt_lt] at hle
      rw [PrimType.read_of_isUint64 h64, PrimType.read_of_isUint64 h64] at hlt ⊢
      omega
    · rw [PrimType.read_of_inType h64 hl, PrimType.read_of_inType h64 hu] at hlt ⊢
      refine ⟨rfl, by omega, ?_⟩
      have hrange := PrimType.format_of_not_isUint64 hn h64
      rcases t.signed_or_unsigned hn with ⟨hs, -⟩ | ⟨hun, -⟩
      · have hmem : t.format.Mem (upper.toInt - lower.toInt) :=
          (ConstantFold.integerOpIsOverflow_of_isSignedInteger hn hs .sub hu hl).mp hover
        unfold IntFormat.Mem at hmem
        omega
      · have hmin := t.minValue_of_isUnsignedInteger hun
        have hmem := (PrimType.inType_iff_mem hn h64 lower).mp hl
        unfold IntFormat.Mem at hmem
        omega
  exact ⟨(Int64.toInt_sub_eq (by omega) (by omega)).trans hdist.1, hdist.1⟩

lemma rem_spec {t : PrimType} (stride : Int64) (hn : t.isNeeded) {lower upper : Int64}
    (hl : t.InType lower) (hu : t.InType upper) (hlt : t.read lower < t.read upper)
    (hover : ConstantFold.integerOpIsOverflow .sub t upper lower = false) :
    let rem := (upper - lower) % absInt64 stride
    let r := (t.read upper - t.read lower).tmod stride.toInt
    (t.InType (upper - rem) ∧ t.read (upper - rem) = t.read upper - r) ∧
      t.InType (lower + rem) ∧ t.read (lower + rem) = t.read lower + r := by
  intro rem r
  obtain ⟨hdist, hdist'⟩ := toInt_sub_of_lt hn hl hu hlt hover
  have hrem : rem.toInt = r := by
    rw [Int64.toInt_mod, tmod_absInt64, hdist]
  have hnonneg : 0 ≤ r := Int.tmod_nonneg _ (by omega)
  have hle : r ≤ t.read upper - t.read lower := by
    have hnat : r.natAbs ≤ (t.read upper - t.read lower).natAbs := by
      rw [Int.natAbs_tmod]
      exact Nat.mod_le _ _
    omega
  have hbounds : -2 ^ 63 ≤ lower.toInt ∧ upper.toInt < 2 ^ 63 :=
    ⟨lower.le_toInt, upper.toInt_lt⟩
  have hnewUpper : (upper - rem).toInt = upper.toInt - r := by
    rw [Int64.toInt_sub_eq, hrem] <;> omega
  have hnewLower : (lower + rem).toInt = lower.toInt + r := by
    rw [Int64.toInt_add_eq, hrem] <;> omega
  have hinUpper : t.InType (upper - rem) := by
    apply inType_of_between hn hl hu
    · rw [Int64.le_iff_toInt_le]
      omega
    · rw [Int64.le_iff_toInt_le]
      omega
  have hinLower : t.InType (lower + rem) := by
    apply inType_of_between hn hl hu
    · rw [Int64.le_iff_toInt_le]
      omega
    · rw [Int64.le_iff_toInt_le]
      omega
  refine ⟨⟨hinUpper, ?_⟩, hinLower, ?_⟩
  · by_cases h64 : t.isUint64
    · rw [PrimType.read_of_isUint64 h64] at hlt hle ⊢
      rw [PrimType.read_of_isUint64 h64] at hlt hle ⊢
      rw [hnewUpper]
      omega
    · rw [PrimType.read_of_inType h64 hinUpper, PrimType.read_of_inType h64 hu, hnewUpper]
  · by_cases h64 : t.isUint64
    · rw [PrimType.read_of_isUint64 h64] at hlt hle ⊢
      rw [PrimType.read_of_isUint64 h64] at hlt hle ⊢
      rw [hnewLower]
      omega
    · rw [PrimType.read_of_inType h64 hinLower, PrimType.read_of_inType h64 hl, hnewLower]

lemma roundToStride_condition {t : PrimType} {lower upper : Bound Var} {stride : Int64}
    (h : ((!ConstantFold.integerOpIsOverflow .sub t upper.constant lower.constant &&
      (⟨none, upper.constant - lower.constant, t⟩ : Bound Var).isGreaterThan ⟨none, stride, t⟩ t) &&
        upper.isGreaterThan lower t) = true) :
    ConstantFold.integerOpIsOverflow .sub t upper.constant lower.constant = false ∧
      t.read lower.constant < t.read upper.constant := by
  rw [Bool.and_eq_true, Bool.and_eq_true, Bool.not_eq_true'] at h
  obtain ⟨⟨hover, -⟩, hgt⟩ := h
  rw [Bound.isGreaterThan, Bound.compare_eq, Bool.and_eq_true] at hgt
  exact ⟨hover, of_decide_eq_true hgt.2⟩

lemma roundToStride_between_iff {t : PrimType} (hn : t.isNeeded) {lower upper : Bound Var}
    (hl : lower.IsConst t) (hu : upper.IsConst t) {stride : Int64} (hs : stride.toInt ≠ 0)
    (onlyLower : Bool) (env : Var → Int) :
    ∃ lower' upper' : Bound Var,
      (roundToStride t onlyLower lower upper (absInt64 stride)).1 = .lowerAndUpper lower' upper' ∧
      lower'.primType = t ∧
      ∀ x, stride.toInt ∣ x - (if onlyLower then lower.value env else upper.value env) →
        (lower'.value env ≤ x ∧ x ≤ upper'.value env ↔
          lower.value env ≤ x ∧ x ≤ upper.value env) := by
  have hlt := hl.ofType.primType_eq
  rw [hl.value_eq env, hu.value_eq env]
  unfold roundToStride
  dsimp only
  by_cases hround : ((!ConstantFold.integerOpIsOverflow .sub t upper.constant lower.constant &&
      (⟨none, upper.constant - lower.constant, t⟩ : Bound Var).isGreaterThan
        ⟨none, absInt64 stride, t⟩ t) && upper.isGreaterThan lower t) = true
  · rw [if_pos hround]
    obtain ⟨hover, hread⟩ := roundToStride_condition hround
    obtain ⟨⟨-, hnewUpper⟩, -, hnewLower⟩ :=
      rem_spec stride hn hl.inType hu.inType hread hover
    have hdist : 0 ≤ t.read upper.constant - t.read lower.constant := by omega
    cases onlyLower with
    | true =>
      simp only [↓reduceIte]
      split_ifs with hnew
      · refine ⟨lower, _, rfl, hlt, ?_⟩
        intro x hx
        have hmult := le_sub_tmod_iff hs hdist hx
        rw [hl.value_eq env, Bound.value_of_var_eq_none rfl, hnewUpper]
        omega
      · refine ⟨lower, upper, rfl, hlt, ?_⟩
        intro x _
        rw [hl.value_eq env, hu.value_eq env]
    | false =>
      simp only [Bool.false_eq_true, ↓reduceIte]
      split_ifs with hnew
      · refine ⟨_, upper, rfl, rfl, ?_⟩
        intro x hx
        have hmult := le_sub_tmod_iff hs hdist (dvd_sub_comm.mp hx)
        rw [hu.value_eq env, Bound.value_of_var_eq_none rfl, hnewLower]
        omega
      · refine ⟨lower, upper, rfl, hlt, ?_⟩
        intro x _
        rw [hl.value_eq env, hu.value_eq env]
  · rw [if_neg hround]
    refine ⟨lower, upper, rfl, hlt, ?_⟩
    intro x _
    rw [hl.value_eq env, hu.value_eq env]

/-! ### The recorded range -/

lemma mergeValueRangeOfPhiOperands_range {canonicalOneExit : Bool} {t : PrimType}
    {vrOfInitExpr valueRange vr : ValueRange Var}
    (h : mergeValueRangeOfPhiOperands canonicalOneExit t vrOfInitExpr (some valueRange) = some vr) :
    ∃ resBound, mergeVrOrInitAndBackedge t vrOfInitExpr valueRange = some resBound ∧
      let onlyLower := isOnlyHasLowerBound vrOfInitExpr
      let lower := if onlyLower then vrOfInitExpr.getBound else resBound
      let upper := if onlyLower then resBound else vrOfInitExpr.getBound
      vr.range = .lowerAndUpper lower upper ∨
        vr.range = (roundToStride t onlyLower lower upper (absInt64 vrOfInitExpr.stride)).1 := by
  simp only [mergeValueRangeOfPhiOperands, Option.bind_eq_bind, Option.bind_some] at h
  obtain ⟨-, h⟩ := Option.ite_none_left_eq_some.mp h
  obtain ⟨-, h⟩ := Option.ite_none_left_eq_some.mp h
  obtain ⟨resBound, hres, h⟩ := Option.bind_eq_some_iff.mp h
  obtain ⟨-, h⟩ := Option.ite_none_left_eq_some.mp h
  refine ⟨resBound, hres, ?_⟩
  rcases ite_eq_iff.mp h with ⟨-, h⟩ | ⟨-, h⟩
  · cases h
    exact Or.inl rfl
  · cases h
    exact Or.inr rfl

/-- The recorded range has the values from the initial one to the end that the back edge gives, as
far as they are steps of the stride. -/
lemma mergeValueRangeOfPhiOperands_contains {t : PrimType} (hn : t.isNeeded)
    {initBound : Bound Var} (hinit : initBound.IsConst t) {stride : Int64}
    {vrOfInitExpr : ValueRange Var} (hmono : IsMonotonic vrOfInitExpr stride initBound)
    {valueRange : ValueRange Var} (hconst : valueRange.isConstantRange)
    (htype : valueRange.OfType t) {canonicalOneExit : Bool} {vr : ValueRange Var}
    (h : mergeValueRangeOfPhiOperands canonicalOneExit t vrOfInitExpr (some valueRange) = some vr)
    (env : Var → Int) {x : Int} (hmem : t.format.Mem x)
    (hdvd : stride.toInt ∣ x - initBound.value env) :
    vr.Contains env x ↔
      if 0 < stride.toInt then
        initBound.value env ≤ x ∧ x ≤ farEnd env stride.toInt valueRange
      else farEnd env stride.toInt valueRange ≤ x ∧ x ≤ initBound.value env := by
  obtain ⟨resBound, hres, hrange⟩ := mergeValueRangeOfPhiOperands_range h
  obtain ⟨hrconst, hrvalue, -⟩ :=
    mergeVrOrInitAndBackedge_spec hn hinit hmono hconst htype hres env
  rw [hmono.getBound_eq, hmono.stride_eq] at hrange
  rw [← hrvalue]
  have hcontains : ∀ (onlyLower : Bool) {lower upper : Bound Var}, lower.IsConst t →
      upper.IsConst t →
      stride.toInt ∣ x - (if onlyLower then lower.value env else upper.value env) →
      (vr.range = .lowerAndUpper lower upper ∨
        vr.range = (roundToStride t onlyLower lower upper (absInt64 stride)).1) →
      (vr.Contains env x ↔ lower.value env ≤ x ∧ x ≤ upper.value env) := by
    intro onlyLower lower upper hl hu hdvd hrange
    obtain ⟨lower', upper', heq, htype', hiff⟩ : ∃ lower' upper' : Bound Var,
        vr.range = .lowerAndUpper lower' upper' ∧ lower'.primType = t ∧
        (lower'.value env ≤ x ∧ x ≤ upper'.value env ↔
          lower.value env ≤ x ∧ x ≤ upper.value env) := by
      rcases hrange with heq | heq
      · exact ⟨lower, upper, heq, hl.ofType.primType_eq, Iff.rfl⟩
      · obtain ⟨lower', upper', hround, htype', hall⟩ :=
          roundToStride_between_iff hn hl hu hmono.ne_zero onlyLower env
        exact ⟨lower', upper', heq.trans hround, htype', hall x hdvd⟩
    rw [← hiff, ValueRange.Contains, ValueRange.getPrimType, ValueRange.getBound,
      ValueRange.Within]
    simp only [heq, htype', hmem, true_and]
  by_cases hpos : 0 < stride.toInt
  · rw [if_pos hpos]
    simp only [hmono.onlyLower_iff.mpr hpos, ↓reduceIte] at hrange
    exact hcontains true hinit hrconst hdvd hrange
  · have hupper : isOnlyHasLowerBound vrOfInitExpr = false := by
      rw [← Bool.not_eq_true, hmono.onlyLower_iff]
      exact hpos
    rw [if_neg hpos]
    simp only [hupper, Bool.false_eq_true, ↓reduceIte] at hrange
    exact hcontains false hrconst hinit hdvd hrange

lemma loopValue_until_iff {t : PrimType} {init s e : Int} {R : Int → Prop} (hs : s ≠ 0)
    (hR : ∀ x, R x → if 0 < s then x ≤ e else e ≤ x) :
    (∀ x, LoopValue t init s R x →
      if 0 < s then init ≤ x ∧ x ≤ e else e ≤ x ∧ x ≤ init) ↔
      if 0 < s then init ≤ e else e ≤ init := by
  by_cases hpos : 0 < s
  · simp only [if_pos hpos] at hR ⊢
    constructor
    · intro hall
      exact (hall init .init).2
    · intro hle x hx
      refine ⟨hx.ge hpos, ?_⟩
      rcases hx.eq_or_range with rfl | hrange
      · exact hle
      · exact hR x hrange
  · simp only [if_neg hpos] at hR ⊢
    constructor
    · intro hall
      exact (hall init .init).1
    · intro hle x hx
      refine ⟨?_, hx.le (by omega)⟩
      rcases hx.eq_or_range with rfl | hrange
      · exact hle
      · exact hR x hrange

/-- The back edge is limited by a value that the run does not pass: an excluded value is not the
initial one, and is met by the steps of the stride unless the next step leaves the type; any other
range does not end behind the initial value. -/
def LimitsRun (t : PrimType) (env : Var → Int) (init stride : Int) (valueRange : ValueRange Var) :
    Prop :=
  match valueRange.range with
  | .notEqual b =>
    b.value env ≠ init ∧ (stride ∣ b.value env - init ∨
      ¬t.format.Mem (init + ((b.value env - init).tdiv stride + 1) * stride))
  | .lowerAndUpper lower upper =>
    if 0 < stride then init ≤ upper.value env else lower.value env ≤ init
  | .equal b | .onlyHasLowerBound b | .onlyHasUpperBound b =>
    if 0 < stride then init ≤ b.value env else b.value env ≤ init

/-- The range `!= c` of `i32`. -/
def i32NotEqual (c : Int64) : ValueRange Unit := { range := .notEqual ⟨none, c, .i32⟩ }

end ValueRangePropagation
end Maple
