import Maple.ME.ValueRange.CondGoto

/-!
# Soundness of the ranges on the edges of a conditional branch

The ranges contain the value of the left operand, except when an end of a constant interval is
removed because its constant is the offset of a symbolic bound.
-/

namespace Maple

namespace ValueRange

variable {Var : Type} [Target] {t : PrimType}

lemma OfType.ends (hn : t.isNeeded) {vr : ValueRange Var} (h : vr.OfType t) :
    vr.getLower.OfType t ∧ vr.getUpper.OfType t := by
  have hprim := h.getPrimType_eq
  obtain ⟨range, _, _⟩ := vr
  cases range with
  | lowerAndUpper lower upper => exact h
  | onlyHasLowerBound b =>
    have hb : b.primType = t := hprim
    exact ⟨h, hb, fun _ => hb.symm ▸ (PrimType.maxNumber_spec hn).1⟩
  | onlyHasUpperBound b =>
    have hb : b.primType = t := hprim
    exact ⟨⟨hb, fun _ => hb.symm ▸ (PrimType.minNumber_spec hn).1⟩, h⟩
  | notEqual b => exact ⟨h, h⟩
  | equal b => exact ⟨h, h⟩

end ValueRange

namespace ValueRangePropagation

variable {Var : Type} [DecidableEq Var] [Target] (ctx : CondContext Var)
variable {t : PrimType} {env : Var → Int} {v w : Int}

/-! ### Comparisons of order -/

omit [DecidableEq Var] in
lemma leftHolds_of_contains {leftRange : Option (ValueRange Var)}
    (htype : ∀ vr, leftRange = some vr → vr.OfType t)
    (hleft : ∀ vr, leftRange = some vr → vr.Contains env v) :
    LeftHolds t env v (if leftRange.any ValueRange.isNotEqual then none else leftRange) := by
  intro vr h
  split_ifs at h with hne
  subst h
  refine ⟨(htype vr rfl).hasType, ?_, (hleft vr rfl).2⟩
  simpa using hne

lemma holds_of_order (hn : t.isNeeded) (hmem : t.format.Mem v)
    {leftRange : Option (ValueRange Var)} {rightRange : ValueRange Var}
    (hltype : ∀ vr, leftRange = some vr → vr.OfType t) (hrtype : rightRange.OfType t)
    (hleft : ∀ vr, leftRange = some vr → vr.Contains env v)
    (hright : rightRange.Contains env w) {op : CmpOp} (hop : op ≠ .eq ∧ op ≠ .ne)
    {caches : BranchCaches Var} (hcaches : Holds env v (caches (op.eval v w))) :
    Holds env v (createValueRangeForCondGoto ctx op leftRange rightRange caches
      (op.eval v w)) := by
  have hleft' := leftHolds_of_contains hltype hleft
  obtain ⟨hlowerType, hupperType⟩ := hrtype.ends hn
  have hwmem : t.format.Mem w := hrtype.getPrimType_eq ▸ hright.1
  cases hrne : rightRange.isNotEqual with
  | true => cases op <;> simp_all [createValueRangeForCondGoto]
  | false =>
    obtain ⟨hlo, hhi, hlt, hut⟩ :=
      ValueRange.ends_of_within hn hrtype.hasType hrne hwmem hright.2
    have hsub {c : Int64} (h : addOrSubWithConstant t .sub rightRange.getUpper.constant 1 = some c) :
        (⟨rightRange.getUpper.var, c, t⟩ : Bound Var).value env = rightRange.getUpper.value env - 1 :=
      value_sub_one hn hupperType h
    have hadd {c : Int64} (h : addOrSubWithConstant t .add rightRange.getLower.constant 1 = some c) :
        (⟨rightRange.getLower.var, c, t⟩ : Bound Var).value env ≤ rightRange.getLower.value env + 1 :=
      value_add_one_le hn hlowerType h
    cases op with
    | eq => exact absurd rfl hop.1
    | ne => exact absurd rfl hop.2
    | lt =>
      simp only [createValueRangeForCondGoto, hrne, hut, Bool.false_eq_true, ↓reduceIte]
      cases hc : addOrSubWithConstant t .sub rightRange.getUpper.constant 1 with
      | none => exact hcaches
      | some c =>
        apply holds_createValueRangeForLeOrLt ctx hn hmem hleft' rfl hlt _ hcaches
        · intro h
          have hvw : v < w := of_decide_eq_true h
          have := hsub hc
          omega
        · intro h
          have hvw : ¬ v < w := of_decide_eq_false h
          omega
    | ge =>
      simp only [createValueRangeForCondGoto, hrne, hut, Bool.false_eq_true, ↓reduceIte,
        reduceCtorEq]
      cases hc : addOrSubWithConstant t .sub rightRange.getUpper.constant 1 with
      | none => exact hcaches
      | some c =>
        apply holds_createValueRangeForGeOrGt ctx hn hmem hleft' rfl hlt _ hcaches
        · intro h
          have hvw : w ≤ v := of_decide_eq_true h
          omega
        · intro h
          have hvw : ¬ w ≤ v := of_decide_eq_false h
          have := hsub hc
          omega
    | le =>
      simp only [createValueRangeForCondGoto, hrne, hut, Bool.false_eq_true, ↓reduceIte]
      cases hc : addOrSubWithConstant t .add rightRange.getLower.constant 1 with
      | none => exact hcaches
      | some c =>
        apply holds_createValueRangeForLeOrLt ctx hn hmem hleft' hut rfl _ hcaches
        · intro h
          have hvw : v ≤ w := of_decide_eq_true h
          omega
        · intro h
          have hvw : ¬ v ≤ w := of_decide_eq_false h
          have := hadd hc
          omega
    | gt =>
      simp only [createValueRangeForCondGoto, hrne, hut, Bool.false_eq_true, ↓reduceIte,
        reduceCtorEq]
      cases hc : addOrSubWithConstant t .add rightRange.getLower.constant 1 with
      | none => exact hcaches
      | some c =>
        apply holds_createValueRangeForGeOrGt ctx hn hmem hleft' hut rfl _ hcaches
        · intro h
          have hvw : w < v := of_decide_eq_true h
          have := hadd hc
          omega
        · intro h
          have hvw : ¬ w < v := of_decide_eq_false h
          omega

/-! ### Equality -/

/-- The symbolic bound `b` is taken for an end of the constant interval, because it has its
constant. -/
def EndTakenForBound (t : PrimType) (leftRange : ValueRange Var) (b : Bound Var) : Prop :=
  b.var ≠ none ∧ ∃ lower upper, leftRange.range = .lowerAndUpper lower upper ∧
    lower.var = none ∧ upper.var = none ∧ lower.constant < upper.constant ∧
    t.read lower.constant ≤ t.read upper.constant ∧
    (lower.constant = b.constant ∨
      upper.constant = b.constant ∧ (t.isUint64 → 1 ≤ upper.constant))

omit [DecidableEq Var] [Target] in
lemma lowerOrUpperEqualsRight_iff {leftRange : ValueRange Var} {b : Bound Var} {isLower : Bool} :
    lowerOrUpperEqualsRight leftRange b isLower ↔
      ∃ lower upper, leftRange.range = .lowerAndUpper lower upper ∧ lower.var = none ∧
        upper.var = none ∧ lower.constant < upper.constant ∧
        (if isLower then lower else upper).constant = b.constant := by
  obtain ⟨range, stride, accurate⟩ := leftRange
  cases range <;> cases isLower <;>
    simp [lowerOrUpperEqualsRight, ValueRange.isConstantLowerAndUpper, and_assoc]

omit [DecidableEq Var] in
lemma within_withoutLower (hn : t.isNeeded) {leftRange vr : ValueRange Var} {b : Bound Var}
    (hltype : leftRange.OfType t) (hb : b.OfType t) (hleft : leftRange.Within env v)
    (hsafe : ¬ EndTakenForBound t leftRange b) (hend : lowerOrUpperEqualsRight leftRange b true)
    (hvr : withoutLower leftRange = some vr) (hne : v ≠ b.value env) :
    vr.HasType t ∧ vr.Within env v := by
  obtain ⟨lower, upper, hrange, hlvar, huvar, hlt, heq⟩ := lowerOrUpperEqualsRight_iff.mp hend
  obtain ⟨range, stride, accurate⟩ := leftRange
  obtain rfl : range = .lowerAndUpper lower upper := hrange
  obtain ⟨hlower, hupper⟩ : lower.OfType t ∧ upper.OfType t := hltype
  obtain ⟨hlo, hhi⟩ : lower.value env ≤ v ∧ v ≤ upper.value env := hleft
  obtain ⟨newLower, hnew, rfl⟩ := Option.map_eq_some_iff.mp hvr
  obtain ⟨c, hc, rfl⟩ := Option.map_eq_some_iff.mp hnew
  have hprim : lower.primType = t := hlower.primType_eq
  rw [ValueRange.getLower, hprim] at hc
  have hval : (⟨lower.var, c, t⟩ : Bound Var).value env = lower.value env + 1 :=
    value_add_one hn hlower hlvar hc
  have hlread := hlower.value_eq_read hlvar env
  have huread := hupper.value_eq_read huvar env
  refine ⟨⟨hprim, hupper.primType_eq⟩, ?_, hhi⟩
  change (⟨lower.var, c, lower.primType⟩ : Bound Var).value env ≤ v
  rw [hprim, hval]
  cases hvar : b.var with
  | none =>
    have hbread := hb.value_eq_read hvar env
    rw [← heq, if_pos rfl] at hbread
    omega
  | some x =>
    refine absurd ⟨by simp [hvar], lower, upper, rfl, hlvar, huvar, hlt, ?_, Or.inl heq⟩ hsafe
    omega

omit [DecidableEq Var] in
lemma within_withoutUpper (hn : t.isNeeded) {leftRange vr : ValueRange Var} {b : Bound Var}
    (hltype : leftRange.OfType t) (hb : b.OfType t) (hleft : leftRange.Within env v)
    (hsafe : ¬ EndTakenForBound t leftRange b) (hend : lowerOrUpperEqualsRight leftRange b false)
    (hvr : withoutUpper leftRange = some vr) (hne : v ≠ b.value env) :
    vr.HasType t ∧ vr.Within env v := by
  obtain ⟨lower, upper, hrange, hlvar, huvar, hlt, heq⟩ := lowerOrUpperEqualsRight_iff.mp hend
  obtain ⟨range, stride, accurate⟩ := leftRange
  obtain rfl : range = .lowerAndUpper lower upper := hrange
  obtain ⟨hlower, hupper⟩ : lower.OfType t ∧ upper.OfType t := hltype
  obtain ⟨hlo, hhi⟩ : lower.value env ≤ v ∧ v ≤ upper.value env := hleft
  obtain ⟨newUpper, hnew, rfl⟩ := Option.map_eq_some_iff.mp hvr
  obtain ⟨c, hc, rfl⟩ := Option.map_eq_some_iff.mp hnew
  have hprim : upper.primType = t := hupper.primType_eq
  rw [ValueRange.getUpper, hprim] at hc
  have hval : (⟨upper.var, c, t⟩ : Bound Var).value env = upper.value env - 1 :=
    value_sub_one hn hupper hc
  have hlread := hlower.value_eq_read hlvar env
  have huread := hupper.value_eq_read huvar env
  refine ⟨⟨hlower.primType_eq, hprim⟩, hlo, ?_⟩
  change v ≤ (⟨upper.var, c, upper.primType⟩ : Bound Var).value env
  rw [hprim, hval]
  cases hvar : b.var with
  | none =>
    have hbread := hb.value_eq_read hvar env
    rw [← heq, if_neg Bool.false_ne_true] at hbread
    omega
  | some x =>
    refine absurd ⟨by simp [hvar], lower, upper, rfl, hlvar, huvar, hlt, ?_, Or.inr ⟨heq, ?_⟩⟩ hsafe
    · omega
    · -- in a 64-bit unsigned type the subtraction was not refused
      intro hu
      rw [addOrSubWithConstant_sub_of_isUint64 hu] at hc
      split_ifs at hc with h1
      exact Int64.not_lt.mp h1

omit [DecidableEq Var] in
lemma holds_recordIfSome {caches : BranchCaches Var} {taken branch : Bool}
    {entry : Option (ValueRange Var)} (hmem : t.format.Mem v) (hcaches : Holds env v (caches taken))
    (hentry : taken = branch → ∀ vr, entry = some vr → vr.HasType t ∧ vr.Within env v) :
    Holds env v (recordIfSome ctx caches branch entry taken) := by
  cases entry with
  | none => exact hcaches
  | some vr =>
    apply holds_record ctx.temp hmem hcaches
    intro h
    exact hentry h vr rfl

omit [DecidableEq Var] in
lemma holds_createValueRangeForNeOrEq (hn : t.isNeeded) (hmem : t.format.Mem v)
    {leftRange : Option (ValueRange Var)} {rightRange : ValueRange Var}
    (hltype : ∀ vr, leftRange = some vr → vr.OfType t) (hrtype : rightRange.OfType t)
    (hleft : ∀ vr, leftRange = some vr → vr.Contains env v)
    (hright : rightRange.Contains env w)
    (hsafe : (rightRange.isEqualKind ∨ rightRange.isNotEqual) →
      ∀ vr, leftRange = some vr → ¬ EndTakenForBound t vr rightRange.getBound)
    {caches : BranchCaches Var} {taken eqBranch : Bool} (hcaches : Holds env v (caches taken))
    (htaken : taken = eqBranch ↔ v = w) :
    Holds env v (createValueRangeForNeOrEq ctx leftRange rightRange eqBranch caches taken) := by
  have hother : taken = !eqBranch → v ≠ w := by
    intro h heq
    rw [← htaken, h] at heq
    cases eqBranch <;> cases heq
  obtain ⟨range, stride, accurate⟩ := rightRange
  cases range with
  | lowerAndUpper lower upper => exact hcaches
  | onlyHasLowerBound b => exact hcaches
  | onlyHasUpperBound b => exact hcaches
  | equal b =>
    have hb : b.OfType t := hrtype
    have hw : w = b.value env := hright.2
    simp only [createValueRangeForNeOrEq]
    have hcaches' : Holds env v
        (record ctx.temp caches eqBranch (some { range := .equal b }) taken) := by
      apply holds_record ctx.temp hmem hcaches
      intro h
      exact ⟨hb.primType_eq, (htaken.mp h).trans hw⟩
    have hnot (h : taken = !eqBranch) : v ≠ b.value env := hw ▸ hother h
    cases leftRange with
    | none =>
      apply holds_record ctx.temp hmem hcaches'
      intro h
      exact ⟨hb.primType_eq, hnot h⟩
    | some leftRange =>
      have hlt := hltype leftRange rfl
      have hlw := (hleft leftRange rfl).2
      have hs := hsafe (Or.inl rfl) leftRange rfl
      simp only
      split_ifs with hlower hupper
      · apply holds_recordIfSome ctx hmem hcaches'
        intro h vr hvr
        exact within_withoutLower hn hlt hb hlw hs hlower hvr (hnot h)
      · apply holds_recordIfSome ctx hmem hcaches'
        intro h vr hvr
        exact within_withoutUpper hn hlt hb hlw hs hupper hvr (hnot h)
      · have hrecord : Holds env v (record ctx.temp (record ctx.temp caches eqBranch
            (some { range := .equal b })) (!eqBranch) (some { range := .notEqual b }) taken) := by
          apply holds_record ctx.temp hmem hcaches'
          intro h
          exact ⟨hb.primType_eq, hnot h⟩
        cases leftRange.range with
        | lowerAndUpper lower upper => exact hrecord
        | onlyHasLowerBound bound => exact hrecord
        | onlyHasUpperBound bound => exact hrecord
        | notEqual bound => exact hcaches'
        | equal bound => exact hcaches'
  | notEqual b =>
    have hb : b.OfType t := hrtype
    have hw : w ≠ b.value env := hright.2
    simp only [createValueRangeForNeOrEq]
    have hnot (h : taken = eqBranch) : v ≠ b.value env := htaken.mp h ▸ hw
    cases leftRange with
    | none =>
      apply holds_record ctx.temp hmem hcaches
      intro h
      exact ⟨hb.primType_eq, hnot h⟩
    | some leftRange =>
      have hlt := hltype leftRange rfl
      have hlw := (hleft leftRange rfl).2
      have hs := hsafe (Or.inr rfl) leftRange rfl
      simp only
      split_ifs with hlower hupper
      · apply holds_recordIfSome ctx hmem hcaches
        intro h vr hvr
        exact within_withoutLower hn hlt hb hlw hs hlower hvr (hnot h)
      · apply holds_recordIfSome ctx hmem hcaches
        intro h vr hvr
        exact within_withoutUpper hn hlt hb hlw hs hupper hvr (hnot h)
      · have hrecord : Holds env v (record ctx.temp caches eqBranch
            (some { range := .notEqual b }) taken) := by
          apply holds_record ctx.temp hmem hcaches
          intro h
          exact ⟨hb.primType_eq, hnot h⟩
        cases leftRange.range with
        | onlyHasLowerBound bound => exact hrecord
        | onlyHasUpperBound bound => exact hrecord
        | lowerAndUpper lower upper => exact hcaches
        | notEqual bound => exact hcaches
        | equal bound => exact hcaches

omit [DecidableEq Var] in
lemma holds_mergeNotEqualRanges (hn : t.isNeeded) (hmem : t.format.Mem v)
    {leftRange : Option (ValueRange Var)} {rightRange : ValueRange Var}
    (hltype : ∀ vr, leftRange = some vr → vr.OfType t)
    (hleft : ∀ vr, leftRange = some vr → vr.Contains env v)
    (hright : rightRange.Contains env w) (hrtype : rightRange.OfType t)
    {caches : BranchCaches Var} {taken branch : Bool} (hcaches : Holds env v (caches taken))
    (htaken : taken = branch → v ≠ w) :
    Holds env v (mergeNotEqualRanges ctx leftRange rightRange branch caches taken) := by
  cases leftRange with
  | none => exact hcaches
  | some leftRange =>
    have hlt := hltype leftRange rfl
    have hlw := (hleft leftRange rfl).2
    obtain ⟨lrange, lstride, laccurate⟩ := leftRange
    obtain ⟨rrange, rstride, raccurate⟩ := rightRange
    simp only [mergeNotEqualRanges, hlt.getPrimType_eq, hrtype.getPrimType_eq]
    split_ifs with hcond
    · exact hcaches
    cases lrange with
    | lowerAndUpper lower upper => exact hcaches
    | onlyHasLowerBound b => exact hcaches
    | onlyHasUpperBound b => exact hcaches
    | equal b => exact hcaches
    | notEqual leftBound =>
      cases rrange with
      | lowerAndUpper lower upper => exact hcaches
      | onlyHasLowerBound b => exact hcaches
      | onlyHasUpperBound b => exact hcaches
      | notEqual b => exact hcaches
      | equal rightBound =>
        have hlb : leftBound.OfType t := hlt
        have hrb : rightBound.OfType t := hrtype
        have hvl : v ≠ leftBound.value env := hlw
        have hw : w = rightBound.value env := hright.2
        simp only
        split_ifs with hzeroOne
        · apply holds_record ctx.temp hmem hcaches
          intro h
          have hvr : v ≠ rightBound.value env := hw ▸ htaken h
          simp only [Bool.and_eq_true, Bool.or_eq_true, Option.isNone_iff_eq_none, Bound.isEqual,
            Bound.compare_eq, CmpOp.eval, beq_iff_eq] at hzeroOne
          obtain ⟨⟨hlvar, hrvar⟩, hvalues⟩ := hzeroOne
          rw [hlb.value_eq_read hlvar] at hvl
          rw [hrb.value_eq_read hrvar] at hvr
          have hzero : t.read 0 = 0 := by
            rw [PrimType.read_eq_cvt hn, Int64.toInt_zero, PrimType.cvt_eq_self_iff]
            exact ⟨t.format.minValue_nonpos, t.format.maxValue_nonneg⟩
          rw [hzero, read_one hn] at hvalues
          have hunsigned : t.isUnsigned = true := by
            simpa using hcond
          have hnonneg : 0 ≤ v := by
            rcases t.signed_or_unsigned hn with ⟨hs, -⟩ | ⟨hu, -⟩
            · simp [PrimType.isSignedInteger, hunsigned] at hs
            · rw [← t.minValue_of_isUnsignedInteger hu]
              exact hmem.1
          have hmax : (⟨none, t.maxNumber, t⟩ : Bound Var).value env = t.format.maxValue :=
            (PrimType.maxNumber_spec hn).2
          refine ⟨⟨rfl, rfl⟩, ?_, hmax.symm ▸ hmem.2⟩
          change t.read 2 ≤ v
          have htwo : t.read 2 ≤ 2 := by
            rw [PrimType.read_eq_cvt hn, show (2 : Int64).toInt = 2 from rfl]
            by_cases h1 : t = .u1
            · simp [PrimType.cvt, h1]
            · rw [(PrimType.cvt_eq_self_iff t 2).mpr]
              have hmin := t.format.minValue_nonpos
              exact ⟨by omega, (PrimType.two_le_maxValue hn h1).1⟩
          rcases hvalues with h | h <;> omega
        · exact hcaches

/-! ### A removed end -/

omit [DecidableEq Var] in
lemma between_of_contains_storedRange {lower upper : Bound Var}
    (h : (storedRange { range := .lowerAndUpper lower upper }).Contains env v)
    (hle : lower.value env ≤ upper.value env) :
    lower.value env ≤ v ∧ v ≤ upper.value env := by
  simp only [storedRange] at h
  split_ifs at h with hconst
  · have hv : v = lower.value env := h.2
    omega
  · exact h.2

omit [DecidableEq Var] in
lemma insert2Caches_of_le (temp : Bool) (hn : t.isNeeded) {lower upper : Bound Var}
    (hlower : lower.OfType t) (hle : t.read lower.constant ≤ t.read upper.constant) :
    insert2Caches temp none (some { range := .lowerAndUpper lower upper }) =
      some (storedRange { range := .lowerAndUpper lower upper }) := by
  have hprim : (ValueRange.mk (.lowerAndUpper lower upper) 0 false).getPrimType = t :=
    hlower.primType_eq
  have hvalid : (storedRange { range := .lowerAndUpper lower upper }).isInvalidVR = false := by
    have hgt : ¬ t.read upper.constant < t.read lower.constant := not_lt.mpr hle
    simp only [storedRange]
    split_ifs
    · simp [ValueRange.isInvalidVR, Bound.isGreaterThan, Bound.compare_eq, CmpOp.eval,
        ValueRange.getLower, ValueRange.getUpper]
    · simp [ValueRange.isInvalidVR, Bound.isGreaterThan, Bound.compare_eq, CmpOp.eval,
        ValueRange.getLower, ValueRange.getUpper, hprim, hgt]
  simp [insert2Caches, hprim, hn, hvalid]

lemma addOrSubWithConstant_add_one_of_lt (hn : t.isNeeded) {c d : Int64} (hc : t.InType c)
    (hlt : t.read c < t.read d) : ∃ res, addOrSubWithConstant t .add c 1 = some res := by
  have hd := (PrimType.read_mem hn d).2
  by_cases hu : t.isUint64
  · rw [addOrSubWithConstant_add_of_isUint64 hu, read_one hn]
    rw [PrimType.format_of_isUint64 hu] at hd
    have hmax : (IntFormat.mk 64 false).maxValue = 2 ^ 64 - 1 := by decide
    exact ⟨_, if_pos (by omega)⟩
  · have hcmem := (PrimType.inType_iff_mem hn hu c).mp hc
    rw [addOrSubWithConstant_of_mem hn hu hc (inType_one hn)]
    rw [PrimType.read_of_inType hu hc] at hlt
    refine ⟨_, if_pos ?_⟩
    have hone : (1 : Int64).toInt = 1 := rfl
    simp only [AddSubOp.eval, IntFormat.Mem, hone] at hcmem ⊢
    omega

/-- What is recorded when an end is removed: an interval that lacks a value of the left range. -/
structure RemovedEnd (t : PrimType) (leftRange : ValueRange Var) (lower upper : Bound Var)
    (v : Int) : Prop where
  mem : t.format.Mem v
  within : ∀ env, leftRange.Within env v
  lower_ofType : lower.OfType t
  upper_ofType : upper.OfType t
  lower_var : lower.var = none
  upper_var : upper.var = none
  lower_le : t.read lower.constant ≤ t.read upper.constant
  outside : v < t.read lower.constant ∨ t.read upper.constant < v

omit [DecidableEq Var] in
lemma exists_removedEnd (hn : t.isNeeded) {leftRange : ValueRange Var} {b : Bound Var}
    (hltype : leftRange.OfType t) (hbad : EndTakenForBound t leftRange b) :
    ∃ lower upper v, RemovedEnd t leftRange lower upper v ∧
      ∀ caches other branch,
        (if lowerOrUpperEqualsRight leftRange b true then
          recordIfSome ctx caches branch (withoutLower leftRange)
        else if lowerOrUpperEqualsRight leftRange b false then
          recordIfSome ctx caches branch (withoutUpper leftRange)
        else other) =
        record ctx.temp caches branch (some { range := .lowerAndUpper lower upper }) := by
  obtain ⟨-, lower, upper, hrange, hlvar, huvar, hlt, hle, hend⟩ := hbad
  obtain ⟨range, stride, accurate⟩ := leftRange
  obtain rfl : range = .lowerAndUpper lower upper := hrange
  obtain ⟨hlower, hupper⟩ : lower.OfType t ∧ upper.OfType t := hltype
  have hlin := hlower.inType hlvar
  have huin := hupper.inType huvar
  have hltread : t.read lower.constant < t.read upper.constant := by
    refine lt_of_le_of_ne hle ?_
    rw [Ne, PrimType.read_inj hlin huin]
    exact Int64.ne_of_lt hlt
  have hwithin (env : Var → Int) : lower.value env = t.read lower.constant ∧
      upper.value env = t.read upper.constant :=
    ⟨hlower.value_eq_read hlvar env, hupper.value_eq_read huvar env⟩
  by_cases hl : lower.constant = b.constant
  · obtain ⟨c, hc⟩ := addOrSubWithConstant_add_one_of_lt hn hlin hltread
    obtain ⟨hcin, hcread⟩ := read_of_add hn hlin (inType_one hn) hc
    rw [read_one hn] at hcread
    refine ⟨⟨lower.var, c, lower.primType⟩, upper, t.read lower.constant, ?_, ?_⟩
    · refine ⟨PrimType.read_mem hn _, ?_, ⟨hlower.primType_eq, fun _ => hcin⟩, hupper, hlvar, huvar,
        ?_, Or.inl ?_⟩
      · intro env
        exact ⟨(hwithin env).1.le, (hwithin env).2 ▸ hle⟩
      · change t.read c ≤ _
        omega
      · change _ < t.read c
        omega
    · intro caches other branch
      have hends : lowerOrUpperEqualsRight ⟨.lowerAndUpper lower upper, stride, accurate⟩ b true :=
        lowerOrUpperEqualsRight_iff.mpr ⟨lower, upper, rfl, hlvar, huvar, hlt, hl⟩
      rw [if_pos hends]
      simp [withoutLower, createNewBoundWhenAddOrSub, ValueRange.getLower, ValueRange.getUpper,
        hlower.primType_eq, hc, recordIfSome]
  · obtain ⟨hu, hpos⟩ := hend.resolve_left hl
    have hsub : ∃ c, addOrSubWithConstant t .sub upper.constant 1 = some c := by
      by_cases hu64 : t.isUint64
      · rw [addOrSubWithConstant_sub_of_isUint64 hu64]
        exact ⟨_, if_neg (Int64.not_lt.mpr (hpos hu64))⟩
      · rw [addOrSubWithConstant_of_mem hn hu64 huin (inType_one hn)]
        refine ⟨_, if_pos ?_⟩
        have hlmem := (PrimType.inType_iff_mem hn hu64 _).mp hlin
        have humem := (PrimType.inType_iff_mem hn hu64 _).mp huin
        have hone : (1 : Int64).toInt = 1 := rfl
        rw [PrimType.read_of_inType hu64 hlin, PrimType.read_of_inType hu64 huin] at hltread
        simp only [AddSubOp.eval, IntFormat.Mem, hone] at hlmem humem ⊢
        omega
    obtain ⟨c, hc⟩ := hsub
    obtain ⟨hcin, hcread⟩ := read_of_sub hn huin (inType_one hn) hc
    have hlmem := PrimType.read_mem hn lower.constant
    have humem := PrimType.read_mem hn upper.constant
    rw [read_one hn] at hcread
    replace hcread := hcread (by unfold IntFormat.Mem at *; omega)
    refine ⟨lower, ⟨upper.var, c, upper.primType⟩, t.read upper.constant, ?_, ?_⟩
    · refine ⟨humem, ?_, hlower, ⟨hupper.primType_eq, fun _ => hcin⟩, hlvar, huvar, ?_, Or.inr ?_⟩
      · intro env
        exact ⟨(hwithin env).1 ▸ hle, (hwithin env).2.ge⟩
      · change _ ≤ t.read c
        omega
      · change t.read c < _
        omega
    · intro caches other branch
      have hnot :
          ¬ lowerOrUpperEqualsRight ⟨.lowerAndUpper lower upper, stride, accurate⟩ b true := by
        rw [lowerOrUpperEqualsRight_iff]
        rintro ⟨lower', upper', hrange, -, -, -, heq⟩
        cases hrange
        exact hl heq
      have hends : lowerOrUpperEqualsRight ⟨.lowerAndUpper lower upper, stride, accurate⟩ b false :=
        lowerOrUpperEqualsRight_iff.mpr ⟨lower, upper, rfl, hlvar, huvar, hlt, hu⟩
      rw [if_neg hnot, if_pos hends]
      simp [withoutUpper, createNewBoundWhenAddOrSub, ValueRange.getLower, ValueRange.getUpper,
        hupper.primType_eq, hc, recordIfSome]

omit [DecidableEq Var] in
lemma RemovedEnd.not_holds (hn : t.isNeeded) {leftRange : ValueRange Var}
    {lower upper : Bound Var} (h : RemovedEnd t leftRange lower upper v) {caches : BranchCaches Var}
    {branch : Bool} (hcaches : caches branch = none) (env : Var → Int) :
    ¬ Holds env v (record ctx.temp caches branch
      (some { range := .lowerAndUpper lower upper }) branch) := by
  intro hholds
  rw [record, if_pos rfl, hcaches, insert2Caches_of_le ctx.temp hn h.lower_ofType h.lower_le]
    at hholds
  have hl := h.lower_ofType.value_eq_read h.lower_var env
  have hu := h.upper_ofType.value_eq_read h.upper_var env
  have hbetween := between_of_contains_storedRange (hholds _ rfl) (by rw [hl, hu]; exact h.lower_le)
  have := h.outside
  omega

/-! ### The branch -/

/-- A comparison for equality with a symbolic bound that is taken for an end of the left range. -/
def CutsByOffset (t : PrimType) (op : CmpOp) (leftRange : Option (ValueRange Var))
    (rightRange : ValueRange Var) : Prop :=
  (op = .eq ∨ op = .ne) ∧ (rightRange.isEqualKind ∨ rightRange.isNotEqual) ∧
    ∃ vr, leftRange = some vr ∧ EndTakenForBound t vr rightRange.getBound

omit [DecidableEq Var] in
lemma exists_not_holds_createValueRangeForNeOrEq (hn : t.isNeeded) {leftRange : ValueRange Var}
    {rightRange : ValueRange Var} (hltype : leftRange.OfType t) (hrtype : rightRange.OfType t)
    (hkind : rightRange.isEqualKind ∨ rightRange.isNotEqual)
    (hbad : EndTakenForBound t leftRange rightRange.getBound) (eqBranch : Bool) :
    ∃ env v w, t.format.Mem v ∧ leftRange.Contains env v ∧ rightRange.Contains env w ∧
      ¬ Holds env v (createValueRangeForNeOrEq ctx (some leftRange) rightRange eqBranch
        (fun _ => none) (if v = w then eqBranch else !eqBranch)) := by
  obtain ⟨lower, upper, v, hremoved, hrecord⟩ := exists_removedEnd ctx hn hltype hbad
  obtain ⟨x, hx⟩ := Option.ne_none_iff_exists'.mp hbad.1
  have hlprim := hltype.getPrimType_eq
  have hrprim := hrtype.getPrimType_eq
  obtain ⟨range, stride, accurate⟩ := rightRange
  cases range with
  | lowerAndUpper l u => simp [ValueRange.isEqualKind, ValueRange.isNotEqual] at hkind
  | onlyHasLowerBound b => simp [ValueRange.isEqualKind, ValueRange.isNotEqual] at hkind
  | onlyHasUpperBound b => simp [ValueRange.isEqualKind, ValueRange.isNotEqual] at hkind
  | equal b =>
    simp only [ValueRange.getBound] at hrecord hx
    obtain ⟨w, hw, hne⟩ := PrimType.exists_mem_ne hn v
    have hval : b.value (fun _ => w - b.constant.toInt) = w := by
      rw [Bound.value_of_var_eq_some hx]
      omega
    refine ⟨fun _ => w - b.constant.toInt, v, w, hremoved.mem,
      ⟨hlprim ▸ hremoved.mem, hremoved.within _⟩, ⟨hrprim ▸ hw, hval.symm⟩, ?_⟩
    rw [if_neg hne.symm]
    intro h
    refine hremoved.not_holds ctx hn ?_ _ ((congrArg (fun caches => Holds _ v (caches (!eqBranch)))
      (hrecord _ _ (!eqBranch))).mp h)
    simp [record]
  | notEqual b =>
    simp only [ValueRange.getBound] at hrecord hx
    have hval : b.value (fun _ => v + 1 - b.constant.toInt) = v + 1 := by
      rw [Bound.value_of_var_eq_some hx]
      omega
    refine ⟨fun _ => v + 1 - b.constant.toInt, v, v, hremoved.mem,
      ⟨hlprim ▸ hremoved.mem, hremoved.within _⟩, ⟨hrprim ▸ hremoved.mem, ?_⟩, ?_⟩
    · change v ≠ b.value _
      omega
    · rw [if_pos rfl]
      intro h
      exact hremoved.not_holds ctx hn rfl _ ((congrArg (fun caches => Holds _ v (caches eqBranch))
        (hrecord _ _ eqBranch)).mp h)

omit [DecidableEq Var] in
lemma mergeNotEqualRanges_of_endTakenForBound {leftRange rightRange : ValueRange Var}
    {b : Bound Var} (h : EndTakenForBound t leftRange b) (branch : Bool)
    (caches : BranchCaches Var) :
    mergeNotEqualRanges ctx (some leftRange) rightRange branch caches = caches := by
  obtain ⟨-, lower, upper, hrange, -⟩ := h
  simp [mergeNotEqualRanges, hrange]

/-- The ranges recorded for the left operand contain its value in the successor that is taken,
exactly when no end of its range is removed for the offset of a symbolic bound. -/
theorem createValueRangeForCondGoto_sound_iff (hn : t.isNeeded) (op : CmpOp)
    {leftRange : Option (ValueRange Var)} {rightRange : ValueRange Var}
    (hltype : ∀ vr, leftRange = some vr → vr.OfType t) (hrtype : rightRange.OfType t) :
    (∀ env v w, t.format.Mem v → (∀ vr, leftRange = some vr → vr.Contains env v) →
      rightRange.Contains env w →
      Holds env v (createValueRangeForCondGoto ctx op leftRange rightRange (fun _ => none)
        (op.eval v w))) ↔
    ¬ CutsByOffset t op leftRange rightRange := by
  constructor
  · rintro hsound ⟨hop, hkind, vr, rfl, hbad⟩
    have hvr := hltype vr rfl
    rcases hop with rfl | rfl
    · obtain ⟨env, v, w, hmem, hleft, hright, hnot⟩ :=
        exists_not_holds_createValueRangeForNeOrEq ctx hn hvr hrtype hkind hbad true
      have h := hsound env v w hmem (by rintro _ ⟨⟩; exact hleft) hright
      simp only [createValueRangeForCondGoto, mergeNotEqualRanges_of_endTakenForBound ctx hbad] at h
      have htaken : CmpOp.eq.eval v w = if v = w then true else !true := by
        simp [CmpOp.eval, beq_eq_decide]
      exact hnot (htaken ▸ h)
    · obtain ⟨env, v, w, hmem, hleft, hright, hnot⟩ :=
        exists_not_holds_createValueRangeForNeOrEq ctx hn hvr hrtype hkind hbad false
      have h := hsound env v w hmem (by rintro _ ⟨⟩; exact hleft) hright
      simp only [createValueRangeForCondGoto, mergeNotEqualRanges_of_endTakenForBound ctx hbad] at h
      have htaken : CmpOp.ne.eval v w = if v = w then false else !false := by
        by_cases hvw : v = w <;> simp [CmpOp.eval, hvw]
      exact hnot (htaken ▸ h)
  · intro hsafe env v w hmem hleft hright
    have hnone : Holds env v (none : Option (ValueRange Var)) := by
      rintro vr ⟨⟩
    by_cases hop : op = .eq ∨ op = .ne
    · have hends : (rightRange.isEqualKind ∨ rightRange.isNotEqual) →
          ∀ vr, leftRange = some vr → ¬ EndTakenForBound t vr rightRange.getBound :=
        fun hkind vr hvr hbad => hsafe ⟨hop, hkind, vr, hvr, hbad⟩
      rcases hop with rfl | rfl
      · apply holds_mergeNotEqualRanges ctx hn hmem hltype hleft hright hrtype
        · apply holds_createValueRangeForNeOrEq ctx hn hmem hltype hrtype hleft hright hends hnone
          simp [CmpOp.eval]
        · simp [CmpOp.eval]
      · apply holds_mergeNotEqualRanges ctx hn hmem hltype hleft hright hrtype
        · apply holds_createValueRangeForNeOrEq ctx hn hmem hltype hrtype hleft hright hends hnone
          simp [CmpOp.eval]
        · simp [CmpOp.eval]
    · rw [not_or] at hop
      exact holds_of_order ctx hn hmem hltype hrtype hleft hright hop hnone

/-- The operand is between `0` and `10`. -/
def i32ZeroToTen : ValueRange Nat := { range := .lowerAndUpper ⟨none, 0, .i32⟩ ⟨none, 10, .i32⟩ }

/-- The other operand is the variable `0`. -/
def i32Variable : ValueRange Nat := { range := .equal ⟨some 0, 0, .i32⟩ }

def onlyCaches : CondContext Nat := ⟨false, false, fun _ => false⟩

omit [DecidableEq Var] [Target] in
/-- The false successor of `a < x` gets `x <= a`, the true successor `a <= x - 1`. -/
theorem createValueRangeForCondGoto_i32Variable :
    letI := Target.lp64
    i32ZeroToTen.Contains (fun _ => 3) 2 ∧ i32Variable.Contains (fun _ => 3) 3 ∧
    Holds (fun _ => 3) 2 (createValueRangeForCondGoto onlyCaches .lt (some i32ZeroToTen) i32Variable
      (fun _ => none) (CmpOp.lt.eval 2 3)) := by
  let _ := Target.lp64
  have hleft : i32ZeroToTen.OfType .i32 := ⟨⟨rfl, fun _ => by decide⟩, ⟨rfl, fun _ => by decide⟩⟩
  have hright : i32Variable.OfType .i32 := ⟨rfl, by rintro ⟨⟩⟩
  have hcl : i32ZeroToTen.Contains (fun _ => 3) 2 := ⟨⟨by decide, by decide⟩, by decide, by decide⟩
  have hcr : i32Variable.Contains (fun _ => 3) 3 := ⟨⟨by decide, by decide⟩, rfl⟩
  refine ⟨hcl, hcr, ?_⟩
  apply (createValueRangeForCondGoto_sound_iff onlyCaches rfl .lt
    (by rintro _ ⟨⟩; exact hleft) hright).mpr
  · rintro ⟨h | h, -⟩ <;> cases h
  · exact hcl.1
  · rintro _ ⟨⟩
    exact hcl
  · exact hcr

omit [DecidableEq Var] [Target] in
/-- For `a == x` with `x = 3` and `a = 0` the false successor gets the range from `1` to `10`. -/
theorem createValueRangeForCondGoto_i32ZeroToTen :
    letI := Target.lp64
    i32ZeroToTen.Contains (fun _ => 3) 0 ∧ i32Variable.Contains (fun _ => 3) 3 ∧
    ¬ Holds (fun _ => 3) 0 (createValueRangeForCondGoto onlyCaches .eq (some i32ZeroToTen) i32Variable
      (fun _ => none) (CmpOp.eq.eval 0 3)) := by
  let _ := Target.lp64
  refine ⟨⟨⟨by decide, by decide⟩, by decide, by decide⟩, ⟨⟨by decide, by decide⟩, rfl⟩, ?_⟩
  intro h
  have hentry : createValueRangeForCondGoto onlyCaches .eq (some i32ZeroToTen) i32Variable
      (fun _ => none) (CmpOp.eq.eval 0 3) =
      some { range := .lowerAndUpper ⟨none, 1, .i32⟩ ⟨none, 10, .i32⟩ } := by
    decide +kernel
  have hcontains := (h _ hentry).2
  exact absurd hcontains.1 (by decide)

end ValueRangePropagation
end Maple
