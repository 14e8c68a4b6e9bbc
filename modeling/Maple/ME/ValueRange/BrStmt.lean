import Maple.ME.ValueRange.Basic

/-!
# Branches that the ranges of the operands decide

`BrStmtInRange` compares the ranges of the two operands of a comparison in the operand type; a
comparison that it decides loses one of its branches in `DealWithCondGoto`.
-/

namespace Maple

namespace CmpOp

def opposite : CmpOp → CmpOp
  | eq => ne
  | ne => eq
  | lt => ge
  | le => gt
  | ge => lt
  | gt => le

@[simp] lemma eval_opposite (op : CmpOp) (a b : Int) : op.opposite.eval a b = !op.eval a b := by
  rw [Bool.eq_iff_iff]
  cases op <;> simp [opposite, eval]

end CmpOp

namespace ValueRangePropagation

variable {Var : Type} [DecidableEq Var] [Target]

/-- The bound is the same value in the operand type. -/
def isUnchanged (b : Bound Var) (opndType : PrimType) : Bool :=
  b.isEqualAfterCVT b.primType opndType

/-- The decision of `BrStmtInRange` once the bounds are known to be comparable. -/
def brStmtDecision (leftRange rightRange : ValueRange Var) (op : CmpOp) (opndType : PrimType) :
    Bool :=
  let leftLower := leftRange.getLower
  let leftUpper := leftRange.getUpper
  let rightLower := rightRange.getLower
  let rightUpper := rightRange.getUpper
  let intervals := !leftRange.isNotEqual && !rightRange.isNotEqual
  match op with
  | .eq =>
    intervals && leftLower.isEqual leftUpper opndType && rightLower.isEqual rightUpper opndType &&
      leftLower.isEqual rightLower opndType
  | .ne =>
    (intervals && (leftLower.isGreaterThan rightUpper opndType ||
      rightLower.isGreaterThan leftUpper opndType)) ||
    (leftRange.isNotEqual && rightRange.isEqualKind && leftLower.isEqual rightLower opndType) ||
    (leftRange.isEqualKind && rightRange.isNotEqual && leftLower.isEqual rightLower opndType)
  | .lt => intervals && rightLower.isGreaterThan leftUpper opndType
  | .ge => intervals && !rightUpper.isGreaterThan leftLower opndType
  | .le => intervals && !leftUpper.isGreaterThan rightLower opndType
  | .gt => intervals && leftLower.isGreaterThan rightUpper opndType

/-- `ValueRangePropagation::BrStmtInRange`; `find` is the range of a variable in the block. -/
def brStmtInRange (find : Var → Option (ValueRange Var)) (leftRange rightRange : ValueRange Var)
    (op : CmpOp) (opndType : PrimType) (judgeNotInRange : Bool := false) : Bool :=
  let leftLower := leftRange.getLower
  let leftUpper := leftRange.getUpper
  let rightLower := rightRange.getLower
  let rightUpper := rightRange.getUpper
  if !opndType.isNeeded || leftLower.var != leftUpper.var || leftUpper.var != rightUpper.var ||
    rightUpper.var != rightLower.var || leftRange.isOneSided || rightRange.isOneSided then false
  else if leftRange.isInvalidVR || rightRange.isInvalidVR then false
  else if !isUnchanged leftLower opndType || !isUnchanged leftUpper opndType ||
    !isUnchanged rightLower opndType || !isUnchanged rightUpper opndType then false
  else
    -- bounds with a variable are compared only if the variable is a constant
    let variableIsUnknown : Bool := match leftLower.var with
      | none => false
      | some x => judgeNotInRange || !((find x).any fun vr => vr.isConstant)
    if variableIsUnknown then false
    else if leftLower.isGreaterThan leftUpper opndType ||
      rightLower.isGreaterThan rightUpper opndType then false
    else
      brStmtDecision leftRange rightRange (if judgeNotInRange then op.opposite else op) opndType

/-- The branch that `DealWithCondGoto` removes for the ranges of its operands, if any: `true` for
the true branch. -/
def unreachableBranch (onlyPropVR : Bool) (find : Var → Option (ValueRange Var))
    (leftRange : Option (ValueRange Var)) (rightRange : ValueRange Var) (op : CmpOp)
    (primType : PrimType) : Option Bool :=
  match onlyPropVR, leftRange with
  | false, some leftRange =>
    if brStmtInRange find leftRange rightRange op primType then some false
    else if brStmtInRange find leftRange rightRange op.opposite primType then some true
    else none
  | _, _ => none

/-! ### Bounds that keep their value -/

omit [DecidableEq Var] in
lemma isUnchanged_iff {t opndType : PrimType} (ht : t.isNeeded) (ho : opndType.isNeeded)
    {b : Bound Var} (hb : b.OfType t) (hvar : b.var = none) :
    isUnchanged b opndType ↔ opndType.read b.constant = t.read b.constant := by
  rw [isUnchanged, hb.primType_eq]
  exact Bound.isEqualAfterCVT_iff ht ho (hb.inType hvar)

omit [DecidableEq Var] in
lemma compare_of_isUnchanged {opndType : PrimType} (op : CmpOp) {a b : Bound Var}
    (ha : isUnchanged a opndType) (hb : isUnchanged b opndType) :
    Bound.compare op a b opndType =
      op.eval (opndType.read a.constant) (opndType.read b.constant) := by
  rw [Bound.compare_eq]
  unfold isUnchanged at ha hb
  rw [ha, hb, Bool.and_self, Bool.true_and]

omit [DecidableEq Var] in
/-- What a range that is not `kNotEqual` looks like in the operand type when its ends keep their
values: no value changes, and all are between the ends. -/
lemma cvt_of_contains {t opndType : PrimType} (ht : t.isNeeded) (ho : opndType.isNeeded)
    {vr : ValueRange Var} (hconst : vr.isConstantRange) (htype : vr.OfType t)
    (hne : vr.isNotEqual = false) (hlower : isUnchanged vr.getLower opndType)
    (hupper : isUnchanged vr.getUpper opndType) {env : Var → Int} {v : Int}
    (hv : vr.Contains env v) :
    opndType.cvt v = v ∧ opndType.read vr.getLower.constant ≤ v ∧
      v ≤ opndType.read vr.getUpper.constant := by
  have hends := ValueRange.constantEnds hconst htype
  rw [isUnchanged_iff ht ho hends.lower_ofType hends.lower_var] at hlower
  rw [isUnchanged_iff ht ho hends.upper_ofType hends.upper_var] at hupper
  have hbetween := ValueRange.between_of_within hconst htype hne hv.2
  have hlo := PrimType.read_mem ho vr.getLower.constant
  have hhi := PrimType.read_mem ho vr.getUpper.constant
  rw [← hlower, ← hupper] at hbetween
  refine ⟨?_, hbetween⟩
  -- the values of the operand type are an interval
  rw [PrimType.cvt_eq_self_iff]
  exact ⟨le_trans hlo.1 hbetween.1, le_trans hbetween.2 hhi.2⟩

/-! ### The decision -/

/-- What `BrStmtInRange` has checked when it decides a comparison. -/
structure Comparable (leftRange rightRange : ValueRange Var) (opndType : PrimType) : Prop where
  needed : opndType.isNeeded
  leftLower : isUnchanged leftRange.getLower opndType
  leftUpper : isUnchanged leftRange.getUpper opndType
  rightLower : isUnchanged rightRange.getLower opndType
  rightUpper : isUnchanged rightRange.getUpper opndType

lemma comparable_of_brStmtInRange {find : Var → Option (ValueRange Var)}
    {leftRange rightRange : ValueRange Var} {op : CmpOp} {opndType : PrimType}
    (h : brStmtInRange find leftRange rightRange op opndType) :
    Comparable leftRange rightRange opndType ∧
      brStmtDecision leftRange rightRange op opndType := by
  unfold brStmtInRange at h
  simp only [Bool.false_eq_true, ↓reduceIte] at h
  split_ifs at h with hshape hinvalid hchanged hunknown hempty
  simp only [Bool.or_eq_true, Bool.not_eq_true', not_or, Bool.not_eq_false] at hshape hchanged
  exact ⟨⟨hshape.1.1.1.1.1, hchanged.1.1.1, hchanged.1.1.2, hchanged.1.2, hchanged.2⟩, h⟩

omit [DecidableEq Var] in
lemma eval_of_brStmtDecision {tl tr opndType : PrimType} (hl : tl.isNeeded) (hr : tr.isNeeded)
    {leftRange rightRange : ValueRange Var} (hlconst : leftRange.isConstantRange)
    (hrconst : rightRange.isConstantRange) (hltype : leftRange.OfType tl)
    (hrtype : rightRange.OfType tr) (hcomp : Comparable leftRange rightRange opndType)
    (hlne : leftRange.isNotEqual = false) (hrne : rightRange.isNotEqual = false) {op : CmpOp}
    (hdec : brStmtDecision leftRange rightRange op opndType) {env : Var → Int} {v w : Int}
    (hv : leftRange.Contains env v) (hw : rightRange.Contains env w) :
    op.eval (opndType.cvt v) (opndType.cvt w) := by
  obtain ⟨hneeded, hll, hlu, hrl, hru⟩ := hcomp
  obtain ⟨hvcvt, hvlo, hvhi⟩ := cvt_of_contains hl hneeded hlconst hltype hlne hll hlu hv
  obtain ⟨hwcvt, hwlo, hwhi⟩ := cvt_of_contains hr hneeded hrconst hrtype hrne hrl hru hw
  rw [hvcvt, hwcvt]
  unfold brStmtDecision at hdec
  simp only [hlne, hrne, Bool.not_false, Bool.and_self, Bool.true_and, Bool.false_and,
    Bool.and_false, Bool.or_false, Bound.isEqual, Bound.isGreaterThan,
    compare_of_isUnchanged _ hll hlu, compare_of_isUnchanged _ hrl hru,
    compare_of_isUnchanged _ hll hrl, compare_of_isUnchanged _ hll hru,
    compare_of_isUnchanged _ hrl hlu, compare_of_isUnchanged _ hru hll,
    compare_of_isUnchanged _ hlu hrl] at hdec
  cases op <;>
    simp only [CmpOp.eval, Bool.and_eq_true, Bool.or_eq_true, beq_iff_eq, bne_iff_ne, ne_eq,
      decide_eq_true_eq, Bool.not_eq_true', decide_eq_false_iff_not, not_lt] at hdec ⊢ <;>
    omega

/-! ### Values that a conversion identifies -/

/-- A value other than `c` becomes `c` in the operand type exactly when that type has fewer bits;
for a comparison with zero in `u1` there is none. -/
lemma exists_cvt_eq_iff {t opndType : PrimType} (ht : t.isNeeded) (ho : opndType.isNeeded)
    {c : Int64} (hc : t.InType c) (hsame : opndType.read c = t.read c) :
    (∃ v, t.format.Mem v ∧ v ≠ t.read c ∧ opndType.cvt v = t.read c) ↔
      opndType.actualBitSize < t.actualBitSize ∧ ¬ (opndType = .u1 ∧ c = 0) := by
  have hmem : opndType.format.Mem (t.read c) := hsame ▸ PrimType.read_mem ho c
  by_cases hu1 : opndType = .u1
  · subst hu1
    have hbits : PrimType.u1.actualBitSize = 1 := rfl
    have hcvt (v : Int) : PrimType.u1.cvt v = if v = 0 then 0 else 1 := rfl
    have hbool : 0 ≤ t.read c ∧ t.read c ≤ 1 := hmem
    have hzero : c = 0 ↔ t.read c = 0 := by
      have hread : t.read 0 = 0 := by
        rw [PrimType.read_eq_cvt ht, Int64.toInt_zero, PrimType.cvt_eq_self_iff]
        exact ⟨t.format.minValue_nonpos, t.format.maxValue_nonneg⟩
      have hin : t.InType 0 := by
        rw [PrimType.inType_iff_mem_of_nonneg ht (by rfl)]
        exact ⟨t.format.minValue_nonpos, t.format.maxValue_nonneg⟩
      rw [← PrimType.read_inj hc hin, hread]
    by_cases htu1 : t = .u1
    · subst htu1
      refine iff_of_false ?_ (by omega)
      rintro ⟨v, hv, hne, heq⟩
      have hv' : 0 ≤ v ∧ v ≤ 1 := hv
      rw [hcvt] at heq
      split_ifs at heq <;> omega
    · have hwide := PrimType.two_le_maxValue ht htu1
      rw [hbits, hzero]
      constructor
      · rintro ⟨v, -, hne, heq⟩
        refine ⟨hwide.2, ?_⟩
        rintro ⟨-, h0⟩
        rw [hcvt, h0] at heq
        split_ifs at heq <;> omega
      · rintro ⟨-, hne⟩
        have h0 : t.read c ≠ 0 := fun h => hne ⟨rfl, h⟩
        have hmin := t.format.minValue_nonpos
        refine ⟨2, ⟨by omega, hwide.1⟩, by omega, ?_⟩
        rw [hcvt, if_neg (by decide)]
        omega
  · have hcvt (v : Int) : opndType.cvt v = opndType.format.wrap v := by
      rw [PrimType.cvt, if_neg hu1]
    have hwrap := opndType.format.wrap_of_mem hmem
    have hread := PrimType.read_mem ht c
    simp only [hu1, false_and, not_false_eq_true, and_true, hcvt]
    constructor
    · rintro ⟨v, hv, hne, heq⟩
      by_contra hle
      exact hne (IntFormat.wrap_inj_of_width_le (not_lt.mp hle) hv hread (heq.trans hwrap.symm))
    · intro hlt
      have hwidth : opndType.format.width < t.format.width := hlt
      obtain ⟨v, hv, hne, heq⟩ := IntFormat.exists_wrap_eq_of_width_lt hwidth hread
      exact ⟨v, hv, hne, heq.trans hwrap⟩

/-- A `kNotEqual` range and a `kEqual` one with the same value in the operand type, where the
former has further values that become this value. -/
def ExcludedValueReappears (notEqualRange equalRange : ValueRange Var) (opndType : PrimType) :
    Prop :=
  match notEqualRange.range, equalRange.range with
  | .notEqual b, .equal b' =>
    opndType.isNeeded ∧ isUnchanged b opndType ∧ isUnchanged b' opndType ∧
      opndType.read b.constant = opndType.read b'.constant ∧
      opndType.actualBitSize < b.primType.actualBitSize ∧ ¬ (opndType = .u1 ∧ b.constant = 0)
  | _, _ => False

omit [DecidableEq Var] in
lemma eval_ne_iff_of_notEqual {tl tr opndType : PrimType} (hl : tl.isNeeded) (hr : tr.isNeeded)
    (ho : opndType.isNeeded) {b b' : Bound Var} (hb : b.OfType tl) (hb' : b'.OfType tr)
    (hvar : b.var = none) (hvar' : b'.var = none) (hun : isUnchanged b opndType)
    (hun' : isUnchanged b' opndType)
    (heq : opndType.read b.constant = opndType.read b'.constant) :
    (∀ v, tl.format.Mem v → v ≠ tl.read b.constant →
      opndType.cvt v ≠ opndType.cvt (tr.read b'.constant)) ↔
    ¬ (opndType.actualBitSize < tl.actualBitSize ∧ ¬ (opndType = .u1 ∧ b.constant = 0)) := by
  rw [isUnchanged_iff hl ho hb hvar] at hun
  rw [isUnchanged_iff hr ho hb' hvar'] at hun'
  have hw : opndType.cvt (tr.read b'.constant) = tl.read b.constant := by
    rw [← hun', ← hun, heq, PrimType.cvt_eq_self_iff]
    exact PrimType.read_mem ho _
  rw [← exists_cvt_eq_iff hl ho (hb.inType hvar) hun, hw]
  simp only [not_exists, not_and, ne_eq]

omit [DecidableEq Var] in
lemma isGreaterThan_self (b : Bound Var) (t : PrimType) : b.isGreaterThan b t = false := by
  rw [Bound.isGreaterThan, Bound.compare_eq]
  simp [CmpOp.eval]

lemma brStmtInRange_of_points (find : Var → Option (ValueRange Var)) {left right : ValueRange Var}
    {b b' : Bound Var} (op : CmpOp) (opndType : PrimType)
    (hl : left.getLower = b ∧ left.getUpper = b) (hr : right.getLower = b' ∧ right.getUpper = b')
    (hlside : left.isOneSided = false) (hrside : right.isOneSided = false)
    (hvar : b.var = none) (hvar' : b'.var = none) :
    brStmtInRange find left right op opndType =
      (opndType.isNeeded && isUnchanged b opndType && isUnchanged b' opndType &&
        brStmtDecision left right op opndType) := by
  unfold brStmtInRange ValueRange.isInvalidVR
  simp only [hl, hr, hlside, hrside, hvar, hvar', isGreaterThan_self, bne_self_eq_false,
    Bool.or_false, Bool.false_eq_true, ↓reduceIte]
  cases opndType.isNeeded <;> cases isUnchanged b opndType <;> cases isUnchanged b' opndType <;>
    simp

/-- When `BrStmtInRange` is right about two ranges. -/
def DecisionSound (find : Var → Option (ValueRange Var)) (left right : ValueRange Var) (op : CmpOp)
    (opndType : PrimType) : Prop :=
  brStmtInRange find left right op opndType = true →
    ∀ env v w, left.Contains env v → right.Contains env w →
      op.eval (opndType.cvt v) (opndType.cvt w) = true

/-- The two ranges are the value that one excludes and the other has. -/
def SameValue (b b' : Bound Var) (opndType : PrimType) : Prop :=
  opndType.isNeeded ∧ isUnchanged b opndType ∧ isUnchanged b' opndType ∧
    opndType.read b.constant = opndType.read b'.constant

lemma brStmtInRange_notEqual_iff (find : Var → Option (ValueRange Var)) {b b' : Bound Var}
    (hvar : b.var = none) (hvar' : b'.var = none) {left right : ValueRange Var}
    (hleft : left.range = .notEqual b) (hright : right.range = .equal b') (op : CmpOp)
    (opndType : PrimType) :
    (brStmtInRange find left right op opndType = true ↔ op = .ne ∧ SameValue b b' opndType) ∧
    (brStmtInRange find right left op opndType = true ↔ op = .ne ∧ SameValue b b' opndType) := by
  have hl : left.getLower = b ∧ left.getUpper = b := by
    simp [ValueRange.getLower, ValueRange.getUpper, hleft]
  have hr : right.getLower = b' ∧ right.getUpper = b' := by
    simp [ValueRange.getLower, ValueRange.getUpper, hright]
  have hlside : left.isOneSided = false := by simp [ValueRange.isOneSided, hleft]
  have hrside : right.isOneSided = false := by simp [ValueRange.isOneSided, hright]
  rw [brStmtInRange_of_points find op opndType hl hr hlside hrside hvar hvar',
    brStmtInRange_of_points find op opndType hr hl hrside hlside hvar' hvar]
  have hdec (hb : isUnchanged b opndType) (hb' : isUnchanged b' opndType) :
      b.isEqual b' opndType = decide (opndType.read b.constant = opndType.read b'.constant) ∧
      b'.isEqual b opndType = decide (opndType.read b.constant = opndType.read b'.constant) := by
    rw [Bound.isEqual, Bound.isEqual, compare_of_isUnchanged _ hb hb',
      compare_of_isUnchanged _ hb' hb]
    constructor
    · rfl
    · exact decide_eq_decide.mpr eq_comm
  unfold SameValue
  cases hneeded : opndType.isNeeded <;> cases hb : isUnchanged b opndType <;>
    cases hb' : isUnchanged b' opndType <;> simp
  cases op <;>
    simp [brStmtDecision, ValueRange.isNotEqual, ValueRange.isEqualKind, hleft, hright, hl, hr,
      hdec hb hb']

lemma decisionSound_of_notEqual_of_equal {find : Var → Option (ValueRange Var)}
    {tl tr : PrimType} (hl : tl.isNeeded) (hr : tr.isNeeded) {b b' : Bound Var}
    (hb : b.OfType tl) (hb' : b'.OfType tr) (hvar : b.var = none) (hvar' : b'.var = none)
    {left right : ValueRange Var} (hleft : left.range = .notEqual b)
    (hright : right.range = .equal b') (op : CmpOp) (opndType : PrimType) :
    (DecisionSound find left right op opndType ↔
      ¬ (op = .ne ∧ ExcludedValueReappears left right opndType)) ∧
    (DecisionSound find right left op opndType ↔
      ¬ (op = .ne ∧ ExcludedValueReappears left right opndType)) := by
  have hiff := brStmtInRange_notEqual_iff find hvar hvar' hleft hright op opndType
  have hbad : ExcludedValueReappears left right opndType ↔ SameValue b b' opndType ∧
      opndType.actualBitSize < tl.actualBitSize ∧ ¬ (opndType = .u1 ∧ b.constant = 0) := by
    simp only [ExcludedValueReappears, hleft, hright, SameValue, hb.primType_eq, and_assoc]
  unfold DecisionSound
  rw [hiff.1, hiff.2, hbad]
  by_cases hdecided : op = .ne ∧ SameValue b b' opndType
  · obtain ⟨rfl, hsame⟩ := hdecided
    have hne := eval_ne_iff_of_notEqual hl hr hsame.1 hb hb' hvar hvar' hsame.2.1 hsame.2.2.1
      hsame.2.2.2
    simp only [hsame, true_and, and_true, forall_true_left]
    rw [← hne]
    have hlval (env : Var → Int) (v : Int) : left.Contains env v ↔
        tl.format.Mem v ∧ v ≠ tl.read b.constant := by
      simp [ValueRange.Contains, ValueRange.Within, ValueRange.getPrimType, ValueRange.getBound,
        hleft, hb.primType_eq, hb.value_eq_read hvar]
    have hrval (env : Var → Int) (w : Int) : right.Contains env w ↔
        tr.format.Mem w ∧ w = tr.read b'.constant := by
      simp [ValueRange.Contains, ValueRange.Within, ValueRange.getPrimType, ValueRange.getBound,
        hright, hb'.primType_eq, hb'.value_eq_read hvar']
    have hmem := PrimType.read_mem hr b'.constant
    simp only [hlval, hrval, CmpOp.eval, bne_iff_ne, ne_eq]
    constructor
    · constructor
      · intro h v hv hvne
        exact h (fun _ => 0) v _ ⟨hv, hvne⟩ ⟨hmem, rfl⟩
      · rintro h - v w ⟨hv, hvne⟩ ⟨-, rfl⟩
        exact h v hv hvne
    · constructor
      · intro h v hv hvne heq
        exact h (fun _ => 0) _ v ⟨hmem, rfl⟩ ⟨hv, hvne⟩ heq.symm
      · rintro h - w v ⟨-, rfl⟩ ⟨hv, hvne⟩ heq
        exact h v hv hvne heq.symm
  · have hno : ¬ (op = .ne ∧ SameValue b b' opndType ∧
        opndType.actualBitSize < tl.actualBitSize ∧ ¬ (opndType = .u1 ∧ b.constant = 0)) :=
      fun h => hdecided ⟨h.1, h.2.1⟩
    simp only [hdecided, false_implies, hno, not_false_eq_true, and_self]

/-- The comparison is `ne` and one range excludes a value that the conversion brings back. -/
def DecisionUnsafe (left right : ValueRange Var) (opndType : PrimType) : Prop :=
  ExcludedValueReappears left right opndType ∨ ExcludedValueReappears right left opndType

omit [DecidableEq Var] [Target] in
lemma isEqualKind_of_isNotEqual {vr : ValueRange Var} (h : vr.isNotEqual = true) :
    vr.isEqualKind = false := by
  obtain ⟨range, _, _⟩ := vr
  cases range <;> simp_all [ValueRange.isNotEqual, ValueRange.isEqualKind]

omit [DecidableEq Var] in
lemma brStmtDecision_of_isNotEqual {left right : ValueRange Var}
    (h : left.isNotEqual = true ∧ right.isEqualKind = false ∨
      left.isEqualKind = false ∧ right.isNotEqual = true) (op : CmpOp) (opndType : PrimType) :
    brStmtDecision left right op opndType = false := by
  rcases h with ⟨hl, hr⟩ | ⟨hl, hr⟩
  · have hl' := isEqualKind_of_isNotEqual hl
    cases op <;> simp [brStmtDecision, hl, hr, hl']
  · have hr' := isEqualKind_of_isNotEqual hr
    cases op <;> simp [brStmtDecision, hl, hr, hr']

omit [DecidableEq Var] in
lemma not_excludedValueReappears {left right : ValueRange Var}
    (h : left.isNotEqual = false ∨ right.isEqualKind = false) (opndType : PrimType) :
    ¬ ExcludedValueReappears left right opndType := by
  obtain ⟨lrange, _, _⟩ := left
  obtain ⟨rrange, _, _⟩ := right
  cases lrange <;> cases rrange <;>
    simp_all [ExcludedValueReappears, ValueRange.isNotEqual, ValueRange.isEqualKind]

omit [DecidableEq Var] [Target] in
lemma exists_of_isNotEqual {vr : ValueRange Var} (h : vr.isNotEqual = true) :
    ∃ b, vr.range = .notEqual b := by
  obtain ⟨range, _, _⟩ := vr
  cases range <;> simp_all [ValueRange.isNotEqual]

omit [DecidableEq Var] [Target] in
lemma exists_of_isEqualKind {vr : ValueRange Var} (h : vr.isEqualKind = true) :
    ∃ b, vr.range = .equal b ∧ vr.isNotEqual = false := by
  obtain ⟨range, _, _⟩ := vr
  cases range <;> simp_all [ValueRange.isNotEqual, ValueRange.isEqualKind]

omit [DecidableEq Var] in
lemma bound_of_isConstantRange {vr : ValueRange Var} {t : PrimType} {b : Bound Var}
    (hrange : vr.range = .notEqual b ∨ vr.range = .equal b) (hconst : vr.isConstantRange)
    (htype : vr.OfType t) : b.OfType t ∧ b.var = none := by
  rcases hrange with hrange | hrange <;>
    simp_all [ValueRange.OfType, ValueRange.isConstantRange]

lemma decisionSound_iff (find : Var → Option (ValueRange Var)) {tl tr : PrimType}
    (hl : tl.isNeeded) (hr : tr.isNeeded) {left right : ValueRange Var}
    (hlconst : left.isConstantRange) (hrconst : right.isConstantRange) (hltype : left.OfType tl)
    (hrtype : right.OfType tr) (op : CmpOp) (opndType : PrimType) :
    DecisionSound find left right op opndType ↔
      ¬ (op = .ne ∧ DecisionUnsafe left right opndType) := by
  -- a decision that is never made is right
  have hnever (hdec : brStmtDecision left right op opndType = false) :
      DecisionSound find left right op opndType := by
    intro hin
    rw [(comparable_of_brStmtInRange hin).2] at hdec
    cases hdec
  have hnotUnsafe (h : (left.isNotEqual = false ∨ right.isEqualKind = false) ∧
      (right.isNotEqual = false ∨ left.isEqualKind = false)) :
      ¬ DecisionUnsafe left right opndType := by
    rintro (hbad | hbad)
    · exact not_excludedValueReappears h.1 opndType hbad
    · exact not_excludedValueReappears h.2 opndType hbad
  cases hlne : left.isNotEqual with
  | true =>
    have hleq := isEqualKind_of_isNotEqual hlne
    cases hreq : right.isEqualKind with
    | true =>
      obtain ⟨b, hleft⟩ := exists_of_isNotEqual hlne
      obtain ⟨b', hright, hrne⟩ := exists_of_isEqualKind hreq
      obtain ⟨hb, hvar⟩ := bound_of_isConstantRange (Or.inl hleft) hlconst hltype
      obtain ⟨hb', hvar'⟩ := bound_of_isConstantRange (Or.inr hright) hrconst hrtype
      rw [(decisionSound_of_notEqual_of_equal hl hr hb hb' hvar hvar' hleft hright op opndType).1]
      simp [DecisionUnsafe, not_excludedValueReappears (Or.inl hrne) opndType]
    | false =>
      refine iff_of_true (hnever (brStmtDecision_of_isNotEqual (Or.inl ⟨hlne, hreq⟩) op opndType)) ?_
      exact fun h => hnotUnsafe ⟨Or.inr hreq, Or.inr hleq⟩ h.2
  | false =>
    cases hrne : right.isNotEqual with
    | true =>
      cases hleq : left.isEqualKind with
      | true =>
        obtain ⟨b, hright⟩ := exists_of_isNotEqual hrne
        obtain ⟨b', hleft, -⟩ := exists_of_isEqualKind hleq
        obtain ⟨hb, hvar⟩ := bound_of_isConstantRange (Or.inl hright) hrconst hrtype
        obtain ⟨hb', hvar'⟩ := bound_of_isConstantRange (Or.inr hleft) hlconst hltype
        rw [(decisionSound_of_notEqual_of_equal hr hl hb hb' hvar hvar' hright hleft op opndType).2]
        simp [DecisionUnsafe, not_excludedValueReappears (Or.inl hlne) opndType]
      | false =>
        refine iff_of_true
          (hnever (brStmtDecision_of_isNotEqual (Or.inr ⟨hleq, hrne⟩) op opndType)) ?_
        exact fun h => hnotUnsafe ⟨Or.inl hlne, Or.inr hleq⟩ h.2
    | false =>
      refine iff_of_true ?_ (fun h => hnotUnsafe ⟨Or.inl hlne, Or.inl hrne⟩ h.2)
      intro hin env v w hv hw
      obtain ⟨hcomp, hdec⟩ := comparable_of_brStmtInRange hin
      exact eval_of_brStmtDecision hl hr hlconst hrconst hltype hrtype hcomp hlne hrne hdec hv hw

lemma brStmtInRange_eq_of_decisionUnsafe (find : Var → Option (ValueRange Var))
    {left right : ValueRange Var} {opndType : PrimType} (h : DecisionUnsafe left right opndType) :
    brStmtInRange find left right .eq opndType = false := by
  by_contra hin
  rw [Bool.not_eq_false] at hin
  have hdec := (comparable_of_brStmtInRange hin).2
  have hne : left.isNotEqual = true ∨ right.isNotEqual = true := by
    by_contra hnone
    simp only [not_or, Bool.not_eq_true] at hnone
    rcases h with h | h
    · exact not_excludedValueReappears (Or.inl hnone.1) opndType h
    · exact not_excludedValueReappears (Or.inl hnone.2) opndType h
  rcases hne with hne | hne <;> simp [brStmtDecision, hne] at hdec

/-- `BrStmtInRange` decides a comparison rightly exactly when no excluded value reappears in the
operand type, and the branches that `DealWithCondGoto` removes for it are unreachable exactly
then. -/
theorem brStmtInRange_sound_iff (find : Var → Option (ValueRange Var)) {tl tr : PrimType}
    (hl : tl.isNeeded) (hr : tr.isNeeded) {left right : ValueRange Var}
    (hlconst : left.isConstantRange) (hrconst : right.isConstantRange) (hltype : left.OfType tl)
    (hrtype : right.OfType tr) (op : CmpOp) (opndType : PrimType) :
    ((brStmtInRange find left right op opndType = true →
      ∀ env v w, left.Contains env v → right.Contains env w →
        op.eval (opndType.cvt v) (opndType.cvt w) = true) ↔
      ¬ (op = .ne ∧ DecisionUnsafe left right opndType)) ∧
    ((∀ branch, unreachableBranch false find (some left) right op opndType = some branch →
      ∀ env v w, left.Contains env v → right.Contains env w →
        op.eval (opndType.cvt v) (opndType.cvt w) ≠ branch) ↔
      ¬ ((op = .eq ∨ op = .ne) ∧ DecisionUnsafe left right opndType)) := by
  have hop := decisionSound_iff find hl hr hlconst hrconst hltype hrtype op opndType
  have hanti := decisionSound_iff find hl hr hlconst hrconst hltype hrtype op.opposite opndType
  refine ⟨hop, ?_⟩
  have hsplit : (∀ branch, unreachableBranch false find (some left) right op opndType = some branch →
      ∀ env v w, left.Contains env v → right.Contains env w →
        op.eval (opndType.cvt v) (opndType.cvt w) ≠ branch) ↔
      DecisionSound find left right op opndType ∧
        (brStmtInRange find left right op opndType = false →
          DecisionSound find left right op.opposite opndType) := by
    unfold DecisionSound unreachableBranch
    cases hin : brStmtInRange find left right op opndType <;>
      cases hin' : brStmtInRange find left right op.opposite opndType <;> simp [hin, hin']
  rw [hsplit, hop, hanti]
  cases op with
  | eq =>
    constructor
    · rintro ⟨-, hne⟩ ⟨-, hbad⟩
      exact hne (brStmtInRange_eq_of_decisionUnsafe find hbad) ⟨rfl, hbad⟩
    · intro h
      exact ⟨fun hne => h ⟨Or.inl rfl, hne.2⟩, fun _ hne => h ⟨Or.inl rfl, hne.2⟩⟩
  | ne =>
    simp [CmpOp.opposite]
  | lt => simp [CmpOp.opposite]
  | le => simp [CmpOp.opposite]
  | gt => simp [CmpOp.opposite]
  | ge => simp [CmpOp.opposite]

/-- A `kNotEqual` range of type `i32` and a constant of type `u8`. -/
def i32NotFive : ValueRange Nat := { range := .notEqual ⟨none, 5, .i32⟩ }

def u8Five : ValueRange Nat := { range := .equal ⟨none, 5, .u8⟩ }

def u8ThreeToFour : ValueRange Nat := { range := .lowerAndUpper ⟨none, 3, .u8⟩ ⟨none, 4, .u8⟩ }

omit [DecidableEq Var] [Target] in
theorem brStmtInRange_u8ThreeToFour :
    letI := Target.lp64
    brStmtInRange (fun _ => none) u8ThreeToFour u8Five .lt .i32 = true ∧
    ∀ env v w, u8ThreeToFour.Contains env v → u8Five.Contains env w →
      CmpOp.lt.eval (PrimType.i32.cvt v) (PrimType.i32.cvt w) = true := by
  let _ := Target.lp64
  have hin : brStmtInRange (fun _ => none) u8ThreeToFour u8Five .lt .i32 = true := by
    decide +kernel
  have hleft : u8ThreeToFour.OfType .u8 :=
    ⟨⟨rfl, fun _ => by decide⟩, ⟨rfl, fun _ => by decide⟩⟩
  have hright : u8Five.OfType .u8 := ⟨rfl, fun _ => by decide⟩
  refine ⟨hin, ?_⟩
  exact (brStmtInRange_sound_iff (fun _ => none) rfl rfl rfl rfl hleft hright .lt .i32).1.mpr
    (by simp) hin

omit [DecidableEq Var] [Target] in
/-- The comparison `x != 5` in type `u8` is taken to be true for an `i32` operand that is not `5`,
and it is false for `261`. -/
theorem brStmtInRange_i32NotFive :
    letI := Target.lp64
    brStmtInRange (fun _ => none) i32NotFive u8Five .ne .u8 = true ∧
    i32NotFive.Contains (fun _ => 0) 261 ∧ u8Five.Contains (fun _ => 0) 5 ∧
    CmpOp.ne.eval (PrimType.u8.cvt 261) (PrimType.u8.cvt 5) = false := by
  let _ := Target.lp64
  refine ⟨by decide +kernel, ⟨⟨by decide, by decide⟩, ?_⟩, ⟨⟨by decide, by decide⟩, ?_⟩, by decide⟩
  · change (261 : Int) ≠ PrimType.i32.read 5
    decide
  · change (5 : Int) = PrimType.u8.read 5
    decide

end ValueRangePropagation
end Maple
