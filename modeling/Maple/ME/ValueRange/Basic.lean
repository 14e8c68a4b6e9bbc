import Maple.ME.ValueRange.Bound

/-!
# Value ranges

A value range is a set of values of a type, given by one or two bounds.
-/

namespace Maple

/-- The kinds of ranges that the propagation creates, with their bounds. -/
inductive Range (Var : Type) where
  | lowerAndUpper (lower upper : Bound Var)
  | onlyHasLowerBound (bound : Bound Var)
  | onlyHasUpperBound (bound : Bound Var)
  | notEqual (bound : Bound Var)
  | equal (bound : Bound Var)
  deriving DecidableEq, Repr

structure ValueRange (Var : Type) where
  range : Range Var
  stride : Int64 := 0
  isAccurate : Bool := false
  deriving DecidableEq, Repr

namespace ValueRange

variable {Var : Type}

/-- `ValueRange::GetBound`. A single bound is stored in the place of the lower one of a pair. -/
def getBound (vr : ValueRange Var) : Bound Var :=
  match vr.range with
  | .lowerAndUpper lower _ => lower
  | .onlyHasLowerBound b | .onlyHasUpperBound b | .notEqual b | .equal b => b

def getPrimType (vr : ValueRange Var) : PrimType := vr.getBound.primType

def getUpper [Target] (vr : ValueRange Var) : Bound Var :=
  match vr.range with
  | .lowerAndUpper _ upper => upper
  | .onlyHasUpperBound b | .equal b | .notEqual b => b
  | .onlyHasLowerBound b => Bound.maxBound b.primType

def getLower [Target] (vr : ValueRange Var) : Bound Var :=
  match vr.range with
  | .lowerAndUpper lower _ => lower
  | .onlyHasLowerBound b | .equal b | .notEqual b => b
  | .onlyHasUpperBound b => Bound.minBound b.primType

def isConstantLowerAndUpper (vr : ValueRange Var) : Bool :=
  match vr.range with
  | .equal b => b.var.isNone
  | .lowerAndUpper lower upper => lower.var.isNone && upper.var.isNone
  | _ => false

/-- `ValueRange::IsConstantRange`, which has the body of `IsConstantBoundOrLowerAndUpper`. -/
def isConstantRange (vr : ValueRange Var) : Bool :=
  match vr.range with
  | .equal b | .notEqual b => b.var.isNone
  | .lowerAndUpper lower upper => lower.var.isNone && upper.var.isNone
  | _ => false

def isConstant (vr : ValueRange Var) (exceptNotEqual : Bool := false) : Bool :=
  match vr.range with
  | .equal b => b.var.isNone
  | .notEqual b => !exceptNotEqual && b.var.isNone
  | .lowerAndUpper lower upper =>
    lower.var.isNone && upper.var.isNone && lower.constant == upper.constant
  | _ => false

def isNotConstantVR [Target] (vr : ValueRange Var) : Bool :=
  vr.getLower.var.isSome || vr.getUpper.var.isSome

def isInvalidVR [Target] (vr : ValueRange Var) : Bool :=
  vr.getLower.isGreaterThan vr.getUpper vr.getPrimType

/-- The range type is `kNotEqual`. -/
def isNotEqual (vr : ValueRange Var) : Bool :=
  match vr.range with
  | .notEqual _ => true
  | _ => false

/-- The range type is `kEqual`. -/
def isEqualKind (vr : ValueRange Var) : Bool :=
  match vr.range with
  | .equal _ => true
  | _ => false

/-- The range type is `kOnlyHasLowerBound` or `kOnlyHasUpperBound`. -/
def isOneSided (vr : ValueRange Var) : Bool :=
  match vr.range with
  | .onlyHasLowerBound _ | .onlyHasUpperBound _ => true
  | _ => false

/-! ### Meaning -/

/-- The values that the bounds of a range leave. -/
def Within [Target] (env : Var → Int) (vr : ValueRange Var) (v : Int) : Prop :=
  match vr.range with
  | .lowerAndUpper lower upper => lower.value env ≤ v ∧ v ≤ upper.value env
  | .onlyHasLowerBound b => b.value env ≤ v
  | .onlyHasUpperBound b => v ≤ b.value env
  | .notEqual b => v ≠ b.value env
  | .equal b => v = b.value env

/-- The values of a range: those of its type that the bounds leave. -/
def Contains [Target] (env : Var → Int) (vr : ValueRange Var) (v : Int) : Prop :=
  vr.getPrimType.format.Mem v ∧ vr.Within env v

/-- All bounds are bounds of the type `t`. -/
def OfType [Target] (vr : ValueRange Var) (t : PrimType) : Prop :=
  match vr.range with
  | .lowerAndUpper lower upper => lower.OfType t ∧ upper.OfType t
  | .onlyHasLowerBound b | .onlyHasUpperBound b | .notEqual b | .equal b => b.OfType t

/-- All bounds have the primitive type `t`. -/
def HasType (vr : ValueRange Var) (t : PrimType) : Prop :=
  match vr.range with
  | .lowerAndUpper lower upper => lower.primType = t ∧ upper.primType = t
  | .onlyHasLowerBound b | .onlyHasUpperBound b | .notEqual b | .equal b => b.primType = t

lemma OfType.hasType [Target] {vr : ValueRange Var} {t : PrimType} (h : vr.OfType t) :
    vr.HasType t := by
  obtain ⟨range, _, _⟩ := vr
  cases range with
  | lowerAndUpper lower upper => exact ⟨h.1.primType_eq, h.2.primType_eq⟩
  | onlyHasLowerBound b => exact h.primType_eq
  | onlyHasUpperBound b => exact h.primType_eq
  | notEqual b => exact h.primType_eq
  | equal b => exact h.primType_eq

lemma HasType.getPrimType_eq {vr : ValueRange Var} {t : PrimType} (h : vr.HasType t) :
    vr.getPrimType = t := by
  obtain ⟨range, _, _⟩ := vr
  cases range with
  | lowerAndUpper lower upper => exact h.1
  | onlyHasLowerBound b => exact h
  | onlyHasUpperBound b => exact h
  | notEqual b => exact h
  | equal b => exact h

lemma OfType.getPrimType_eq [Target] {vr : ValueRange Var} {t : PrimType} (h : vr.OfType t) :
    vr.getPrimType = t :=
  h.hasType.getPrimType_eq

/-- The values of a range other than a `kNotEqual` one are between its ends; for a one-sided range
the other end is the limit of the type. -/
lemma ends_of_within [Target] {vr : ValueRange Var} {t : PrimType} (hn : t.isNeeded)
    (htype : vr.HasType t) (hne : vr.isNotEqual = false) {env : Var → Int} {v : Int}
    (hmem : t.format.Mem v) (hv : vr.Within env v) :
    vr.getLower.value env ≤ v ∧ v ≤ vr.getUpper.value env ∧
      vr.getLower.primType = t ∧ vr.getUpper.primType = t := by
  obtain ⟨range, _, _⟩ := vr
  cases range with
  | notEqual b => cases hne
  | equal b =>
    have heq : v = b.value env := hv
    exact ⟨heq.ge, heq.le, htype, htype⟩
  | lowerAndUpper lower upper => exact ⟨hv.1, hv.2, htype.1, htype.2⟩
  | onlyHasLowerBound b =>
    have hb : b.primType = t := htype
    subst hb
    have hmax : (Bound.maxBound b.primType : Bound Var).value env = b.primType.format.maxValue :=
      (PrimType.maxNumber_spec hn).2
    exact ⟨hv, hmax.symm ▸ hmem.2, rfl, rfl⟩
  | onlyHasUpperBound b =>
    have hb : b.primType = t := htype
    subst hb
    have hmin : (Bound.minBound b.primType : Bound Var).value env = b.primType.format.minValue :=
      (PrimType.minNumber_spec hn).2
    exact ⟨hmin.symm ▸ hmem.1, hv, rfl, rfl⟩

/-- The ends of a constant range are constants of the type. -/
structure ConstantEnds [Target] (vr : ValueRange Var) (t : PrimType) : Prop where
  lower_var : vr.getLower.var = none
  upper_var : vr.getUpper.var = none
  lower_ofType : vr.getLower.OfType t
  upper_ofType : vr.getUpper.OfType t

lemma constantEnds [Target] {vr : ValueRange Var} {t : PrimType} (hconst : vr.isConstantRange)
    (htype : vr.OfType t) : vr.ConstantEnds t := by
  obtain ⟨range, stride, accurate⟩ := vr
  cases range with
  | onlyHasLowerBound b => cases hconst
  | onlyHasUpperBound b => cases hconst
  | equal b =>
    have hvar : b.var = none := Option.isNone_iff_eq_none.mp hconst
    exact ⟨hvar, hvar, htype, htype⟩
  | notEqual b =>
    have hvar : b.var = none := Option.isNone_iff_eq_none.mp hconst
    exact ⟨hvar, hvar, htype, htype⟩
  | lowerAndUpper lower upper =>
    obtain ⟨hl, hu⟩ : lower.var = none ∧ upper.var = none := by
      simpa [isConstantRange] using hconst
    exact ⟨hl, hu, htype.1, htype.2⟩

lemma between_of_within [Target] {vr : ValueRange Var} {t : PrimType}
    (hconst : vr.isConstantRange) (htype : vr.OfType t) (hne : vr.isNotEqual = false)
    {env : Var → Int} {v : Int} (hv : vr.Within env v) :
    t.read vr.getLower.constant ≤ v ∧ v ≤ t.read vr.getUpper.constant := by
  have hends := constantEnds hconst htype
  obtain ⟨range, stride, accurate⟩ := vr
  cases range with
  | onlyHasLowerBound b => cases hconst
  | onlyHasUpperBound b => cases hconst
  | notEqual b => cases hne
  | equal b =>
    have hval : b.value env = t.read b.constant :=
      hends.lower_ofType.value_eq_read hends.lower_var env
    have heq : v = b.value env := hv
    rw [heq, hval]
    exact ⟨le_refl _, le_refl _⟩
  | lowerAndUpper lower upper =>
    have hlower : lower.value env = t.read lower.constant :=
      htype.1.value_eq_read hends.lower_var env
    have hupper : upper.value env = t.read upper.constant :=
      htype.2.value_eq_read hends.upper_var env
    have hbounds : lower.value env ≤ v ∧ v ≤ upper.value env := hv
    rwa [hlower, hupper] at hbounds

end ValueRange
end Maple
