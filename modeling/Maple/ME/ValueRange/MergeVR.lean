import Maple.ME.ValueRange.Basic

/-!
# Merging value ranges

`MergeVR` combines the ranges of two conditions on one expression, and `GetCmpExprFromVR` builds one
condition from the result, which replaces two branches.
-/

namespace Maple

variable {Var : Type} [DecidableEq Var] [Target]

namespace Bound

def sameAs (a b : Bound Var) : Bool :=
  decide (a.var = b.var) && a.constant == b.constant &&
    (a.primType.actualBitSize == b.primType.actualBitSize &&
      a.primType.isSignedInteger == b.primType.isSignedInteger)

/-- `Bound::CanBeComparedWith` for ends of closed intervals; only ends with a variable are open. -/
def canBeComparedWith (a b : Bound Var) : Bool :=
  if a.primType ≠ b.primType then false
  else if a.var = b.var then true
  else (a.sameAs (minBound a.primType) || a.sameAs (maxBound a.primType)) ||
    (b.sameAs (minBound b.primType) || b.sameAs (maxBound b.primType))

def lt (a b : Bound Var) : Bool :=
  if !a.canBeComparedWith b then false
  else if a.sameAs b then false
  else if a.sameAs (maxBound a.primType) || b.sameAs (minBound a.primType) then false
  else if a.primType.isUnsigned && (a.var.isNone && b.var.isNone) then
    decide (a.constant.asUInt64 < b.constant.asUInt64)
  else decide (a.constant < b.constant)

def le (a b : Bound Var) : Bool :=
  if !a.canBeComparedWith b then false
  else if a.sameAs b then true
  else if a.sameAs (minBound a.primType) || b.sameAs (maxBound a.primType) then true
  else if a.primType.isUnsigned && (a.var.isNone && b.var.isNone) then
    decide (a.constant.asUInt64 ≤ b.constant.asUInt64)
  else decide (a.var = b.var) && decide (a.constant ≤ b.constant)

def inc (a : Bound Var) : Bound Var := { a with constant := a.constant + 1 }

def dec (a : Bound Var) : Bound Var := { a with constant := a.constant - 1 }

def max (a b : Bound Var) : Bound Var := if a.lt b then b else a

def min (a b : Bound Var) : Bound Var := if b.lt a then b else a

end Bound

/-- The ranges that `MergeVR` returns: those of the propagation, `kRTEmpty` and `kRTComplete`. -/
inductive MergedRange (Var : Type) where
  | empty
  | complete
  | range (vr : ValueRange Var)
  deriving DecidableEq, Repr

namespace MergedRange

/-- `kEqual`, without a stride. -/
def equal (b : Bound Var) : MergedRange Var := .range { range := .equal b }

def notEqual (b : Bound Var) : MergedRange Var := .range { range := .notEqual b }

def lowerAndUpper (lower upper : Bound Var) : MergedRange Var :=
  .range { range := .lowerAndUpper lower upper }

end MergedRange

namespace ValueRange

/-! ### MergeVR -/

/-- `MergeVR` of two `kLowerAndUpper` ranges. -/
def mergeBounds (lower1 upper1 lower2 upper2 : Bound Var) (intersect : Bool) :
    Option (MergedRange Var) :=
  if !lower1.canBeComparedWith lower2 || !upper1.canBeComparedWith upper2 ||
      !lower1.canBeComparedWith upper2 || !upper1.canBeComparedWith lower2 then none
  else if upper2.lt lower1 || upper1.lt lower2 then
    if intersect then some .empty else none
  else if upper2.sameAs lower1 then
    if intersect then some (.equal lower1) else some (.lowerAndUpper lower2 upper1)
  else if upper1.sameAs lower2 then
    if intersect then some (.equal lower2) else some (.lowerAndUpper lower1 upper2)
  else if lower1.lt upper2 && lower2.lt upper1 then
    if intersect then some (.lowerAndUpper (lower1.max lower2) (upper1.min upper2))
    else some (.lowerAndUpper (lower1.min lower2) (upper1.max upper2))
  else none

/-- `MergeVR` of a `kLowerAndUpper` and a `kEqual` range. -/
def mergeBoundsEqual (lower1 upper1 bound : Bound Var) (intersect : Bool) :
    Option (MergedRange Var) :=
  if !lower1.canBeComparedWith bound || !upper1.canBeComparedWith bound then none
  else if lower1.le bound && bound.le upper1 then
    if intersect then some (.equal bound) else some (.lowerAndUpper lower1 upper1)
  else if bound.lt lower1 || upper1.lt bound then
    if intersect then some .empty else none
  else none

/-- `MergeVR` of a `kLowerAndUpper` and a `kNotEqual` range. -/
def mergeBoundsNotEqual (lower1 upper1 bound : Bound Var) (intersect : Bool) :
    Option (MergedRange Var) :=
  if !lower1.canBeComparedWith bound || !upper1.canBeComparedWith bound then none
  else if bound.lt lower1 || upper1.lt bound then
    if intersect then some (.lowerAndUpper lower1 upper1) else some (.notEqual bound)
  else if lower1.lt bound && bound.lt upper1 then
    if intersect then none else some .complete
  else if bound.sameAs lower1 then
    if intersect then some (.lowerAndUpper lower1.inc upper1) else some .complete
  else if bound.sameAs upper1 then
    if intersect then some (.lowerAndUpper lower1 upper1.dec) else some .complete
  else none

/-- `MergeVR` of two `kEqual` ranges. -/
def mergeEquals (b1 b2 : Bound Var) (intersect : Bool) : Option (MergedRange Var) :=
  if !b1.canBeComparedWith b2 then none
  else if b1.sameAs b2 then some (.equal b1)
  else if b1.lt b2 || b2.lt b1 then
    if intersect then some .empty else none
  else none

/-- `MergeVR` of a `kEqual` and a `kNotEqual` range. -/
def mergeEqualNotEqual (b1 b2 : Bound Var) (intersect : Bool) : Option (MergedRange Var) :=
  if !b1.canBeComparedWith b2 then none
  else if b1.sameAs b2 then
    if intersect then some .empty else some .complete
  else if b1.lt b2 || b2.lt b1 then
    if intersect then some (.equal b1) else some (.notEqual b2)
  else none

/-- `MergeVR` of two `kNotEqual` ranges. -/
def mergeNotEquals (b1 b2 : Bound Var) (intersect : Bool) : Option (MergedRange Var) :=
  if !b1.canBeComparedWith b2 then none
  else if b1.sameAs b2 then some (.notEqual b1)
  else if b1.lt b2 || b2.lt b1 then
    if intersect then none else some .complete
  else none

/-- `MergeVR`: the intersection or the union of two ranges, or none. -/
def mergeVR (vr1 vr2 : ValueRange Var) (intersect : Bool) : Option (MergedRange Var) :=
  match vr1.range, vr2.range with
  | .lowerAndUpper lower1 upper1, .lowerAndUpper lower2 upper2 =>
    mergeBounds lower1 upper1 lower2 upper2 intersect
  | .lowerAndUpper lower1 upper1, .equal bound => mergeBoundsEqual lower1 upper1 bound intersect
  | .lowerAndUpper lower1 upper1, .notEqual bound =>
    mergeBoundsNotEqual lower1 upper1 bound intersect
  | .equal b1, .lowerAndUpper lower upper =>
    -- `GetBound` of a pair is its lower end
    if !b1.canBeComparedWith lower then none else mergeBoundsEqual lower upper b1 intersect
  | .equal b1, .equal b2 => mergeEquals b1 b2 intersect
  | .equal b1, .notEqual b2 => mergeEqualNotEqual b1 b2 intersect
  | .notEqual b1, .lowerAndUpper lower upper => mergeBoundsNotEqual lower upper b1 intersect
  | .notEqual b1, .equal b2 => mergeEqualNotEqual b2 b1 intersect
  | .notEqual b1, .notEqual b2 => mergeNotEquals b1 b2 intersect
  | _, _ => none

end ValueRange

/-! ### GetCmpExprFromVR -/

/-- The expressions that `GetCmpExprFromVR` builds over the expression `expr` of the conditions. -/
inductive CmpExpr (Var : Type) where
  | expr
  | var (x : Var)
  | intConst (val : Int64) (primType : PrimType)
  | add (primType : PrimType) (opnd0 opnd1 : CmpExpr Var)
  | cmp (op : CmpOp) (opndType : PrimType) (opnd0 opnd1 : CmpExpr Var)
  | land (opnd0 opnd1 : CmpExpr Var)
  deriving DecidableEq, Repr

def Bound.getCmpExpr (b : Bound Var) (op : CmpOp) : CmpExpr Var :=
  match b.var with
  | none => .cmp op b.primType .expr (.intConst b.constant b.primType)
  | some x =>
    if b.constant = 0 then .cmp op b.primType .expr (.var x)
    else .cmp op b.primType .expr
      (.add b.primType (.var x) (.intConst b.constant b.primType))

/-- `GetCmpExprFromVR`, for ends of closed intervals. -/
def MergedRange.getCmpExpr : MergedRange Var → CmpExpr Var
  | .empty => .intConst 0 .u1
  | .complete => .intConst 1 .u1
  | .range vr =>
    match vr.range with
    | .lowerAndUpper lower upper =>
      if lower.sameAs (Bound.minBound lower.primType) then upper.getCmpExpr .le
      else if upper.sameAs (Bound.maxBound upper.primType) then lower.getCmpExpr .ge
      else .land (upper.getCmpExpr .le) (lower.getCmpExpr .ge)
    | .onlyHasLowerBound b => b.getCmpExpr .ge
    | .onlyHasUpperBound b => b.getCmpExpr .le
    | .notEqual b => b.getCmpExpr .ne
    | .equal b => b.getCmpExpr .eq

/-! ### Meaning -/

/-- The value of an expression; `v` is the value of `expr`. -/
def CmpExpr.eval (env : Var → Int) (v : Int) : CmpExpr Var → Int
  | .expr => v
  | .var x => env x
  | .intConst val t => t.format.wrap val.toInt
  | .add t a b => t.format.wrap (a.eval env v + b.eval env v)
  | .cmp op t a b =>
    if op.eval (t.format.wrap (a.eval env v)) (t.format.wrap (b.eval env v)) then 1 else 0
  | .land a b => if a.eval env v ≠ 0 ∧ b.eval env v ≠ 0 then 1 else 0

/-- The values of type `t` that a merged range denotes. -/
def MergedRange.Contains (env : Var → Int) (t : PrimType) : MergedRange Var → Int → Prop
  | .empty, _ => False
  | .complete, v => t.format.Mem v
  | .range vr, v => vr.Contains env v

namespace Bound

variable {t : PrimType} {a b : Bound Var}

lemma sameAs_iff (env : Var → Int) (ha : a.IsConst t) (hb : b.IsConst t) :
    a.sameAs b = true ↔ a.value env = b.value env := by
  rw [ha.value_eq env, hb.value_eq env, PrimType.read_inj ha.inType hb.inType]
  simp [sameAs, ha.var_eq, hb.var_eq, ha.ofType.primType_eq, hb.ofType.primType_eq]

lemma canBeComparedWith_of_isConst (ha : a.IsConst t) (hb : b.IsConst t) :
    a.canBeComparedWith b = true := by
  simp [canBeComparedWith, ha.var_eq, hb.var_eq, ha.ofType.primType_eq, hb.ofType.primType_eq]

omit [DecidableEq Var] in
lemma constant_lt_iff (env : Var → Int) (hn : t.isNeeded) (ha : a.IsConst t) (hb : b.IsConst t) :
    (if t.isUnsigned then decide (a.constant.asUInt64 < b.constant.asUInt64)
      else decide (a.constant < b.constant)) = true ↔ a.value env < b.value env := by
  rw [ha.value_eq env, hb.value_eq env]
  split_ifs with hu
  · have hui : t.isUnsignedInteger := by
      rcases t.signed_or_unsigned hn with ⟨hs, -⟩ | ⟨h, -⟩
      · simp [PrimType.isSignedInteger, hu] at hs
      · exact h
    rw [PrimType.read_of_isUnsignedInteger hn hui ha.inType,
      PrimType.read_of_isUnsignedInteger hn hui hb.inType]
    simp
  · have hs : t.isSignedInteger := by
      rcases t.signed_or_unsigned hn with ⟨h, -⟩ | ⟨h, -⟩
      · exact h
      · simp [PrimType.isUnsignedInteger, hu] at h
    have h64 := t.not_isUint64_of_isSignedInteger hs
    rw [PrimType.read_of_inType h64 ha.inType, PrimType.read_of_inType h64 hb.inType]
    simp [Int64.lt_iff_toInt_lt]

lemma lt_iff (env : Var → Int) (hn : t.isNeeded) (ha : a.IsConst t) (hb : b.IsConst t) :
    a.lt b = true ↔ a.value env < b.value env := by
  have hsame := sameAs_iff env ha hb
  have hmax := sameAs_iff env ha (isConst_maxBound hn)
  have hmin := sameAs_iff env hb (isConst_minBound hn)
  rw [value_maxBound env hn] at hmax
  rw [value_minBound env hn] at hmin
  have hlt := constant_lt_iff env hn ha hb
  have hamem := ha.mem env hn
  have hbmem := hb.mem env hn
  unfold IntFormat.Mem at hamem hbmem
  simp only [lt, canBeComparedWith_of_isConst ha hb, ha.ofType.primType_eq, ha.var_eq, hb.var_eq,
    Option.isNone_none, Bool.and_true, Bool.not_true, Bool.false_eq_true, if_false,
    Bool.or_eq_true, hsame, hmax, hmin]
  split_ifs with heq hlimit hu
  · simp only [false_iff]
    omega
  · simp only [false_iff]
    omega
  · rwa [if_pos hu] at hlt
  · rwa [if_neg hu] at hlt

omit [DecidableEq Var] in
lemma constant_le_iff (env : Var → Int) (hn : t.isNeeded) (ha : a.IsConst t) (hb : b.IsConst t) :
    (if t.isUnsigned then decide (a.constant.asUInt64 ≤ b.constant.asUInt64)
      else decide (a.constant ≤ b.constant)) = true ↔ a.value env ≤ b.value env := by
  have hlt := constant_lt_iff env hn hb ha
  rw [Iff.symm (not_lt (a := b.value env)), ← hlt]
  split_ifs
  · simp
  · simp [Int64.le_iff_toInt_le, Int64.lt_iff_toInt_lt]

lemma le_iff (env : Var → Int) (hn : t.isNeeded) (ha : a.IsConst t) (hb : b.IsConst t) :
    a.le b = true ↔ a.value env ≤ b.value env := by
  have hsame := sameAs_iff env ha hb
  have hmax := sameAs_iff env hb (isConst_maxBound hn)
  have hmin := sameAs_iff env ha (isConst_minBound hn)
  rw [value_maxBound env hn] at hmax
  rw [value_minBound env hn] at hmin
  have hle := constant_le_iff env hn ha hb
  have hamem := ha.mem env hn
  have hbmem := hb.mem env hn
  unfold IntFormat.Mem at hamem hbmem
  simp only [le, canBeComparedWith_of_isConst ha hb, ha.ofType.primType_eq, ha.var_eq, hb.var_eq,
    Option.isNone_none, Bool.and_true, Bool.not_true, Bool.false_eq_true, if_false,
    Bool.or_eq_true, hsame, hmax, hmin, decide_true, Bool.true_and]
  split_ifs with heq hlimit hu
  · simp only [true_iff]
    omega
  · simp only [true_iff]
    omega
  · rwa [if_pos hu] at hle
  · rwa [if_neg hu] at hle

lemma max_cases (env : Var → Int) (hn : t.isNeeded) (ha : a.IsConst t) (hb : b.IsConst t) :
    (a.max b).IsConst t ∧ (a.max b).value env = Max.max (a.value env) (b.value env) := by
  have hlt := lt_iff env hn ha hb
  unfold max
  split_ifs with h
  · exact ⟨hb, (max_eq_right (hlt.mp h).le).symm⟩
  · exact ⟨ha, (max_eq_left (not_lt.mp (mt hlt.mpr h))).symm⟩

lemma min_cases (env : Var → Int) (hn : t.isNeeded) (ha : a.IsConst t) (hb : b.IsConst t) :
    (a.min b).IsConst t ∧ (a.min b).value env = Min.min (a.value env) (b.value env) := by
  have hlt := lt_iff env hn hb ha
  unfold min
  split_ifs with h
  · exact ⟨hb, (min_eq_right (hlt.mp h).le).symm⟩
  · exact ⟨ha, (min_eq_left (not_lt.mp (mt hlt.mpr h))).symm⟩

end Bound

namespace PrimType

variable {t : PrimType} {c c' : Int64} {d : Int}

lemma modulus_dvd (hn : t.isNeeded) : (t.format.modulus : Int) ∣ 2 ^ 64 := by
  have hbits : t.actualBitSize ≤ 64 := by
    have hp : Target.pointerSize = 4 ∨ Target.pointerSize = 8 := Target.pointerSize_eq
    rcases hp with hp | hp <;> cases t <;> simp [isNeeded] at hn <;> simp [actualBitSize, size, hp]
  exact_mod_cast Nat.pow_dvd_pow 2 hbits

lemma read_shift (hn : t.isNeeded) (h1 : t ≠ u1)
    (h : (c'.asUInt64 : Int) = (c.toInt + d) % 2 ^ 64) :
    t.read c' = t.format.wrap (t.read c + d) := by
  have hdvd := modulus_dvd hn
  rw [Int64.asUInt64_eq] at h
  have hmod := congrArg (· % (t.format.modulus : Int)) h
  simp only [Int.emod_emod_of_dvd _ hdvd] at hmod
  rw [read_eq_cvt hn, read_eq_cvt hn, cvt, if_neg h1, cvt, if_neg h1, IntFormat.wrap_eq_wrap_iff,
    Int.add_emod, IntFormat.wrap_emod, ← Int.add_emod, hmod]

lemma inType_shift (hn : t.isNeeded) (hc : t.InType c)
    (h : (c'.asUInt64 : Int) = (c.toInt + d) % 2 ^ 64) (hmem : t.format.Mem (t.read c + d)) :
    t.InType c' := by
  by_cases hu : t.isUint64
  · exact inType_of_isUint64 hu c'
  · have hlimits := format_of_not_isUint64 hn hu
    rw [read_of_inType hu hc] at hmem
    have hto : c'.toInt = c.toInt + d := by
      rw [Int64.asUInt64_eq] at h
      have := c'.le_toInt
      have := c'.toInt_lt
      unfold IntFormat.Mem at hmem
      omega
    rwa [inType_iff_mem hn hu, hto]

end PrimType

namespace Bound

variable {t : PrimType} {a b : Bound Var} {env : Var → Int}

omit [DecidableEq Var] in
lemma value_inc (env : Var → Int) (hn : t.isNeeded) (h1 : t ≠ .u1) (ha : a.IsConst t) :
    a.inc.value env = t.format.wrap (a.value env + 1) := by
  have hvar : a.inc.var = none := ha.var_eq
  have htype : a.inc.primType = t := ha.ofType.primType_eq
  rw [ha.value_eq env, value_of_var_eq_none hvar, htype]
  exact PrimType.read_shift hn h1 (Int64.asUInt64_add a.constant 1)

omit [DecidableEq Var] in
lemma isConst_inc (hn : t.isNeeded) (ha : a.IsConst t) (hmem : t.format.Mem (a.value env + 1)) :
    a.inc.IsConst t := by
  rw [ha.value_eq env] at hmem
  exact ⟨ha.var_eq, ha.ofType.primType_eq,
    fun _ => PrimType.inType_shift hn ha.inType (Int64.asUInt64_add a.constant 1) hmem⟩

omit [DecidableEq Var] in
lemma value_dec (env : Var → Int) (hn : t.isNeeded) (h1 : t ≠ .u1) (ha : a.IsConst t) :
    a.dec.value env = t.format.wrap (a.value env - 1) := by
  have hvar : a.dec.var = none := ha.var_eq
  have htype : a.dec.primType = t := ha.ofType.primType_eq
  rw [ha.value_eq env, value_of_var_eq_none hvar, htype]
  exact PrimType.read_shift hn h1 (Int64.asUInt64_sub a.constant 1)

omit [DecidableEq Var] in
lemma isConst_dec (hn : t.isNeeded) (ha : a.IsConst t) (hmem : t.format.Mem (a.value env - 1)) :
    a.dec.IsConst t := by
  rw [ha.value_eq env] at hmem
  exact ⟨ha.var_eq, ha.ofType.primType_eq,
    fun _ => PrimType.inType_shift hn ha.inType (Int64.asUInt64_sub a.constant 1) hmem⟩

end Bound

namespace MergedRange

variable {t : PrimType} {a b : Bound Var} {env : Var → Int} {v : Int}

/-- All bounds are constants of the type. -/
def IsConst (t : PrimType) : MergedRange Var → Prop
  | .empty | .complete => True
  | .range vr => vr.isConstantRange ∧ vr.OfType t

omit [DecidableEq Var] in
lemma contains_equal (hb : b.IsConst t) :
    (equal b).Contains env t v ↔ t.format.Mem v ∧ v = b.value env := by
  rw [← hb.ofType.primType_eq]
  rfl

omit [DecidableEq Var] in
lemma contains_notEqual (hb : b.IsConst t) :
    (notEqual b).Contains env t v ↔ t.format.Mem v ∧ v ≠ b.value env := by
  rw [← hb.ofType.primType_eq]
  rfl

omit [DecidableEq Var] in
lemma contains_lowerAndUpper (ha : a.primType = t) :
    (lowerAndUpper a b).Contains env t v ↔
      t.format.Mem v ∧ a.value env ≤ v ∧ v ≤ b.value env := by
  rw [← ha]
  rfl

omit [DecidableEq Var] in
lemma isConst_equal (hb : b.IsConst t) : (equal b).IsConst t :=
  ⟨Option.isNone_iff_eq_none.mpr hb.var_eq, hb.ofType⟩

omit [DecidableEq Var] in
lemma isConst_notEqual (hb : b.IsConst t) : (notEqual b).IsConst t :=
  ⟨Option.isNone_iff_eq_none.mpr hb.var_eq, hb.ofType⟩

omit [DecidableEq Var] in
lemma isConst_lowerAndUpper (ha : a.IsConst t) (hb : b.IsConst t) :
    (lowerAndUpper a b).IsConst t :=
  ⟨by simp [ValueRange.isConstantRange, ha.var_eq, hb.var_eq], ha.ofType, hb.ofType⟩

end MergedRange

namespace ValueRange

variable {t : PrimType} {env : Var → Int} {r : MergedRange Var}

omit [DecidableEq Var] in
/-- The result denotes the intersection or the union of the two sets, by constants of the type. -/
def Exact (env : Var → Int) (t : PrimType) (intersect : Bool) (P Q : Int → Prop)
    (r : MergedRange Var) : Prop :=
  r.IsConst t ∧ ∀ v, r.Contains env t v ↔
    t.format.Mem v ∧ if intersect then P v ∧ Q v else P v ∨ Q v

/-! The results of each pair of kinds. -/

omit [DecidableEq Var] in
lemma Exact.swap {intersect : Bool} {P Q : Int → Prop} (h : Exact env t intersect P Q r) :
    Exact env t intersect Q P r := by
  refine ⟨h.1, ?_⟩
  intro v
  rw [h.2 v, and_comm (a := P v), or_comm (a := P v)]

section Merge

variable {lower1 upper1 lower2 upper2 b1 b2 : Bound Var} {intersect : Bool}

omit [DecidableEq Var] in
lemma exact_empty {P Q : Int → Prop} (h : ∀ v, ¬(P v ∧ Q v)) :
    Exact env t true P Q (.empty : MergedRange Var) := by
  refine ⟨trivial, ?_⟩
  intro v
  simpa [MergedRange.Contains] using fun _ hP hQ => h v ⟨hP, hQ⟩

omit [DecidableEq Var] in
lemma exact_complete {P Q : Int → Prop} (h : ∀ v, P v ∨ Q v) :
    Exact env t false P Q (.complete : MergedRange Var) := by
  refine ⟨trivial, ?_⟩
  intro v
  simp [MergedRange.Contains, h v]

omit [DecidableEq Var] in
lemma exact_equal {P Q : Int → Prop} (hb : b1.IsConst t)
    (h : ∀ v, v = b1.value env ↔ if intersect then P v ∧ Q v else P v ∨ Q v) :
    Exact env t intersect P Q (.equal b1) := by
  refine ⟨MergedRange.isConst_equal hb, ?_⟩
  intro v
  rw [MergedRange.contains_equal hb, h v]

omit [DecidableEq Var] in
lemma exact_notEqual {P Q : Int → Prop} (hb : b1.IsConst t)
    (h : ∀ v, v ≠ b1.value env ↔ if intersect then P v ∧ Q v else P v ∨ Q v) :
    Exact env t intersect P Q (.notEqual b1) := by
  refine ⟨MergedRange.isConst_notEqual hb, ?_⟩
  intro v
  rw [MergedRange.contains_notEqual hb, h v]

omit [DecidableEq Var] in
lemma exact_lowerAndUpper {P Q : Int → Prop} (hl : lower1.IsConst t) (hu : upper1.IsConst t)
    (h : ∀ v, (lower1.value env ≤ v ∧ v ≤ upper1.value env) ↔
      if intersect then P v ∧ Q v else P v ∨ Q v) :
    Exact env t intersect P Q (.lowerAndUpper lower1 upper1) := by
  refine ⟨MergedRange.isConst_lowerAndUpper hl hu, ?_⟩
  intro v
  rw [MergedRange.contains_lowerAndUpper hl.ofType.primType_eq, h v]

lemma mergeBounds_exact (hn : t.isNeeded) (hl1 : lower1.IsConst t) (hu1 : upper1.IsConst t)
    (hl2 : lower2.IsConst t) (hu2 : upper2.IsConst t)
    (hle1 : lower1.value env ≤ upper1.value env) (hle2 : lower2.value env ≤ upper2.value env)
    (h : mergeBounds lower1 upper1 lower2 upper2 intersect = some r) :
    Exact env t intersect (fun v => lower1.value env ≤ v ∧ v ≤ upper1.value env)
      (fun v => lower2.value env ≤ v ∧ v ≤ upper2.value env) r := by
  simp only [mergeBounds, Bound.canBeComparedWith_of_isConst hl1 hl2,
    Bound.canBeComparedWith_of_isConst hu1 hu2, Bound.canBeComparedWith_of_isConst hl1 hu2,
    Bound.canBeComparedWith_of_isConst hu1 hl2, Bool.not_true, Bool.or_self, Bool.false_eq_true,
    if_false, Bool.or_eq_true, Bool.and_eq_true, Bound.lt_iff env hn hu2 hl1,
    Bound.lt_iff env hn hu1 hl2, Bound.sameAs_iff env hu2 hl1, Bound.sameAs_iff env hu1 hl2,
    Bound.lt_iff env hn hl1 hu2, Bound.lt_iff env hn hl2 hu1] at h
  cases intersect with
  | true =>
    simp only [if_true] at h
    split_ifs at h with hdisjoint htouch htouch' hlt
    · cases h
      apply exact_empty
      intro v
      omega
    · cases h
      apply exact_equal hl1
      intro v
      simp only [if_true]
      omega
    · cases h
      apply exact_equal hl2
      intro v
      simp only [if_true]
      omega
    · cases h
      obtain ⟨hl, hlv⟩ := Bound.max_cases env hn hl1 hl2
      obtain ⟨hu, huv⟩ := Bound.min_cases env hn hu1 hu2
      apply exact_lowerAndUpper hl hu
      intro v
      simp only [if_true, hlv, huv]
      omega
  | false =>
    simp only [Bool.false_eq_true, if_false] at h
    split_ifs at h with hdisjoint htouch htouch' hlt
    · cases h
      apply exact_lowerAndUpper hl2 hu1
      intro v
      simp only [Bool.false_eq_true, if_false]
      omega
    · cases h
      apply exact_lowerAndUpper hl1 hu2
      intro v
      simp only [Bool.false_eq_true, if_false]
      omega
    · cases h
      obtain ⟨hl, hlv⟩ := Bound.min_cases env hn hl1 hl2
      obtain ⟨hu, huv⟩ := Bound.max_cases env hn hu1 hu2
      apply exact_lowerAndUpper hl hu
      intro v
      simp only [Bool.false_eq_true, if_false, hlv, huv]
      omega

lemma mergeBoundsEqual_exact (hn : t.isNeeded) (hl1 : lower1.IsConst t) (hu1 : upper1.IsConst t)
    (hb : b1.IsConst t) (h : mergeBoundsEqual lower1 upper1 b1 intersect = some r) :
    Exact env t intersect (fun v => lower1.value env ≤ v ∧ v ≤ upper1.value env)
      (fun v => v = b1.value env) r := by
  simp only [mergeBoundsEqual, Bound.canBeComparedWith_of_isConst hl1 hb,
    Bound.canBeComparedWith_of_isConst hu1 hb, Bool.not_true, Bool.or_self, Bool.false_eq_true,
    if_false, Bool.or_eq_true, Bool.and_eq_true, Bound.le_iff env hn hl1 hb,
    Bound.le_iff env hn hb hu1, Bound.lt_iff env hn hb hl1, Bound.lt_iff env hn hu1 hb] at h
  cases intersect with
  | true =>
    simp only [if_true] at h
    split_ifs at h with hin hout
    · cases h
      apply exact_equal hb
      intro v
      simp only [if_true]
      omega
    · cases h
      apply exact_empty
      intro v
      omega
  | false =>
    simp only [Bool.false_eq_true, if_false] at h
    split_ifs at h with hin hout
    cases h
    apply exact_lowerAndUpper hl1 hu1
    intro v
    simp only [Bool.false_eq_true, if_false]
    omega

lemma mergeEquals_exact (hn : t.isNeeded) (hb1 : b1.IsConst t) (hb2 : b2.IsConst t)
    (h : mergeEquals b1 b2 intersect = some r) :
    Exact env t intersect (fun v => v = b1.value env) (fun v => v = b2.value env) r := by
  simp only [mergeEquals, Bound.canBeComparedWith_of_isConst hb1 hb2, Bool.not_true,
    Bool.false_eq_true, if_false, Bool.or_eq_true, Bound.sameAs_iff env hb1 hb2,
    Bound.lt_iff env hn hb1 hb2, Bound.lt_iff env hn hb2 hb1] at h
  split_ifs at h with heq hne hi
  · cases h
    apply exact_equal hb1
    intro v
    cases intersect <;> simp [heq]
  · cases h
    subst hi
    apply exact_empty
    intro v
    omega

lemma mergeEqualNotEqual_exact (hn : t.isNeeded) (hb1 : b1.IsConst t) (hb2 : b2.IsConst t)
    (h : mergeEqualNotEqual b1 b2 intersect = some r) :
    Exact env t intersect (fun v => v = b1.value env) (fun v => v ≠ b2.value env) r := by
  simp only [mergeEqualNotEqual, Bound.canBeComparedWith_of_isConst hb1 hb2, Bool.not_true,
    Bool.false_eq_true, if_false, Bool.or_eq_true, Bound.sameAs_iff env hb1 hb2,
    Bound.lt_iff env hn hb1 hb2, Bound.lt_iff env hn hb2 hb1] at h
  cases intersect with
  | true =>
    simp only [if_true] at h
    split_ifs at h with heq hne
    · cases h
      apply exact_empty
      intro v
      omega
    · cases h
      apply exact_equal hb1
      intro v
      simp only [if_true]
      omega
  | false =>
    simp only [Bool.false_eq_true, if_false] at h
    split_ifs at h with heq hne
    · cases h
      apply exact_complete
      intro v
      omega
    · cases h
      apply exact_notEqual hb2
      intro v
      simp only [Bool.false_eq_true, if_false]
      omega

lemma mergeNotEquals_exact (hn : t.isNeeded) (hb1 : b1.IsConst t) (hb2 : b2.IsConst t)
    (h : mergeNotEquals b1 b2 intersect = some r) :
    Exact env t intersect (fun v => v ≠ b1.value env) (fun v => v ≠ b2.value env) r := by
  simp only [mergeNotEquals, Bound.canBeComparedWith_of_isConst hb1 hb2, Bool.not_true,
    Bool.false_eq_true, if_false, Bool.or_eq_true, Bound.sameAs_iff env hb1 hb2,
    Bound.lt_iff env hn hb1 hb2, Bound.lt_iff env hn hb2 hb1] at h
  split_ifs at h with heq hne hi
  · cases h
    apply exact_notEqual hb1
    intro v
    cases intersect <;> simp [heq]
  · cases h
    have hi' : intersect = false := by simpa using hi
    subst hi'
    apply exact_complete
    intro v
    omega

lemma mergeBoundsNotEqual_exact (hn : t.isNeeded) (h1 : t ≠ .u1) (hl1 : lower1.IsConst t)
    (hu1 : upper1.IsConst t) (hb : b1.IsConst t) (hle : lower1.value env ≤ upper1.value env)
    (hmax : intersect = true → lower1.value env = t.format.maxValue →
      b1.value env ≠ t.format.maxValue)
    (h : mergeBoundsNotEqual lower1 upper1 b1 intersect = some r) :
    Exact env t intersect (fun v => lower1.value env ≤ v ∧ v ≤ upper1.value env)
      (fun v => v ≠ b1.value env) r := by
  simp only [mergeBoundsNotEqual, Bound.canBeComparedWith_of_isConst hl1 hb,
    Bound.canBeComparedWith_of_isConst hu1 hb, Bool.not_true, Bool.or_self, Bool.false_eq_true,
    if_false, Bool.or_eq_true, Bool.and_eq_true, Bound.lt_iff env hn hl1 hb,
    Bound.lt_iff env hn hb hu1, Bound.lt_iff env hn hb hl1, Bound.lt_iff env hn hu1 hb,
    Bound.sameAs_iff env hb hl1, Bound.sameAs_iff env hb hu1] at h
  have hlmem := hl1.mem env hn
  have humem := hu1.mem env hn
  unfold IntFormat.Mem at hlmem humem
  cases intersect with
  | true =>
    simp only [if_true] at h
    split_ifs at h with hout hin heq heq'
    · cases h
      apply exact_lowerAndUpper hl1 hu1
      intro v
      simp only [if_true]
      omega
    · cases h
      have hmem : t.format.Mem (lower1.value env + 1) := by
        have := hmax rfl
        exact ⟨by omega, by omega⟩
      have hinc := Bound.value_inc env hn h1 hl1
      rw [t.format.wrap_of_mem hmem] at hinc
      apply exact_lowerAndUpper (Bound.isConst_inc hn hl1 hmem) hu1
      intro v
      simp only [if_true, hinc]
      omega
    · cases h
      have hmem : t.format.Mem (upper1.value env - 1) := ⟨by omega, by omega⟩
      have hdec := Bound.value_dec env hn h1 hu1
      rw [t.format.wrap_of_mem hmem] at hdec
      apply exact_lowerAndUpper hl1 (Bound.isConst_dec hn hu1 hmem)
      intro v
      simp only [if_true, hdec]
      omega
  | false =>
    simp only [Bool.false_eq_true, if_false] at h
    split_ifs at h with hout hin heq heq'
    · cases h
      apply exact_notEqual hb
      intro v
      simp only [Bool.false_eq_true, if_false]
      omega
    all_goals
      cases h
      apply exact_complete
      intro v
      omega

end Merge

/-! ### Exactness -/

/-- The ends of a pair are in order. -/
def Ordered (env : Var → Int) (vr : ValueRange Var) : Prop :=
  match vr.range with
  | .lowerAndUpper lower upper => lower.value env ≤ upper.value env
  | _ => True

/-- The range `[max, max]` and `!= max`. -/
def MaxAndNotMax (t : PrimType) (vr1 vr2 : ValueRange Var) : Prop :=
  match vr1.range, vr2.range with
  | .lowerAndUpper lower _, .notEqual b => lower.constant = t.maxNumber ∧ b.constant = t.maxNumber
  | _, _ => False

omit [DecidableEq Var] in
lemma isConst_of_isConstantRange {vr : ValueRange Var} (hc : vr.isConstantRange)
    (ht : vr.OfType t) :
    match vr.range with
    | .lowerAndUpper lower upper => lower.IsConst t ∧ upper.IsConst t
    | .equal b | .notEqual b => b.IsConst t
    | _ => False := by
  have hends := constantEnds hc ht
  obtain ⟨range, stride, accurate⟩ := vr
  cases range with
  | onlyHasLowerBound b => cases hc
  | onlyHasUpperBound b => cases hc
  | equal b => exact ⟨hends.lower_var, ht⟩
  | notEqual b => exact ⟨hends.lower_var, ht⟩
  | lowerAndUpper lower upper => exact ⟨⟨hends.lower_var, ht.1⟩, ⟨hends.upper_var, ht.2⟩⟩

omit [DecidableEq Var] in
lemma isConst_value_eq_max_iff (env : Var → Int) (hn : t.isNeeded) {b : Bound Var}
    (hb : b.IsConst t) : b.value env = t.format.maxValue ↔ b.constant = t.maxNumber := by
  have hmax := PrimType.maxNumber_spec hn
  rw [hb.value_eq env, ← hmax.2, PrimType.read_inj hb.inType hmax.1]

/-- Unless the range is `[max, max]` without `max`, the result is exact. -/
theorem mergeVR_exact (hn : t.isNeeded) (h1 : t ≠ .u1) {vr1 vr2 : ValueRange Var}
    (hc1 : vr1.isConstantRange) (ht1 : vr1.OfType t) (ho1 : vr1.Ordered env)
    (hc2 : vr2.isConstantRange) (ht2 : vr2.OfType t) (ho2 : vr2.Ordered env) {intersect : Bool}
    (hmax : ¬(intersect = true ∧ (MaxAndNotMax t vr1 vr2 ∨ MaxAndNotMax t vr2 vr1)))
    (h : mergeVR vr1 vr2 intersect = some r) :
    Exact env t intersect (vr1.Within env) (vr2.Within env) r := by
  have hk1 := isConst_of_isConstantRange hc1 ht1
  have hk2 := isConst_of_isConstantRange hc2 ht2
  obtain ⟨range1, stride1, accurate1⟩ := vr1
  obtain ⟨range2, stride2, accurate2⟩ := vr2
  cases range1 with
  | onlyHasLowerBound b => exact hk1.elim
  | onlyHasUpperBound b => exact hk1.elim
  | lowerAndUpper lower1 upper1 =>
    cases range2 with
    | onlyHasLowerBound b => exact hk2.elim
    | onlyHasUpperBound b => exact hk2.elim
    | lowerAndUpper lower2 upper2 =>
      exact mergeBounds_exact hn hk1.1 hk1.2 hk2.1 hk2.2 ho1 ho2 h
    | equal b => exact mergeBoundsEqual_exact hn hk1.1 hk1.2 hk2 h
    | notEqual b =>
      refine mergeBoundsNotEqual_exact hn h1 hk1.1 hk1.2 hk2 ho1 ?_ h
      intro hi hl hb
      exact hmax ⟨hi, Or.inl ⟨(isConst_value_eq_max_iff env hn hk1.1).mp hl,
        (isConst_value_eq_max_iff env hn hk2).mp hb⟩⟩
  | equal b1 =>
    cases range2 with
    | onlyHasLowerBound b => exact hk2.elim
    | onlyHasUpperBound b => exact hk2.elim
    | lowerAndUpper lower2 upper2 =>
      simp only [mergeVR, Bound.canBeComparedWith_of_isConst hk1 hk2.1, Bool.not_true,
        Bool.false_eq_true, if_false] at h
      exact (mergeBoundsEqual_exact hn hk2.1 hk2.2 hk1 h).swap
    | equal b2 => exact mergeEquals_exact hn hk1 hk2 h
    | notEqual b2 => exact mergeEqualNotEqual_exact hn hk1 hk2 h
  | notEqual b1 =>
    cases range2 with
    | onlyHasLowerBound b => exact hk2.elim
    | onlyHasUpperBound b => exact hk2.elim
    | lowerAndUpper lower2 upper2 =>
      refine (mergeBoundsNotEqual_exact hn h1 hk2.1 hk2.2 hk1 ho2 ?_ h).swap
      intro hi hl hb
      exact hmax ⟨hi, Or.inr ⟨(isConst_value_eq_max_iff env hn hk2.1).mp hl,
        (isConst_value_eq_max_iff env hn hk1).mp hb⟩⟩
    | equal b2 => exact (mergeEqualNotEqual_exact hn hk2 hk1 h).swap
    | notEqual b2 => exact mergeNotEquals_exact hn hk1 hk2 h

lemma mergeBoundsNotEqual_max (hn : t.isNeeded) (h1 : t ≠ .u1) {lower upper b : Bound Var}
    (hl : lower.IsConst t) (hu : upper.IsConst t) (hb : b.IsConst t)
    (hle : lower.value env ≤ upper.value env) (hlmax : lower.constant = t.maxNumber)
    (hbmax : b.constant = t.maxNumber)
    (h : mergeBoundsNotEqual lower upper b true = some r) (v : Int) :
    r.Contains env t v ↔ t.format.Mem v := by
  have hlv := (isConst_value_eq_max_iff env hn hl).mpr hlmax
  have hbv := (isConst_value_eq_max_iff env hn hb).mpr hbmax
  have humem := hu.mem env hn
  have hspan := t.format.maxValue_sub_minValue
  simp only [mergeBoundsNotEqual, Bound.canBeComparedWith_of_isConst hl hb,
    Bound.canBeComparedWith_of_isConst hu hb, Bool.not_true, Bool.or_self, Bool.false_eq_true,
    if_false, Bool.or_eq_true, Bool.and_eq_true, Bound.lt_iff env hn hl hb,
    Bound.lt_iff env hn hb hu, Bound.lt_iff env hn hb hl, Bound.lt_iff env hn hu hb,
    Bound.sameAs_iff env hb hl, Bound.sameAs_iff env hb hu, if_true] at h
  unfold IntFormat.Mem at humem
  rw [if_neg (by omega), if_neg (by omega), if_pos (by omega)] at h
  cases h
  have hwrap : t.format.wrap (lower.value env + 1) = t.format.minValue := by
    apply t.format.wrap_eq_of_mem ⟨le_refl _, t.format.minValue_le_maxValue⟩
    rw [hlv, show t.format.maxValue + 1 = t.format.minValue + t.format.modulus by omega,
      Int.add_emod_right]
  have htype : lower.inc.primType = t := hl.ofType.primType_eq
  rw [MergedRange.contains_lowerAndUpper htype, Bound.value_inc env hn h1 hl, hwrap]
  unfold IntFormat.Mem
  omega

end ValueRange

/-! ### The condition -/

section CmpExpr

variable {t : PrimType} {b : Bound Var} {env : Var → Int} {v : Int}

omit [DecidableEq Var] in
lemma Bound.IsConst.eval_getCmpExpr (hn : t.isNeeded) (h1 : t ≠ .u1) (hb : b.IsConst t)
    (hv : t.format.Mem v) (op : CmpOp) :
    (b.getCmpExpr op).eval env v ≠ 0 ↔ op.eval v (b.value env) = true := by
  have hvalue : t.format.wrap (t.format.wrap b.constant.toInt) = b.value env := by
    rw [hb.value_eq env, PrimType.read_eq_cvt hn, PrimType.cvt, if_neg h1, t.format.wrap_wrap]
  simp only [Bound.getCmpExpr, hb.var_eq, hb.ofType.primType_eq, CmpExpr.eval, hvalue,
    t.format.wrap_of_mem hv]
  split_ifs with h
  · simp [h]
  · simp [h]

lemma MergedRange.IsConst.eval_getCmpExpr (hn : t.isNeeded) (h1 : t ≠ .u1)
    {r : MergedRange Var} (hr : r.IsConst t) (hv : t.format.Mem v) :
    r.getCmpExpr.eval env v ≠ 0 ↔ r.Contains env t v := by
  have hformat : PrimType.u1.format = ⟨1, false⟩ := rfl
  cases r with
  | empty =>
    have hzero : PrimType.u1.format.wrap 0 = 0 := by
      rw [hformat]
      decide
    simp [getCmpExpr, CmpExpr.eval, Contains, hzero]
  | complete =>
    have hone : PrimType.u1.format.wrap 1 = 1 := by
      rw [hformat]
      decide
    simp [getCmpExpr, CmpExpr.eval, Contains, hone, hv]
  | range vr =>
    have hk := ValueRange.isConst_of_isConstantRange hr.1 hr.2
    obtain ⟨range, stride, accurate⟩ := vr
    cases range with
    | onlyHasLowerBound b => exact hk.elim
    | onlyHasUpperBound b => exact hk.elim
    | equal b =>
      have heval : (b.getCmpExpr .eq).eval env v ≠ 0 ↔ CmpOp.eq.eval v (b.value env) = true :=
        hk.eval_getCmpExpr hn h1 hv .eq
      have hcontains : Contains env t (.range ⟨.equal b, stride, accurate⟩) v ↔
          t.format.Mem v ∧ v = b.value env := contains_equal hk
      rw [hcontains]
      simpa [getCmpExpr, CmpOp.eval, hv] using heval
    | notEqual b =>
      have heval : (b.getCmpExpr .ne).eval env v ≠ 0 ↔ CmpOp.ne.eval v (b.value env) = true :=
        hk.eval_getCmpExpr hn h1 hv .ne
      have hcontains : Contains env t (.range ⟨.notEqual b, stride, accurate⟩) v ↔
          t.format.Mem v ∧ v ≠ b.value env := contains_notEqual hk
      rw [hcontains]
      simpa [getCmpExpr, CmpOp.eval, hv] using heval
    | lowerAndUpper lower upper =>
      obtain ⟨hl, hu⟩ := hk
      have hle : (upper.getCmpExpr .le).eval env v ≠ 0 ↔ v ≤ upper.value env := by
        rw [hu.eval_getCmpExpr hn h1 hv .le]
        simp [CmpOp.eval]
      have hge : (lower.getCmpExpr .ge).eval env v ≠ 0 ↔ lower.value env ≤ v := by
        rw [hl.eval_getCmpExpr hn h1 hv .ge]
        simp [CmpOp.eval]
      have hcontains : Contains env t (.range ⟨.lowerAndUpper lower upper, stride, accurate⟩) v ↔
          t.format.Mem v ∧ lower.value env ≤ v ∧ v ≤ upper.value env :=
        contains_lowerAndUpper hl.ofType.primType_eq
      have hmin := Bound.sameAs_iff env hl (Bound.isConst_minBound hn)
      have hmax := Bound.sameAs_iff env hu (Bound.isConst_maxBound hn)
      rw [Bound.value_minBound env hn] at hmin
      rw [Bound.value_maxBound env hn] at hmax
      obtain ⟨hv₁, hv₂⟩ := id hv
      simp only [getCmpExpr, hl.ofType.primType_eq, hu.ofType.primType_eq, hcontains, hv, true_and]
      -- an end that is a limit of the type is not compared with
      split_ifs with hlimit hlimit'
      · rw [hmin] at hlimit
        rw [hle]
        omega
      · rw [hmax] at hlimit'
        rw [hge]
        omega
      · simp only [CmpExpr.eval, hle, hge]
        split_ifs with hboth
        · simp [hboth]
        · simp only [not_true_eq_false, false_iff, ne_eq]
          omega

end CmpExpr

namespace ValueRange

omit [DecidableEq Var] in
lemma contains_iff {t : PrimType} {vr : ValueRange Var} (ht : vr.OfType t) {env : Var → Int}
    {v : Int} (hv : t.format.Mem v) : vr.Contains env v ↔ vr.Within env v := by
  rw [Contains, ht.getPrimType_eq]
  exact and_iff_right hv

lemma MaxAndNotMax.contains {t : PrimType} (hn : t.isNeeded) (h1 : t ≠ .u1)
    {vr1 vr2 : ValueRange Var} (hc1 : vr1.isConstantRange) (ht1 : vr1.OfType t)
    (hc2 : vr2.isConstantRange) (ht2 : vr2.OfType t) {env : Var → Int} (ho1 : vr1.Ordered env)
    (hmax : MaxAndNotMax t vr1 vr2) {r : MergedRange Var}
    (h : mergeVR vr1 vr2 true = some r ∨ mergeVR vr2 vr1 true = some r) :
    r.Contains env t t.format.maxValue ∧ ¬vr2.Within env t.format.maxValue := by
  have hk1 := isConst_of_isConstantRange hc1 ht1
  have hk2 := isConst_of_isConstantRange hc2 ht2
  obtain ⟨range1, stride1, accurate1⟩ := vr1
  obtain ⟨range2, stride2, accurate2⟩ := vr2
  cases range1 with
  | onlyHasLowerBound b => exact hk1.elim
  | onlyHasUpperBound b => exact hk1.elim
  | equal b1 => exact hmax.elim
  | notEqual b1 => exact hmax.elim
  | lowerAndUpper lower upper =>
    cases range2 with
    | onlyHasLowerBound b => exact hk2.elim
    | onlyHasUpperBound b => exact hk2.elim
    | lowerAndUpper lower2 upper2 => exact hmax.elim
    | equal b => exact hmax.elim
    | notEqual b =>
      have hmerge : mergeBoundsNotEqual lower upper b true = some r := h.elim id id
      have hvalue := (isConst_value_eq_max_iff env hn hk2).mpr hmax.2
      constructor
      · rw [mergeBoundsNotEqual_max hn h1 hk1.1 hk1.2 hk2 ho1 hmax.1 hmax.2 hmerge]
        exact ⟨t.format.minValue_le_maxValue, le_refl _⟩
      · intro hne
        exact hne hvalue.symm

/-- A merged range and the condition built from it are exact unless the range is the intersection of
`[max, max]` and `!= max`. -/
theorem mergeVR_exact_iff {t : PrimType} (hn : t.isNeeded) (h1 : t ≠ .u1)
    {vr1 vr2 : ValueRange Var} (hc1 : vr1.isConstantRange) (ht1 : vr1.OfType t)
    (hc2 : vr2.isConstantRange) (ht2 : vr2.OfType t) {env : Var → Int} (ho1 : vr1.Ordered env)
    (ho2 : vr2.Ordered env) {intersect : Bool} {r : MergedRange Var}
    (h : mergeVR vr1 vr2 intersect = some r) :
    (∀ v, t.format.Mem v →
      (r.Contains env t v ↔
        if intersect then vr1.Contains env v ∧ vr2.Contains env v
        else vr1.Contains env v ∨ vr2.Contains env v) ∧
      (r.getCmpExpr.eval env v ≠ 0 ↔
        if intersect then vr1.Contains env v ∧ vr2.Contains env v
        else vr1.Contains env v ∨ vr2.Contains env v)) ↔
      ¬(intersect = true ∧ (MaxAndNotMax t vr1 vr2 ∨ MaxAndNotMax t vr2 vr1)) := by
  constructor
  · rintro hall ⟨rfl, hmax⟩
    have hmem : t.format.Mem t.format.maxValue := ⟨t.format.minValue_le_maxValue, le_refl _⟩
    have hcontains := (hall _ hmem).1
    rw [if_pos rfl, contains_iff ht1 hmem, contains_iff ht2 hmem] at hcontains
    rcases hmax with hmax | hmax
    · have hr := hmax.contains hn h1 hc1 ht1 hc2 ht2 ho1 (Or.inl h)
      exact hr.2 (hcontains.mp hr.1).2
    · have hr := hmax.contains hn h1 hc2 ht2 hc1 ht1 ho2 (Or.inr h)
      exact hr.2 (hcontains.mp hr.1).1
  · intro hmax v hv
    obtain ⟨hconst, hexact⟩ := mergeVR_exact hn h1 hc1 ht1 ho1 hc2 ht2 ho2 hmax h
    have hset : r.Contains env t v ↔
        if intersect then vr1.Contains env v ∧ vr2.Contains env v
        else vr1.Contains env v ∨ vr2.Contains env v := by
      rw [hexact v, contains_iff ht1 hv, contains_iff ht2 hv]
      exact and_iff_right hv
    exact ⟨hset, (hconst.eval_getCmpExpr hn h1 hv).trans hset⟩

/-- A range of constants of `i32`. -/
def i32Range (range : Bound Unit → Bound Unit → Range Unit) (lower upper : Int64) :
    ValueRange Unit :=
  { range := range ⟨none, lower, .i32⟩ ⟨none, upper, .i32⟩ }

omit [Target] in
theorem mergeVR_exact_iff_i32Range :
    letI := Target.lp64
    (∀ v, PrimType.i32.format.Mem v →
      ((MergedRange.range (i32Range .lowerAndUpper 3 5)).Contains (fun _ => 0) .i32 v ↔
        if true then (i32Range .lowerAndUpper 1 5).Contains (fun _ => 0) v ∧
          (i32Range .lowerAndUpper 3 9).Contains (fun _ => 0) v
        else (i32Range .lowerAndUpper 1 5).Contains (fun _ => 0) v ∨
          (i32Range .lowerAndUpper 3 9).Contains (fun _ => 0) v) ∧
      ((MergedRange.range (i32Range .lowerAndUpper 3 5)).getCmpExpr.eval (fun _ => 0) v ≠ 0 ↔
        if true then (i32Range .lowerAndUpper 1 5).Contains (fun _ => 0) v ∧
          (i32Range .lowerAndUpper 3 9).Contains (fun _ => 0) v
        else (i32Range .lowerAndUpper 1 5).Contains (fun _ => 0) v ∨
          (i32Range .lowerAndUpper 3 9).Contains (fun _ => 0) v)) ↔
      ¬(true = true ∧ (MaxAndNotMax .i32 (i32Range .lowerAndUpper 1 5)
          (i32Range .lowerAndUpper 3 9) ∨
        MaxAndNotMax .i32 (i32Range .lowerAndUpper 3 9) (i32Range .lowerAndUpper 1 5))) := by
  let _ := Target.lp64
  have hbound : ∀ c : Int64, PrimType.i32.InType c →
      (⟨none, c, .i32⟩ : Bound Unit).OfType .i32 := fun c hc => ⟨rfl, fun _ => hc⟩
  have htype : ∀ a b : Int64, PrimType.i32.InType a → PrimType.i32.InType b →
      (i32Range .lowerAndUpper a b).OfType .i32 := fun a b ha hb => ⟨hbound a ha, hbound b hb⟩
  have hle : PrimType.i32.read 1 ≤ PrimType.i32.read 5 ∧
      PrimType.i32.read 3 ≤ PrimType.i32.read 9 := by decide
  exact mergeVR_exact_iff rfl (by decide) rfl (htype 1 5 (by decide) (by decide)) rfl
    (htype 3 9 (by decide) (by decide)) hle.1 hle.2 (by decide +kernel)

omit [Target] in
/-- `x >= 2147483647 && x != 2147483647` becomes a condition that is always true. -/
theorem mergeVR_maxAndNotMax :
    letI := Target.lp64
    ∃ r, mergeVR (i32Range .lowerAndUpper 2147483647 2147483647)
        (i32Range (fun _ b => .notEqual b) 0 2147483647) true = some r ∧
      r.getCmpExpr.eval (fun _ => 0) 2147483647 ≠ 0 ∧
      ¬((i32Range .lowerAndUpper 2147483647 2147483647).Contains (fun _ => 0) 2147483647 ∧
        (i32Range (fun _ b => .notEqual b) 0 2147483647).Contains (fun _ => 0) 2147483647) := by
  let _ := Target.lp64
  refine ⟨_, rfl, by decide +kernel, ?_⟩
  rintro ⟨-, -, hne⟩
  exact hne (by decide)

end ValueRange
end Maple
