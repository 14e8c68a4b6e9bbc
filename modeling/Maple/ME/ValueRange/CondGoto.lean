import Maple.ME.ValueRange.BrStmt
import Maple.ME.ValueRange.AddOrSub

/-!
# Value ranges on the edges of a conditional branch

`CreateValueRangeForCondGoto` records in the two successors of a branch what the comparison says
about its left operand.
-/

namespace Maple

namespace ValueRangePropagation

variable {Var : Type} [DecidableEq Var] [Target]

/-- `ValueRangePropagation::Max`; `lengthSet` are the variables that are lengths of arrays. -/
def max (lengthSet : Var → Bool) (leftBound rightBound : Bound Var) : Bound Var :=
  if leftBound.var = rightBound.var then
    if leftBound.isGreaterThan rightBound leftBound.primType then leftBound else rightBound
  else if leftBound.var.isNone && leftBound.isEqualToMin leftBound.primType &&
    rightBound.constant < 1 && rightBound.var.any lengthSet then rightBound
  else leftBound

def min (lengthSet : Var → Bool) (leftBound rightBound : Bound Var) : Bound Var :=
  if leftBound.var = rightBound.var then
    if leftBound.isLessThan rightBound leftBound.primType then leftBound else rightBound
  else if leftBound.var.isNone && leftBound.isEqualToMax leftBound.primType &&
    rightBound.constant < 1 && rightBound.var.any lengthSet then rightBound
  else leftBound

def combineTwoValueRange (lengthSet : Var → Bool) (leftRange rightRange : ValueRange Var)
    (merge : Bool := false) : ValueRange Var :=
  if merge then
    { range := .lowerAndUpper (min lengthSet leftRange.getLower rightRange.getLower)
        (max lengthSet leftRange.getUpper rightRange.getUpper) }
  else
    match rightRange.range with
    | .onlyHasLowerBound b =>
      { range := .lowerAndUpper b (max lengthSet leftRange.getUpper (Bound.maxBound b.primType))
        isAccurate := rightRange.isAccurate }
    | .onlyHasUpperBound b =>
      { range := .lowerAndUpper (min lengthSet leftRange.getLower (Bound.minBound b.primType))
          leftRange.getUpper
        isAccurate := rightRange.isAccurate }
    | _ =>
      { range := .lowerAndUpper (max lengthSet leftRange.getLower rightRange.getLower)
          (min lengthSet leftRange.getUpper rightRange.getUpper)
        isAccurate := rightRange.isAccurate }

/-- The form in which `Insert2Caches` stores a range: one constant value is a `kEqual` range. -/
def storedRange (vr : ValueRange Var) : ValueRange Var :=
  match vr.range with
  | .lowerAndUpper lower _ => if vr.isConstant then { vr with range := .equal lower } else vr
  | _ => vr

/-- The change of the entry of an expression by `Insert2Caches`. In the temporary caches a null
pointer does not replace an entry and invalid ranges are kept. -/
def insert2Caches (temp : Bool) (entry : Option (ValueRange Var)) :
    Option (ValueRange Var) → Option (ValueRange Var)
  | none => if temp then entry else none
  | some vr =>
    if !vr.getPrimType.isNeeded then entry
    else if temp then some (storedRange vr)
    else if (storedRange vr).isConstantLowerAndUpper && (storedRange vr).isInvalidVR then entry
    else some (storedRange vr)

/-- The entries of the left operand in the true and in the false successor. -/
abbrev BranchCaches (Var : Type) := Bool → Option (ValueRange Var)

/-- `Insert2Caches` for the left operand in one of the successors. -/
def record (temp : Bool) (caches : BranchCaches Var) (branch : Bool)
    (vr : Option (ValueRange Var)) : BranchCaches Var :=
  fun b => if b = branch then insert2Caches temp (caches b) vr else caches b

/-- What the comparison is made in: the flag of the temporary caches, the flag `dealWithPhi`, the
lengths of arrays. -/
structure CondContext (Var : Type) where
  temp : Bool
  dealWithPhi : Bool
  lengthSet : Var → Bool

variable (ctx : CondContext Var)

/-- The range from the minimum of the type to `upper`. -/
def upTo (upper : Bound Var) (isAccurate : Bool) : ValueRange Var :=
  { range := .lowerAndUpper (Bound.minBound upper.primType) upper, isAccurate := isAccurate }

/-- The range from `lower` to the maximum of the type `t`. -/
def downTo (lower : Bound Var) (t : PrimType) (isAccurate : Bool) : ValueRange Var :=
  { range := .lowerAndUpper lower (Bound.maxBound t), isAccurate := isAccurate }

def createValueRangeForLeOrLt (leftRange : Option (ValueRange Var))
    (newRightUpper newRightLower : Bound Var) (isAccurate : Bool) (caches : BranchCaches Var) :
    BranchCaches Var :=
  let below := upTo newRightUpper isAccurate
  let above := downTo newRightLower newRightUpper.primType isAccurate
  match leftRange with
  | none => record ctx.temp (record ctx.temp caches true (some below)) false (some above)
  | some leftRange =>
    match leftRange.range with
    | .onlyHasLowerBound b =>
      record ctx.temp caches true
        (some { range := .lowerAndUpper b newRightUpper, isAccurate := isAccurate })
    | .onlyHasUpperBound _ =>
      record ctx.temp caches false (some (combineTwoValueRange ctx.lengthSet leftRange above))
    | _ =>
      record ctx.temp
        (record ctx.temp caches true (some (combineTwoValueRange ctx.lengthSet leftRange below)))
        false (some (combineTwoValueRange ctx.lengthSet leftRange above))

def createValueRangeForGeOrGt (leftRange : Option (ValueRange Var))
    (newRightUpper newRightLower : Bound Var) (isAccurate : Bool) (caches : BranchCaches Var) :
    BranchCaches Var :=
  let below := upTo newRightUpper isAccurate
  let above := downTo newRightLower newRightUpper.primType isAccurate
  match leftRange with
  | none => record ctx.temp (record ctx.temp caches true (some above)) false (some below)
  | some leftRange =>
    match leftRange.range with
    | .onlyHasLowerBound _ =>
      record ctx.temp caches false (some (combineTwoValueRange ctx.lengthSet leftRange below))
    | .onlyHasUpperBound _ =>
      record ctx.temp caches true (some (combineTwoValueRange ctx.lengthSet leftRange above))
    | _ =>
      record ctx.temp
        (record ctx.temp caches true (some (combineTwoValueRange ctx.lengthSet leftRange above)))
        false (some (combineTwoValueRange ctx.lengthSet leftRange below))

/-- `ValueRangePropagation::IfTheLowerOrUpperOfLeftRangeEqualToTheRightRange`. -/
def lowerOrUpperEqualsRight (leftRange : ValueRange Var) (rightBound : Bound Var)
    (isLower : Bool) : Bool :=
  match leftRange.range with
  | .lowerAndUpper lower upper =>
    leftRange.isConstantLowerAndUpper && lower.constant < upper.constant &&
      (if isLower then lower.constant == rightBound.constant
        else upper.constant == rightBound.constant)
  | _ => false

def createNewBoundWhenAddOrSub (op : AddSubOp) (bound : Bound Var) (rhs : Int64) :
    Option (Bound Var) :=
  (addOrSubWithConstant bound.primType op bound.constant rhs).map fun constant =>
    ⟨bound.var, constant, bound.primType⟩

/-- The range without the end that the bound of the right range is taken for, if this can be
computed. -/
def withoutLower (leftRange : ValueRange Var) : Option (ValueRange Var) :=
  (createNewBoundWhenAddOrSub .add leftRange.getLower 1).map fun newLower =>
    { range := .lowerAndUpper newLower leftRange.getUpper }

def withoutUpper (leftRange : ValueRange Var) : Option (ValueRange Var) :=
  (createNewBoundWhenAddOrSub .sub leftRange.getUpper 1).map fun newUpper =>
    { range := .lowerAndUpper leftRange.getLower newUpper }

/-- A record that is made only if there is a range. -/
def recordIfSome (caches : BranchCaches Var) (branch : Bool) :
    Option (ValueRange Var) → BranchCaches Var
  | none => caches
  | some vr => record ctx.temp caches branch (some vr)

/-- `ValueRangePropagation::CreateValueRangeForNeOrEq`; `eqBranch` is the successor for equal
operands. -/
def createValueRangeForNeOrEq (leftRange : Option (ValueRange Var)) (rightRange : ValueRange Var)
    (eqBranch : Bool) (caches : BranchCaches Var) : BranchCaches Var :=
  match rightRange.range with
  | .equal b =>
    let caches := record ctx.temp caches eqBranch (some { range := .equal b })
    match leftRange with
    | none => record ctx.temp caches (!eqBranch) (some { range := .notEqual b })
    | some leftRange =>
      if lowerOrUpperEqualsRight leftRange b true then
        recordIfSome ctx caches (!eqBranch) (withoutLower leftRange)
      else if lowerOrUpperEqualsRight leftRange b false then
        recordIfSome ctx caches (!eqBranch) (withoutUpper leftRange)
      else
        match leftRange.range with
        | .lowerAndUpper _ _ | .onlyHasLowerBound _ | .onlyHasUpperBound _ =>
          record ctx.temp caches (!eqBranch) (some { range := .notEqual b })
        | _ => caches
  | .notEqual b =>
    match leftRange with
    | none => record ctx.temp caches eqBranch (some { range := .notEqual b })
    | some leftRange =>
      if lowerOrUpperEqualsRight leftRange b true then
        recordIfSome ctx caches eqBranch (withoutLower leftRange)
      else if lowerOrUpperEqualsRight leftRange b false then
        recordIfSome ctx caches eqBranch (withoutUpper leftRange)
      else
        match leftRange.range with
        | .onlyHasLowerBound _ | .onlyHasUpperBound _ =>
          record ctx.temp caches eqBranch (some { range := .notEqual b })
        | _ => caches
  | _ => caches

def mergeNotEqualRanges (leftRange : Option (ValueRange Var)) (rightRange : ValueRange Var)
    (branch : Bool) (caches : BranchCaches Var) : BranchCaches Var :=
  match leftRange with
  | none => caches
  | some leftRange =>
    let primType := leftRange.getPrimType
    if primType ≠ rightRange.getPrimType || !primType.isUnsigned then caches
    else
      match leftRange.range, rightRange.range with
      | .notEqual leftBound, .equal rightBound =>
        let zero : Bound Var := ⟨none, 0, primType⟩
        let one : Bound Var := ⟨none, 1, primType⟩
        if leftBound.var.isNone && rightBound.var.isNone &&
          ((leftBound.isEqual zero primType && rightBound.isEqual one primType) ||
            (leftBound.isEqual one primType && rightBound.isEqual zero primType)) then
          record ctx.temp caches branch
            (some { range := .lowerAndUpper ⟨none, 2, primType⟩ ⟨none, primType.maxNumber, primType⟩ })
        else caches
      | _, _ => caches

def createValueRangeForCondGoto (op : CmpOp) (leftRange : Option (ValueRange Var))
    (rightRange : ValueRange Var) (caches : BranchCaches Var) : BranchCaches Var :=
  let upper := rightRange.getUpper
  let lower := rightRange.getLower
  let isAccurate := ctx.dealWithPhi && (rightRange.isEqualKind || rightRange.isAccurate)
  -- what is known of the left operand besides one value that it does not have
  let leftInterval := if leftRange.any ValueRange.isNotEqual then none else leftRange
  match op with
  | .eq =>
    mergeNotEqualRanges ctx leftRange rightRange false
      (createValueRangeForNeOrEq ctx leftRange rightRange true caches)
  | .ne =>
    mergeNotEqualRanges ctx leftRange rightRange true
      (createValueRangeForNeOrEq ctx leftRange rightRange false caches)
  | .lt | .ge =>
    if rightRange.isNotEqual then caches
    else
      match addOrSubWithConstant upper.primType .sub upper.constant 1 with
      | none => caches
      | some constant =>
        let newRightUpper := ⟨upper.var, constant, upper.primType⟩
        if op = .lt then
          createValueRangeForLeOrLt ctx leftInterval newRightUpper lower isAccurate caches
        else createValueRangeForGeOrGt ctx leftInterval newRightUpper lower isAccurate caches
  | .le | .gt =>
    if rightRange.isNotEqual then caches
    else
      match addOrSubWithConstant upper.primType .add lower.constant 1 with
      | none => caches
      | some constant =>
        let newRightLower := ⟨lower.var, constant, upper.primType⟩
        if op = .le then
          createValueRangeForLeOrLt ctx leftInterval upper newRightLower isAccurate caches
        else createValueRangeForGeOrGt ctx leftInterval upper newRightLower isAccurate caches

/-! ### Entries that contain the value -/

/-- The entry, if there is one, contains the value. -/
def Holds (env : Var → Int) (v : Int) (entry : Option (ValueRange Var)) : Prop :=
  ∀ vr, entry = some vr → vr.Contains env v

section Sound

variable {t : PrimType} {env : Var → Int} {v : Int}

omit [DecidableEq Var] in
lemma within_equal_of_isConstant {lower upper : Bound Var} {stride : Int64} {accurate : Bool}
    (hconst : ValueRange.isConstant ⟨.lowerAndUpper lower upper, stride, accurate⟩ = true)
    (htypes : lower.primType = upper.primType) (hlo : lower.value env ≤ v)
    (hhi : v ≤ upper.value env) : v = lower.value env := by
  obtain ⟨⟨hl, hu⟩, hc⟩ : (lower.var = none ∧ upper.var = none) ∧
      lower.constant = upper.constant := by
    simpa [ValueRange.isConstant] using hconst
  have hlu : lower.value env = upper.value env := by
    rw [Bound.value_of_var_eq_none hl, Bound.value_of_var_eq_none hu, htypes, hc]
  omega

omit [DecidableEq Var] in
lemma contains_storedRange {vr : ValueRange Var} (hmem : t.format.Mem v) (htype : vr.HasType t)
    (hwithin : vr.Within env v) : (storedRange vr).Contains env v := by
  have hprim := htype.getPrimType_eq
  obtain ⟨range, stride, accurate⟩ := vr
  cases range with
  | lowerAndUpper lower upper =>
    have htypes : lower.primType = t ∧ upper.primType = t := htype
    simp only [storedRange]
    split_ifs with hconst
    · refine ⟨?_, within_equal_of_isConstant hconst (htypes.1.trans htypes.2.symm)
        hwithin.1 hwithin.2⟩
      change lower.primType.format.Mem v
      rw [htypes.1]
      exact hmem
    · exact ⟨hprim ▸ hmem, hwithin⟩
  | onlyHasLowerBound b => exact ⟨hprim ▸ hmem, hwithin⟩
  | onlyHasUpperBound b => exact ⟨hprim ▸ hmem, hwithin⟩
  | notEqual b => exact ⟨hprim ▸ hmem, hwithin⟩
  | equal b => exact ⟨hprim ▸ hmem, hwithin⟩

omit [DecidableEq Var] in
lemma holds_insert2Caches (temp : Bool) {entry : Option (ValueRange Var)} {vr : ValueRange Var}
    (hmem : t.format.Mem v) (hentry : Holds env v entry) (htype : vr.HasType t)
    (hwithin : vr.Within env v) : Holds env v (insert2Caches temp entry (some vr)) := by
  have hstored := contains_storedRange hmem htype hwithin
  intro vr' h
  simp only [insert2Caches] at h
  split_ifs at h
  · exact hentry vr' h
  · cases h
    exact hstored
  · exact hentry vr' h
  · cases h
    exact hstored

omit [DecidableEq Var] in
lemma holds_record (temp : Bool) {caches : BranchCaches Var} {taken branch : Bool}
    {vr : ValueRange Var} (hmem : t.format.Mem v) (hcaches : Holds env v (caches taken))
    (hvr : taken = branch → vr.HasType t ∧ vr.Within env v) :
    Holds env v (record temp caches branch (some vr) taken) := by
  unfold record
  split_ifs with h
  · exact holds_insert2Caches temp hmem hcaches (hvr h).1 (hvr h).2
  · exact hcaches

lemma max_eq_or (lengthSet : Var → Bool) (a b : Bound Var) :
    max lengthSet a b = a ∨ max lengthSet a b = b := by
  unfold max
  split_ifs <;> simp

lemma min_eq_or (lengthSet : Var → Bool) (a b : Bound Var) :
    min lengthSet a b = a ∨ min lengthSet a b = b := by
  unfold min
  split_ifs <;> simp

lemma within_combineTwoValueRange (lengthSet : Var → Bool) (hn : t.isNeeded)
    {leftRange rightRange : ValueRange Var} {lower upper : Bound Var} (hmem : t.format.Mem v)
    (hltype : leftRange.HasType t) (hlne : leftRange.isNotEqual = false)
    (hleft : leftRange.Within env v) (hright : rightRange.range = .lowerAndUpper lower upper)
    (hrholds : rightRange.HasType t ∧ rightRange.Within env v) :
    (combineTwoValueRange lengthSet leftRange rightRange).HasType t ∧
    (combineTwoValueRange lengthSet leftRange rightRange).Within env v := by
  obtain ⟨hlo, hhi, hlt, hut⟩ := ValueRange.ends_of_within hn hltype hlne hmem hleft
  simp only [ValueRange.HasType, ValueRange.Within, hright] at hrholds
  obtain ⟨⟨hlower, hupper⟩, hrlo, hrhi⟩ := hrholds
  have hends : rightRange.getLower = lower ∧ rightRange.getUpper = upper := by
    simp [ValueRange.getLower, ValueRange.getUpper, hright]
  simp only [combineTwoValueRange, Bool.false_eq_true, ↓reduceIte, hright, ValueRange.HasType,
    ValueRange.Within, hends]
  rcases max_eq_or lengthSet leftRange.getLower lower with hmax | hmax <;>
    rcases min_eq_or lengthSet leftRange.getUpper upper with hmin | hmin <;>
    simp only [hmax, hmin]
  · exact ⟨⟨hlt, hut⟩, hlo, hhi⟩
  · exact ⟨⟨hlt, hupper⟩, hlo, hrhi⟩
  · exact ⟨⟨hlower, hut⟩, hrlo, hhi⟩
  · exact ⟨⟨hlower, hupper⟩, hrlo, hrhi⟩

omit [DecidableEq Var] in
lemma within_upTo (hn : t.isNeeded) (hmem : t.format.Mem v) {upper : Bound Var}
    (hupper : upper.primType = t) (hhi : v ≤ upper.value env) (accurate : Bool) :
    (upTo upper accurate).HasType t ∧ (upTo upper accurate).Within env v := by
  subst hupper
  have hmin : (Bound.minBound upper.primType : Bound Var).value env =
      upper.primType.format.minValue := (PrimType.minNumber_spec hn).2
  exact ⟨⟨rfl, rfl⟩, hmin.symm ▸ hmem.1, hhi⟩

omit [DecidableEq Var] in
lemma within_downTo (hn : t.isNeeded) (hmem : t.format.Mem v) {lower : Bound Var}
    (hlower : lower.primType = t) (hlo : lower.value env ≤ v) (accurate : Bool) :
    (downTo lower t accurate).HasType t ∧ (downTo lower t accurate).Within env v := by
  have hmax : (Bound.maxBound t : Bound Var).value env = t.format.maxValue :=
    (PrimType.maxNumber_spec hn).2
  exact ⟨⟨hlower, rfl⟩, hlo, hmax.symm ▸ hmem.2⟩

/-- What is known of the left operand before the branch. -/
def LeftHolds (t : PrimType) (env : Var → Int) (v : Int) (leftRange : Option (ValueRange Var)) :
    Prop :=
  ∀ vr, leftRange = some vr → vr.HasType t ∧ vr.isNotEqual = false ∧ vr.Within env v

lemma holds_createValueRangeForLeOrLt (hn : t.isNeeded) (hmem : t.format.Mem v)
    {leftRange : Option (ValueRange Var)} (hleft : LeftHolds t env v leftRange)
    {newRightUpper newRightLower : Bound Var} (hupper : newRightUpper.primType = t)
    (hlower : newRightLower.primType = t) (accurate : Bool) {caches : BranchCaches Var}
    {taken : Bool} (hcaches : Holds env v (caches taken))
    (hbelow : taken = true → v ≤ newRightUpper.value env)
    (habove : taken = false → newRightLower.value env ≤ v) :
    Holds env v (createValueRangeForLeOrLt ctx leftRange newRightUpper newRightLower accurate
      caches taken) := by
  unfold createValueRangeForLeOrLt
  rw [hupper]
  cases leftRange with
  | none =>
    apply holds_record ctx.temp hmem
    · apply holds_record ctx.temp hmem hcaches
      intro h
      exact within_upTo hn hmem hupper (hbelow h) accurate
    · intro h
      exact within_downTo hn hmem hlower (habove h) accurate
  | some leftRange =>
    obtain ⟨hltype, hlne, hlwithin⟩ := hleft leftRange rfl
    have hcombineBelow (h : taken = true) :=
      within_combineTwoValueRange ctx.lengthSet hn hmem hltype hlne hlwithin rfl
        (within_upTo hn hmem hupper (hbelow h) accurate)
    have hcombineAbove (h : taken = false) :=
      within_combineTwoValueRange ctx.lengthSet hn hmem hltype hlne hlwithin rfl
        (within_downTo hn hmem hlower (habove h) accurate)
    obtain ⟨range, stride, leftAccurate⟩ := leftRange
    cases range with
    | notEqual b => cases hlne
    | onlyHasLowerBound b =>
      apply holds_record ctx.temp hmem hcaches
      intro h
      exact ⟨⟨hltype, hupper⟩, hlwithin, hbelow h⟩
    | onlyHasUpperBound b => exact holds_record ctx.temp hmem hcaches hcombineAbove
    | equal b =>
      exact holds_record ctx.temp hmem (holds_record ctx.temp hmem hcaches hcombineBelow)
        hcombineAbove
    | lowerAndUpper lower upper =>
      exact holds_record ctx.temp hmem (holds_record ctx.temp hmem hcaches hcombineBelow)
        hcombineAbove

lemma holds_createValueRangeForGeOrGt (hn : t.isNeeded) (hmem : t.format.Mem v)
    {leftRange : Option (ValueRange Var)} (hleft : LeftHolds t env v leftRange)
    {newRightUpper newRightLower : Bound Var} (hupper : newRightUpper.primType = t)
    (hlower : newRightLower.primType = t) (accurate : Bool) {caches : BranchCaches Var}
    {taken : Bool} (hcaches : Holds env v (caches taken))
    (habove : taken = true → newRightLower.value env ≤ v)
    (hbelow : taken = false → v ≤ newRightUpper.value env) :
    Holds env v (createValueRangeForGeOrGt ctx leftRange newRightUpper newRightLower accurate
      caches taken) := by
  unfold createValueRangeForGeOrGt
  rw [hupper]
  cases leftRange with
  | none =>
    apply holds_record ctx.temp hmem
    · apply holds_record ctx.temp hmem hcaches
      intro h
      exact within_downTo hn hmem hlower (habove h) accurate
    · intro h
      exact within_upTo hn hmem hupper (hbelow h) accurate
  | some leftRange =>
    obtain ⟨hltype, hlne, hlwithin⟩ := hleft leftRange rfl
    have hcombineAbove (h : taken = true) :=
      within_combineTwoValueRange ctx.lengthSet hn hmem hltype hlne hlwithin rfl
        (within_downTo hn hmem hlower (habove h) accurate)
    have hcombineBelow (h : taken = false) :=
      within_combineTwoValueRange ctx.lengthSet hn hmem hltype hlne hlwithin rfl
        (within_upTo hn hmem hupper (hbelow h) accurate)
    obtain ⟨range, stride, leftAccurate⟩ := leftRange
    cases range with
    | notEqual b => cases hlne
    | onlyHasLowerBound b => exact holds_record ctx.temp hmem hcaches hcombineBelow
    | onlyHasUpperBound b => exact holds_record ctx.temp hmem hcaches hcombineAbove
    | equal b =>
      exact holds_record ctx.temp hmem (holds_record ctx.temp hmem hcaches hcombineAbove)
        hcombineBelow
    | lowerAndUpper lower upper =>
      exact holds_record ctx.temp hmem (holds_record ctx.temp hmem hcaches hcombineAbove)
        hcombineBelow

/-! ### Steps by one -/

omit [DecidableEq Var] in
lemma value_sub_one (hn : t.isNeeded) {b : Bound Var} (hb : b.OfType t) {constant : Int64}
    (h : addOrSubWithConstant t .sub b.constant 1 = some constant) :
    (⟨b.var, constant, t⟩ : Bound Var).value env = b.value env - 1 := by
  have hone : (1 : Int64).toInt = 1 := rfl
  have hto := toInt_of_sub_nonneg hn (inType_one hn) (by decide) h
  cases hvar : b.var with
  | some x =>
    rw [Bound.value_of_var_eq_some hvar]
    change env x + constant.toInt = _
    omega
  | none =>
    have hin := hb.inType hvar
    have hres := (read_of_sub hn hin (inType_one hn) h).1
    rw [hb.value_eq_read hvar]
    change t.read constant = _
    by_cases hu : t.isUint64
    · rw [addOrSubWithConstant_sub_of_isUint64 hu] at h
      split_ifs at h with hlt
      rw [Int64.lt_iff_toInt_lt] at hlt
      have := b.constant.toInt_lt
      simp only [PrimType.read_of_isUint64 hu]
      omega
    · rw [PrimType.read_of_inType hu hres, PrimType.read_of_inType hu hin]
      omega

omit [DecidableEq Var] in
lemma read_one (hn : t.isNeeded) : t.read 1 = 1 := by
  rw [PrimType.read_eq_cvt hn, show (1 : Int64).toInt = 1 from rfl, PrimType.cvt_eq_self_iff]
  have hmin := t.format.minValue_nonpos
  exact ⟨by omega, PrimType.one_le_maxValue hn⟩

omit [DecidableEq Var] in
lemma value_add_one (hn : t.isNeeded) {b : Bound Var} (hb : b.OfType t) (hvar : b.var = none)
    {constant : Int64} (h : addOrSubWithConstant t .add b.constant 1 = some constant) :
    (⟨b.var, constant, t⟩ : Bound Var).value env = b.value env + 1 := by
  have hadd := (read_of_add hn (hb.inType hvar) (inType_one hn) h).2
  rw [read_one hn] at hadd
  rw [hb.value_eq_read hvar, hvar]
  exact hadd

omit [DecidableEq Var] in
/-- One more than a lower bound. The offset to a variable of a 64-bit unsigned type can wrap
around, so that the bound becomes smaller. -/
lemma value_add_one_le (hn : t.isNeeded) {b : Bound Var} (hb : b.OfType t) {constant : Int64}
    (h : addOrSubWithConstant t .add b.constant 1 = some constant) :
    (⟨b.var, constant, t⟩ : Bound Var).value env ≤ b.value env + 1 := by
  cases hvar : b.var with
  | some x =>
    have hone : (1 : Int64).toInt = 1 := rfl
    have hle := toInt_of_add_nonneg_le hn (inType_one hn) (by decide) h
    rw [Bound.value_of_var_eq_some hvar]
    change env x + constant.toInt ≤ _
    omega
  | none =>
    have heq : (⟨b.var, constant, t⟩ : Bound Var).value env = b.value env + 1 :=
      value_add_one hn hb hvar h
    rw [hvar] at heq
    exact heq.le

end Sound

end ValueRangePropagation
end Maple
