import Maple.ME.CFG.Basic
import Maple.IR.Branch
import Maple.ME.ValueRange.Basic
import Maple.ME.ValueRange.AddOrSub
import Maple.Lib.Int64Cast

/-!
# Removal of the default branch of a switch

`DealWithSwitch` records the range of the operand in the blocks of the cases and removes the
default branch when the range of the operand has as many values as there are cases and the
smallest and the largest tag are its ends.
-/

namespace Maple

structure SwitchMeStmt where
  defaultLabel : LabelIdx
  switchTable : List (Int64 × LabelIdx)
  opndPrimType : PrimType
  deriving DecidableEq, Repr

/-- What `DealWithSwitch` reads of the control-flow graph. -/
structure SwitchCfg where
  /-- `GetLabelBBAt`. -/
  labelBBAt : LabelIdx → Option BBId
  preds : BBId → List BBId

/-- What `DealWithSwitch` changes: the default label, the successors that are removed from the
block, whether the statement is removed, the ranges of the operand that are recorded. -/
structure SwitchResult (Var : Type) where
  defaultLabel : LabelIdx
  removedSuccs : List BBId := []
  stmtRemoved : Bool := false
  recorded : List (BBId × Option (ValueRange Var)) := []
  isCFGChange : Bool := false

namespace ValueRangePropagation

variable {Var : Type} [Target]

/-- The test of `DealWithSwitchWhenOpndIsConstant` for one case. -/
def opndEqualsCase (bound : Bound Var) (opndPrimType : PrimType) (tag : Int64) : Bool :=
  if bound.primType = .u1 then bound.constant == tag
  else bound.isEqual ⟨none, tag, .i64⟩ opndPrimType

/-- `DealWithSwitchWhenOpndIsConstant` past its guard; `cases` are the tags with the blocks of
their labels. -/
def switchWhenOpndIsConstant (defaultBB : Option BBId) (bound : Bound Var) (sw : SwitchMeStmt)
    (cases : List (Int64 × BBId)) : SwitchResult Var :=
  let findBB := cases.any fun c => opndEqualsCase bound sw.opndPrimType c.1
  let removed := cases.filterMap fun c =>
    if opndEqualsCase bound sw.opndPrimType c.1 then none
    else if some c.2 = defaultBB then none
    else some c.2
  { defaultLabel := sw.defaultLabel
    removedSuccs := if findBB then removed ++ defaultBB.toList else removed
    stmtRemoved := true
    isCFGChange := true }

/-- The guard of `DealWithSwitchWhenOpndIsConstant`: the constant of the operand, if there is
one. -/
def constantOpnd (onlyPropVR : Bool) (valueRange : Option (ValueRange Var)) : Option (Bound Var) :=
  match onlyPropVR, valueRange with
  | false, some ⟨.equal b, _, _⟩ => if b.var.isNone then some b else none
  | _, _ => none

/-- The ranges of the operand in the blocks of the cases. A block gets one if the switch is its
only predecessor and no other case (or the default) goes there. -/
def recordCases (cfg : SwitchCfg) :
    List BBId → List (Int64 × BBId) → List (BBId × Option (ValueRange Var))
  | _, [] => []
  | bbOfCases, (tag, bb) :: rest =>
    if (cfg.preds bb).length = 1 ∧ bb ∉ bbOfCases then
      (bb, some { range := .equal ⟨none, tag, .i64⟩ }) :: recordCases cfg (bb :: bbOfCases) rest
    else (bb, none) :: recordCases cfg bbOfCases rest

/-- The range of the operand in the block or in the nearest block above it that is reached
through single predecessors. -/
def findRangeInPreds (cfg : SwitchCfg) (find : BBId → Option (ValueRange Var)) :
    Nat → BBId → Option (ValueRange Var)
  | 0, bb => find bb
  | fuel + 1, bb =>
    match find bb, cfg.preds bb with
    | none, [pred] => findRangeInPreds cfg find fuel pred
    | valueRange, _ => valueRange

/-- The test for the removal of the default branch. -/
def defaultIsUnreachable (valueRange : ValueRange Var) (valueOfCase : List Int64) : Bool :=
  if !valueRange.isConstantRange then false
  else
    let upper := valueRange.getUpper.constant
    let lower := valueRange.getLower.constant
    match addOrSubWithConstant .i64 .sub upper lower with
    | none => false
    | some diff =>
      match addOrSubWithConstant .i64 .add diff 1 with
      | none => false
      | some res =>
        if upper < lower || res.asUInt64 != valueOfCase.length then false
        else
          let sorted := valueOfCase.insertionSort (· ≤ ·)
          sorted.head? == some lower && sorted.getLast? == some upper

/-- `ValueRangePropagation::DealWithSwitch` for a block `bb`, where `find` is the range that
`FindValueRange` has for the operand. A label of a case without a block is fatal. -/
def dealWithSwitch (cfg : SwitchCfg) (onlyPropVR : Bool) (find : BBId → Option (ValueRange Var))
    (fuel : Nat) (bb : BBId) (sw : SwitchMeStmt) : Option (SwitchResult Var) := do
  let defaultBB := cfg.labelBBAt sw.defaultLabel
  let cases ← sw.switchTable.mapM fun c => (cfg.labelBBAt c.2).map fun b => (c.1, b)
  match constantOpnd onlyPropVR (find bb) with
  | some bound => some (switchWhenOpndIsConstant defaultBB bound sw cases)
  | none =>
    let unchanged : SwitchResult Var :=
      { defaultLabel := sw.defaultLabel
        recorded := recordCases cfg defaultBB.toList cases }
    if onlyPropVR || defaultBB.isNone then some unchanged
    else
      match findRangeInPreds cfg find fuel bb with
      | none => some unchanged
      | some valueRange =>
        if defaultIsUnreachable valueRange (cases.map Prod.fst) then
          some { unchanged with defaultLabel := 0, isCFGChange := true }
        else some unchanged

/-! ### The count of the cases -/

/-- When the default branch is removed, in terms of the ends of the range. -/
def TagsFill (lower upper : Int64) (tags : List Int64) : Prop :=
  (tags.length : Int) = upper.toInt - lower.toInt + 1 ∧ tags.length < 2 ^ 63 ∧
    lower ∈ tags ∧ upper ∈ tags ∧ ∀ tag ∈ tags, lower ≤ tag ∧ tag ≤ upper

lemma addOrSubWithConstant_i64 (op : AddSubOp) (a b : Int64) :
    addOrSubWithConstant .i64 op a b =
      if -2 ^ 63 ≤ op.eval a.toInt b.toInt ∧ op.eval a.toInt b.toInt < 2 ^ 63 then
        some (op.evalInt64 a b) else none := by
  have ha : PrimType.i64.InType a := rfl
  have hb : PrimType.i64.InType b := rfl
  rw [addOrSubWithConstant_of_mem rfl (by simp [PrimType.isUint64]) ha hb]
  refine if_congr ?_ rfl rfl
  have hmin : PrimType.i64.format.minValue = -2 ^ 63 :=
    (by decide : (IntFormat.mk 64 true).minValue = -2 ^ 63)
  have hmax : PrimType.i64.format.maxValue = 2 ^ 63 - 1 :=
    (by decide : (IntFormat.mk 64 true).maxValue = 2 ^ 63 - 1)
  unfold IntFormat.Mem
  omega

lemma rangeSize_eq (lower upper : Int64) :
    ((addOrSubWithConstant .i64 .sub upper lower).bind fun diff =>
      addOrSubWithConstant .i64 .add diff 1) =
      if -2 ^ 63 ≤ upper.toInt - lower.toInt ∧ upper.toInt - lower.toInt + 1 < 2 ^ 63 then
        some (upper - lower + 1) else none := by
  have hone : (1 : Int64).toInt = 1 := rfl
  rw [addOrSubWithConstant_i64]
  by_cases hdiff : -2 ^ 63 ≤ AddSubOp.eval .sub upper.toInt lower.toInt ∧
      AddSubOp.eval .sub upper.toInt lower.toInt < 2 ^ 63
  · have hd : (upper - lower).toInt = upper.toInt - lower.toInt :=
      AddSubOp.toInt_evalInt64 .sub hdiff.1 hdiff.2
    rw [if_pos hdiff, Option.bind_some, addOrSubWithConstant_i64]
    simp only [AddSubOp.eval, AddSubOp.evalInt64] at hdiff ⊢
    refine if_congr ?_ rfl rfl
    omega
  · rw [if_neg hdiff, Option.bind_none]
    simp only [AddSubOp.eval] at hdiff
    rw [if_neg (by omega)]

lemma defaultIsUnreachable_iff {valueRange : ValueRange Var} (hconst : valueRange.isConstantRange)
    (tags : List Int64) :
    defaultIsUnreachable valueRange tags ↔
      TagsFill valueRange.getLower.constant valueRange.getUpper.constant tags := by
  generalize hl : valueRange.getLower.constant = lower
  generalize hu : valueRange.getUpper.constant = upper
  have hsize := rangeSize_eq lower upper
  have hadd := Int64.asUInt64_add (upper - lower) 1
  have hone : (1 : Int64).toInt = 1 := rfl
  constructor
  · intro h
    simp only [defaultIsUnreachable, hconst, Bool.not_true, Bool.false_eq_true, ↓reduceIte, hl,
      hu] at h
    cases hdiff : addOrSubWithConstant .i64 .sub upper lower with
    | none => simp [hdiff] at h
    | some diff =>
      rw [hdiff, Option.bind_some] at hsize
      simp only [hdiff] at h
      cases hres : addOrSubWithConstant .i64 .add diff 1 with
      | none => simp [hres] at h
      | some res =>
        rw [hres] at hsize
        simp only [hres] at h
        split_ifs at hsize with hfit
        cases hsize
        split_ifs at h with hcount
        simp only [Bool.or_eq_true, decide_eq_true_eq, bne_iff_ne, ne_eq, not_or, not_not,
          Int64.lt_iff_toInt_lt, not_lt] at hcount
        simp only [Bool.and_eq_true, beq_iff_eq, Int64.head_insertionSort_iff,
          Int64.getLast_insertionSort_iff] at h
        rw [Int64.toInt_sub_eq hfit.1 (by omega), hone] at hadd
        exact ⟨by omega, by omega, h.1.1, h.2.1, fun tag htag => ⟨h.1.2 tag htag, h.2.2 tag htag⟩⟩
  · rintro ⟨hlen, hfit, hlower, hupper, hall⟩
    have hle : lower.toInt ≤ upper.toInt := Int64.le_iff_toInt_le.mp (hall lower hlower).2
    rw [if_pos (by omega)] at hsize
    rw [Int64.toInt_sub_eq (by omega) (by omega), hone] at hadd
    obtain ⟨diff, hdiff, hres⟩ := Option.bind_eq_some_iff.mp hsize
    have hcount : ¬ (upper < lower || (upper - lower + 1).asUInt64 != tags.length) = true := by
      simp only [Bool.or_eq_true, decide_eq_true_eq, bne_iff_ne, ne_eq, not_or, not_not,
        Int64.lt_iff_toInt_lt, not_lt]
      omega
    simp only [defaultIsUnreachable, hconst, Bool.not_true, Bool.false_eq_true, ↓reduceIte, hl, hu,
      hdiff, hres, hcount, Bool.and_eq_true, beq_iff_eq, Int64.head_insertionSort_iff,
      Int64.getLast_insertionSort_iff]
    exact ⟨⟨hlower, fun tag htag => (hall tag htag).1⟩, hupper, fun tag htag => (hall tag htag).2⟩

/-! ### When the count is conclusive -/

lemma read_between_iff {t : PrimType} {lower upper c : Int64} (hl : t.InType lower)
    (hu : t.InType upper) (hc : t.InType c) (hle : lower ≤ upper)
    (hread : t.read lower ≤ t.read upper) :
    (lower ≤ c ∧ c ≤ upper) ↔ (t.read lower ≤ t.read c ∧ t.read c ≤ t.read upper) := by
  simp only [Int64.le_iff_toInt_le] at hle ⊢
  by_cases h64 : t.isUint64
  · simp only [PrimType.read_of_isUint64 h64] at hread ⊢
    have := lower.le_toInt
    have := lower.toInt_lt
    have := upper.le_toInt
    have := upper.toInt_lt
    have := c.le_toInt
    have := c.toInt_lt
    omega
  · rw [PrimType.read_of_inType h64 hl, PrimType.read_of_inType h64 hu,
      PrimType.read_of_inType h64 hc]

lemma tagsFill_covers_iff {t : PrimType} (hn : t.isNeeded) {lower upper : Int64}
    {tags : List Int64} (hl : t.InType lower) (hu : t.InType upper)
    (hread : t.read lower ≤ t.read upper) (hfill : TagsFill lower upper tags) :
    (∀ v, t.format.Mem v → t.read lower ≤ v → v ≤ t.read upper → ∃ tag ∈ tags, t.read tag = v) ↔
      tags.Nodup := by
  obtain ⟨hlen, -, hlower, -, hall⟩ := hfill
  have hle : lower ≤ upper := (hall lower hlower).2
  have hmap : (tags.map Int64.toInt).Nodup ↔ tags.Nodup :=
    List.nodup_map_iff fun a b h => Int64.toInt_inj.mp h
  have hmem : ∀ m ∈ tags.map Int64.toInt, lower.toInt ≤ m ∧ m ≤ upper.toInt := by
    intro m hm
    obtain ⟨tag, htag, rfl⟩ := List.mem_map.mp hm
    simpa only [Int64.le_iff_toInt_le] using hall tag htag
  rw [← hmap, ← List.covers_interval_iff hmem (by rw [List.length_map]; exact hlen)]
  constructor
  · intro hcover m hlo hhi
    have hto : (Int64.ofInt m).toInt = m := by
      have := lower.le_toInt
      have := upper.toInt_lt
      exact Int64.toInt_ofInt_of_le (by omega) (by omega)
    have hbetween : lower ≤ Int64.ofInt m ∧ Int64.ofInt m ≤ upper := by
      simp only [Int64.le_iff_toInt_le, hto]
      exact ⟨hlo, hhi⟩
    have hin := inType_of_between hn hl hu hbetween.1 hbetween.2
    have hwithin := (read_between_iff hl hu hin hle hread).mp hbetween
    obtain ⟨tag, htag, heq⟩ := hcover _ (PrimType.read_mem hn _) hwithin.1 hwithin.2
    have hin' := inType_of_between hn hl hu (hall tag htag).1 (hall tag htag).2
    rw [PrimType.read_inj hin' hin] at heq
    exact List.mem_map.mpr ⟨tag, htag, by rw [heq, hto]⟩
  · intro hcover v hv hlo hhi
    obtain ⟨c, hin, rfl⟩ := PrimType.exists_inType hn hv
    have hbetween := (read_between_iff hl hu hin hle hread).mpr ⟨hlo, hhi⟩
    simp only [Int64.le_iff_toInt_le] at hbetween
    obtain ⟨tag, htag, heq⟩ := List.mem_map.mp (hcover c.toInt hbetween.1 hbetween.2)
    exact ⟨tag, htag, by rw [Int64.toInt_inj.mp heq]⟩

/-- The ranges and tags for which the count of the code is conclusive: not a single tag that is
the value a `kNotEqual` range excludes, and no repeated tags that fill an interval. -/
def CountConclusive (t : PrimType) (valueRange : ValueRange Var) (tags : List Int64) : Prop :=
  match valueRange.range with
  | .notEqual b => tags ≠ [b.constant]
  | .lowerAndUpper lower upper =>
    tags.Nodup ∨ ¬ TagsFill lower.constant upper.constant tags ∨
      t.read upper.constant < t.read lower.constant
  | _ => True

omit [Target] in
lemma tagsFill_self_iff (c : Int64) (tags : List Int64) : TagsFill c c tags ↔ tags = [c] := by
  constructor
  · rintro ⟨hlen, -, hmem, -, -⟩
    have hone : tags.length = 1 := by omega
    obtain ⟨tag, rfl⟩ := List.length_eq_one_iff.mp hone
    rw [List.mem_singleton.mp hmem]
  · rintro rfl
    simp [TagsFill]

lemma covers_iff_countConclusive {t : PrimType} (hn : t.isNeeded) {valueRange : ValueRange Var}
    (hconst : valueRange.isConstantRange) (htype : valueRange.OfType t) {tags : List Int64}
    (hfill : TagsFill valueRange.getLower.constant valueRange.getUpper.constant tags) :
    (∀ env v, valueRange.Contains env v → ∃ tag ∈ tags, t.read tag = v) ↔
      CountConclusive t valueRange tags := by
  have hprim := htype.getPrimType_eq
  obtain ⟨range, stride, accurate⟩ := valueRange
  unfold ValueRange.Contains
  rw [hprim]
  cases range with
  | onlyHasLowerBound b => cases hconst
  | onlyHasUpperBound b => cases hconst
  | equal b =>
    refine iff_of_true ?_ trivial
    rintro env v ⟨-, rfl⟩
    refine ⟨b.constant, hfill.2.2.1, ?_⟩
    exact (Bound.OfType.value_eq_read htype (Option.isNone_iff_eq_none.mp hconst) env).symm
  | notEqual b =>
    have hvar : b.var = none := Option.isNone_iff_eq_none.mp hconst
    have htags : tags = [b.constant] := (tagsFill_self_iff _ _).mp hfill
    refine iff_of_false ?_ (not_not.mpr htags)
    intro hcover
    obtain ⟨v, hv, hne⟩ := PrimType.exists_mem_ne hn (t.read b.constant)
    have hwithin : v ≠ b.value (fun _ => 0) := by
      rw [Bound.OfType.value_eq_read htype hvar]
      exact hne
    obtain ⟨tag, htag, heq⟩ := hcover (fun _ => 0) v ⟨hv, hwithin⟩
    rw [htags, List.mem_singleton] at htag
    exact hne (by rw [← heq, htag])
  | lowerAndUpper lower upper =>
    obtain ⟨hlvar, huvar⟩ : lower.var = none ∧ upper.var = none := by
      simpa [ValueRange.isConstantRange] using hconst
    have hl := htype.1.inType hlvar
    have hu := htype.2.inType huvar
    simp only [ValueRange.Within, htype.1.value_eq_read hlvar, htype.2.value_eq_read huvar]
    by_cases hread : t.read lower.constant ≤ t.read upper.constant
    · have hfill' : TagsFill lower.constant upper.constant tags := hfill
      simp only [CountConclusive, not_lt.mpr hread, hfill', not_true_eq_false, or_false]
      rw [← tagsFill_covers_iff hn hl hu hread hfill]
      constructor
      · intro h v hv hlo hhi
        exact h (fun _ => 0) v ⟨hv, hlo, hhi⟩
      · rintro h - v ⟨hv, hlo, hhi⟩
        exact h v hv hlo hhi
    · refine iff_of_true ?_ (Or.inr (Or.inr (not_le.mp hread)))
      rintro - v ⟨-, hlo, hhi⟩
      exact absurd (le_trans hlo hhi) hread

lemma countConclusive_of_not_tagsFill (t : PrimType) {valueRange : ValueRange Var}
    {tags : List Int64}
    (h : ¬ TagsFill valueRange.getLower.constant valueRange.getUpper.constant tags) :
    CountConclusive t valueRange tags := by
  obtain ⟨range, stride, accurate⟩ := valueRange
  cases range with
  | notEqual b => exact fun heq => h ((tagsFill_self_iff _ _).mpr heq)
  | lowerAndUpper lower upper => exact Or.inr (Or.inl h)
  | equal b => trivial
  | onlyHasLowerBound b => trivial
  | onlyHasUpperBound b => trivial

/-! ### The whole function -/

omit [Target] in
lemma map_fst_of_mapM {cfg : SwitchCfg} {table : List (Int64 × LabelIdx)}
    {cases : List (Int64 × BBId)}
    (h : (table.mapM fun c => (cfg.labelBBAt c.2).map fun b => (c.1, b)) = some cases) :
    cases.map Prod.fst = table.map Prod.fst := by
  induction table generalizing cases with
  | nil =>
    cases h
    rfl
  | cons c rest ih =>
    simp only [List.mapM_cons, Option.bind_eq_bind, Option.bind_eq_some_iff,
      Option.map_eq_some_iff, Option.pure_def, Option.some.injEq] at h
    obtain ⟨_, ⟨b, -, rfl⟩, rest', hrest, rfl⟩ := h
    simp [ih hrest]

omit [Target] in
lemma findRangeInPreds_of_find {cfg : SwitchCfg} {find : BBId → Option (ValueRange Var)}
    {bb : BBId} {vr : ValueRange Var} (h : find bb = some vr) (fuel : Nat) :
    findRangeInPreds cfg find fuel bb = some vr := by
  cases fuel with
  | zero => exact h
  | succ fuel => simp [findRangeInPreds, h]

/-- The default branch of a switch is removed only if every value in the range of the operand is
a tag, exactly when the removal is out of question or the count of the code is conclusive. -/
theorem dealWithSwitch_default_dead_iff {cfg : SwitchCfg} {onlyPropVR : Bool}
    {find : BBId → Option (ValueRange Var)} {fuel : Nat} {bb : BBId} {sw : SwitchMeStmt}
    {result : SwitchResult Var} {valueRange : ValueRange Var} {t : PrimType} (hn : t.isNeeded)
    (hrun : dealWithSwitch cfg onlyPropVR find fuel bb sw = some result)
    (hfind : findRangeInPreds cfg find fuel bb = some valueRange)
    (hconst : valueRange.isConstantRange) (htype : valueRange.OfType t) :
    (sw.defaultLabel ≠ 0 ∧ result.defaultLabel = 0 →
      ∀ env v, valueRange.Contains env v → ∃ case ∈ sw.switchTable, t.read case.1 = v) ↔
    (onlyPropVR = true ∨ sw.defaultLabel = 0 ∨ cfg.labelBBAt sw.defaultLabel = none ∨
      CountConclusive t valueRange (sw.switchTable.map Prod.fst)) := by
  -- if the default label stays, nothing is claimed
  have hkept (hlabel : result.defaultLabel = sw.defaultLabel) :
      sw.defaultLabel ≠ 0 ∧ result.defaultLabel = 0 →
        ∀ env v, valueRange.Contains env v → ∃ case ∈ sw.switchTable, t.read case.1 = v := by
    rintro ⟨hne, hzero⟩
    exact absurd (hlabel ▸ hzero) hne
  obtain ⟨cases, hcases, hrest⟩ := Option.bind_eq_some_iff.mp hrun
  have htags := map_fst_of_mapM hcases
  cases hopnd : constantOpnd onlyPropVR (find bb) with
  | some bound =>
    simp only [hopnd, Option.some.injEq] at hrest
    subst hrest
    refine iff_of_true (hkept rfl) ?_
    -- the operand has a constant, so that its range is `kEqual`
    unfold constantOpnd at hopnd
    split at hopnd
    · rename_i b _ _ heq
      rw [findRangeInPreds_of_find heq, Option.some.injEq] at hfind
      subst hfind
      exact Or.inr (Or.inr (Or.inr trivial))
    · cases hopnd
  | none =>
    simp only [hopnd, hfind] at hrest
    split_ifs at hrest with hguard hdead
    · cases hrest
      refine iff_of_true (hkept rfl) ?_
      rcases Bool.or_eq_true_iff.mp hguard with hprop | hdefault
      · exact Or.inl hprop
      · exact Or.inr (Or.inr (Or.inl (Option.isNone_iff_eq_none.mp hdefault)))
    · cases hrest
      rw [htags, defaultIsUnreachable_iff hconst] at hdead
      rw [Bool.or_eq_true_iff, not_or, Option.isNone_iff_eq_none] at hguard
      by_cases hzero : sw.defaultLabel = 0
      · simp [hzero]
      · simp only [ne_eq, hzero, not_false_eq_true, and_self, forall_true_left, hguard,
          Bool.false_eq_true, false_or]
        rw [← covers_iff_countConclusive hn hconst htype hdead]
        simp only [List.mem_map, exists_exists_and_eq_and]
    · cases hrest
      refine iff_of_true (hkept rfl) (Or.inr (Or.inr (Or.inr ?_)))
      rw [htags, defaultIsUnreachable_iff hconst] at hdead
      exact countConclusive_of_not_tagsFill t hdead

/-- A graph in which the label `n` stands for the block `n`. -/
def plainCfg : SwitchCfg where
  labelBBAt label := if label = 0 then none else some label
  preds _ := []

/-- The values `3` and `4`, with a default label that is not needed. -/
def twoCaseSwitch : SwitchMeStmt := ⟨1, [(4, 2), (3, 3)], .u8⟩

def threeToFour : ValueRange Nat := { range := .lowerAndUpper ⟨none, 3, .u8⟩ ⟨none, 4, .u8⟩ }

omit [Target] in
theorem dealWithSwitch_twoCaseSwitch :
    letI := Target.lp64
    (∃ result, dealWithSwitch plainCfg false (fun _ => some threeToFour) 0 0 twoCaseSwitch
      = some result ∧ result.defaultLabel = 0) ∧
    ∀ env v, threeToFour.Contains env v → ∃ case ∈ twoCaseSwitch.switchTable,
      PrimType.u8.read case.1 = v := by
  let _ := Target.lp64
  have hremoved : ∃ result, dealWithSwitch plainCfg false (fun _ => some threeToFour) 0 0
      twoCaseSwitch = some result ∧ result.defaultLabel = 0 :=
    Option.map_eq_some_iff.mp (by decide +kernel)
  refine ⟨hremoved, ?_⟩
  obtain ⟨result, hrun, hzero⟩ := hremoved
  have htype : threeToFour.OfType .u8 :=
    ⟨⟨rfl, fun _ => by decide⟩, ⟨rfl, fun _ => by decide⟩⟩
  exact (dealWithSwitch_default_dead_iff rfl hrun rfl rfl htype).mpr
    (Or.inr (Or.inr (Or.inr (Or.inl (by decide))))) ⟨by decide, hzero⟩

def oneCaseSwitch : SwitchMeStmt := ⟨1, [(5, 2)], .i32⟩

def notFive : ValueRange Nat := { range := .notEqual ⟨none, 5, .i32⟩ }

omit [Target] in
/-- The default branch of `switch (x) { case 5: … }` is removed where `x` is known not to be
`5`. -/
theorem dealWithSwitch_notFive :
    letI := Target.lp64
    (∃ result, dealWithSwitch plainCfg false (fun _ => some notFive) 0 0 oneCaseSwitch
      = some result ∧ oneCaseSwitch.defaultLabel ≠ 0 ∧ result.defaultLabel = 0) ∧
    notFive.Contains (fun _ => 0) 7 ∧
    ∀ case ∈ oneCaseSwitch.switchTable, PrimType.i32.read case.1 ≠ 7 := by
  let _ := Target.lp64
  refine ⟨⟨_, rfl, by decide, by decide⟩, ⟨⟨by decide, by decide⟩, ?_⟩, by decide⟩
  change (7 : Int) ≠ PrimType.i32.read 5
  decide

end ValueRangePropagation
end Maple
