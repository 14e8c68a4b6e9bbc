import Maple.BE.SwitchLowerer.Correct

/-!
# The lowering of a whole switch

A switch is well formed if its tags are distinct, fit into 32 bits and have the same order as
values of the type of the operand.
-/

namespace Maple.SwitchLowerer

open ForwardCode

variable [Target] {dense : Int → Int → Int → Bool} {label2Freq : Option (LabelIdx → Int)}
  {stmt : SwitchNode} {newLabelIdx : LabelIdx} {x y : Int} {n : Nat}

structure SwitchNode.WellFormed (stmt : SwitchNode) : Prop where
  nodup : (stmt.switchTable.map Prod.fst).Nodup
  int32 : ∀ p ∈ stmt.switchTable, int32.Mem p.1
  order : ∀ p ∈ stmt.switchTable, ∀ q ∈ stmt.switchTable, p.1 < q.1 →
    stmt.opndType.format.wrap p.1 < stmt.opndType.format.wrap q.1
  /-- The tags of a switch on a narrow type are values of that type. -/
  narrow : stmt.opndType.format.width < 32 → ∀ p ∈ stmt.switchTable, stmt.opndType.format.Mem p.1

/-- No label of the function is at or above `n`. -/
structure SwitchNode.LabelsBefore (stmt : SwitchNode) (newLabelIdx n : LabelIdx) : Prop where
  case_lt : ∀ p ∈ stmt.switchTable, p.2 < n
  default_lt : stmt.defaultLabel < n
  new_lt : newLabelIdx < n

/-- The label that a switch on `x` jumps to. -/
def SwitchNode.target (stmt : SwitchNode) (x : Int) : LabelIdx :=
  match stmt.switchTable.find? fun p => stmt.opndType.format.wrap p.1 == x with
  | some p => p.2
  | none => stmt.defaultLabel

/-! ### Well-formed switches -/

lemma SwitchNode.WellFormed.exists_offset (h : stmt.WellFormed) :
    ∃ d, ∀ p ∈ stmt.switchTable, stmt.opndType.format.wrap p.1 = p.1 + d := by
  rcases Nat.lt_or_ge stmt.opndType.format.width 32 with hw | hw
  · refine ⟨0, fun p hp => ?_⟩
    rw [IntFormat.wrap_of_mem _ (h.narrow hw p hp), add_zero]
  have hm : (2 : Int) ^ 32 ≤ stmt.opndType.format.modulus := by
    exact_mod_cast Nat.pow_le_pow_right (n := 2) Nat.two_pos hw
  have h32 : ∀ p ∈ stmt.switchTable, -2 ^ 31 ≤ p.1 ∧ p.1 < 2 ^ 31 := fun p hp => by
    have := h.int32 p hp
    simp only [IntFormat.Mem, IntFormat.minValue, IntFormat.maxValue, IntFormat.modulus,
      SwitchLowerer.int32, if_true] at this
    omega
  cases hsigned : stmt.opndType.format.signed with
  | true =>
    refine ⟨0, fun p hp => ?_⟩
    have := h32 p hp
    rw [IntFormat.wrap_of_mem, add_zero]
    simp only [IntFormat.Mem, IntFormat.minValue, IntFormat.maxValue, hsigned, if_true]
    omega
  | false =>
    have hwrap : ∀ p ∈ stmt.switchTable, stmt.opndType.format.wrap p.1 =
        if p.1 < 0 then p.1 + stmt.opndType.format.modulus else p.1 := fun p hp => by
      have := h32 p hp
      simp only [IntFormat.wrap, hsigned, Bool.false_eq_true, if_false]
      split_ifs
      · rw [← Int.add_emod_right, Int.emod_eq_of_lt (by omega) (by omega)]
      · exact Int.emod_eq_of_lt (by omega) (by omega)
    by_cases hneg : ∃ p ∈ stmt.switchTable, p.1 < 0
    · -- a negative tag is the largest of all, so that no other tag is positive
      obtain ⟨q, hq, hq0⟩ := hneg
      refine ⟨stmt.opndType.format.modulus, fun p hp => ?_⟩
      have hp0 : p.1 < 0 := by
        by_contra hp0
        have := h.order q hq p hp (by omega)
        rw [hwrap q hq, hwrap p hp, if_pos hq0, if_neg hp0] at this
        have := h32 p hp
        have := h32 q hq
        omega
      rw [hwrap p hp, if_pos hp0]
    · refine ⟨0, fun p hp => ?_⟩
      rw [hwrap p hp, if_neg fun hp0 => hneg ⟨p, hp, hp0⟩, add_zero]

omit [Target] in
lemma SwitchNode.mem_sortCasePair {p : CasePair} :
    p ∈ stmt.sortCasePair.switchTable ↔ p ∈ stmt.switchTable :=
  stmt.sortCasePair_perm.mem_iff

lemma SwitchNode.WellFormed.onTagScale (h : stmt.WellFormed) {d : Int}
    (hd : ∀ p ∈ stmt.switchTable, stmt.opndType.format.wrap p.1 = p.1 + d)
    (hx : stmt.opndType.format.Mem x) : OnTagScale stmt.sortCasePair x (x - d) :=
  onTagScale_of_offset (sorted_sortCasePair h.nodup)
    (fun _ hi => hd _ (mem_sortCasePair.mp (getCasePair_mem hi)))
    (fun _ hi => h.int32 _ (mem_sortCasePair.mp (getCasePair_mem hi))) hx

omit [Target] in
lemma SwitchNode.LabelsBefore.labelsBelow (h : stmt.LabelsBefore newLabelIdx n) :
    LabelsBelow stmt.sortCasePair newLabelIdx n where
  lab_lt i := by
    rcases Nat.lt_or_ge i stmt.sortCasePair.switchTable.length with hi | hi
    · exact h.case_lt _ (mem_sortCasePair.mp (getCasePair_mem hi))
    · rw [lab, getCasePair, List.getD_eq_default _ _ hi]
      exact Nat.zero_lt_of_lt h.default_lt
  default_lt := h.default_lt
  new_lt := h.new_lt

lemma SwitchNode.WellFormed.eq_target (h : stmt.WellFormed) {d : Int} {l : LabelIdx}
    (hd : ∀ p ∈ stmt.switchTable, stmt.opndType.format.wrap p.1 = p.1 + d)
    (hsel : Selects stmt.sortCasePair (x - d) 0 stmt.sortCasePair.switchTable.length l) :
    l = stmt.target x := by
  have hfind : ∀ p ∈ stmt.switchTable, stmt.opndType.format.wrap p.1 = x ↔ p.1 = x - d :=
    fun p hp => by
      rw [hd p hp]
      omega
  unfold target
  rcases hsel with ⟨i, -, hi, htag, rfl⟩ | ⟨hnone, rfl⟩
  · have hmem := mem_sortCasePair.mp (getCasePair_mem hi)
    split
    · next p hp =>
      have hpx := (hfind p (List.mem_of_find?_eq_some hp)).mp (by simpa using List.find?_some hp)
      have := List.inj_on_of_nodup_map h.nodup hmem (List.mem_of_find?_eq_some hp)
        (htag.trans hpx.symm)
      rw [← this]
    · next hp =>
      have := List.find?_eq_none.mp hp _ hmem
      exact absurd ((hfind _ hmem).mpr htag) (by simpa using this)
  · split
    · next p hp =>
      have hpx := (hfind p (List.mem_of_find?_eq_some hp)).mp (by simpa using List.find?_some hp)
      obtain ⟨i, hi, hip⟩ := List.getElem_of_mem
        (mem_sortCasePair.mpr (List.mem_of_find?_eq_some hp))
      refine absurd hpx ?_
      have := hnone i (Nat.zero_le i) hi
      rwa [tag, getCasePair, List.getD_eq_getElem _ _ hi, hip] at this
    · rfl

/-! ### The lowered switch -/

/-- The calls of `BuildCodeForSwitchItems` for a whole switch. -/
def switchCalls (dense : Int → Int → Int → Bool) (label2Freq : Option (LabelIdx → Int))
    (stmt : SwitchNode) : List Call :=
  let items := switchItems dense stmt.sortCasePair
  calls stmt.sortCasePair label2Freq items.length items false false

/-- The block that `LowerSwitch` builds, before the jump to the default label is added. -/
def switchBlock (dense : Int → Int → Int → Bool) (label2Freq : Option (LabelIdx → Int))
    (stmt : SwitchNode) (newLabelIdx n : LabelIdx) : Built :=
  let items := switchItems dense stmt.sortCasePair
  buildCodeForSwitchItems stmt.sortCasePair label2Freq items.length items.length newLabelIdx items
    false false n false

lemma lowerSwitch_eq (hne : stmt.switchTable ≠ []) :
    lowerSwitch dense label2Freq stmt newLabelIdx n =
      if (switchBlock dense label2Freq stmt newLabelIdx n).jumpToDefault then
        (switchBlock dense label2Freq stmt newLabelIdx n).code
      else (switchBlock dense label2Freq stmt newLabelIdx n).code ++ gotoDefault stmt :=
  if_neg hne

lemma traces_switchBlock (dense : Int → Int → Int → Bool) (label2Freq : Option (LabelIdx → Int))
    (h : stmt.WellFormed) (hdft : stmt.defaultLabel ≠ 0)
    (hlab : stmt.LabelsBefore newLabelIdx n) (hne : stmt.switchTable ≠ [])
    (hy : OnTagScale stmt.sortCasePair x y) :
    Traces stmt.sortCasePair label2Freq (switchCalls dense label2Freq stmt) y 0
      stmt.sortCasePair.switchTable.length
      (exec stmt.opndType x (switchBlock dense label2Freq stmt newLabelIdx n).code) := by
  have hsl := slice_switchItems dense stmt.sortCasePair
  have hpos : 0 < stmt.sortCasePair.switchTable.length := by
    rw [stmt.sortCasePair_perm.length_eq]
    exact List.length_pos_of_ne_nil hne
  exact (recurSpec_buildCodeForSwitchItems (show stmt.sortCasePair.defaultLabel ≠ 0 from hdft)
    (SwitchNode.sorted_sortCasePair h.nodup) hy hlab.labelsBelow _).traces
    false (hsl.ne_nil_of_lt hpos) (Nat.le_refl _) hsl (Nat.le_refl n) (fun hl => by cases hl)
    (fun hh => by cases hh)

lemma scoped_switchBlock (dense : Int → Int → Int → Bool)
    (label2Freq : Option (LabelIdx → Int)) (hlab : stmt.LabelsBefore newLabelIdx n) :
    n ≤ (switchBlock dense label2Freq stmt newLabelIdx n).next ∧
      ScopedCode stmt.opndType n n (switchBlock dense label2Freq stmt newLabelIdx n).next
        (switchBlock dense label2Freq stmt newLabelIdx n).code :=
  scoped_buildCodeForSwitchItems hlab.labelsBelow _ _ _ _ _ _ (Nat.le_refl n)

lemma exec_lowerSwitch_eq (hdft : stmt.defaultLabel ≠ 0) (hlab : stmt.LabelsBefore newLabelIdx n)
    (hne : stmt.switchTable ≠ []) :
    exec stmt.opndType x (lowerSwitch dense label2Freq stmt newLabelIdx n) =
      match exec stmt.opndType x (switchBlock dense label2Freq stmt newLabelIdx n).code with
      | .fall =>
        if (switchBlock dense label2Freq stmt newLabelIdx n).jumpToDefault then .fall
        else .leave stmt.defaultLabel
      | o => o := by
  obtain ⟨hle, hscope⟩ := scoped_switchBlock dense label2Freq hlab
  have hgoto : exec stmt.opndType x (gotoDefault stmt) = .leave stmt.defaultLabel := by
    rw [gotoDefault, if_neg hdft]
    rfl
  rw [lowerSwitch_eq hne]
  split_ifs
  · cases exec stmt.opndType x (switchBlock dense label2Freq stmt newLabelIdx n).code <;> rfl
  · refine (exec_append (Nat.le_refl n) hle hscope
      (scopedCode_gotoDefault hlab.default_lt : ScopedCode _ n _ n _)).trans ?_
    cases exec stmt.opndType x (switchBlock dense label2Freq stmt newLabelIdx n).code with
    | fall => exact hgoto
    | leave l => rfl
    | stuck => rfl

lemma exec_lowerSwitch_nil (hdft : stmt.defaultLabel ≠ 0) (hnil : stmt.switchTable = []) :
    exec stmt.opndType x (lowerSwitch dense label2Freq stmt newLabelIdx n) =
      .leave (stmt.target x) := by
  simp only [lowerSwitch, hnil, if_true, gotoDefault, if_neg hdft, SwitchNode.target,
    List.find?_nil]
  rfl

/-- Without profile data, the lowered switch jumps to the target of the switch. -/
theorem exec_lowerSwitch (h : stmt.WellFormed) (hdft : stmt.defaultLabel ≠ 0)
    (hlab : stmt.LabelsBefore newLabelIdx n) (hx : stmt.opndType.format.Mem x) :
    exec stmt.opndType x (lowerSwitch dense none stmt newLabelIdx n) = .leave (stmt.target x) := by
  by_cases hne : stmt.switchTable = []
  · exact exec_lowerSwitch_nil hdft hne
  obtain ⟨d, hd⟩ := h.exists_offset
  obtain ⟨l, hl, hsel⟩ := (traces_switchBlock dense none h hdft hlab hne
    (h.onTagScale hd hx)).leave fun c _ _ => ⟨rfl, rfl⟩
  rw [exec_lowerSwitch_eq hdft hlab hne, hl, h.eq_target hd hsel]

/-- A switch with a dense region, which has a gap, and a sparse entry. -/
def gapSwitch : SwitchNode :=
  ⟨.i32, 1, [(1000, 20), (0, 10), (1, 11), (2, 12), (3, 13), (4, 14), (6, 16)]⟩

omit [Target] in
theorem exec_lowerSwitch_gapSwitch :
    letI := Target.lp64
    gapSwitch.target 5 = 1 ∧
      exec gapSwitch.opndType 5 (lowerSwitch denseRegion none gapSwitch 0 30) =
        .leave (gapSwitch.target 5) :=
  letI := Target.lp64
  ⟨by decide, exec_lowerSwitch ⟨by decide, by decide, by decide, by decide⟩ (by decide)
    ⟨by decide, by decide, by decide⟩ (by decide)⟩

end Maple.SwitchLowerer
