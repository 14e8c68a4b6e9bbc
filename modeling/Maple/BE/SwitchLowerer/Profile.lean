import Maple.BE.SwitchLowerer.LowerSwitch

/-!
# Switches with profile data

With profile data, the tests of a run of sparse items are ordered by frequency, and
`lowBlockNodeChecked` is then updated once, from the last tag of the run.
-/

namespace Maple.SwitchLowerer

open ForwardCode

variable [Target] {dense : Int → Int → Int → Bool} {label2Freq : Option (LabelIdx → Int)}
  {stmt : SwitchNode} {newLabelIdx : LabelIdx} {numItems : Nat} {x y : Int} {n : Nat}
  {item : SwitchItem} {items : List SwitchItem} {low high dft : Bool}

/-! ### Jumps to the default label -/

section JumpToDefault

variable {recur : BuildFn} {recurCalls : List SwitchItem → Bool → Bool → List Call}

omit [Target] in
lemma finishBlock_jumpToDefault (hdft : stmt.defaultLabel ≠ 0) :
    (finishBlock stmt low high n dft).jumpToDefault = (dft || !(low && high)) := by
  cases low <;> cases high <;> simp [finishBlock, hdft]

lemma remainingBlock_jumpToDefault (hdft : stmt.defaultLabel ≠ 0)
    (hrec : ∀ (items : List SwitchItem) (low high : Bool) (n : LabelIdx) (dft : Bool),
      items ≠ [] → (recur items low high n dft).jumpToDefault =
        (dft || (recurCalls items low high).any (Call.jumpsToDefault stmt label2Freq)))
    (c : Call) :
    (remainingBlock stmt label2Freq recur c.items c.low c.high n dft).jumpToDefault =
      (dft || (c :: (nextSlices stmt label2Freq c).flatMap fun s =>
        recurCalls s.1 s.2.1 s.2.2).any (Call.jumpsToDefault stmt label2Freq)) := by
  obtain ⟨items, low, high⟩ := c
  cases items with
  | nil =>
    simp [remainingBlock, nextSlices, finishBlock_jumpToDefault hdft, Call.jumpsToDefault]
  | cons item items =>
    by_cases hone : items = [] ∧ low = true ∧ high = true
    · obtain ⟨rfl, rfl, rfl⟩ := hone
      simp [remainingBlock, nextSlices, Call.jumpsToDefault]
    have hone' : (items.isEmpty && low && high) = false := by
      simpa [Bool.and_assoc] using hone
    simp only [remainingBlock, nextSlices, if_neg hone, List.any_cons, Call.jumpsToDefault, hone']
    by_cases hfew : items.length < kClusterSwitchCutoff
    · rw [if_pos hfew, if_pos hfew]
      set tests := equalityPart stmt label2Freq (item :: items) low high 0 with htests
      have hitems : (equalityPart stmt label2Freq (item :: items) low high n).items =
          tests.items := by
        rw [htests, equalityPart_items, equalityPart_items]
      have hchecked : (equalityPart stmt label2Freq (item :: items) low high n).checked =
          tests.checked := equalityPart_checked _ _ _ _ _ _ _
      simp only [testsBlock, hitems, hchecked, hfew, decide_true, Bool.true_and, Bool.not_false]
      split
      · next hnil =>
        simp [hnil, Built.prepend, finishBlock_jumpToDefault hdft]
      · next next rest hcons =>
        simp [hcons, Built.prepend, hrec (next :: rest) _ _ _ _ (List.cons_ne_nil _ _)]
    · simp only [hfew, if_false, decide_false, Bool.false_and, Bool.false_or, if_pos hdft,
        searchBlock]
      rcases splitAtMiddle stmt item items with ⟨left, right⟩
      cases hprev : left.getLast? with
      | none => simp
      | some prev =>
        cases right with
        | nil => simp
        | cons mid right =>
          have hleft : left ≠ [] := fun hnil => by
            rw [hnil] at hprev
            cases hprev
          simp only [hrec left _ _ _ _ hleft, hrec (mid :: right) _ _ _ _ (List.cons_ne_nil _ _),
            List.flatMap_cons, List.flatMap_nil, List.append_nil, List.any_append, Bool.or_assoc]

lemma buildCodeForSwitchItems_jumpToDefault (hdft : stmt.defaultLabel ≠ 0)
    (label2Freq : Option (LabelIdx → Int)) (numItems fuel : Nat) (newLabelIdx : LabelIdx)
    (hne : items ≠ []) (low high : Bool) (n : LabelIdx) (dft : Bool) :
    (buildCodeForSwitchItems stmt label2Freq numItems fuel newLabelIdx items low high n
        dft).jumpToDefault =
      (dft || (calls stmt label2Freq fuel items low high).any
        (Call.jumpsToDefault stmt label2Freq)) := by
  induction fuel generalizing newLabelIdx items low high n dft with
  | zero => simp [buildCodeForSwitchItems, calls]
  | succ fuel ih =>
    rw [buildCodeForSwitchItems_succ hdft hne]
    refine remainingBlock_jumpToDefault hdft ?_ _
    intro items low high n dft hne
    exact ih 0 hne low high n dft

end JumpToDefault

/-! ### The lowered switch -/

/-- The condition under which reordered tests do no harm: no value in a gap of reordered tests
reaches a jump table, and if one falls through the end of its block, then no block has a jump to
the default label, so that `LowerSwitch` adds one at the end. -/
def ReorderingSafe (dense : Int → Int → Int → Bool) (freq : LabelIdx → Int)
    (stmt : SwitchNode) : Prop :=
  let cs := switchCalls dense (some freq) stmt
  (∀ c ∈ cs, c.intoTable stmt.sortCasePair (some freq) = false) ∧
    ((∀ c ∈ cs, c.intoEnd stmt.sortCasePair (some freq) = false) ∨
      ∀ c ∈ cs, c.jumpsToDefault stmt.sortCasePair (some freq) = false)

instance (dense : Int → Int → Int → Bool) (freq : LabelIdx → Int) (stmt : SwitchNode) :
    Decidable (ReorderingSafe dense freq stmt) :=
  inferInstanceAs (Decidable (_ ∧ (_ ∨ _)))

lemma switchBlock_jumpToDefault (dense : Int → Int → Int → Bool)
    (label2Freq : Option (LabelIdx → Int)) (newLabelIdx n : LabelIdx)
    (hdft : stmt.defaultLabel ≠ 0) (hne : stmt.switchTable ≠ []) :
    (switchBlock dense label2Freq stmt newLabelIdx n).jumpToDefault =
      (switchCalls dense label2Freq stmt).any
        (Call.jumpsToDefault stmt.sortCasePair label2Freq) := by
  have hsl := slice_switchItems dense stmt.sortCasePair
  have hpos : 0 < stmt.sortCasePair.switchTable.length := by
    rw [stmt.sortCasePair_perm.length_eq]
    exact List.length_pos_of_ne_nil hne
  have := buildCodeForSwitchItems_jumpToDefault (show stmt.sortCasePair.defaultLabel ≠ 0 from hdft)
    label2Freq (switchItems dense stmt.sortCasePair).length
    (switchItems dense stmt.sortCasePair).length newLabelIdx (hsl.ne_nil_of_lt hpos) false false n
    false
  rw [Bool.false_or] at this
  exact this

lemma exists_mem_gap (h : stmt.WellFormed) {d : Int}
    (hd : ∀ p ∈ stmt.switchTable, stmt.opndType.format.wrap p.1 = p.1 + d) {c : Call}
    (hc : c ∈ switchCalls dense label2Freq stmt) (hgap : hasGap stmt.sortCasePair c.run = true) :
    ∃ x, stmt.opndType.format.Mem x ∧ InGap stmt.sortCasePair (x - d) c.run := by
  have hs := SwitchNode.sorted_sortCasePair h.nodup
  have hsl := slice_switchItems dense stmt.sortCasePair
  obtain ⟨a, b, -, hb, hc'⟩ := slice_of_mem_calls hs hsl hc
  obtain ⟨m, hrun, hrest⟩ := hc'.takeWhile_dropWhile SwitchItem.isSparse
  have hm := hrest.le
  obtain ⟨y, hin⟩ := (hasGap_iff hs (by omega) hrun fun _ hi => List.mem_takeWhile_imp hi).mp hgap
  obtain ⟨hlt, hlow, hhigh, -⟩ := hin.calls_bounds hs hsl (Nat.le_refl _) hc
  have hmem : ∀ i, i < stmt.sortCasePair.switchTable.length →
      stmt.opndType.format.Mem (stmt.sortCasePair.tag i + d) := fun i hi => by
    rw [← hd _ (SwitchNode.mem_sortCasePair.mp (SwitchNode.getCasePair_mem hi))]
    exact IntFormat.wrap_mem _ _
  have h₁ := hmem 0 (by omega)
  have h₂ := hmem (stmt.sortCasePair.switchTable.length - 1) (by omega)
  unfold IntFormat.Mem at h₁ h₂ ⊢
  exact ⟨y + d, by omega, by rwa [add_sub_cancel_right]⟩

/-- With profile data, the lowered switch jumps to the target of the switch for every operand
value exactly when the reordered tests do no harm. -/
lemma exec_lowerSwitch_profile_iff (freq : LabelIdx → Int) (h : stmt.WellFormed)
    (hdft : stmt.defaultLabel ≠ 0) (hlab : stmt.LabelsBefore newLabelIdx n) :
    (∀ x, stmt.opndType.format.Mem x →
      exec stmt.opndType x (lowerSwitch dense (some freq) stmt newLabelIdx n) =
        .leave (stmt.target x)) ↔ ReorderingSafe dense freq stmt := by
  by_cases hne : stmt.switchTable = []
  · have hcalls : switchCalls dense (some freq) stmt = [] := by
      have hlen := (slice_switchItems dense stmt.sortCasePair).length_le
      rw [stmt.sortCasePair_perm.length_eq, hne, List.length_nil, Nat.zero_add] at hlen
      rw [switchCalls, Nat.le_zero.mp hlen, calls]
    simp [ReorderingSafe, hcalls, exec_lowerSwitch_nil hdft hne]
  obtain ⟨d, hd⟩ := h.exists_offset
  have htr := fun x (hx : stmt.opndType.format.Mem x) =>
    traces_switchBlock dense (some freq) h hdft hlab hne
      (h.onTagScale hd hx)
  have hjump := switchBlock_jumpToDefault dense (some freq) newLabelIdx n hdft hne
  constructor
  · intro hok
    refine ⟨fun c hc => Bool.eq_false_iff.mpr fun htrap => ?_, ?_⟩
    · obtain ⟨x, hx, hin⟩ := exists_mem_gap h hd hc (by
        simp only [Call.intoTable, Bool.and_eq_true] at htrap
        exact htrap.1.2)
      have := hok x hx
      rw [exec_lowerSwitch_eq hdft hlab hne, (htr x hx).stuck c hc hin htrap] at this
      cases this
    · by_contra hboth
      simp only [not_or, not_forall, Bool.not_eq_false] at hboth
      obtain ⟨⟨c, hc, htrap⟩, c', hc', hjumps⟩ := hboth
      obtain ⟨x, hx, hin⟩ := exists_mem_gap h hd hc (by
        simp only [Call.intoEnd, Bool.and_eq_true] at htrap
        exact htrap.1.2)
      have := hok x hx
      rw [exec_lowerSwitch_eq hdft hlab hne, (htr x hx).fall c hc hin htrap] at this
      rw [hjump, if_pos (List.any_eq_true.mpr ⟨c', hc', hjumps⟩)] at this
      cases this
  · rintro ⟨htable, hend⟩ x hx
    rw [exec_lowerSwitch_eq hdft hlab hne]
    by_cases htrap : ∃ c ∈ switchCalls dense (some freq) stmt,
        InGap stmt.sortCasePair (x - d) c.run ∧ c.intoEnd stmt.sortCasePair (some freq) = true
    · obtain ⟨c, hc, hin, htrap⟩ := htrap
      have hnone : (switchCalls dense (some freq) stmt).any
          (Call.jumpsToDefault stmt.sortCasePair (some freq)) = false := by
        rcases hend with hend | hend
        · rw [hend c hc] at htrap
          cases htrap
        · exact List.any_eq_false.mpr fun c hc => by simp [hend c hc]
      obtain ⟨-, -, -, hne'⟩ := hin.calls_bounds (SwitchNode.sorted_sortCasePair h.nodup)
        (slice_switchItems dense stmt.sortCasePair) (Nat.le_refl _) hc
      have hsel : Selects stmt.sortCasePair (x - d) 0 stmt.sortCasePair.switchTable.length
          stmt.defaultLabel := Or.inr ⟨fun i _ hi => hne' i hi, rfl⟩
      rw [(htr x hx).fall c hc hin htrap, ← h.eq_target hd hsel]
      simp [hjump, hnone]
    · obtain ⟨l, hl, hsel⟩ := (htr x hx).leave fun c hc hin => by
        refine ⟨htable c hc, Bool.eq_false_iff.mpr fun hend => ?_⟩
        exact htrap ⟨c, hc, hin, hend⟩
      rw [hl, h.eq_target hd hsel]

/-- The code of a switch with profile data jumps to the same labels as the code without profile
data exactly when the reordered tests do no harm. -/
theorem exec_profile_eq_iff (dense : Int → Int → Int → Bool) (freq : LabelIdx → Int)
    (h : stmt.WellFormed) (hdft : stmt.defaultLabel ≠ 0)
    (hlab : stmt.LabelsBefore newLabelIdx n) :
    (∀ x, stmt.opndType.format.Mem x →
      ∃ l, exec stmt.opndType x (lowerSwitch dense (some freq) stmt newLabelIdx n) = .leave l ∧
        exec stmt.opndType x (lowerSwitch dense none stmt newLabelIdx n) = .leave l) ↔
      ReorderingSafe dense freq stmt := by
  rw [← exec_lowerSwitch_profile_iff freq h hdft hlab]
  refine forall₂_congr fun x hx => ?_
  rw [exec_lowerSwitch h hdft hlab hx]
  constructor
  · rintro ⟨l, hl, heq⟩
    rw [hl, heq]
  · intro hl
    exact ⟨_, hl, rfl⟩

omit [Target] in
theorem exec_profile_eq_gapSwitch :
    letI := Target.lp64
    ∃ l, exec gapSwitch.opndType 5 (lowerSwitch denseRegion (some fun l => l) gapSwitch 0 30) =
        .leave l ∧
      exec gapSwitch.opndType 5 (lowerSwitch denseRegion none gapSwitch 0 30) = .leave l :=
  letI := Target.lp64
  (exec_profile_eq_iff denseRegion (fun l => l) ⟨by decide, by decide, by decide, by decide⟩
    (by decide) ⟨by decide, by decide, by decide⟩).mpr (by decide) 5 (by decide)

/-- A switch on widely spaced tags, of which 1499 and 1500 are consecutive. -/
def spacedSwitch : SwitchNode :=
  ⟨.i32, 1, [(0, 10), (1000, 11), (1499, 12), (1500, 13), (1700, 14), (1800, 15), (2000, 16)]⟩

omit [Target] in
/-- Between the tags 1000 and 1499, whose tests are reordered, both bounds are taken as checked:
the code has no jump for the value 1200. -/
theorem exec_profile_spacedSwitch :
    letI := Target.lp64
    spacedSwitch.WellFormed ∧ spacedSwitch.LabelsBefore 0 30 ∧
      exec .i32 1200
          (lowerSwitch denseRegion (some fun l => if l = 12 then 9 else 1) spacedSwitch 0 30) =
        .fall ∧
      exec .i32 1200 (lowerSwitch denseRegion none spacedSwitch 0 30) = .leave 1 :=
  letI := Target.lp64
  ⟨⟨by decide, by decide, by decide, by decide⟩, ⟨by decide, by decide, by decide⟩,
    by decide +kernel, by decide +kernel⟩

end Maple.SwitchLowerer
