import Maple.ME.CFG.Runs
import Maple.ME.ValueRange.Switch

/-!
# Switches on a constant

`DealWithSwitchWhenOpndIsConstant` removes an edge for each case that the constant does not select,
although one edge may serve several cases.
-/

namespace Maple

namespace CFG

/-- Every phi has an operand for each predecessor. -/
def PhisAligned (s : CFG) : Prop := ∀ b, ∀ opnds ∈ (s b).phiOpnds, opnds.length = (s b).pred.length

variable {profileUse : Bool} {s s' : CFG} {this succBB : BBId}

lemma removeBBFromPred_phisAligned {bb : BBId} (hphi : s.PhisAligned)
    (h : removeBBFromPred this bb true s = some s') : s'.PhisAligned := by
  unfold removeBBFromPred at h
  split at h
  case isFalse => cases h
  case isTrue hmem =>
  obtain ⟨b, hb, rfl⟩ := Option.map_eq_some_iff.mp h
  rw [if_pos rfl] at hb
  unfold removePhiOpnd at hb
  split_ifs at hb
  cases hb
  have hidx := List.idxOf_lt_length_of_mem hmem
  intro c opnds hopnds
  by_cases hc : c = this
  · subst hc
    simp only [Function.update_self, List.mem_map] at hopnds ⊢
    obtain ⟨opnds, hold, rfl⟩ := hopnds
    have hlen := hphi c opnds hold
    rw [removeBBFromVector, List.length_erase_of_mem hmem, List.length_eraseIdx_of_lt (by omega)]
    omega
  · rw [Function.update_of_ne hc] at hopnds ⊢
    exact hphi c opnds hopnds

lemma removeBBFromPred_isSome {bb : BBId} (hphi : s.PhisAligned) (hmem : bb ∈ (s this).pred) :
    ∃ s', removeBBFromPred this bb true s = some s' := by
  have hidx := List.idxOf_lt_length_of_mem hmem
  have hall : ((s this).phiOpnds.all fun opnds => (s this).pred.idxOf bb < opnds.length) = true := by
    rw [List.all_eq_true]
    intro opnds hopnds
    rw [decide_eq_true_eq, hphi this opnds hopnds]
    exact hidx
  simp [removeBBFromPred, hmem, removePhiOpnd, hall]

/-- What the removal of successors of a block keeps. -/
structure Removable (s : CFG) (this : BBId) : Prop where
  wellFormed : s.WellFormed
  phisAligned : s.PhisAligned
  notCommon_this : notCommon this = true
  notCommon_succ : ∀ b ∈ (s this).succ, notCommon b = true

lemma Removable.nodup (hs : s.Removable this) : (s this).succ.Nodup := by
  rw [List.nodup_iff_count_le_one]
  intro b
  by_cases hb : b ∈ (s this).succ
  · exact hs.wellFormed.count_le_one this b hs.notCommon_this (hs.notCommon_succ b hb)
  · rw [List.count_eq_zero.mpr hb]
    exact Nat.zero_le 1

lemma Removable.removeSucc_of_mem (profileUse : Bool) (hs : s.Removable this)
    (hmem : succBB ∈ (s this).succ) :
    ∃ s', removeSucc profileUse this succBB true s = some s' ∧
      (s' this).succ = (s this).succ.erase succBB ∧ s'.Removable this := by
  have hcommon := hs.notCommon_succ succBB hmem
  have hpred : this ∈ (s succBB).pred := by
    have hpos : 0 < succCount s this succBB := List.count_pos_iff.mpr hmem
    rw [hs.wellFormed.count_eq this succBB hs.notCommon_this hcommon] at hpos
    exact List.count_pos_iff.mp hpos
  obtain ⟨t, ht⟩ := removeBBFromPred_isSome hs.phisAligned hpred
  have hremove : removeSucc profileUse this succBB true s =
      some (removeBBFromSucc profileUse this succBB t) := by
    simp [removeSucc, hs.notCommon_this, hcommon, ht]
  obtain ⟨hchange, herase⟩ := removeSucc_spec hs.wellFormed.toSymmetric hremove
  have hphi := removeBBFromPred_phisAligned hs.phisAligned ht
  refine ⟨_, hremove, herase, hchange.wellFormed_noEdge hs.wellFormed, ?_, hs.notCommon_this, ?_⟩
  · -- the second half of the removal keeps predecessors and phis
    intro b
    by_cases hb : b = this
    · subst hb
      simpa [removeBBFromSucc] using hphi b
    · simpa [removeBBFromSucc, hb] using hphi b
  · intro b hb
    rw [herase] at hb
    exact hs.notCommon_succ b (List.mem_of_mem_erase hb)

lemma Removable.removeSucc_of_not_mem (hs : s.Removable this) (hmem : succBB ∉ (s this).succ) :
    removeSucc profileUse this succBB true s = none := by
  unfold removeSucc
  split_ifs with hcommon
  · rw [Bool.and_eq_true] at hcommon
    have hpred : this ∉ (s succBB).pred := fun h =>
      hmem (hs.wellFormed.mem_succ_of_mem_pred hcommon.1 hcommon.2 h)
    simp [removeBBFromPred, hpred]
  · rfl

variable (profileUse this) in
/-- Several calls of `RemoveSucc`. -/
def removeSuccs (removed : List BBId) (s : CFG) : Option CFG :=
  removed.foldlM (fun s b => removeSucc profileUse this b true s) s

lemma Removable.removeSuccs_iff (hs : s.Removable this) (removed succ : List BBId) :
    (∃ s', removeSuccs profileUse this removed s = some s' ∧ (s' this).succ = succ) ↔
      removed.Nodup ∧ (∀ b ∈ removed, b ∈ (s this).succ) ∧
        (s this).succ.filter (· ∉ removed) = succ := by
  induction removed generalizing s with
  | nil => simp [removeSuccs]
  | cons x removed ih =>
    by_cases hmem : x ∈ (s this).succ
    · obtain ⟨t, ht, herase, htr⟩ := hs.removeSucc_of_mem profileUse hmem
      have hfold : removeSuccs profileUse this (x :: removed) s =
          removeSuccs profileUse this removed t := by
        simp [removeSuccs, ht]
      have hfilter : ((s this).succ.erase x).filter (· ∉ removed) =
          (s this).succ.filter (· ∉ x :: removed) := by
        rw [hs.nodup.erase_eq_filter, List.filter_filter]
        apply List.filter_congr
        intro b _
        by_cases hb : b = x <;> simp [hb]
      rw [hfold, ih htr, herase, hfilter, List.nodup_cons]
      simp only [List.forall_mem_cons, hs.nodup.mem_erase_iff, hmem, true_and]
      constructor
      · rintro ⟨hnodup, hall, heq⟩
        exact ⟨⟨fun hx => (hall x hx).1 rfl, hnodup⟩, fun b hb => (hall b hb).2, heq⟩
      · rintro ⟨⟨hx, hnodup⟩, hall, heq⟩
        exact ⟨hnodup, fun b hb => ⟨fun h => hx (h ▸ hb), hall b hb⟩, heq⟩
    · have hnone : removeSuccs profileUse this (x :: removed) s = none := by
        simp [removeSuccs, hs.removeSucc_of_not_mem hmem]
      rw [hnone]
      simp [hmem]

/-- A block whose successors have no other predecessors. -/
def fanOut (this : BBId) (succ : List BBId) : CFG := fun b =>
  { pred := if b ∈ succ then [this] else []
    succ := if b = this then succ else []
    succFreq := []
    frequency := 0
    isEntry := false
    isExit := false
    phiOpnds := [] }

lemma removable_fanOut {succ : List BBId} (hsucc : succ.Nodup) (hthis : notCommon this = true)
    (hcommon : ∀ b ∈ succ, notCommon b = true) : (fanOut this succ).Removable this := by
  have hcount : ∀ a b, succCount (fanOut this succ) a b = predCount (fanOut this succ) a b ∧
      succCount (fanOut this succ) a b ≤ 1 := by
    intro a b
    have hle := List.nodup_iff_count_le_one.mp hsucc b
    have hpos : 0 < succ.count b ↔ b ∈ succ := List.count_pos_iff
    unfold succCount predCount fanOut
    by_cases ha : a = this
    · subst ha
      by_cases hb : b ∈ succ
      · simp only [if_pos hb, List.count_singleton_self, if_true]
        have := hpos.mpr hb
        omega
      · have hzero : succ.count b = 0 := List.count_eq_zero.mpr hb
        simp [hb, hzero]
    · have hone : [this].count a = 0 := List.count_eq_zero.mpr (by simpa using ha)
      by_cases hb : b ∈ succ <;> simp [ha, hb, hone]
  refine ⟨⟨⟨fun a b _ _ => (hcount a b).1, fun a b _ _ => (hcount a b).2⟩, ?_, ?_⟩, ?_, hthis, ?_⟩
  · intro a b _ _
    exact (hcount a b).1.ge
  · intro a b _ _
    exact (hcount a b).1.le
  · intro b opnds hopnds
    cases hopnds
  · intro b hb
    exact hcommon b (by simpa [fanOut] using hb)

end CFG

namespace ValueRangePropagation

variable {Var : Type} [Target]

/-- The successors that `MeCFG::BuildMirCFG` gives the block of a switch. -/
def switchSuccs (defaultBB : Option BBId) (cases : List (Int64 × BBId)) : List BBId :=
  cases.foldl (fun succ c => if c.2 ∈ succ then succ else succ ++ [c.2]) defaultBB.toList

/-- The block to which a switch transfers control if the value of its operand is `v`. -/
def switchTarget (opndPrimType : PrimType) (v : Int) (defaultBB : Option BBId)
    (cases : List (Int64 × BBId)) : Option BBId :=
  match cases.find? fun c => decide (opndPrimType.read c.1 = v) with
  | some c => some c.2
  | none => defaultBB

/-- The blocks other than the default block to which the cases lead whose tags are not `v`. -/
def otherTargets (v : Int) (defaultBB : Option BBId) (cases : List (Int64 × BBId)) : List BBId :=
  cases.filterMap fun c =>
    if c.1.toInt = v then none else if some c.2 = defaultBB then none else some c.2

/-- No other target is reached by two cases. If `v` is a tag, its block is not another target and
not the default block; if not, no tag becomes `v` in the operand type, or one that leads to the
default block. -/
def KeepsTarget (opndPrimType : PrimType) (v : Int) (defaultBB : Option BBId)
    (cases : List (Int64 × BBId)) : Prop :=
  let target := switchTarget opndPrimType v defaultBB cases
  let others := otherTargets v defaultBB cases
  others.Nodup ∧
    if ∃ c ∈ cases, c.1.toInt = v then
      target ≠ defaultBB ∧ (∀ b, target = some b → b ∉ others) ∧
        ∀ c ∈ cases, c.1.toInt = v → target = some c.2 ∨ some c.2 = defaultBB ∨ c.2 ∈ others
    else target = defaultBB

/-! ### Tags -/

lemma read_i64 (c : Int64) : PrimType.i64.read c = c.toInt := rfl

lemma opndEqualsCase_iff {t opndPrimType : PrimType} (hn : t.isNeeded) (ho : opndPrimType.isNeeded)
    {bound : Bound Var} (hb : bound.IsConst t)
    (hmem : opndPrimType.format.Mem (t.read bound.constant)) (tag : Int64) :
    opndEqualsCase bound opndPrimType tag = true ↔ tag.toInt = t.read bound.constant := by
  have hread : opndPrimType.read bound.constant = t.read bound.constant :=
    (PrimType.read_eq_read_iff ho hb.inType).mpr hmem
  have hi64 : PrimType.i64.isNeeded := rfl
  unfold opndEqualsCase
  split_ifs with hu1
  · rw [hb.ofType.primType_eq] at hu1
    subst hu1
    have h64 : ¬PrimType.u1.isUint64 := by simp [PrimType.isUint64]
    rw [beq_iff_eq, PrimType.read_of_inType h64 hb.inType, Int64.toInt_inj, eq_comm]
  · have htag : (⟨none, tag, .i64⟩ : Bound Var).isEqualAfterCVT .i64 opndPrimType = true ↔
        opndPrimType.read tag = tag.toInt := by
      rw [Bound.isEqualAfterCVT_iff hi64 ho rfl, read_i64]
    have hbound : bound.isEqualAfterCVT bound.primType opndPrimType = true := by
      rw [hb.ofType.primType_eq, Bound.isEqualAfterCVT_iff hn ho hb.inType]
      exact hread
    rw [Bound.isEqual, Bound.compare_eq, hbound, Bool.true_and, Bool.and_eq_true, htag, hread]
    simp only [CmpOp.eval, beq_iff_eq]
    constructor
    · rintro ⟨htag, heq⟩
      rw [← htag, heq]
    · intro heq
      have hcvt : opndPrimType.read tag = tag.toInt := by
        rw [PrimType.read_eq_cvt ho, PrimType.cvt_eq_self_iff, heq]
        exact hmem
      exact ⟨hcvt, by rw [hcvt, heq]⟩

/-! ### Successors -/

omit [Target] in
lemma mem_switchSuccs {defaultBB : Option BBId} {cases : List (Int64 × BBId)} {b : BBId} :
    b ∈ switchSuccs defaultBB cases ↔ defaultBB = some b ∨ ∃ c ∈ cases, c.2 = b := by
  have hfold : ∀ succ : List BBId,
      b ∈ cases.foldl (fun succ c => if c.2 ∈ succ then succ else succ ++ [c.2]) succ ↔
        b ∈ succ ∨ ∃ c ∈ cases, c.2 = b := by
    induction cases with
    | nil => simp
    | cons c rest ih =>
      intro succ
      rw [List.foldl_cons, ih]
      split_ifs with hc
      · simp only [List.exists_mem_cons_iff]
        constructor
        · rintro (h | h)
          · exact Or.inl h
          · exact Or.inr (Or.inr h)
        · rintro (h | rfl | h)
          · exact Or.inl h
          · exact Or.inl hc
          · exact Or.inr h
      · simp [or_assoc, eq_comm]
  rw [switchSuccs, hfold]
  simp [Option.mem_toList]

omit [Target] in
lemma eq_toList_iff {l : List BBId} (hl : l.Nodup) (o : Option BBId) :
    l = o.toList ↔ ∀ b, b ∈ l ↔ o = some b := by
  constructor
  · rintro rfl b
    simp
  · intro h
    cases o with
    | none =>
      apply List.eq_nil_iff_forall_not_mem.mpr
      intro b hb
      cases (h b).mp hb
    | some x =>
      have hmem : x ∈ l := (h x).mpr rfl
      apply List.perm_singleton.mp
      rw [List.perm_ext_iff_of_nodup hl (List.nodup_singleton x)]
      intro b
      rw [h b]
      simp [eq_comm]

omit [Target] in
lemma mem_otherTargets {v : Int} {defaultBB : Option BBId} {cases : List (Int64 × BBId)}
    {b : BBId} : b ∈ otherTargets v defaultBB cases ↔
      some b ≠ defaultBB ∧ ∃ c ∈ cases, c.1.toInt ≠ v ∧ c.2 = b := by
  simp only [otherTargets, List.mem_filterMap]
  constructor
  · rintro ⟨c, hc, h⟩
    split_ifs at h with hv hd
    cases h
    exact ⟨hd, c, hc, hv, rfl⟩
  · rintro ⟨hd, c, hc, hv, rfl⟩
    exact ⟨c, hc, by rw [if_neg hv, if_neg hd]⟩

lemma switchTarget_mem {opndPrimType : PrimType} {v : Int} {defaultBB : Option BBId}
    {cases : List (Int64 × BBId)} {b : BBId}
    (h : switchTarget opndPrimType v defaultBB cases = some b) :
    defaultBB = some b ∨ ∃ c ∈ cases, c.2 = b := by
  unfold switchTarget at h
  split at h
  · rename_i c hc
    cases h
    exact Or.inr ⟨c, List.mem_of_find?_eq_some hc, rfl⟩
  · exact Or.inl h

lemma switchTarget_isSome {opndPrimType : PrimType} (ho : opndPrimType.isNeeded) {v : Int}
    (hmem : opndPrimType.format.Mem v) {defaultBB : Option BBId} {cases : List (Int64 × BBId)}
    {c : Int64 × BBId} (hc : c ∈ cases) (hv : c.1.toInt = v) :
    ∃ b, switchTarget opndPrimType v defaultBB cases = some b := by
  unfold switchTarget
  cases hfind : cases.find? fun c => decide (opndPrimType.read c.1 = v) with
  | some d => exact ⟨d.2, rfl⟩
  | none =>
    have hnone := List.find?_eq_none.mp hfind c hc
    refine absurd ?_ hnone
    rw [decide_eq_true_eq, PrimType.read_eq_cvt ho, hv, PrimType.cvt_eq_self_iff]
    exact hmem

section Remaining

variable {opndPrimType : PrimType} {v : Int} {defaultBB : Option BBId}
  {cases : List (Int64 × BBId)} {target : Option BBId}

omit [Target] in
lemma remaining_iff_of_not_found (h : ¬∃ c ∈ cases, c.1.toInt = v) :
    (∀ b, (b ∈ switchSuccs defaultBB cases ∧ b ∉ otherTargets v defaultBB cases) ↔
      target = some b) ↔ target = defaultBB := by
  have hall : ∀ c ∈ cases, c.1.toInt ≠ v := fun c hc hv => h ⟨c, hc, hv⟩
  have hstays : ∀ b, (b ∈ switchSuccs defaultBB cases ∧
      b ∉ otherTargets v defaultBB cases) ↔ defaultBB = some b := by
    intro b
    rw [mem_switchSuccs, mem_otherTargets]
    constructor
    · rintro ⟨hd | ⟨c, hc, hcb⟩, hother⟩
      · exact hd
      · by_contra hd
        exact hother ⟨fun h => hd h.symm, c, hc, hall c hc, hcb⟩
    · intro hd
      exact ⟨Or.inl hd, fun hother => hother.1 hd.symm⟩
  simp only [hstays]
  constructor
  · intro hiff
    cases hd : defaultBB with
    | none =>
      cases ht : target with
      | none => rfl
      | some b =>
        have := (hiff b).mpr ht
        rw [hd] at this
        cases this
    | some b => exact (hiff b).mp hd
  · rintro rfl b
    rfl

omit [Target] in
lemma remaining_iff_of_found (hsome : ∃ b, target = some b)
    (htarget : ∀ b, target = some b → defaultBB = some b ∨ ∃ c ∈ cases, c.2 = b) :
    (∀ b, (b ∈ switchSuccs defaultBB cases ∧ b ∉ otherTargets v defaultBB cases ∧
      defaultBB ≠ some b) ↔ target = some b) ↔
      target ≠ defaultBB ∧ (∀ b, target = some b → b ∉ otherTargets v defaultBB cases) ∧
        ∀ c ∈ cases, c.1.toInt = v →
          target = some c.2 ∨ some c.2 = defaultBB ∨ c.2 ∈ otherTargets v defaultBB cases := by
  obtain ⟨x, hx⟩ := hsome
  constructor
  · intro hiff
    obtain ⟨-, hother, hd⟩ := (hiff x).mpr hx
    refine ⟨fun h => hd (h ▸ hx), ?_, ?_⟩
    · intro b hb
      exact ((hiff b).mpr hb).2.1
    · intro c hc _
      by_contra hnone
      obtain ⟨hne, hd', hother'⟩ : target ≠ some c.2 ∧ some c.2 ≠ defaultBB ∧
          c.2 ∉ otherTargets v defaultBB cases := by
        simpa only [not_or] using hnone
      exact hne ((hiff c.2).mp
        ⟨mem_switchSuccs.mpr (Or.inr ⟨c, hc, rfl⟩), hother', fun h => hd' h.symm⟩)
  · rintro ⟨hne, hother, hall⟩ b
    constructor
    · rintro ⟨hsucc, hb, hd⟩
      rcases mem_switchSuccs.mp hsucc with h | ⟨c, hc, rfl⟩
      · exact absurd h hd
      · by_cases hv : c.1.toInt = v
        · rcases hall c hc hv with h | h | h
          · exact h
          · exact absurd h.symm hd
          · exact absurd h hb
        · exact absurd (mem_otherTargets.mpr ⟨fun h => hd h.symm, c, hc, hv, rfl⟩) hb
    · intro hb
      exact ⟨mem_switchSuccs.mpr (htarget b hb), hother b hb, fun hd => hne (hb.trans hd.symm)⟩

end Remaining

/-! ### The removed edges -/

lemma removedSuccs_eq {t : PrimType} (hn : t.isNeeded) {sw : SwitchMeStmt}
    (ho : sw.opndPrimType.isNeeded) {bound : Bound Var} (hb : bound.IsConst t)
    (hmem : sw.opndPrimType.format.Mem (t.read bound.constant)) (defaultBB : Option BBId)
    (cases : List (Int64 × BBId)) :
    (switchWhenOpndIsConstant defaultBB bound sw cases).removedSuccs =
      if ∃ c ∈ cases, c.1.toInt = t.read bound.constant then
        otherTargets (t.read bound.constant) defaultBB cases ++ defaultBB.toList
      else otherTargets (t.read bound.constant) defaultBB cases := by
  have hcase := opndEqualsCase_iff hn ho hb hmem
  have hany : (cases.any fun c => opndEqualsCase bound sw.opndPrimType c.1) = true ↔
      ∃ c ∈ cases, c.1.toInt = t.read bound.constant := by
    rw [List.any_eq_true]
    simp only [hcase]
  simp only [switchWhenOpndIsConstant, otherTargets, hany, hcase]

/-- After the removal the only successor is the target of the switch, exactly under
`KeepsTarget`. -/
theorem switchWhenOpndIsConstant_keepsTarget_iff {profileUse : Bool} {s : CFG} {bb : BBId}
    (hs : s.Removable bb) {defaultBB : Option BBId} {cases : List (Int64 × BBId)}
    (hsucc : (s bb).succ = switchSuccs defaultBB cases) {t : PrimType} (hn : t.isNeeded)
    {sw : SwitchMeStmt} (ho : sw.opndPrimType.isNeeded) {bound : Bound Var} (hb : bound.IsConst t)
    (hmem : sw.opndPrimType.format.Mem (t.read bound.constant)) :
    (∃ s', CFG.removeSuccs profileUse bb
        (switchWhenOpndIsConstant defaultBB bound sw cases).removedSuccs s = some s' ∧
      (s' bb).succ =
        (switchTarget sw.opndPrimType (t.read bound.constant) defaultBB cases).toList) ↔
      KeepsTarget sw.opndPrimType (t.read bound.constant) defaultBB cases := by
  have hnodup := hs.nodup
  rw [hs.removeSuccs_iff, removedSuccs_eq hn ho hb hmem, hsucc, eq_toList_iff ?_]
  · rw [hsucc] at hnodup
    unfold KeepsTarget
    generalize t.read bound.constant = v at *
    have hothers : ∀ b ∈ otherTargets v defaultBB cases, b ∈ switchSuccs defaultBB cases := by
      intro b hb
      obtain ⟨-, c, hc, -, hcb⟩ := mem_otherTargets.mp hb
      exact mem_switchSuccs.mpr (Or.inr ⟨c, hc, hcb⟩)
    by_cases hfound : ∃ c ∈ cases, c.1.toInt = v
    · obtain ⟨c, hc, hv⟩ := hfound
      have hfound : ∃ c ∈ cases, c.1.toInt = v := ⟨c, hc, hv⟩
      simp only [if_pos hfound]
      rw [← remaining_iff_of_found (switchTarget_isSome ho hmem hc hv)
        fun b => switchTarget_mem]
      simp only [List.mem_filter, List.mem_append, Option.mem_toList, decide_eq_true_eq, not_or,
        List.nodup_append]
      constructor
      · rintro ⟨⟨hd, -, -⟩, -, hall⟩
        exact ⟨hd, hall⟩
      · rintro ⟨hd, hall⟩
        refine ⟨⟨hd, ?_, ?_⟩, ?_, hall⟩
        · cases defaultBB <;> simp
        · rintro b hb c hc rfl
          exact (mem_otherTargets.mp hb).1 hc.symm
        · rintro b (hb | hb)
          · exact hothers b hb
          · exact mem_switchSuccs.mpr (Or.inl hb)
    · simp only [if_neg hfound]
      rw [← remaining_iff_of_not_found hfound]
      simp only [List.mem_filter, decide_eq_true_eq]
      constructor
      · rintro ⟨hd, -, hall⟩
        exact ⟨hd, hall⟩
      · rintro ⟨hd, hall⟩
        exact ⟨hd, hothers, hall⟩
  · exact (hsucc ▸ hnodup).filter _

omit [Target] in
/-- The switch `1 -> 2, 7 -> 4, default 3`. -/
theorem switchWhenOpndIsConstant_keepsTarget_iff_fanOut :
    letI := Target.lp64
    (∃ s', CFG.removeSuccs false 5 (switchWhenOpndIsConstant (some 3)
        (⟨none, 1, .i32⟩ : Bound Unit) ⟨3, [(1, 2), (7, 4)], .i32⟩ [(1, 2), (7, 4)]).removedSuccs
        (CFG.fanOut 5 [3, 2, 4]) = some s' ∧
      (s' 5).succ = (switchTarget .i32 (PrimType.i32.read 1) (some 3) [(1, 2), (7, 4)]).toList) ↔
      KeepsTarget .i32 (PrimType.i32.read 1) (some 3) [(1, 2), (7, 4)] := by
  let _ := Target.lp64
  have hremovable : (CFG.fanOut 5 [3, 2, 4]).Removable 5 :=
    CFG.removable_fanOut (by decide) (by decide) (by decide)
  have hbound : (⟨none, 1, .i32⟩ : Bound Unit).IsConst .i32 := ⟨rfl, rfl, fun _ => by decide⟩
  exact switchWhenOpndIsConstant_keepsTarget_iff hremovable rfl rfl rfl hbound
    ⟨by decide, by decide⟩

omit [Target] in
/-- In `1 -> 2, 2 -> 2, default 3` the edge to the block `2` is removed for the tag two, although
the constant is one. -/
theorem switchWhenOpndIsConstant_sharedTarget :
    letI := Target.lp64
    (CFG.fanOut 5 [3, 2]).Removable 5 ∧
      (CFG.fanOut 5 [3, 2] 5).succ = switchSuccs (some 3) [(1, 2), (2, 2)] ∧
      (CFG.removeSuccs false 5 (switchWhenOpndIsConstant (some 3)
        (⟨none, 1, .i32⟩ : Bound Unit) ⟨3, [(1, 2), (2, 2)], .i32⟩ [(1, 2), (2, 2)]).removedSuccs
        (CFG.fanOut 5 [3, 2])).map (fun s => (s 5).succ) = some [] ∧
      switchTarget .i32 (PrimType.i32.read 1) (some 3) [(1, 2), (2, 2)] = some 2 := by
  let _ := Target.lp64
  exact ⟨CFG.removable_fanOut (by decide) (by decide) (by decide), rfl, by decide +kernel,
    by decide +kernel⟩

end ValueRangePropagation
end Maple
