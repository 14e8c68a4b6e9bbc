import Maple.BE.SwitchLowerer.Items

/-!
# What the nodes of a lowered switch do

Tags are compared and looked up in the type of the operand. If reading the tags in that type only
shifts them, an operand value `x` can be replaced by the value `y` on the scale of the tags.
-/

namespace Maple.SwitchLowerer

open ForwardCode

variable {stmt : SwitchNode} {newLabelIdx : LabelIdx} {x y : Int} {a b i j : Nat}

/-! ### The entries of a jump table -/

/-- `l` is the label of the entry of `[a, b)` with tag `y`, or `dft` if there is none. -/
def SelectsOr (stmt : SwitchNode) (dft : LabelIdx) (y : Int) (a b : Nat) (l : LabelIdx) : Prop :=
  (∃ i, a ≤ i ∧ i < b ∧ stmt.tag i = y ∧ l = stmt.lab i) ∨
    (∀ i, a ≤ i → i < b → stmt.tag i ≠ y) ∧ l = dft

/-- `l` is the target of the switch as far as the entries of `[a, b)` are concerned. -/
abbrev Selects (stmt : SwitchNode) := SelectsOr stmt stmt.defaultLabel

lemma SelectsOr.widen {dft l : LabelIdx} {a' b' : Nat} (h : SelectsOr stmt dft y a' b' l)
    (ha : a ≤ a') (hb : b' ≤ b) (hlow : ∀ i, a ≤ i → i < a' → stmt.tag i ≠ y)
    (hhigh : ∀ i, b' ≤ i → i < b → stmt.tag i ≠ y) : SelectsOr stmt dft y a b l := by
  rcases h with ⟨i, hai, hib, htag, rfl⟩ | ⟨hnone, rfl⟩
  · exact Or.inl ⟨i, by omega, by omega, htag, rfl⟩
  · refine Or.inr ⟨fun i hai hib => ?_, rfl⟩
    rcases Nat.lt_or_ge i a' with h₁ | h₁
    · exact hlow i hai h₁
    rcases Nat.lt_or_ge i b' with h₂ | h₂
    · exact hnone i h₁ h₂
    · exact hhigh i h₂ hib

/-- The label that fills the gaps of a jump table, 0 if there is none. -/
def fillLabel (stmt : SwitchNode) (newLabelIdx : LabelIdx) : LabelIdx :=
  if stmt.defaultLabel ≠ 0 then stmt.defaultLabel else newLabelIdx

lemma fillLabel_of_default (hdft : stmt.defaultLabel ≠ 0) (newLabelIdx : LabelIdx) :
    fillLabel stmt newLabelIdx = stmt.defaultLabel := if_pos hdft

lemma gapEntries_snd (hfill : fillLabel stmt newLabelIdx ≠ 0) (off last tag : Int) :
    (gapEntries stmt newLabelIdx off last tag).map Prod.snd =
      List.replicate (tag - last - 1).toNat (fillLabel stmt newLabelIdx) := by
  unfold gapEntries
  generalize (tag - last - 1).toNat = m
  have hentry : ∀ k : Nat, ((if stmt.defaultLabel ≠ 0 then
      [(((last + 1 + k - off) % 2 ^ 16).toNat, stmt.defaultLabel)]
      else if newLabelIdx ≠ 0 then [(((last + 1 + k - off) % 2 ^ 16).toNat, newLabelIdx)]
      else []).map Prod.snd) = [fillLabel stmt newLabelIdx] := by
    intro k
    unfold fillLabel at hfill ⊢
    split_ifs with h₁ h₂
    · rfl
    · rfl
    · simp [h₁, h₂] at hfill
  rw [List.map_flatMap]
  simp only [hentry]
  simp [List.flatMap_eq_foldl]

lemma rangeGotoEntries_getElem (hs : stmt.Sorted) (hfill : fillLabel stmt newLabelIdx ≠ 0)
    (off : Int) {n : Nat} {last : Int} {k : Nat} (hn : 0 < n)
    (hlen : i + n ≤ stmt.switchTable.length) (hlast : last < stmt.tag i)
    (hk : last + 1 + k ≤ stmt.tag (i + n - 1)) :
    ∃ l, ((rangeGotoEntries stmt newLabelIdx off n i last).map Prod.snd)[k]? = some l ∧
      SelectsOr stmt (fillLabel stmt newLabelIdx) (last + 1 + k) i (i + n) l := by
  induction n generalizing i last k with
  | zero => exact absurd hn (Nat.lt_irrefl 0)
  | succ n ih =>
    simp only [rangeGotoEntries, List.map_append, List.map_cons, gapEntries_snd hfill]
    rcases lt_trichotomy k (stmt.tag i - last - 1).toNat with hlt | heq | hgt
    · refine ⟨fillLabel stmt newLabelIdx, ?_, Or.inr ⟨fun m him hm => ?_, rfl⟩⟩
      · rw [List.getElem?_append_left (by simpa using hlt), List.getElem?_replicate_of_lt hlt]
      · have := hs.le him (by omega)
        omega
    · refine ⟨stmt.lab i, ?_, Or.inl ⟨i, Nat.le_refl i, by omega, by omega, rfl⟩⟩
      rw [List.getElem?_append_right (by simpa using heq.ge)]
      simp [heq]
    · have hn' : 0 < n := by
        rcases Nat.eq_zero_or_pos n with rfl | h
        · simp only [Nat.zero_add, Nat.add_sub_cancel] at hk
          omega
        · exact h
      have hlt := hs i (i + 1) (Nat.lt_succ_self i) (by omega)
      obtain ⟨l, hl, hsel⟩ := ih (i := i + 1)
        (k := k - (stmt.tag i - last - 1).toNat - 1) hn' (by omega) hlt
        (by rw [show i + 1 + n - 1 = i + (n + 1) - 1 by omega]; omega)
      refine ⟨l, ?_, ?_⟩
      · rw [List.getElem?_append_right (by simpa using hgt.le), List.length_replicate]
        obtain ⟨m, hm⟩ : ∃ m, k - (stmt.tag i - last - 1).toNat = m + 1 :=
          ⟨k - (stmt.tag i - last - 1).toNat - 1, by omega⟩
        rw [hm, Nat.add_sub_cancel] at hl
        rw [hm, List.getElem?_cons_succ]
        exact hl
      · rw [show stmt.tag i + 1 + ((k - (stmt.tag i - last - 1).toNat - 1 : Nat) : Int) =
          last + 1 + k by omega] at hsel
        refine hsel.widen (Nat.le_succ i) (by omega) (fun m hm hm' => ?_) (fun m hm hm' => ?_)
        · obtain rfl : m = i := by omega
          omega
        · omega

lemma length_rangeGotoEntries (hs : stmt.Sorted) (hfill : fillLabel stmt newLabelIdx ≠ 0)
    (off : Int) {n : Nat} {last : Int} (hn : 0 < n) (hlen : i + n ≤ stmt.switchTable.length)
    (hlast : last < stmt.tag i) :
    (rangeGotoEntries stmt newLabelIdx off n i last).length =
      (stmt.tag (i + n - 1) - last).toNat := by
  induction n generalizing i last with
  | zero => exact absurd hn (Nat.lt_irrefl 0)
  | succ n ih =>
    have hgap := congrArg List.length (gapEntries_snd hfill off last (stmt.tag i))
    simp only [List.length_map, List.length_replicate] at hgap
    simp only [rangeGotoEntries, List.length_append, List.length_cons, hgap]
    rcases Nat.eq_zero_or_pos n with rfl | hn'
    · simp only [rangeGotoEntries, List.length_nil, Nat.zero_add, Nat.add_sub_cancel]
      omega
    · have hlt := hs i (i + 1) (Nat.lt_succ_self i) (by omega)
      rw [ih hn' (by omega) hlt, show i + 1 + n - 1 = i + (n + 1) - 1 by omega]
      have := hs.le (i := i + 1) (j := i + (n + 1) - 1) (by omega) (by omega)
      omega

lemma buildRangeGotoNode_getElem (hs : stmt.Sorted) (hfill : fillLabel stmt newLabelIdx ≠ 0)
    {k : Nat} (hij : i < j) (hj : j < stmt.switchTable.length)
    (hk : stmt.tag i + k ≤ stmt.tag j) :
    ∃ l, ((buildRangeGotoNode stmt newLabelIdx i j).rangegotoTable.map Prod.snd)[k]? = some l ∧
      SelectsOr stmt (fillLabel stmt newLabelIdx) (stmt.tag i + k) i (j + 1) l := by
  simp only [buildRangeGotoNode, List.map_cons]
  cases k with
  | zero => exact ⟨stmt.lab i, rfl, Or.inl ⟨i, Nat.le_refl i, by omega, by simp, rfl⟩⟩
  | succ k =>
    obtain ⟨l, hl, hsel⟩ := rangeGotoEntries_getElem hs hfill (int32.wrap (stmt.tag i))
      (i := i + 1) (n := j - i) (k := k) (by omega) (by omega)
      (hs i (i + 1) (Nat.lt_succ_self i) (by omega))
      (by rw [show i + 1 + (j - i) - 1 = j by omega]; push_cast at hk; omega)
    refine ⟨l, by simpa using hl, ?_⟩
    rw [show i + 1 + (j - i) = j + 1 by omega,
      show stmt.tag i + 1 + (k : Int) = stmt.tag i + ((k + 1 : Nat) : Int) by push_cast; ring]
      at hsel
    refine hsel.widen (Nat.le_succ i) (Nat.le_refl _) (fun m hm hm' => ?_) (fun m hm hm' => ?_)
    · obtain rfl : m = i := by omega
      push_cast
      omega
    · omega

lemma length_buildRangeGotoNode (hs : stmt.Sorted) (hfill : fillLabel stmt newLabelIdx ≠ 0)
    (hij : i < j) (hj : j < stmt.switchTable.length) :
    (buildRangeGotoNode stmt newLabelIdx i j).rangegotoTable.length =
      (stmt.tag j - stmt.tag i).toNat + 1 := by
  simp only [buildRangeGotoNode, List.length_cons]
  rw [length_rangeGotoEntries hs hfill _ (by omega) (by omega)
    (hs i (i + 1) (Nat.lt_succ_self i) (by omega)), show i + 1 + (j - i) - 1 = j by omega]

/-- All labels of the switch are below `n₀`. -/
structure LabelsBelow (stmt : SwitchNode) (newLabelIdx : LabelIdx) (n₀ : Nat) : Prop where
  lab_lt : ∀ i, stmt.lab i < n₀
  default_lt : stmt.defaultLabel < n₀
  new_lt : newLabelIdx < n₀

lemma LabelsBelow.zero {n₀ : Nat} (h : LabelsBelow stmt newLabelIdx n₀) :
    LabelsBelow stmt 0 n₀ :=
  ⟨h.lab_lt, h.default_lt, Nat.zero_lt_of_lt h.new_lt⟩

lemma LabelsBelow.fill_lt {n₀ : Nat} (h : LabelsBelow stmt newLabelIdx n₀) :
    fillLabel stmt newLabelIdx < n₀ := by
  unfold fillLabel
  split
  · exact h.default_lt
  · exact h.new_lt

lemma snd_lt_of_mem_rangeGotoEntries {n₀ : Nat} (hfill : fillLabel stmt newLabelIdx < n₀)
    (hlab : ∀ i, stmt.lab i < n₀) {off last : Int} {n : Nat} {p : Nat × LabelIdx}
    (hp : p ∈ rangeGotoEntries stmt newLabelIdx off n i last) : p.2 < n₀ := by
  induction n generalizing i last with
  | zero => simp [rangeGotoEntries] at hp
  | succ n ih =>
    simp only [rangeGotoEntries, List.mem_append, List.mem_cons] at hp
    rcases hp with hgap | rfl | hrest
    · unfold gapEntries at hgap
      obtain ⟨k, -, hk⟩ := List.mem_flatMap.mp hgap
      unfold fillLabel at hfill
      split_ifs at hk hfill
      · simp only [List.mem_singleton] at hk
        exact hk ▸ hfill
      · simp only [List.mem_singleton] at hk
        exact hk ▸ hfill
      · simp at hk
    · exact hlab i
    · exact ih hrest

/-! ### Operand values on the scale of the tags -/

variable [Target]

/-- The operand value `x` is `y` on the scale of the tags. -/
structure OnTagScale (stmt : SwitchNode) (x y : Int) : Prop where
  eval_wrap : ∀ (op : CmpOp) (i : Nat), i < stmt.switchTable.length →
    op.eval x (stmt.opndType.format.wrap (stmt.tag i)) = op.eval y (stmt.tag i)
  nonneg : stmt.opndType.isUnsignedInteger = true →
    ∀ i, i < stmt.switchTable.length → stmt.tag i = 0 → 0 ≤ y
  index_eq : ∀ i j, i ≤ j → j < stmt.switchTable.length → stmt.tag i ≤ y → y ≤ stmt.tag j →
    ((x - int32.wrap (stmt.tag i)) % stmt.opndType.format.modulus).toNat = (y - stmt.tag i).toNat
  index_gt : ∀ i j, i ≤ j → j < stmt.switchTable.length → y < stmt.tag i ∨ stmt.tag j < y →
    (stmt.tag j - stmt.tag i).toNat <
      ((x - int32.wrap (stmt.tag i)) % stmt.opndType.format.modulus).toNat

lemma onTagScale_of_offset (hs : stmt.Sorted) {d : Int}
    (hd : ∀ i, i < stmt.switchTable.length →
      stmt.opndType.format.wrap (stmt.tag i) = stmt.tag i + d)
    (h32 : ∀ i, i < stmt.switchTable.length → int32.Mem (stmt.tag i))
    (hx : stmt.opndType.format.Mem x) : OnTagScale stmt x (x - d) := by
  have hmem : ∀ i, i < stmt.switchTable.length →
      stmt.opndType.format.Mem (stmt.tag i + d) := fun i hi => hd i hi ▸ IntFormat.wrap_mem _ _
  have hspan := stmt.opndType.format.maxValue_sub_minValue
  have hcongr : ∀ i, i < stmt.switchTable.length → ∀ v : Int,
      v % stmt.opndType.format.modulus = (v - d) % stmt.opndType.format.modulus := by
    intro i hi v
    have := stmt.opndType.format.wrap_emod (stmt.tag i)
    rw [hd i hi, Int.emod_eq_emod_iff_emod_sub_eq_zero, add_sub_cancel_left] at this
    rw [Int.emod_eq_emod_iff_emod_sub_eq_zero, sub_sub_cancel]
    exact this
  refine ⟨fun op i hi => ?_, fun hu i hi h0 => ?_, fun i j hij hj hi hj' => ?_,
    fun i j hij hj hout => ?_⟩
  · rw [hd i hi, CmpOp.eval_add_right]
  · have h0' := hd i hi
    rw [h0, IntFormat.wrap_of_mem _ ⟨IntFormat.minValue_nonpos _, IntFormat.maxValue_nonneg _⟩]
      at h0'
    have : stmt.opndType.format.minValue = 0 := by
      have : stmt.opndType.isSignedInteger = false := by
        simp only [PrimType.isUnsignedInteger, Bool.and_eq_true] at hu
        simp [PrimType.isSignedInteger, hu.1]
      simp [IntFormat.minValue, PrimType.format, this]
    unfold IntFormat.Mem at hx
    omega
  · have h₁ := hmem i (by omega)
    have h₂ := hmem j hj
    unfold IntFormat.Mem at h₁ h₂
    rw [int32.wrap_of_mem (h32 i (by omega)), hcongr i (by omega),
      Int.emod_eq_of_lt (by omega) (by omega)]
    congr 1
    ring
  · have h₁ := hmem i (by omega)
    have h₂ := hmem j hj
    have hle := hs.le hij hj
    unfold IntFormat.Mem at h₁ h₂ hx
    rw [int32.wrap_of_mem (h32 i (by omega)), hcongr i (by omega)]
    rcases hout with hlow | hhigh
    · rw [← Int.add_emod_right, Int.emod_eq_of_lt (by omega) (by omega)]
      omega
    · rw [Int.emod_eq_of_lt (by omega) (by omega)]
      omega

/-! ### Single nodes -/

lemma exec_brtrue (hy : OnTagScale stmt x y) (hi : i < stmt.switchTable.length) (op : CmpOp)
    (l : LabelIdx) :
    exec stmt.opndType x [.brtrue (buildCmpNode stmt op i) l] =
      if op.eval y (stmt.tag i) then .leave l else .fall := by
  have : (buildCmpNode stmt op i).holds x = op.eval y (stmt.tag i) := hy.eval_wrap op i hi
  rw [exec, exec_brtrue_cons, this]
  rfl

lemma exec_rangegoto (t : PrimType) (node : RangeGotoNode) :
    exec t x [.rangegoto node] =
      match (node.rangegotoTable.map Prod.snd)[tableIndex t node x]? with
      | some l => .leave l
      | none => .stuck := by
  simp only [exec, Stmt.exec, ForwardCode.exec, List.map_cons, List.map_nil, Stmt.toInstr, run,
    List.getElem?_map]
  cases (node.rangegotoTable[tableIndex t node x]?).map Prod.snd <;> rfl

lemma exec_buildRangeGotoNode (hs : stmt.Sorted) (hfill : fillLabel stmt newLabelIdx ≠ 0)
    (hy : OnTagScale stmt x y) (hij : i < j) (hj : j < stmt.switchTable.length)
    (hi : stmt.tag i ≤ y) (hle : y ≤ stmt.tag j) :
    ∃ l, exec stmt.opndType x [.rangegoto (buildRangeGotoNode stmt newLabelIdx i j)] = .leave l ∧
      SelectsOr stmt (fillLabel stmt newLabelIdx) y i (j + 1) l := by
  obtain ⟨l, hl, hsel⟩ := buildRangeGotoNode_getElem hs hfill (k := (y - stmt.tag i).toNat) hij hj
    (by omega)
  refine ⟨l, ?_, ?_⟩
  · have hidx : tableIndex stmt.opndType (buildRangeGotoNode stmt newLabelIdx i j) x =
        (y - stmt.tag i).toNat := hy.index_eq i j hij.le hj hi hle
    rw [exec_rangegoto, hidx, hl]
  · rwa [show stmt.tag i + ((y - stmt.tag i).toNat : Int) = y by omega] at hsel

lemma exec_buildRangeGotoNode_outside (hs : stmt.Sorted) (hfill : fillLabel stmt newLabelIdx ≠ 0)
    (hy : OnTagScale stmt x y) (hij : i < j) (hj : j < stmt.switchTable.length)
    (hout : y < stmt.tag i ∨ stmt.tag j < y) :
    exec stmt.opndType x [.rangegoto (buildRangeGotoNode stmt newLabelIdx i j)] = .stuck := by
  have hidx : (stmt.tag j - stmt.tag i).toNat <
      tableIndex stmt.opndType (buildRangeGotoNode stmt newLabelIdx i j) x :=
    hy.index_gt i j hij.le hj hout
  rw [exec_rangegoto, List.getElem?_eq_none]
  rw [List.length_map, length_buildRangeGotoNode hs hfill hij hj]
  omega

/-! ### Where the code of a switch can leave to -/

/-- `Scoped` for the code of a switch on an operand of type `t`. -/
abbrev ScopedCode (t : PrimType) (n₀ lo hi : Nat) (c : Code) : Prop :=
  Scoped CompareNode.holds (tableIndex t) n₀ lo hi c

section Scoped

variable {t : PrimType} {n₀ lo hi : Nat}

lemma scopedCode_nil : ScopedCode t n₀ lo hi [] where
  placed_mem l hl := by simp [Stmt.placed] at hl
  exits_lt s l h := by simp [exec_nil] at h

lemma scopedCode_goto {l : Nat} (hl : l < n₀) : ScopedCode t n₀ lo hi [.goto l] where
  placed_mem l' hl' := by simp [Stmt.placed] at hl'
  exits_lt s l' h := by
    cases h
    exact hl

lemma scopedCode_brtrue {l : Nat} (c : CompareNode) (hl : l < n₀) :
    ScopedCode t n₀ lo hi [.brtrue c l] where
  placed_mem l' hl' := by simp [Stmt.placed] at hl'
  exits_lt s l' h := by
    rw [exec_brtrue_cons] at h
    split at h
    · cases h
      exact hl
    · cases h

lemma scopedCode_rangegoto {node : RangeGotoNode}
    (h : ∀ p ∈ node.rangegotoTable, p.2 < n₀) : ScopedCode t n₀ lo hi [.rangegoto node] where
  placed_mem l' hl' := by simp [Stmt.placed] at hl'
  exits_lt s l hl := by
    have := exec_rangegoto (x := s) t node
    rw [exec, hl] at this
    split at this
    · next l' hl' =>
      obtain ⟨p, hp, rfl⟩ := List.mem_map.mp (List.mem_of_getElem? hl')
      cases this
      exact h p hp
    · cases this

lemma scopedCode_gotoDefault (h : stmt.defaultLabel < n₀) :
    ScopedCode t n₀ lo hi (gotoDefault stmt) := by
  unfold gotoDefault
  split
  · exact scopedCode_nil
  · exact scopedCode_goto h

lemma scopedCode_condGotoDefault (h : stmt.defaultLabel < n₀) (c : CompareNode) :
    ScopedCode t n₀ lo hi (condGotoDefault stmt c) := by
  unfold condGotoDefault
  split
  · exact scopedCode_nil
  · exact scopedCode_brtrue c h

lemma scopedCode_buildRangeGotoNode (h : LabelsBelow stmt newLabelIdx n₀) (i j : Nat) :
    ScopedCode t n₀ lo hi [.rangegoto (buildRangeGotoNode stmt newLabelIdx i j)] := by
  refine scopedCode_rangegoto fun p hp => ?_
  rcases List.mem_cons.mp hp with rfl | hp
  · exact h.lab_lt i
  · exact snd_lt_of_mem_rangeGotoEntries h.fill_lt h.lab_lt hp

omit [Target] in
lemma le_guardedRangeGoto (stmt : SwitchNode) (newLabelIdx : LabelIdx) (cond : CompareNode)
    (item : SwitchItem) (n : Nat) :
    n ≤ (guardedRangeGoto stmt newLabelIdx cond item n).2 := by
  unfold guardedRangeGoto
  split
  · exact Nat.le_refl n
  · exact le_lowerIfStmt _ _ _ n

lemma scopedCode_guardedRangeGoto (h : LabelsBelow stmt newLabelIdx n₀) (cond : CompareNode)
    (item : SwitchItem) {n : Nat} (hn : n₀ ≤ n) :
    ScopedCode t n₀ n (guardedRangeGoto stmt newLabelIdx cond item n).2
      (guardedRangeGoto stmt newLabelIdx cond item n).1 := by
  unfold guardedRangeGoto
  split
  · exact scopedCode_buildRangeGotoNode h _ _
  · exact Scoped.lowerIfStmt hn (Nat.le_refl n) (scopedCode_buildRangeGotoNode h _ _)
      scopedCode_nil

end Scoped

lemma exec_guardedRangeGoto {n₀ n : Nat} (hdft : stmt.defaultLabel ≠ 0)
    (h : LabelsBelow stmt newLabelIdx n₀) (hn : n₀ ≤ n) (cond : CompareNode) (item : SwitchItem) :
    exec stmt.opndType x (guardedRangeGoto stmt newLabelIdx cond item n).1 =
      if cond.holds x then
        exec stmt.opndType x
          [.rangegoto (buildRangeGotoNode stmt newLabelIdx item.first item.second)]
      else .fall := by
  unfold guardedRangeGoto
  rw [if_neg hdft]
  exact exec_lowerIfStmt cond hn (Nat.le_refl n) (scopedCode_buildRangeGotoNode h _ _)
    scopedCode_nil x

lemma exec_append {t : PrimType} {n₀ lo mid hi : Nat} {c₁ c₂ : Code} (hn : n₀ ≤ lo)
    (hlm : lo ≤ mid) (h₁ : ScopedCode t n₀ lo mid c₁) (h₂ : ScopedCode t n₀ mid hi c₂) :
    exec t x (c₁ ++ c₂) =
      match exec t x c₁ with
      | .fall => exec t x c₂
      | o => o :=
  exec_append_scoped x (Nat.le_trans hn hlm) (h₁.exits_lt x)
    (fun l hl => (h₂.placed_mem l hl).1)

lemma exec_append_unlabelled {t : PrimType} {c₁ c₂ : Code} (h : Stmt.placed c₂ = []) :
    exec t x (c₁ ++ c₂) =
      match exec t x c₁ with
      | .fall => exec t x c₂
      | o => o :=
  exec_append_of_not_mem x fun l _ hl => by
    rw [h] at hl
    cases hl

lemma exec_append_of_stuck_left {t : PrimType} {c₁ c₂ : Code} (h : exec t x c₁ = .stuck) :
    exec t x (c₁ ++ c₂) = .stuck := by
  rw [exec, Stmt.exec, List.map_append]
  exact exec_append_of_stuck h

end Maple.SwitchLowerer
