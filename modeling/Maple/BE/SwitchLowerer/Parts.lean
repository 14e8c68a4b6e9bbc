import Maple.BE.SwitchLowerer.Nodes
import Mathlib.Data.List.TakeWhile

/-!
# The parts of `BuildCodeForSwitchItems`

Each loop of `BuildCodeForSwitchItems` consumes items at one side of a slice. A statement about a
loop says where its code goes, and what is known about a value that falls through.
-/

namespace Maple.SwitchLowerer

open ForwardCode

variable [Target] {stmt : SwitchNode} {newLabelIdx : LabelIdx} {x y : Int} {a b : Nat}
  {items : List SwitchItem} {n₀ n : Nat} {low high : Bool}

/-! ### Dense items at the low side -/

lemma scoped_lowCheck (h : LabelsBelow stmt newLabelIdx n₀) (item : SwitchItem) :
    ScopedCode stmt.opndType n₀ n n (lowCheck stmt low item) := by
  unfold lowCheck
  split
  · exact scopedCode_nil
  · exact scopedCode_condGotoDefault h.default_lt _

lemma scoped_peelLow (h : LabelsBelow stmt newLabelIdx n₀) (hn : n₀ ≤ n) (items : List SwitchItem)
    (low : Bool) :
    n ≤ (peelLow stmt newLabelIdx items low n).next ∧
      ScopedCode stmt.opndType n₀ n (peelLow stmt newLabelIdx items low n).next
        (peelLow stmt newLabelIdx items low n).code := by
  induction items generalizing low n with
  | nil => exact ⟨Nat.le_refl n, scopedCode_nil⟩
  | cons item items ih =>
    simp only [peelLow]
    by_cases hsec : item.second = 0
    · simp only [hsec, if_true]
      exact ⟨Nat.le_refl n, scopedCode_nil⟩
    · simp only [hsec, if_false]
      have hle := le_guardedRangeGoto stmt newLabelIdx (buildCmpNode stmt .le item.second) item n
      obtain ⟨hle', hrest⟩ := ih (Nat.le_trans hn hle) _
      refine ⟨Nat.le_trans hle hle', Scoped.append hn hle hle' ?_ hrest⟩
      exact Scoped.append hn (Nat.le_refl n) hle (scoped_lowCheck h item)
        (scopedCode_guardedRangeGoto h _ item hn)

lemma exec_condGotoDefault (hdft : stmt.defaultLabel ≠ 0) (hy : OnTagScale stmt x y) {i : Nat}
    (hi : i < stmt.switchTable.length) (op : CmpOp) :
    exec stmt.opndType x (condGotoDefault stmt (buildCmpNode stmt op i)) =
      if op.eval y (stmt.tag i) then .leave stmt.defaultLabel else .fall := by
  rw [condGotoDefault, if_neg hdft]
  exact exec_brtrue hy hi op _

lemma exec_lowCheck (hdft : stmt.defaultLabel ≠ 0) (hy : OnTagScale stmt x y) {item : SwitchItem}
    (hi : item.first < stmt.switchTable.length)
    (hlow : low = true → stmt.tag item.first ≤ y) :
    exec stmt.opndType x (lowCheck stmt low item) =
      if stmt.tag item.first ≤ y then .fall else .leave stmt.defaultLabel := by
  unfold lowCheck
  by_cases hc : (low || stmt.opndType.isUnsignedInteger && stmt.tag item.first == 0) = true
  · have : stmt.tag item.first ≤ y := by
      simp only [Bool.or_eq_true, Bool.and_eq_true, beq_iff_eq] at hc
      rcases hc with hl | ⟨hu, h0⟩
      · exact hlow hl
      · rw [h0]
        exact hy.nonneg hu item.first hi h0
    rw [if_pos hc, if_pos this]
    rfl
  · rw [if_neg hc, exec_condGotoDefault hdft hy hi]
    by_cases hle : stmt.tag item.first ≤ y <;> simp [CmpOp.eval, hle]

lemma exec_denseLow {j : Nat} (hdft : stmt.defaultLabel ≠ 0) (hs : stmt.Sorted)
    (hy : OnTagScale stmt x y) (h : LabelsBelow stmt newLabelIdx n₀) (hn : n₀ ≤ n) (haj : a < j)
    (hj : j < stmt.switchTable.length) (hlow : low = true → stmt.tag a ≤ y) :
    let code := lowCheck stmt low ⟨a, j⟩ ++
      (guardedRangeGoto stmt newLabelIdx (buildCmpNode stmt .le j) ⟨a, j⟩ n).1
    (∃ l, exec stmt.opndType x code = .leave l ∧ Selects stmt y a (j + 1) l ∧ y ≤ stmt.tag j) ∨
      exec stmt.opndType x code = .fall ∧ stmt.tag j < y := by
  intro code
  have htable : exec stmt.opndType x
      (guardedRangeGoto stmt newLabelIdx (buildCmpNode stmt .le j) ⟨a, j⟩ n).1 =
      if y ≤ stmt.tag j then
        exec stmt.opndType x [.rangegoto (buildRangeGotoNode stmt newLabelIdx a j)]
      else .fall := by
    rw [exec_guardedRangeGoto hdft h hn, CompareNode.holds, buildCmpNode, hy.eval_wrap .le j hj]
    simp [CmpOp.eval]
  have hcode : exec stmt.opndType x code = _ :=
    exec_append hn (Nat.le_refl n) (scoped_lowCheck h _) (scopedCode_guardedRangeGoto h _ _ hn)
  rw [hcode, exec_lowCheck hdft hy (show a < stmt.switchTable.length by omega) hlow, htable]
  by_cases hlo : stmt.tag a ≤ y
  · by_cases hhi : y ≤ stmt.tag j
    · obtain ⟨l, hl, hsel⟩ := exec_buildRangeGotoNode hs
        (by rwa [fillLabel_of_default hdft newLabelIdx]) hy haj hj hlo hhi
      rw [fillLabel_of_default hdft] at hsel
      exact Or.inl ⟨l, by simpa [hlo, hhi] using hl, hsel, hhi⟩
    · exact Or.inr ⟨by simp [hlo, hhi], by omega⟩
  · refine Or.inl ⟨stmt.defaultLabel, by simp [hlo], Or.inr ⟨fun i hi hij => ?_, rfl⟩, ?_⟩
    · have := hs.le hi (by omega)
      omega
    · have := hs.le haj.le hj
      omega

lemma peelLow_items (stmt : SwitchNode) (newLabelIdx : LabelIdx) (items : List SwitchItem)
    (low : Bool) (n : LabelIdx) :
    (peelLow stmt newLabelIdx items low n).items = items.dropWhile SwitchItem.isDense := by
  induction items generalizing low n with
  | nil => rfl
  | cons item items ih =>
    by_cases hsec : item.second = 0 <;>
      simp [peelLow, List.dropWhile_cons, SwitchItem.isDense, hsec, ih]

lemma exec_peelLow {a' : Nat} (hdft : stmt.defaultLabel ≠ 0) (hs : stmt.Sorted)
    (hy : OnTagScale stmt x y) (h : LabelsBelow stmt newLabelIdx n₀) (hn : n₀ ≤ n)
    (hsl : Slice stmt a b items) (hsl' : Slice stmt a' b (items.dropWhile SwitchItem.isDense))
    (hlow : low = true → a < b → stmt.tag a ≤ y) :
    (∃ l, exec stmt.opndType x (peelLow stmt newLabelIdx items low n).code = .leave l ∧
        Selects stmt y a b l ∧ (a' < b → y < stmt.tag a')) ∨
      exec stmt.opndType x (peelLow stmt newLabelIdx items low n).code = .fall ∧
        (∀ i, a ≤ i → i < a' → stmt.tag i < y) ∧
        ((peelLow stmt newLabelIdx items low n).checked = true → a' < b → stmt.tag a' ≤ y) := by
  induction hsl generalizing low n with
  | nil a =>
    cases hsl'
    exact Or.inr ⟨rfl, fun i h₁ h₂ => by omega, fun _ hlt => by omega⟩
  | @sparse a b items ha hsl _ =>
    obtain rfl : a = a' := (Slice.sparse ha hsl).start_unique hsl'
    exact Or.inr ⟨rfl, fun i h₁ h₂ => by omega, hlow⟩
  | @dense a b j items haj hj hsl ih =>
    have hj0 : ¬ j = 0 := by omega
    have hjb : j < b := hsl.le
    have hb : b ≤ stmt.switchTable.length :=
      (Slice.dense haj hj hsl).bound (List.cons_ne_nil _ _)
    have hle := le_guardedRangeGoto stmt newLabelIdx (buildCmpNode stmt .le j) ⟨a, j⟩ n
    simp only [List.dropWhile_cons, SwitchItem.isDense, bne_iff_ne, ne_eq, hj0, not_false_eq_true,
      if_true] at hsl'
    have hja' : j < a' := by
      obtain ⟨m, hm, hm'⟩ := hsl.takeWhile_dropWhile SwitchItem.isDense
      obtain rfl := hm'.start_unique hsl'
      exact hm.le
    simp only [peelLow, hj0, if_false]
    rw [exec_append hn hle
      (Scoped.append hn (Nat.le_refl n) hle (scoped_lowCheck h ⟨a, j⟩)
        (scopedCode_guardedRangeGoto h _ ⟨a, j⟩ hn))
      (scoped_peelLow h (Nat.le_trans hn hle) _ _).2]
    rcases exec_denseLow hdft hs hy h hn haj hj (fun hl => hlow hl (by omega)) with
      ⟨l, hl, hsel, hyj⟩ | ⟨hfall, hlt⟩
    · refine Or.inl ⟨l, by rw [hl], ?_, fun ha'b => ?_⟩
      · refine hsel.widen (Nat.le_refl a) hjb (fun i h₁ h₂ => by omega) (fun i h₁ h₂ => ?_)
        have := hs j i h₁ (by omega)
        omega
      · have := hs j a' hja' (by omega)
        omega
    · have hnext : lowChecked stmt ⟨a, j⟩ items = true → j + 1 < b → stmt.tag (j + 1) ≤ y := by
        intro hl hjb
        cases hsl with
        | nil => omega
        | sparse ha' h' =>
          simp only [lowChecked, beq_iff_eq] at hl
          omega
        | dense haj' hj' h' =>
          simp only [lowChecked, beq_iff_eq] at hl
          omega
      rw [hfall]
      rcases ih (Nat.le_trans hn hle) hsl' hnext with ⟨l, hl, hsel, hya'⟩ | ⟨hf, hpast, hch⟩
      · refine Or.inl ⟨l, hl, hsel.widen (by omega) (Nat.le_refl b) (fun i h₁ h₂ => ?_)
          (fun i h₁ h₂ => by omega), hya'⟩
        have := hs.le (show i ≤ j by omega) hj
        omega
      · refine Or.inr ⟨hf, fun i h₁ h₂ => ?_, hch⟩
        rcases Nat.lt_or_ge j i with hij | hij
        · exact hpast i hij h₂
        · have := hs.le hij hj
          omega

/-! ### Dense items at the high side -/

lemma scoped_highCheck (h : LabelsBelow stmt newLabelIdx n₀) (item : SwitchItem) :
    ScopedCode stmt.opndType n₀ n n (highCheck stmt high item) := by
  unfold highCheck
  split
  · exact scopedCode_nil
  · exact scopedCode_condGotoDefault h.default_lt _

lemma scoped_peelHigh (h : LabelsBelow stmt newLabelIdx n₀) (hn : n₀ ≤ n)
    (items : List SwitchItem) (high : Bool) :
    n ≤ (peelHigh stmt newLabelIdx items high n).next ∧
      ScopedCode stmt.opndType n₀ n (peelHigh stmt newLabelIdx items high n).next
        (peelHigh stmt newLabelIdx items high n).code := by
  induction items generalizing high n with
  | nil => exact ⟨Nat.le_refl n, scopedCode_nil⟩
  | cons item items ih =>
    simp only [peelHigh]
    by_cases hsec : item.second = 0
    · simp only [hsec, if_true]
      exact ⟨Nat.le_refl n, scopedCode_nil⟩
    · simp only [hsec, if_false]
      have hle := le_guardedRangeGoto stmt newLabelIdx (buildCmpNode stmt .ge item.first) item n
      obtain ⟨hle', hrest⟩ := ih (Nat.le_trans hn hle) _
      refine ⟨Nat.le_trans hle hle', Scoped.append hn hle hle' ?_ hrest⟩
      exact Scoped.append hn (Nat.le_refl n) hle (scoped_highCheck h item)
        (scopedCode_guardedRangeGoto h _ item hn)

lemma peelHigh_items (stmt : SwitchNode) (newLabelIdx : LabelIdx) (items : List SwitchItem)
    (high : Bool) (n : LabelIdx) :
    (peelHigh stmt newLabelIdx items high n).items = items.dropWhile SwitchItem.isDense := by
  induction items generalizing high n with
  | nil => rfl
  | cons item items ih =>
    by_cases hsec : item.second = 0 <;>
      simp [peelHigh, List.dropWhile_cons, SwitchItem.isDense, hsec, ih]

lemma exec_highCheck (hdft : stmt.defaultLabel ≠ 0) (hy : OnTagScale stmt x y) {item : SwitchItem}
    (hi : item.second < stmt.switchTable.length)
    (hhigh : high = true → y ≤ stmt.tag item.second) :
    exec stmt.opndType x (highCheck stmt high item) =
      if y ≤ stmt.tag item.second then .fall else .leave stmt.defaultLabel := by
  unfold highCheck
  by_cases hc : high = true
  · rw [if_pos hc, if_pos (hhigh hc)]
    rfl
  · rw [if_neg hc, exec_condGotoDefault hdft hy hi]
    by_cases hle : y ≤ stmt.tag item.second <;> simp [CmpOp.eval, hle]

lemma exec_denseHigh {j : Nat} (hdft : stmt.defaultLabel ≠ 0) (hs : stmt.Sorted)
    (hy : OnTagScale stmt x y) (h : LabelsBelow stmt newLabelIdx n₀) (hn : n₀ ≤ n) (haj : a < j)
    (hj : j < stmt.switchTable.length) (hhigh : high = true → y ≤ stmt.tag j) :
    let code := highCheck stmt high ⟨a, j⟩ ++
      (guardedRangeGoto stmt newLabelIdx (buildCmpNode stmt .ge a) ⟨a, j⟩ n).1
    (∃ l, exec stmt.opndType x code = .leave l ∧ Selects stmt y a (j + 1) l ∧ stmt.tag a ≤ y) ∨
      exec stmt.opndType x code = .fall ∧ y < stmt.tag a := by
  intro code
  have htable : exec stmt.opndType x
      (guardedRangeGoto stmt newLabelIdx (buildCmpNode stmt .ge a) ⟨a, j⟩ n).1 =
      if stmt.tag a ≤ y then
        exec stmt.opndType x [.rangegoto (buildRangeGotoNode stmt newLabelIdx a j)]
      else .fall := by
    rw [exec_guardedRangeGoto hdft h hn, CompareNode.holds, buildCmpNode,
      hy.eval_wrap .ge a (by omega)]
    simp [CmpOp.eval]
  have hcode : exec stmt.opndType x code = _ :=
    exec_append hn (Nat.le_refl n) (scoped_highCheck h _) (scopedCode_guardedRangeGoto h _ _ hn)
  rw [hcode, exec_highCheck hdft hy hj hhigh, htable]
  by_cases hhi : y ≤ stmt.tag j
  · by_cases hlo : stmt.tag a ≤ y
    · obtain ⟨l, hl, hsel⟩ := exec_buildRangeGotoNode hs
        (by rwa [fillLabel_of_default hdft newLabelIdx]) hy haj hj hlo hhi
      rw [fillLabel_of_default hdft] at hsel
      exact Or.inl ⟨l, by simpa [hlo, hhi] using hl, hsel, hlo⟩
    · exact Or.inr ⟨by simp [hlo, hhi], by omega⟩
  · refine Or.inl ⟨stmt.defaultLabel, by simp [hhi], Or.inr ⟨fun i hi hij => ?_, rfl⟩, ?_⟩
    · have := hs.le (show i ≤ j by omega) hj
      omega
    · have := hs.le haj.le hj
      omega

lemma exec_peelHigh {b' : Nat} (hdft : stmt.defaultLabel ≠ 0) (hs : stmt.Sorted)
    (hy : OnTagScale stmt x y) (h : LabelsBelow stmt newLabelIdx n₀) (hn : n₀ ≤ n)
    (hsl : Slice stmt a b items.reverse)
    (hsl' : Slice stmt a b' (items.dropWhile SwitchItem.isDense).reverse)
    (hhigh : high = true → a < b → y ≤ stmt.tag (b - 1)) :
    (∃ l, exec stmt.opndType x (peelHigh stmt newLabelIdx items high n).code = .leave l ∧
        Selects stmt y a b l ∧ (a < b' → stmt.tag (b' - 1) < y)) ∨
      exec stmt.opndType x (peelHigh stmt newLabelIdx items high n).code = .fall ∧
        (∀ i, b' ≤ i → i < b → y < stmt.tag i) ∧
        ((peelHigh stmt newLabelIdx items high n).checked = true → a < b' →
          y ≤ stmt.tag (b' - 1)) := by
  induction items generalizing b high n with
  | nil =>
    cases hsl
    cases hsl'
    exact Or.inr ⟨rfl, fun i h₁ h₂ => by omega, fun _ hlt => by omega⟩
  | cons item items ih =>
    by_cases hsec : item.second = 0
    · simp only [List.dropWhile_cons, SwitchItem.isDense, hsec, bne_self_eq_false,
        Bool.false_eq_true, if_false] at hsl'
      obtain rfl : b = b' := hsl.end_unique hsl'
      simp only [peelHigh, hsec, if_true]
      exact Or.inr ⟨rfl, fun i h₁ h₂ => by omega, hhigh⟩
    · rw [List.reverse_cons] at hsl
      obtain ⟨m, hinit, hitem⟩ := Slice.append_iff.mp hsl
      obtain ⟨j, hmj, hj, rfl, rfl⟩ := hitem.dense_singleton hsec
      simp only [List.dropWhile_cons, SwitchItem.isDense, bne_iff_ne, ne_eq, hsec,
        not_false_eq_true, if_true] at hsl'
      have hb'm : b' ≤ m := by
        obtain ⟨m', hm', hle⟩ := hinit.reverse_dropWhile SwitchItem.isDense
        obtain rfl := hm'.end_unique hsl'
        exact hle
      have ham : a ≤ m := hinit.le
      have hle := le_guardedRangeGoto stmt newLabelIdx (buildCmpNode stmt .ge m) ⟨m, j⟩ n
      simp only [peelHigh, hsec, if_false]
      rw [exec_append hn hle
        (Scoped.append hn (Nat.le_refl n) hle (scoped_highCheck h ⟨m, j⟩)
          (scopedCode_guardedRangeGoto h _ ⟨m, j⟩ hn))
        (scoped_peelHigh h (Nat.le_trans hn hle) _ _).2]
      rcases exec_denseHigh hdft hs hy h hn hmj hj (fun hh => hhigh hh (by omega)) with
        ⟨l, hl, hsel, hmy⟩ | ⟨hfall, hlt⟩
      · refine Or.inl ⟨l, by rw [hl], ?_, fun hab' => ?_⟩
        · refine hsel.widen ham (Nat.le_refl _) (fun i h₁ h₂ => ?_) (fun i h₁ h₂ => by omega)
          have := hs i m h₂ (by omega)
          omega
        · have := hs (b' - 1) m (by omega) (by omega)
          omega
      · have hprev : highChecked stmt ⟨m, j⟩ items = true → a < m → y ≤ stmt.tag (m - 1) := by
          intro hh ham
          cases items with
          | nil =>
            cases hinit
            omega
          | cons prev items =>
            rw [List.reverse_cons] at hinit
            obtain ⟨h₁, h₂⟩ := hinit.le_of_getLast List.getLast?_concat
            have := hs.le (show prev.first ≤ m - 1 by omega) (by omega)
            have := hs.le (show prev.second ≤ m - 1 by omega) (by omega)
            simp only [highChecked, Bool.or_eq_true, beq_iff_eq] at hh
            omega
        rw [hfall]
        rcases ih (Nat.le_trans hn hle) hinit hsl' hprev with ⟨l, hl, hsel, hya'⟩ | ⟨hf, hpast, hch⟩
        · refine Or.inl ⟨l, hl, hsel.widen (Nat.le_refl a) (by omega) (fun i h₁ h₂ => by omega)
            (fun i h₁ h₂ => ?_), hya'⟩
          have := hs.le h₁ (by omega)
          omega
        · refine Or.inr ⟨hf, fun i h₁ h₂ => ?_, hch⟩
          rcases Nat.lt_or_ge i m with him | him
          · exact hpast i h₁ him
          · have := hs.le him (by omega)
            omega

/-! ### Equality tests -/

lemma scoped_equalityTest (h : LabelsBelow stmt newLabelIdx n₀) (i : Nat) :
    ScopedCode stmt.opndType n₀ n n [equalityTest stmt i] :=
  scopedCode_brtrue _ (h.lab_lt i)

/-- The operand value `x` is equal to the same tags as `y`. -/
def EqOnTagScale (stmt : SwitchNode) (x y : Int) : Prop :=
  ∀ i, i < stmt.switchTable.length → (x = stmt.opndType.format.wrap (stmt.tag i) ↔ stmt.tag i = y)

lemma OnTagScale.eq (hy : OnTagScale stmt x y) : EqOnTagScale stmt x y := fun i hi => by
  have := hy.eval_wrap .eq i hi
  rw [CmpOp.eval, CmpOp.eval, Bool.eq_iff_iff, beq_iff_eq, beq_iff_eq] at this
  rw [this, eq_comm]

lemma exec_equalityTest (hy : EqOnTagScale stmt x y) {i : Nat} (hi : i < stmt.switchTable.length) :
    exec stmt.opndType x [equalityTest stmt i] =
      if stmt.tag i = y then .leave (stmt.lab i) else .fall := by
  have : (buildCmpNode stmt .eq i).holds x = decide (stmt.tag i = y) := by
    simp only [CompareNode.holds, buildCmpNode, CmpOp.eval, ← hy i hi]
    rfl
  rw [exec, equalityTest, exec_brtrue_cons, this]
  simp only [decide_eq_true_eq]
  rfl

lemma scoped_equalityTests (h : LabelsBelow stmt newLabelIdx n₀) (hn : n₀ ≤ n)
    (items : List SwitchItem) (low high : Bool) :
    ScopedCode stmt.opndType n₀ n n (equalityTests stmt high items low n).code := by
  induction items generalizing low with
  | nil => exact scopedCode_nil
  | cons item items ih =>
    by_cases hsec : item.second = 0
    · simp only [equalityTests, hsec, ne_eq, not_true_eq_false, if_false]
      refine Scoped.append (a := [_]) hn (Nat.le_refl n) (Nat.le_refl n) ?_ (ih _)
      split
      · exact scopedCode_goto (h.lab_lt item.first)
      · exact scoped_equalityTest h item.first
    · simp only [equalityTests, ne_eq, hsec, not_false_eq_true, if_true]
      exact scopedCode_nil

lemma equalityTests_items (stmt : SwitchNode) (items : List SwitchItem) (low high : Bool)
    (n : LabelIdx) :
    (equalityTests stmt high items low n).items = items.dropWhile SwitchItem.isSparse := by
  induction items generalizing low with
  | nil => rfl
  | cons item items ih =>
    by_cases hsec : item.second = 0 <;>
      simp [equalityTests, SwitchItem.isSparse, hsec, ih]

lemma exec_equalityTests {a' : Nat} (hy : OnTagScale stmt x y)
    (h : LabelsBelow stmt newLabelIdx n₀) (hn : n₀ ≤ n) (hsl : Slice stmt a b items)
    (hsl' : Slice stmt a' b (items.dropWhile SwitchItem.isSparse))
    (hlow : low = true → a < b → stmt.tag a ≤ y)
    (hhigh : high = true → a < b → y ≤ stmt.tag (b - 1)) :
    (∃ i, a ≤ i ∧ i < a' ∧ stmt.tag i = y ∧
        exec stmt.opndType x (equalityTests stmt high items low n).code = .leave (stmt.lab i)) ∨
      exec stmt.opndType x (equalityTests stmt high items low n).code = .fall ∧
        (∀ i, a ≤ i → i < a' → stmt.tag i ≠ y) ∧
        ((equalityTests stmt high items low n).checked = true → a' < b → stmt.tag a' ≤ y) ∧
        (a < b → a' = b → ¬ ((equalityTests stmt high items low n).checked = true ∧
          high = true)) := by
  induction hsl generalizing low with
  | nil a =>
    cases hsl'
    exact Or.inr ⟨rfl, fun i h₁ h₂ => by omega, fun _ hlt => by omega, fun hlt => by omega⟩
  | @dense a b j items haj hj hsl _ =>
    have hj0 : ¬ j = 0 := by omega
    simp only [List.dropWhile_cons, SwitchItem.isSparse, beq_iff_eq, hj0, if_false] at hsl'
    obtain rfl : a = a' := (Slice.dense haj hj hsl).start_unique hsl'
    simp only [equalityTests, ne_eq, hj0, not_false_eq_true, if_true]
    exact Or.inr ⟨rfl, fun i h₁ h₂ => by omega, hlow, fun hlt heq => by omega⟩
  | @sparse a b items ha hsl ih =>
    have hab : a < b := hsl.le
    simp only [List.dropWhile_cons, SwitchItem.isSparse, beq_self_eq_true, if_true] at hsl'
    have haa' : a < a' := by
      obtain ⟨m, hm, hm'⟩ := hsl.takeWhile_dropWhile SwitchItem.isSparse
      obtain rfl := hm'.start_unique hsl'
      exact hm.le
    simp only [equalityTests, ne_eq, not_true_eq_false, if_false]
    by_cases hlast : items = [] ∧ low = true ∧ high = true
    · -- both bounds leave only the tag of this last item
      obtain ⟨rfl, rfl, rfl⟩ := hlast
      cases hsl
      have h₁ := hlow rfl hab
      have h₂ := hhigh rfl hab
      simp only [Nat.add_sub_cancel] at h₂
      exact Or.inl ⟨a, Nat.le_refl a, haa', by omega, rfl⟩
    · rw [if_neg hlast]
      have hseq := exec_append (x := x) hn (Nat.le_refl n) (scoped_equalityTest h a)
        (scoped_equalityTests h hn items (lowCheckedAfterTest stmt low ⟨a, 0⟩ items) high)
      rw [List.singleton_append, exec_equalityTest hy.eq ha] at hseq
      rw [hseq]
      by_cases htag : stmt.tag a = y
      · exact Or.inl ⟨a, Nat.le_refl a, haa', htag, by rw [if_pos htag]⟩
      · rw [if_neg htag]
        have hnext : lowCheckedAfterTest stmt low ⟨a, 0⟩ items = true → a + 1 < b →
            stmt.tag (a + 1) ≤ y := by
          intro hl hab'
          cases hsl with
          | nil => omega
          | sparse ha' h' =>
            simp only [lowCheckedAfterTest, Bool.and_eq_true, beq_iff_eq] at hl
            have := hlow hl.1 hab
            omega
          | dense haj' hj' h' =>
            simp only [lowCheckedAfterTest, Bool.and_eq_true, beq_iff_eq] at hl
            have := hlow hl.1 hab
            omega
        rcases ih hsl' hnext (fun hh hab' => hhigh hh hab) with
          ⟨i, hai, hia', htag', hleave⟩ | ⟨hfall, hne, hch, hend⟩
        · exact Or.inl ⟨i, by omega, hia', htag', hleave⟩
        · refine Or.inr ⟨hfall, fun i h₁ h₂ => ?_, hch, fun _ hb => ?_⟩
          · rcases Nat.eq_or_lt_of_le h₁ with rfl | h₁
            · exact htag
            · exact hne i h₁ h₂
          · rcases Nat.lt_or_ge (a + 1) b with hab' | hab'
            · exact hend hab' hb
            · obtain rfl : items = [] := by
                have := hsl.length_le
                exact List.length_eq_zero_iff.mp (by omega)
              simpa [equalityTests, lowCheckedAfterTest] using hlast

/-! ### Equality tests in the order of the frequencies -/

variable {freq : LabelIdx → Int}

lemma scoped_tests (h : LabelsBelow stmt newLabelIdx n₀) (hn : n₀ ≤ n) (order : List Nat) :
    ScopedCode stmt.opndType n₀ n n (order.map (equalityTest stmt)) := by
  induction order with
  | nil => exact scopedCode_nil
  | cons i order ih =>
    exact Scoped.append (a := [_]) hn (Nat.le_refl n) (Nat.le_refl n) (scoped_equalityTest h i) ih

lemma placed_tests (stmt : SwitchNode) (order : List Nat) :
    Stmt.placed (order.map (equalityTest stmt)) = [] := by
  induction order with
  | nil => rfl
  | cons i order ih => exact ih

lemma exec_tests (hy : EqOnTagScale stmt x y) {order : List Nat}
    (ho : ∀ i ∈ order, i < stmt.switchTable.length) :
    (∃ i ∈ order, stmt.tag i = y ∧
        exec stmt.opndType x (order.map (equalityTest stmt)) = .leave (stmt.lab i)) ∨
      exec stmt.opndType x (order.map (equalityTest stmt)) = .fall ∧
        ∀ i ∈ order, stmt.tag i ≠ y := by
  induction order with
  | nil => exact Or.inr ⟨rfl, fun i hi => absurd hi (List.not_mem_nil)⟩
  | cons i order ih =>
    have hseq : exec stmt.opndType x ([equalityTest stmt i] ++ order.map (equalityTest stmt)) = _ :=
      exec_append_unlabelled (placed_tests stmt order)
    rw [List.singleton_append, exec_equalityTest hy (ho i List.mem_cons_self)] at hseq
    rw [List.map_cons, hseq]
    by_cases htag : stmt.tag i = y
    · exact Or.inl ⟨i, List.mem_cons_self, htag, by rw [if_pos htag]⟩
    · rw [if_neg htag]
      rcases ih fun i hi => ho i (List.mem_cons_of_mem _ hi) with
        ⟨k, hk, htag', hleave⟩ | ⟨hfall, hne⟩
      · exact Or.inl ⟨k, List.mem_cons_of_mem _ hk, htag', hleave⟩
      · refine Or.inr ⟨hfall, fun k hk => ?_⟩
        rcases List.mem_cons.mp hk with rfl | hk
        · exact htag
        · exact hne k hk

omit [Target] in
lemma mem_freq2case (freq : LabelIdx → Int) {m : Nat}
    (hrun : Slice stmt a m (items.takeWhile SwitchItem.isSparse))
    (i : Nat) : i ∈ (freq2case stmt freq items).map Prod.snd ↔ a ≤ i ∧ i < m := by
  have hperm : ((freq2case stmt freq items).map Prod.snd).Perm
      ((items.takeWhile SwitchItem.isSparse).map SwitchItem.first) := by
    have := (List.perm_insertionSort freqGe ((items.takeWhile SwitchItem.isSparse).map fun item =>
      (freq (stmt.lab item.first), item.first))).map Prod.snd
    rw [List.map_map] at this
    exact this
  have hle := hrun.le
  rw [hperm.mem_iff, hrun.map_first_of_sparse fun i hi => List.mem_takeWhile_imp hi,
    List.mem_range'_1]
  omega

lemma reorderedTests_code (stmt : SwitchNode) (freq : LabelIdx → Int) (items : List SwitchItem)
    (low : Bool) (n : LabelIdx) :
    (reorderedTests stmt freq items low n).code =
      ((freq2case stmt freq items).map Prod.snd).map (equalityTest stmt) := by
  simp [reorderedTests]

lemma exec_reorderedTests (freq : LabelIdx → Int) (low : Bool) (n : LabelIdx) {a' : Nat}
    (hy : OnTagScale stmt x y)
    (hsl : Slice stmt a b items) (hsl' : Slice stmt a' b (items.dropWhile SwitchItem.isSparse)) :
    (∃ i, a ≤ i ∧ i < a' ∧ stmt.tag i = y ∧
        exec stmt.opndType x (reorderedTests stmt freq items low n).code = .leave (stmt.lab i)) ∨
      exec stmt.opndType x (reorderedTests stmt freq items low n).code = .fall ∧
        ∀ i, a ≤ i → i < a' → stmt.tag i ≠ y := by
  obtain ⟨m, hrun, hm⟩ := hsl.takeWhile_dropWhile SwitchItem.isSparse
  obtain rfl := hm.start_unique hsl'
  have hmem := mem_freq2case freq hrun
  have hmlen : ∀ i, a ≤ i → i < m → i < stmt.switchTable.length := fun i h₁ h₂ => by
    have := hrun.bound (fun hnil => by
      have := hrun
      rw [hnil] at this
      cases this
      omega)
    omega
  rw [reorderedTests_code]
  rcases exec_tests hy.eq (fun i hi => hmlen i ((hmem i).mp hi).1 ((hmem i).mp hi).2) with
    ⟨i, hi, htag, hleave⟩ | ⟨hfall, hne⟩
  · exact Or.inl ⟨i, ((hmem i).mp hi).1, ((hmem i).mp hi).2, htag, hleave⟩
  · exact Or.inr ⟨hfall, fun i h₁ h₂ => hne i ((hmem i).mpr ⟨h₁, h₂⟩)⟩

end Maple.SwitchLowerer
