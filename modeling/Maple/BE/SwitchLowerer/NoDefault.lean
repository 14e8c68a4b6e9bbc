import Maple.BE.SwitchLowerer.LowerSwitch

/-!
# Switches without a default label

Without a default label, jump tables are not guarded, no binary search is emitted, and two items
are told apart by the first tag of the first item alone.
-/

namespace Maple.SwitchLowerer

open ForwardCode

variable [Target] {dense : Int → Int → Int → Bool} {label2Freq : Option (LabelIdx → Int)}
  {stmt : SwitchNode} {newLabelIdx : LabelIdx} {numItems : Nat} {x y : Int} {a b n : Nat}
  {item : SwitchItem} {items : List SwitchItem} {low high dft : Bool}

/-- The case tags are distinct values of the type of the operand. -/
def SwitchNode.DistinctTags (stmt : SwitchNode) : Prop :=
  (stmt.switchTable.map fun p => stmt.opndType.format.wrap p.1).Nodup

instance (stmt : SwitchNode) : Decidable stmt.DistinctTags :=
  inferInstanceAs (Decidable (List.Nodup _))

/-! ### The condition -/

/-- The label at a position of the jump table of a dense item: without a label for the gaps the
labels of the cases stand one behind the other, with such a label each stands at its tag. -/
def jumpTableLabel (stmt : SwitchNode) (newLabelIdx : LabelIdx) (item : SwitchItem) (pos : Nat) :
    Option LabelIdx :=
  if newLabelIdx = 0 then
    if item.first + pos ≤ item.second then some (stmt.lab (item.first + pos)) else none
  else if stmt.tag item.first + pos ≤ stmt.tag item.second then
    match stmt.switchTable.find? fun p => p.1 == stmt.tag item.first + pos with
    | some p => some p.2
    | none => some newLabelIdx
  else none

/-- The cases from index `a` on stand in the jump table of an item where the code looks for
them: at the distance of their tag from the `int32` tag offset. -/
def TableHolds (stmt : SwitchNode) (newLabelIdx : LabelIdx) (item : SwitchItem) (a : Nat) : Prop :=
  ∀ j, j < stmt.switchTable.length → a ≤ j →
    jumpTableLabel stmt newLabelIdx item
      ((stmt.tag j - int32.wrap (stmt.tag item.first)) %
        stmt.opndType.format.modulus).toNat = some (stmt.lab j)

/-- The condition under which a sorted switch without a default label keeps its cases. -/
def KeepsCases (stmt : SwitchNode) (newLabelIdx : LabelIdx) (items : List SwitchItem) : Prop :=
  match items with
  | [] => True
  | [_, last] => ∀ j, j < stmt.switchTable.length → 1 ≤ j → stmt.lab j = stmt.lab last.first
  | item :: items =>
    let last := items.getLastD item
    if item.isDense then TableHolds stmt newLabelIdx item 0
    else if last.isDense then TableHolds stmt newLabelIdx last 0
    else if items.length < kClusterSwitchCutoff then
      match (item :: items).dropWhile SwitchItem.isSparse with
      | [] => True
      | table :: _ => TableHolds stmt 0 table table.first
    else False

/-! ### Jump tables without guards -/

section Tables

variable {i j : Nat}

omit [Target] in
lemma rangeGotoEntries_snd_of_zero (h0 : stmt.defaultLabel = 0) (off last : Int) (m i : Nat) :
    (rangeGotoEntries stmt 0 off m i last).map Prod.snd = (List.range' i m).map stmt.lab := by
  induction m generalizing i last with
  | zero => rfl
  | succ m ih =>
    have hgap : gapEntries stmt 0 off last (stmt.tag i) = [] := by
      simp [gapEntries, h0]
    rw [rangeGotoEntries, hgap, List.nil_append, List.map_cons, ih, List.range'_succ,
      List.map_cons]

omit [Target] in
lemma find?_of_selectsOr (hs : stmt.Sorted) {dft l : LabelIdx}
    (h : SelectsOr stmt dft y 0 stmt.switchTable.length l) :
    (match stmt.switchTable.find? fun p => p.1 == y with
      | some p => some p.2
      | none => some dft) = some l := by
  rcases h with ⟨k, -, hk, rfl, rfl⟩ | ⟨hnone, rfl⟩
  · cases hfind : stmt.switchTable.find? fun p => p.1 == stmt.tag k with
    | none =>
      have := List.find?_eq_none.mp hfind _ (SwitchNode.getCasePair_mem hk)
      simp at this
    | some p =>
      obtain ⟨k', hk', rfl⟩ := List.getElem_of_mem (List.mem_of_find?_eq_some hfind)
      have htag : stmt.tag k' = stmt.tag k := by
        have := List.find?_some hfind
        rw [SwitchNode.tag, SwitchNode.getCasePair, List.getD_eq_getElem _ _ hk']
        simpa using this
      obtain rfl : k' = k := by
        rcases lt_trichotomy k' k with hlt | heq | hlt
        · have := hs k' k hlt hk
          omega
        · exact heq
        · have := hs k k' hlt hk'
          omega
      rw [SwitchNode.lab, SwitchNode.getCasePair, List.getD_eq_getElem _ _ hk']
  · rw [List.find?_eq_none.mpr]
    intro p hp
    obtain ⟨k, hk, rfl⟩ := List.getElem_of_mem hp
    have := hnone k (Nat.zero_le k) hk
    rw [SwitchNode.tag, SwitchNode.getCasePair, List.getD_eq_getElem _ _ hk] at this
    simpa using this

omit [Target] in
lemma buildRangeGotoNode_label (hs : stmt.Sorted) (h0 : stmt.defaultLabel = 0) (hij : i < j)
    (hj : j < stmt.switchTable.length) (pos : Nat) :
    ((buildRangeGotoNode stmt newLabelIdx i j).rangegotoTable.map Prod.snd)[pos]? =
      jumpTableLabel stmt newLabelIdx ⟨i, j⟩ pos := by
  unfold jumpTableLabel
  by_cases hnew : newLabelIdx = 0
  · subst hnew
    simp only [buildRangeGotoNode, List.map_cons, rangeGotoEntries_snd_of_zero h0, if_true]
    rw [← List.map_cons, ← List.range'_succ, List.getElem?_map]
    by_cases hpos : i + pos ≤ j
    · rw [if_pos hpos, List.getElem?_range' (by omega)]
      simp
    · rw [if_neg hpos, List.getElem?_eq_none (by rw [List.length_range']; omega)]
      rfl
  · have hfill : fillLabel stmt newLabelIdx = newLabelIdx := by simp [fillLabel, h0]
    rw [if_neg hnew]
    by_cases hpos : stmt.tag i + pos ≤ stmt.tag j
    · obtain ⟨l, hl, hsel⟩ := buildRangeGotoNode_getElem hs (by rwa [hfill]) hij hj hpos
      rw [hfill] at hsel
      rw [hl, if_pos hpos]
      refine (find?_of_selectsOr hs (hsel.widen (Nat.zero_le i) hj (fun k _ hk => ?_)
        (fun k hk hk' => ?_))).symm
      · have := hs k i hk (by omega)
        omega
      · have := hs j k hk hk'
        omega
    · have hlt := hs i j hij hj
      simp only [hpos, if_false]
      rw [List.getElem?_eq_none]
      rw [List.length_map, length_buildRangeGotoNode hs (by rwa [hfill]) hij hj]
      omega

lemma exec_table_iff (hs : stmt.Sorted) (h0 : stmt.defaultLabel = 0) (hij : i < j)
    (hj : j < stmt.switchTable.length) (a : Nat) :
    (∀ k, k < stmt.switchTable.length → a ≤ k →
      exec stmt.opndType (stmt.opndType.format.wrap (stmt.tag k))
        [.rangegoto (buildRangeGotoNode stmt newLabelIdx i j)] = .leave (stmt.lab k)) ↔
      TableHolds stmt newLabelIdx ⟨i, j⟩ a := by
  refine forall₃_congr fun k _ _ => ?_
  have hidx : tableIndex stmt.opndType (buildRangeGotoNode stmt newLabelIdx i j)
      (stmt.opndType.format.wrap (stmt.tag k)) =
      ((stmt.tag k - int32.wrap (stmt.tag i)) % stmt.opndType.format.modulus).toNat := by
    simp only [tableIndex, buildRangeGotoNode]
    rw [Int.sub_emod, IntFormat.wrap_emod, ← Int.sub_emod]
  rw [exec_rangegoto, hidx, buildRangeGotoNode_label hs h0 hij hj]
  cases jumpTableLabel stmt newLabelIdx ⟨i, j⟩
    ((stmt.tag k - int32.wrap (stmt.tag i)) % stmt.opndType.format.modulus).toNat <;> simp

end Tables

/-! ### The code without a default label -/

section Code

variable {recur : BuildFn}

lemma peelLow_code_of_zero (h0 : stmt.defaultLabel = 0) :
    (peelLow stmt newLabelIdx items low n).code =
      (items.takeWhile SwitchItem.isDense).map fun item =>
        .rangegoto (buildRangeGotoNode stmt newLabelIdx item.first item.second) := by
  induction items generalizing low n with
  | nil => rfl
  | cons item items ih =>
    by_cases hsec : item.second = 0
    · simp [peelLow, hsec, SwitchItem.isDense]
    · simp [peelLow, hsec, List.takeWhile_cons, SwitchItem.isDense, ih, lowCheck,
        condGotoDefault, guardedRangeGoto, h0]

lemma peelHigh_code_of_zero (h0 : stmt.defaultLabel = 0) :
    (peelHigh stmt newLabelIdx items high n).code =
      (items.takeWhile SwitchItem.isDense).map fun item =>
        .rangegoto (buildRangeGotoNode stmt newLabelIdx item.first item.second) := by
  induction items generalizing high n with
  | nil => rfl
  | cons item items ih =>
    by_cases hsec : item.second = 0
    · simp [peelHigh, hsec, SwitchItem.isDense]
    · simp [peelHigh, hsec, List.takeWhile_cons, SwitchItem.isDense, ih, highCheck,
        condGotoDefault, guardedRangeGoto, h0]

omit [Target] in
lemma placed_tables (stmt : SwitchNode) (newLabelIdx : LabelIdx) (items : List SwitchItem) :
    Stmt.placed ((items.map fun item =>
      .rangegoto (buildRangeGotoNode stmt newLabelIdx item.first item.second)) : Code) = [] := by
  induction items with
  | nil => rfl
  | cons item items ih => exact ih

omit [Target] in
lemma finishBlock_code_of_zero (h0 : stmt.defaultLabel = 0) :
    (finishBlock stmt low high n dft).code = [] := by
  unfold finishBlock
  split
  · rfl
  · simp [gotoDefault, h0]

lemma placed_equalityPart (stmt : SwitchNode) (label2Freq : Option (LabelIdx → Int))
    (items : List SwitchItem) (low high : Bool) (n : LabelIdx) :
    Stmt.placed (equalityPart stmt label2Freq items low high n).code = [] := by
  have hplain : ∀ low, Stmt.placed (equalityTests stmt high items low n).code = [] := by
    induction items with
    | nil => exact fun _ => rfl
    | cons item items ih =>
      intro low
      by_cases hsec : item.second = 0
      · simp only [equalityTests, hsec, ne_eq, not_true_eq_false, if_false]
        split <;> exact ih _
      · simp [equalityTests, hsec, Stmt.placed]
  unfold equalityPart
  split
  · split
    · rw [reorderedTests_code]
      exact placed_tests stmt _
    · exact hplain low
  · exact hplain low

lemma placed_buildCodeForSwitchItems (h0 : stmt.defaultLabel = 0)
    (label2Freq : Option (LabelIdx → Int)) (numItems fuel : Nat) (newLabelIdx : LabelIdx)
    (items : List SwitchItem) (low high : Bool) (n : LabelIdx) (dft : Bool) :
    Stmt.placed (buildCodeForSwitchItems stmt label2Freq numItems fuel newLabelIdx items low high n
      dft).code = [] := by
  induction fuel generalizing newLabelIdx items low high n dft with
  | zero => rfl
  | succ fuel ih =>
    cases items with
    | nil => rfl
    | cons item items =>
      simp only [buildCodeForSwitchItems]
      split_ifs
      · rfl
      · simp only [Built.prepend, Stmt.placed_append, peelLow_code_of_zero h0,
          peelHigh_code_of_zero h0, placed_tables, List.nil_append]
        generalize (peelHigh stmt newLabelIdx _ high _).items.reverse = rest
        cases rest with
        | nil => simp [remainingBlock, finishBlock_code_of_zero h0, Stmt.placed]
        | cons item rest =>
          simp only [remainingBlock, h0, ne_eq, not_true_eq_false, if_false]
          split_ifs
          · rfl
          · simp only [testsBlock]
            split
            · simp [Built.prepend, placed_equalityPart, finishBlock_code_of_zero h0]
            · simp [Built.prepend, placed_equalityPart, ih]
          · rfl

lemma exec_rangegoto_cons {t : PrimType} {node : RangeGotoNode} {c : Code}
    (h : Stmt.placed c = []) :
    exec t x (.rangegoto node :: c) = exec t x [.rangegoto node] := by
  have : exec t x ([.rangegoto node] ++ c) = _ := exec_append_unlabelled h
  rw [List.singleton_append] at this
  rw [this, exec_rangegoto]
  cases (node.rangegotoTable.map Prod.snd)[tableIndex t node x]? <;> rfl

variable {fuel : Nat} {last : SwitchItem}

lemma exec_of_first_dense (h0 : stmt.defaultLabel = 0) (h2 : numItems ≠ 2)
    (hd : item.isDense = true) :
    exec stmt.opndType x (buildCodeForSwitchItems stmt label2Freq numItems (fuel + 1) newLabelIdx
        (item :: items) low high n dft).code =
      exec stmt.opndType x
        [.rangegoto (buildRangeGotoNode stmt newLabelIdx item.first item.second)] := by
  have hplaced := placed_buildCodeForSwitchItems h0 label2Freq numItems (fuel + 1) newLabelIdx
    (item :: items) low high n dft
  simp only [buildCodeForSwitchItems, h2, and_false, if_false, Built.prepend,
    peelLow_code_of_zero h0, List.takeWhile_cons, hd, if_true, List.map_cons, List.cons_append]
    at hplaced ⊢
  exact exec_rangegoto_cons hplaced

lemma exec_of_last_dense (h0 : stmt.defaultLabel = 0) (h2 : numItems ≠ 2)
    (hsp : item.isDense = false) (hl : (item :: items).getLast? = some last)
    (hd : last.isDense = true) :
    exec stmt.opndType x (buildCodeForSwitchItems stmt label2Freq numItems (fuel + 1) newLabelIdx
        (item :: items) low high n dft).code =
      exec stmt.opndType x
        [.rangegoto (buildRangeGotoNode stmt newLabelIdx last.first last.second)] := by
  have hplaced := placed_buildCodeForSwitchItems h0 label2Freq numItems (fuel + 1) newLabelIdx
    (item :: items) low high n dft
  obtain ⟨init, hinit⟩ := List.getLast?_eq_some_iff.mp hl
  have hrev : (item :: items).reverse = last :: init.reverse := by
    rw [hinit, List.reverse_append]
    rfl
  simp only [buildCodeForSwitchItems, h2, and_false, if_false, Built.prepend,
    peelLow_code_of_zero h0, peelHigh_code_of_zero h0, peelLow_items, List.takeWhile_cons,
    List.dropWhile_cons, hsp, Bool.false_eq_true, hrev, hd, if_true, List.map_cons,
    List.cons_append, List.map_nil, List.nil_append] at hplaced ⊢
  exact exec_rangegoto_cons hplaced

/-- With sparse items at both sides, only few items get any code: the equality tests of a run of
sparse items, and a jump table for all that follows. -/
lemma code_of_sparse_ends (h0 : stmt.defaultLabel = 0) (h2 : numItems ≠ 2)
    (hsp : item.isDense = false) (hl : (item :: items).getLast? = some last)
    (hd : last.isDense = false) :
    (buildCodeForSwitchItems stmt label2Freq numItems (fuel + 1) newLabelIdx (item :: items) false
        false n dft).code =
      if items.length < kClusterSwitchCutoff then
        let tests := equalityPart stmt label2Freq (item :: items) false false n
        match (item :: items).dropWhile SwitchItem.isSparse with
        | [] => tests.code
        | table :: rest => tests.code ++ (buildCodeForSwitchItems stmt label2Freq numItems fuel 0
            (table :: rest) tests.checked false n dft).code
      else [] := by
  obtain ⟨init, hinit⟩ := List.getLast?_eq_some_iff.mp hl
  have hrev : (item :: items).reverse = last :: init.reverse := by
    rw [hinit, List.reverse_append]
    rfl
  have hlow : peelLow stmt newLabelIdx (item :: items) false n = ⟨[], item :: items, false, n⟩ := by
    simp only [SwitchItem.isDense, bne_eq_false_iff_eq] at hsp
    simp [peelLow, hsp]
  have hhigh : peelHigh stmt newLabelIdx (item :: items).reverse false n =
      ⟨[], (item :: items).reverse, false, n⟩ := by
    simp only [SwitchItem.isDense, bne_eq_false_iff_eq] at hd
    rw [hrev]
    simp [peelHigh, hd]
  simp only [buildCodeForSwitchItems, h2, and_false, if_false, hlow, hhigh, List.reverse_reverse,
    remainingBlock, Bool.false_eq_true, h0, ne_eq, not_true_eq_false, Built.prepend,
    List.nil_append]
  split_ifs
  · simp only [testsBlock, equalityPart_items]
    split
    · next hnil =>
      simp only [hnil, Built.prepend, finishBlock_code_of_zero h0, List.append_nil]
    · next table rest hcons => simp only [hcons, Built.prepend]
  · rfl

end Code

/-! ### The cases that are kept -/

lemma exec_equalityPart_of_zero (label2Freq : Option (LabelIdx → Int)) (n : LabelIdx) {m : Nat}
    (hy : EqOnTagScale stmt x y)
    (hsl : Slice stmt a b items) (hm : Slice stmt m b (items.dropWhile SwitchItem.isSparse)) :
    (∃ i, a ≤ i ∧ i < m ∧ stmt.tag i = y ∧ exec stmt.opndType x
        (equalityPart stmt label2Freq items false false n).code = .leave (stmt.lab i)) ∨
      exec stmt.opndType x (equalityPart stmt label2Freq items false false n).code = .fall ∧
        ∀ i, a ≤ i → i < m → stmt.tag i ≠ y := by
  have hrun := slice_run hsl hm
  obtain ⟨order, hcode, hmem⟩ : ∃ order : List Nat,
      (equalityPart stmt label2Freq items false false n).code = order.map (equalityTest stmt) ∧
      ∀ i, i ∈ order ↔ a ≤ i ∧ i < m := by
    have hplain : (equalityTests stmt false items false n).code =
        ((items.takeWhile SwitchItem.isSparse).map SwitchItem.first).map (equalityTest stmt) := by
      clear hsl hm hrun
      induction items with
      | nil => rfl
      | cons item items ih =>
        by_cases hsec : item.second = 0
        · have : lowCheckedAfterTest stmt false item items = false := by
            cases items <;> rfl
          simp [equalityTests, hsec, SwitchItem.isSparse, this, ih]
        · simp [equalityTests, hsec, SwitchItem.isSparse]
    have hfirsts : ∀ i, i ∈ (items.takeWhile SwitchItem.isSparse).map SwitchItem.first ↔
        a ≤ i ∧ i < m := fun i => by
      have hle := hrun.le
      rw [hrun.map_first_of_sparse fun i hi => List.mem_takeWhile_imp hi, List.mem_range'_1]
      omega
    unfold equalityPart
    split
    · split
      · exact ⟨_, reorderedTests_code _ _ _ _ _, mem_freq2case _ hrun⟩
      · exact ⟨_, hplain, hfirsts⟩
    · exact ⟨_, hplain, hfirsts⟩
  have hlen : ∀ i, a ≤ i → i < m → i < stmt.switchTable.length := fun i h₁ h₂ => by
    have := hrun.bound (hrun.ne_nil_of_lt (by omega))
    omega
  rw [hcode]
  rcases exec_tests hy (fun i hi => hlen i ((hmem i).mp hi).1 ((hmem i).mp hi).2) with
    ⟨i, hi, htag, hleave⟩ | ⟨hfall, hne⟩
  · exact Or.inl ⟨i, ((hmem i).mp hi).1, ((hmem i).mp hi).2, htag, hleave⟩
  · exact Or.inr ⟨hfall, fun i h₁ h₂ => hne i ((hmem i).mpr ⟨h₁, h₂⟩)⟩

/-- The code of the items of a sorted switch serves all its cases. -/
def ServesCases (stmt : SwitchNode) (code : Code) : Prop :=
  ∀ j, j < stmt.switchTable.length →
    exec stmt.opndType (stmt.opndType.format.wrap (stmt.tag j)) code = .leave (stmt.lab j)

variable {fuel : Nat} {last : SwitchItem}

lemma servesCases_two (hd : ∀ j, j < stmt.switchTable.length →
      EqOnTagScale stmt (stmt.opndType.format.wrap (stmt.tag j)) (stmt.tag j))
    (hs : stmt.Sorted) (h0 : stmt.defaultLabel = 0)
    (hsl : Slice stmt 0 stmt.switchTable.length [item, last]) :
    ServesCases stmt (buildCodeForSwitchItems stmt label2Freq 2 (fuel + 1) newLabelIdx [item, last]
        low high n dft).code ↔
      ∀ j, j < stmt.switchTable.length → 1 ≤ j → stmt.lab j = stmt.lab last.first := by
  have hexec : ∀ j, j < stmt.switchTable.length →
      exec stmt.opndType (stmt.opndType.format.wrap (stmt.tag j))
        (buildCodeForSwitchItems stmt label2Freq 2 (fuel + 1) newLabelIdx [item, last] low high n
          dft).code = .leave (if j = 0 then stmt.lab 0 else stmt.lab last.first) := fun j hj => by
    simp only [buildCodeForSwitchItems, h0, and_self, if_true, hsl.first_eq, List.getLastD_cons,
      List.getLastD_nil]
    have : exec stmt.opndType (stmt.opndType.format.wrap (stmt.tag j))
        ([equalityTest stmt 0] ++ [.goto (stmt.lab last.first)]) = _ :=
      exec_append_unlabelled rfl
    rw [List.singleton_append, exec_equalityTest (hd j hj) (by omega)] at this
    rw [this]
    rcases Nat.eq_zero_or_pos j with rfl | hpos
    · simp
    · have hne : stmt.tag 0 ≠ stmt.tag j := ne_of_lt (hs 0 j hpos hj)
      rw [if_neg hne, if_neg (by omega)]
      rfl
  constructor
  · intro h j hj h1
    have := h j hj
    rw [hexec j hj, if_neg (by omega)] at this
    exact (Outcome.leave.inj this).symm
  · intro h j hj
    rw [hexec j hj]
    rcases Nat.eq_zero_or_pos j with rfl | hpos
    · simp
    · rw [if_neg (by omega), h j hj hpos]

lemma servesCases_few (hd : ∀ j, j < stmt.switchTable.length →
      EqOnTagScale stmt (stmt.opndType.format.wrap (stmt.tag j)) (stmt.tag j))
    (hs : stmt.Sorted) (h0 : stmt.defaultLabel = 0) (h2 : numItems ≠ 2)
    (hsl : Slice stmt 0 stmt.switchTable.length (item :: items))
    (hsp : item.isDense = false) (hl : (item :: items).getLast? = some last)
    (hlast : last.isDense = false) (hfew : items.length < kClusterSwitchCutoff)
    (hfuel : items.length ≤ fuel) :
    ServesCases stmt (buildCodeForSwitchItems stmt label2Freq numItems (fuel + 1) newLabelIdx
        (item :: items) false false n dft).code ↔
      match (item :: items).dropWhile SwitchItem.isSparse with
      | [] => True
      | table :: _ => TableHolds stmt 0 table table.first := by
  rw [code_of_sparse_ends h0 h2 hsp hl hlast, if_pos hfew]
  obtain ⟨m, hrun, hm⟩ := hsl.takeWhile_dropWhile SwitchItem.isSparse
  cases hrest : (item :: items).dropWhile SwitchItem.isSparse with
  | nil =>
    simp only [iff_true]
    intro j hj
    have hmb : m = stmt.switchTable.length := by
      rw [hrest] at hm
      cases hm
      rfl
    rcases exec_equalityPart_of_zero label2Freq n (hd j hj) hsl hm with
      ⟨i, -, him, htag, hleave⟩ | ⟨-, hne⟩
    · obtain rfl : i = j := hs.inj (by omega) hj htag
      exact hleave
    · exact absurd rfl (hne j (Nat.zero_le j) (by omega))
  | cons table rest =>
    have hm' : Slice stmt m stmt.switchTable.length (table :: rest) := hrest ▸ hm
    have hdense : table.isDense = true := by
      have := List.head?_dropWhile_not SwitchItem.isSparse (item :: items)
      rw [hrest] at this
      simpa [SwitchItem.isSparse, SwitchItem.isDense] using this
    obtain ⟨fuel, rfl⟩ : ∃ k, fuel = k + 1 := by
      refine ⟨fuel - 1, ?_⟩
      have hsparse : item.isSparse = true := by
        simpa [SwitchItem.isSparse, SwitchItem.isDense] using hsp
      rw [List.dropWhile_cons, if_pos hsparse] at hrest
      have := List.length_dropWhile_le SwitchItem.isSparse items
      rw [hrest, List.length_cons] at this
      omega
    obtain ⟨j, hmj, hj, rfl⟩ := hm'.dense_cons hdense
    have hexec : ∀ k, k < stmt.switchTable.length →
        exec stmt.opndType (stmt.opndType.format.wrap (stmt.tag k))
          ((equalityPart stmt label2Freq (item :: items) false false n).code ++
            (buildCodeForSwitchItems stmt label2Freq numItems (fuel + 1) 0 (⟨m, j⟩ :: rest)
              (equalityPart stmt label2Freq (item :: items) false false n).checked false n
              dft).code) =
          if k < m then .leave (stmt.lab k)
          else exec stmt.opndType (stmt.opndType.format.wrap (stmt.tag k))
            [.rangegoto (buildRangeGotoNode stmt 0 m j)] := fun k hk => by
      rw [exec_append_unlabelled (placed_buildCodeForSwitchItems h0 _ _ _ _ _ _ _ _ _)]
      rcases exec_equalityPart_of_zero label2Freq n (hd k hk) hsl hm with
        ⟨i, -, him, htag, hleave⟩ | ⟨hfall, hne⟩
      · obtain rfl : i = k := hs.inj (by omega) hk htag
        rw [hleave, if_pos him]
      · have hkm : ¬ k < m := fun hkm => hne k (Nat.zero_le k) hkm rfl
        rw [hfall, if_neg hkm]
        exact exec_of_first_dense h0 h2 hdense
    refine Iff.trans ?_ (exec_table_iff hs h0 hmj hj m)
    constructor
    · intro h k hk hmk
      have := h k hk
      simp only at this
      rwa [hexec k hk, if_neg (by omega)] at this
    · intro h k hk
      simp only
      rw [hexec k hk]
      split_ifs with hkm
      · rfl
      · exact h k hk (by omega)

lemma keepsCases_cons (hne : items.length ≠ 1) :
    KeepsCases stmt newLabelIdx (item :: items) ↔
      if item.isDense then TableHolds stmt newLabelIdx item 0
      else if (items.getLastD item).isDense then TableHolds stmt newLabelIdx (items.getLastD item) 0
      else if items.length < kClusterSwitchCutoff then
        match (item :: items).dropWhile SwitchItem.isSparse with
        | [] => True
        | table :: _ => TableHolds stmt 0 table table.first
      else False := by
  match items, hne with
  | [], _ => rfl
  | [_], hne => exact absurd rfl hne
  | _ :: _ :: _, _ => rfl

lemma servesCases_iff (label2Freq : Option (LabelIdx → Int)) (newLabelIdx n : LabelIdx)
    (hd : ∀ j, j < stmt.switchTable.length →
      EqOnTagScale stmt (stmt.opndType.format.wrap (stmt.tag j)) (stmt.tag j))
    (hs : stmt.Sorted) (h0 : stmt.defaultLabel = 0)
    (hsl : Slice stmt 0 stmt.switchTable.length items) :
    ServesCases stmt (buildCodeForSwitchItems stmt label2Freq items.length items.length newLabelIdx
        items false false n false).code ↔ KeepsCases stmt newLabelIdx items := by
  cases items with
  | nil =>
    have hlen : stmt.switchTable.length = 0 := hsl.end_unique (.nil 0)
    simp only [KeepsCases, iff_true]
    intro j hj
    omega
  | cons item items =>
    by_cases hone : items.length = 1
    · obtain ⟨last, rfl⟩ := List.length_eq_one_iff.mp hone
      exact servesCases_two hd hs h0 hsl
    · rw [keepsCases_cons hone]
      have h2 : items.length + 1 ≠ 2 := by omega
      have hlast : (item :: items).getLast? = some (items.getLastD item) := by
        rw [List.getLast?_cons, List.getLastD_eq_getLast?]
      cases hfirst : item.isDense with
      | true =>
        obtain ⟨j, h0j, hj, rfl⟩ := hsl.dense_cons hfirst
        rw [if_pos rfl, ← exec_table_iff hs h0 h0j hj 0]
        refine ⟨fun h k hk _ => ?_, fun h k hk => ?_⟩
        · have := h k hk
          rwa [List.length_cons, exec_of_first_dense h0 h2 hfirst] at this
        · rw [List.length_cons, exec_of_first_dense h0 h2 hfirst]
          exact h k hk (Nat.zero_le k)
      | false =>
        rw [if_neg (by simp)]
        cases hlst : (items.getLastD item).isDense with
        | true =>
          obtain ⟨m, j, hmj, hj, hitem⟩ := hsl.dense_of_getLast hlast hlst
          rw [if_pos rfl, hitem, ← exec_table_iff hs h0 hmj hj 0]
          refine ⟨fun h k hk _ => ?_, fun h k hk => ?_⟩
          · have := h k hk
            rwa [List.length_cons, exec_of_last_dense h0 h2 hfirst hlast hlst, hitem] at this
          · rw [List.length_cons, exec_of_last_dense h0 h2 hfirst hlast hlst, hitem]
            exact h k hk (Nat.zero_le k)
        | false =>
          rw [if_neg (by simp)]
          by_cases hfew : items.length < kClusterSwitchCutoff
          · rw [if_pos hfew]
            exact servesCases_few hd hs h0 h2 hsl hfirst hlast hlst hfew (Nat.le_refl _)
          · rw [if_neg hfew, iff_false]
            intro h
            have hpos : 0 < stmt.switchTable.length :=
              lt_of_le_of_lt hsl.first_le_lastIdx hsl.lastIdx_lt
            have := h 0 hpos
            rw [List.length_cons, code_of_sparse_ends h0 h2 hfirst hlast hlst, if_neg hfew] at this
            cases this

/-- Without a default label, the lowered switch jumps to the label of every case exactly when the
condition on its items holds. -/
theorem exec_lowerSwitch_noDefault_iff (stmt : SwitchNode) (dense : Int → Int → Int → Bool)
    (label2Freq : Option (LabelIdx → Int)) (newLabelIdx n : LabelIdx) (h : stmt.DistinctTags)
    (h0 : stmt.defaultLabel = 0) :
    (∀ p ∈ stmt.switchTable, exec stmt.opndType (stmt.opndType.format.wrap p.1)
        (lowerSwitch dense label2Freq stmt newLabelIdx n) = .leave p.2) ↔
      KeepsCases stmt.sortCasePair newLabelIdx (switchItems dense stmt.sortCasePair) := by
  have hnodup : (stmt.switchTable.map Prod.fst).Nodup :=
    List.pairwise_map.mpr ((List.pairwise_map.mp h).imp fun hne heq => hne (by rw [heq]))
  have hd : ∀ j, j < stmt.sortCasePair.switchTable.length → EqOnTagScale stmt.sortCasePair
      (stmt.opndType.format.wrap (stmt.sortCasePair.tag j)) (stmt.sortCasePair.tag j) := by
    intro j hj i hi
    constructor
    · intro heq
      have hmem : ∀ k, k < stmt.sortCasePair.switchTable.length →
          stmt.sortCasePair.getCasePair k ∈ stmt.switchTable := fun k hk =>
        SwitchNode.mem_sortCasePair.mp (SwitchNode.getCasePair_mem hk)
      rw [SwitchNode.tag, SwitchNode.tag, List.inj_on_of_nodup_map h (hmem i hi) (hmem j hj)
        heq.symm]
    · intro heq
      rw [heq]
      rfl
  rw [← servesCases_iff label2Freq newLabelIdx n hd
    (SwitchNode.sorted_sortCasePair hnodup) h0 (slice_switchItems dense stmt.sortCasePair)]
  have hcode : ∀ p ∈ stmt.switchTable, lowerSwitch dense label2Freq stmt newLabelIdx n =
      (switchBlock dense label2Freq stmt newLabelIdx n).code := fun p hp => by
    rw [lowerSwitch_eq (List.ne_nil_of_mem hp), gotoDefault, if_pos h0, List.append_nil, ite_self]
  constructor
  · intro hok j hj
    have hp := SwitchNode.mem_sortCasePair.mp (SwitchNode.getCasePair_mem hj)
    have := hok _ hp
    rwa [hcode _ hp] at this
  · intro hok p hp
    obtain ⟨j, hj, rfl⟩ := List.getElem_of_mem (SwitchNode.mem_sortCasePair.mpr hp)
    have := hok j hj
    rw [hcode _ hp]
    simp only [SwitchNode.tag, SwitchNode.lab, SwitchNode.getCasePair,
      List.getD_eq_getElem _ _ hj] at this
    exact this

/-- A switch of three cases that are far apart, without a default label. -/
def threeCases : SwitchNode := ⟨.i32, 0, [(7, 10), (100, 11), (-5, 12)]⟩

omit [Target] in
theorem exec_lowerSwitch_threeCases :
    letI := Target.lp64
    exec threeCases.opndType (threeCases.opndType.format.wrap 100)
      (lowerSwitch denseRegion none threeCases 40 50) = .leave 11 :=
  letI := Target.lp64
  (exec_lowerSwitch_noDefault_iff threeCases denseRegion none 40 50 (by decide) rfl).mpr trivial
    (100, 11) (by decide)

/-- A dense region and one more case, without a default label: two items. -/
def denseAndOne : SwitchNode :=
  ⟨.i32, 0, [(0, 10), (1, 11), (2, 12), (3, 13), (4, 14), (5, 15), (100, 20)]⟩

omit [Target] in
/-- The case with tag 3 has label 13, but the code jumps to the label of the last case. -/
theorem exec_lowerSwitch_denseAndOne :
    letI := Target.lp64
    denseAndOne.DistinctTags ∧ (3, 13) ∈ denseAndOne.switchTable ∧
      exec .i32 3 (lowerSwitch denseRegion none denseAndOne 40 50) = .leave 20 :=
  letI := Target.lp64
  ⟨by decide, by decide, by decide +kernel⟩

end Maple.SwitchLowerer
