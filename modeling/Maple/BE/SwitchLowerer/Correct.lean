import Maple.BE.SwitchLowerer.Traces

/-!
# The code of a switch jumps to its target

`traces_buildCodeForSwitchItems` follows an operand value through the code that is built for a
slice, by induction on the recursive calls.
-/

namespace Maple.SwitchLowerer

open ForwardCode

variable [Target] {stmt : SwitchNode} {label2Freq : Option (LabelIdx → Int)}
  {newLabelIdx : LabelIdx} {numItems : Nat} {x y : Int} {a b m n₀ n k : Nat}
  {item : SwitchItem} {items : List SwitchItem} {low high dft : Bool}

section Recursion

variable {recur : BuildFn} {recurCalls : List SwitchItem → Bool → Bool → List Call}

lemma exec_finishBlock (hdft : stmt.defaultLabel ≠ 0) :
    exec stmt.opndType x (finishBlock stmt low high n dft).code =
      if low && high then .fall else .leave stmt.defaultLabel := by
  unfold finishBlock
  split
  · rfl
  · simp only [gotoDefault, if_neg hdft]
    rfl

lemma testsBlock_code (recur : BuildFn) (items : List SwitchItem) (low high dft : Bool) (n : Nat) :
    (testsBlock stmt label2Freq recur items low high n dft).code =
      (equalityPart stmt label2Freq items low high n).code ++
        (if items.dropWhile SwitchItem.isSparse = [] then
          finishBlock stmt (equalityPart stmt label2Freq items low high n).checked high n dft
        else
          recur (items.dropWhile SwitchItem.isSparse)
            (equalityPart stmt label2Freq items low high n).checked high n dft).code := by
  simp only [testsBlock]
  rw [equalityPart_items]
  split
  · next hnil =>
    rw [if_pos hnil]
    rfl
  · next hcons =>
    rw [if_neg (by rw [hcons]; exact List.cons_ne_nil _ _)]
    rfl

lemma traces_finishBlock (dft : Bool) (n : Nat) (hdft : stmt.defaultLabel ≠ 0) {c : Call}
    {checked : Bool} (hne : ∀ i, a ≤ i → i < b → stmt.tag i ≠ y)
    (hend : checked = true → high = true → c.intoEnd stmt label2Freq = true ∧ InGap stmt y c.run)
    (htable : InGap stmt y c.run → c.intoTable stmt label2Freq = false)
    (hboth : InGap stmt y c.run → c.intoEnd stmt label2Freq = true → checked = true ∧ high = true) :
    Traces stmt label2Freq [c] y a b
      (exec stmt.opndType x (finishBlock stmt checked high n dft).code) := by
  have hstuck {o : Outcome LabelIdx} : ∀ c' ∈ [c], InGap stmt y c'.run →
      c'.intoTable stmt label2Freq = true → o = .stuck := fun c' hc hin htrap => by
    obtain rfl := List.mem_singleton.mp hc
    rw [htable hin] at htrap
    cases htrap
  rw [exec_finishBlock hdft]
  by_cases hh : checked = true ∧ high = true
  · obtain ⟨htrap, hin⟩ := hend hh.1 hh.2
    rw [if_pos (by simp [hh])]
    refine ⟨hstuck, fun _ _ _ _ => rfl, fun hok => ?_⟩
    have := (hok c List.mem_cons_self hin).2
    rw [htrap] at this
    cases this
  · rw [if_neg (by simpa using hh)]
    refine ⟨hstuck, fun c' hc hin htrap => ?_, fun _ => ⟨_, rfl, Or.inr ⟨hne, rfl⟩⟩⟩
    obtain rfl := List.mem_singleton.mp hc
    exact absurd (hboth hin htrap) hh

lemma traces_rest (dft : Bool) (hrec : RecurSpec stmt label2Freq x y n₀ k recur recurCalls)
    (hrest : items ≠ []) (hk : items.length ≤ k) (hm : Slice stmt m b items)
    (hb : b ≤ stmt.switchTable.length) (hdense : ∀ item ∈ items.head?, item.isDense = true)
    (hn : n₀ ≤ n) (ham : a ≤ m) (hne : ∀ i, a ≤ i → i < m → stmt.tag i ≠ y)
    (hhigh : high = true → y ≤ stmt.tag (b - 1)) {c : Call} {checked : Bool}
    (htable : checked = true → y < stmt.tag m →
      c.intoTable stmt label2Freq = true ∧ InGap stmt y c.run)
    (hbelow : InGap stmt y c.run → c.intoTable stmt label2Freq = true →
      checked = true ∧ y < stmt.tag m)
    (hend : InGap stmt y c.run → c.intoEnd stmt label2Freq = false) :
    Traces stmt label2Freq (c :: recurCalls items checked high) y a b
      (exec stmt.opndType x (recur items checked high n dft).code) := by
  by_cases hlt : checked = true ∧ y < stmt.tag m
  · -- the jump table behind the run is entered below its lowest tag
    obtain ⟨htrap, hin⟩ := htable hlt.1 hlt.2
    rw [hlt.1, hrec.stuck hrest hk hm hdense hn hlt.2]
    refine ⟨fun _ _ _ _ => rfl, fun c' hc hin' htrap' => ?_, fun hok => ?_⟩
    · rcases List.mem_cons.mp hc with rfl | hc
      · rw [hend hin'] at htrap'
        cases htrap'
      · have := (hrec.bounds hm hb hc hin').2.1
        omega
    · have := (hok c List.mem_cons_self hin).1
      rw [htrap] at this
      cases this
  · have hrun := hrec.traces dft hrest hk hm hn
      (fun hc => not_lt.mp fun hlt' => hlt ⟨hc, hlt'⟩) hhigh
    refine (hrun.widen ham (Nat.le_refl b) hne (fun i h₁ h₂ => by omega)).mono
      (List.subset_cons_self _ _) fun c' hc => ?_
    rcases List.mem_cons.mp hc with rfl | hc
    · exact Or.inr fun hin => ⟨Bool.eq_false_iff.mpr fun htrap => hlt (hbelow hin htrap), hend hin⟩
    · exact Or.inl hc

lemma traces_testsBlock (dft : Bool) (hdft : stmt.defaultLabel ≠ 0) (hs : stmt.Sorted)
    (hy : OnTagScale stmt x y) (h : LabelsBelow stmt newLabelIdx n₀) (hn : n₀ ≤ n)
    (hrec : RecurSpec stmt label2Freq x y n₀ k recur recurCalls)
    (hsl : Slice stmt a b items) (hm : Slice stmt m b (items.dropWhile SwitchItem.isSparse))
    (ham : a < m) (hlen : items.length ≤ kClusterSwitchCutoff)
    (hk : (items.dropWhile SwitchItem.isSparse).length ≤ k)
    (hlow : low = true → stmt.tag a ≤ y) (hhigh : high = true → y ≤ stmt.tag (b - 1)) :
    let rest := items.dropWhile SwitchItem.isSparse
    let checked := (equalityPart stmt label2Freq items low high 0).checked
    Traces stmt label2Freq
      (⟨items, low, high⟩ :: if rest = [] then [] else recurCalls rest checked high) y a b
      (exec stmt.opndType x (testsBlock stmt label2Freq recur items low high n dft).code) := by
  intro rest checked
  have hmb := hm.le
  have hb : b ≤ stmt.switchTable.length := hsl.bound (hsl.ne_nil_of_lt (by omega))
  have hchecked : (equalityPart stmt label2Freq items low high n).checked = checked :=
    equalityPart_checked stmt label2Freq items low high n 0
  set tail : Built := if rest = [] then finishBlock stmt checked high n dft
    else recur rest checked high n dft with htail
  have hcode : (testsBlock stmt label2Freq recur items low high n dft).code =
      (equalityPart stmt label2Freq items low high n).code ++ tail.code := by
    rw [testsBlock_code, hchecked]
  have hscope : ScopedCode stmt.opndType n₀ n tail.next tail.code := by
    rw [htail]
    split_ifs
    · obtain ⟨hnext, hc⟩ := scoped_finishBlock h checked high n dft
      rw [hnext]
      exact hc
    · exact (hrec.scope _ _ _ _ _ hn).2
  rw [hcode, exec_append hn (Nat.le_refl n) (scoped_equalityPart h hn) hscope]
  rcases testsSpec_equalityPart label2Freq hs hy h hn hsl hm ham hlen hlow hhigh
    with ⟨i, hai, him, htag, hleave⟩ | ⟨hfall, hne, htable, hend⟩
  · -- the value is a tag of the run, so it is in no gap
    rw [hleave]
    refine Traces.of_leave (fun c hc hin => ?_) (Or.inl ⟨i, hai, by omega, htag, rfl⟩)
    rcases List.mem_cons.mp hc with rfl | hc
    · exact (InGap.bounds hs hsl hin).2.2.2 i (by omega) htag
    · split_ifs at hc
      · simp at hc
      · obtain ⟨hlt, hmy, -⟩ := hrec.bounds hm hb hc hin
        have := hs i m him (by omega)
        omega
  · rw [hfall]
    simp only
    rw [htail]
    rw [hchecked] at htable hend
    have hnotTable (hin : InGap stmt y (Call.mk items low high).run)
        (htrap : (Call.mk items low high).intoTable stmt label2Freq = true) :
        checked = true ∧ m < b ∧ y < stmt.tag m :=
      lt_of_intoTable hs hsl hm ham htrap hin 0
    have hnotEnd (htrap : (Call.mk items low high).intoEnd stmt label2Freq = true) :
        checked = true ∧ m = b ∧ high = true :=
      eq_of_intoEnd hsl hm ham htrap 0
    by_cases hrest : rest = []
    · have hmb : m = b := by
        have hm : Slice stmt m b rest := hm
        rw [hrest] at hm
        cases hm
        rfl
      rw [if_pos hrest, if_pos hrest]
      refine traces_finishBlock dft n hdft (fun i h₁ h₂ => hne i h₁ (by omega))
        (fun hc hh => hend hc hmb hh) (fun hin => Bool.eq_false_iff.mpr fun htrap => ?_)
        fun hin htrap => ?_
      · have := (hnotTable hin htrap).2.1
        omega
      · exact ⟨(hnotEnd htrap).1, (hnotEnd htrap).2.2⟩
    · have hmb : m < b := by
        have := hm.length_le
        have : 0 < (items.dropWhile SwitchItem.isSparse).length := List.length_pos_of_ne_nil hrest
        omega
      rw [if_neg hrest, if_neg hrest]
      have hdense : ∀ item ∈ rest.head?, item.isDense = true := fun item hitem => by
        have := List.head?_dropWhile_not SwitchItem.isSparse items
        rw [show (items.dropWhile SwitchItem.isSparse).head? = some item from hitem] at this
        simpa [SwitchItem.isSparse, SwitchItem.isDense] using this
      refine traces_rest dft hrec hrest hk hm hb hdense hn (by omega) hne hhigh
        (fun hc hlt => htable hc hmb hlt) (fun hin htrap => ?_)
        fun hin => Bool.eq_false_iff.mpr fun htrap => ?_
      · exact ⟨(hnotTable hin htrap).1, (hnotTable hin htrap).2.2⟩
      · have := (hnotEnd htrap).2.1
        omega

lemma traces_searchBlock (dft : Bool) (hs : stmt.Sorted) (hy : OnTagScale stmt x y) (hn : n₀ ≤ n)
    (hrec : RecurSpec stmt label2Freq x y n₀ k recur recurCalls)
    (hsl : Slice stmt a b (item :: items)) (hlen : kClusterSwitchCutoff ≤ items.length)
    (hk : items.length ≤ k) (hlow : low = true → stmt.tag a ≤ y)
    (hhigh : high = true → y ≤ stmt.tag (b - 1)) {prev mid : SwitchItem}
    {right : List SwitchItem}
    (hprev : (splitAtMiddle stmt item items).1.getLast? = some prev)
    (hright : (splitAtMiddle stmt item items).2 = mid :: right) :
    Traces stmt label2Freq
      (recurCalls (splitAtMiddle stmt item items).1 low (leftHighChecked stmt prev mid) ++
        recurCalls (mid :: right) true high) y a b
      (exec stmt.opndType x (searchBlock stmt recur item items low high n dft).code) := by
  obtain ⟨m, prev', mid', right', hprev', hright', hl, hr, hll, hrl⟩ :=
    splitAtMiddle_spec hs hsl hlen
  obtain ⟨rfl, rfl⟩ : mid' = mid ∧ right' = right := by simpa [hright'] using hright
  obtain rfl : prev' = prev := by simpa [hprev'] using hprev
  have hb : b ≤ stmt.switchTable.length := hsl.bound (List.cons_ne_nil _ _)
  have hmb : m < b := lt_of_le_of_lt hr.first_le_lastIdx hr.lastIdx_lt
  set left := (splitAtMiddle stmt item items).1 with hleft
  have hne : left ≠ [] := fun hnil => by simp [hnil] at hprev
  have ham : a < m := by
    have := hl.length_le
    have := List.length_pos_of_ne_nil hne
    omega
  obtain ⟨hle₁, hthen⟩ := hrec.scope left low (leftHighChecked stmt prev' mid') n dft hn
  set thenPart := recur left low (leftHighChecked stmt prev' mid') n dft with hthenPart
  obtain ⟨hle₂, helse⟩ := hrec.scope (mid' :: right') true high thenPart.next
    thenPart.jumpToDefault (Nat.le_trans hn hle₁)
  have hcode : exec stmt.opndType x (searchBlock stmt recur item items low high n dft).code =
      if y < stmt.tag m then exec stmt.opndType x thenPart.code
      else exec stmt.opndType x
        (recur (mid' :: right') true high thenPart.next thenPart.jumpToDefault).code := by
    have := exec_lowerIfStmt (buildCmpNode stmt .lt mid'.first) hn
      (Nat.le_trans hle₁ hle₂) (hthen.mono (Nat.le_refl n) hle₂) (helse.mono hle₁ (Nat.le_refl _)) x
    rw [CompareNode.holds, buildCmpNode, hr.first_eq, hy.eval_wrap .lt m (by omega)] at this
    simp only [CmpOp.eval, decide_eq_true_eq] at this
    refine Eq.trans ?_ this
    simp only [searchBlock, ← hleft, hprev, hright, buildCmpNode, hr.first_eq, ← hthenPart]
    rfl
  rw [hcode]
  split_ifs with hlt
  · have hleftHigh : leftHighChecked stmt prev' mid' = true → y ≤ stmt.tag (m - 1) := by
      intro hc
      obtain ⟨h₁, h₂⟩ := hl.le_of_getLast hprev
      have := hs.le (show prev'.first ≤ m - 1 by omega) (by omega)
      have := hs.le (show prev'.second ≤ m - 1 by omega) (by omega)
      simp only [leftHighChecked, hr.first_eq, Bool.or_eq_true, beq_iff_eq] at hc
      omega
    have htr := hrec.traces dft hne (by omega) hl hn hlow hleftHigh
    refine (htr.widen (Nat.le_refl a) hmb.le (fun i h₁ h₂ => by omega) (fun i h₁ h₂ => ?_)).mono
      (List.subset_append_left _ _) fun c hc => ?_
    · have := hs.le h₁ (by omega)
      omega
    · rcases List.mem_append.mp hc with hc | hc
      · exact Or.inl hc
      · refine Or.inr fun hin => ?_
        have := (hrec.bounds hr hb hc hin).2.1
        omega
  · have htr := hrec.traces thenPart.jumpToDefault (List.cons_ne_nil mid' right')
      (by omega) hr (Nat.le_trans hn hle₁) (fun _ : true = true => not_lt.mp hlt) hhigh
    refine (htr.widen ham.le (Nat.le_refl b) (fun i h₁ h₂ => ?_) (fun i h₁ h₂ => by omega)).mono
      (List.subset_append_right _ _) fun c hc => ?_
    · have := hs i m h₂ (by omega)
      omega
    · rcases List.mem_append.mp hc with hc | hc
      · refine Or.inr fun hin => ?_
        have := (hrec.bounds hl (by omega) hc hin).2.2
        have := hs (m - 1) m (by omega) (by omega)
        omega
      · exact Or.inl hc

lemma traces_remainingBlock (dft : Bool) (hdft : stmt.defaultLabel ≠ 0) (hs : stmt.Sorted)
    (hy : OnTagScale stmt x y) (h : LabelsBelow stmt newLabelIdx n₀) (hn : n₀ ≤ n)
    (hrec : RecurSpec stmt label2Freq x y n₀ k recur recurCalls) {c : Call}
    (hsl : Slice stmt a b c.items)
    (hsp : ∀ item rest, c.items = item :: rest → item.isSparse = true)
    (hk : c.items.length ≤ k + 1) (hlow : c.low = true → a < b → stmt.tag a ≤ y)
    (hhigh : c.high = true → a < b → y ≤ stmt.tag (b - 1))
    (hend : a = b → ¬ (c.low = true ∧ c.high = true)) :
    Traces stmt label2Freq
      (c :: (nextSlices stmt label2Freq c).flatMap fun s => recurCalls s.1 s.2.1 s.2.2) y a b
      (exec stmt.opndType x
        (remainingBlock stmt label2Freq recur c.items c.low c.high n dft).code) := by
  obtain ⟨items, low, high⟩ := c
  cases items with
  | nil =>
    cases hsl
    simp only [remainingBlock, nextSlices, List.flatMap_nil, exec_finishBlock hdft]
    rw [if_neg (by simpa using hend rfl)]
    refine Traces.of_leave (fun c hc hin => ?_) (Or.inr ⟨fun i h₁ h₂ => by omega, rfl⟩)
    rw [List.mem_singleton.mp hc] at hin
    exact hin
  | cons item items =>
    have hab : a < b := lt_of_le_of_lt hsl.first_le_lastIdx hsl.lastIdx_lt
    have hsparse := hsp item items rfl
    simp only [List.length_cons] at hk
    simp only [remainingBlock, nextSlices]
    by_cases hone : items = [] ∧ low = true ∧ high = true
    · -- the bounds leave only the tag of the single item
      rw [if_pos hone, if_pos hone]
      obtain ⟨rfl, rfl, rfl⟩ := hone
      have h₁ := hlow rfl hab
      have h₂ := hhigh rfl hab
      have hb : b = a + 1 := by
        have : item.lastIdx + 1 = b := hsl.lastIdx_of_getLast rfl
        simp only [SwitchItem.isSparse, beq_iff_eq] at hsparse
        simp only [SwitchItem.lastIdx, hsparse, if_true, hsl.first_eq] at this
        omega
      subst hb
      simp only [Nat.add_sub_cancel] at h₂
      rw [hsl.first_eq]
      refine Traces.of_leave (fun c hc hin => ?_)
        (Or.inl ⟨a, Nat.le_refl a, hab, by omega, rfl⟩)
      rw [List.mem_singleton.mp hc] at hin
      simp [Call.run, hsparse, InGap] at hin
    rw [if_neg hone, if_neg hone]
    by_cases hfew : items.length < kClusterSwitchCutoff
    · rw [if_pos hfew, if_pos hfew]
      obtain ⟨m, hrun, hm⟩ := hsl.takeWhile_dropWhile SwitchItem.isSparse
      have ham : a < m := by
        rw [List.takeWhile_cons, if_pos hsparse] at hrun
        exact lt_of_le_of_lt hrun.first_le_lastIdx hrun.lastIdx_lt
      have hlen : ((item :: items).dropWhile SwitchItem.isSparse).length ≤ k := by
        rw [List.dropWhile_cons, if_pos hsparse]
        exact (List.length_dropWhile_le _ _).trans (by omega)
      have := traces_testsBlock dft hdft hs hy h hn hrec hsl hm ham hfew hlen
        (fun hl => hlow hl hab) (fun hh => hhigh hh hab)
      simp only [equalityPart_items]
      have hflat : ∀ (rest : List SwitchItem) (checked : Bool),
          (if rest = [] then [] else [(rest, checked, high)]).flatMap
            (fun s => recurCalls s.1 s.2.1 s.2.2) =
            if rest = [] then [] else recurCalls rest checked high := fun rest checked => by
        split_ifs <;> simp only [List.flatMap_nil, List.flatMap_cons, List.append_nil]
      rw [hflat]
      exact this
    · rw [if_neg hfew, if_neg hfew, if_pos hdft]
      obtain ⟨m, prev, mid, right, hprev, hright, -⟩ := splitAtMiddle_spec hs hsl (by omega)
      have := traces_searchBlock dft hs hy hn hrec hsl (by omega) (by omega)
        (fun hl => hlow hl hab) (fun hh => hhigh hh hab) hprev hright
      simp only [hprev, hright, List.flatMap_cons, List.flatMap_nil, List.append_nil]
      refine this.mono (List.subset_cons_self _ _) fun c hc => ?_
      rcases List.mem_cons.mp hc with rfl | hc
      · refine Or.inr fun _ => ?_
        have hreord : (Call.mk (item :: items) low high).reordered stmt label2Freq = false := by
          unfold Call.reordered
          split
          · simp only [List.length_cons, show ¬ items.length + 1 ≤ kClusterSwitchCutoff by omega,
              decide_false, Bool.false_and]
          · rfl
        simp [Call.intoTable, Call.intoEnd, hreord]
      · exact Or.inl hc

end Recursion

/-! ### The recursion -/

lemma buildCodeForSwitchItems_succ (hdft : stmt.defaultLabel ≠ 0) (hne : items ≠ []) (fuel : Nat) :
    let lowPart := peelLow stmt newLabelIdx items low n
    let highPart := peelHigh stmt newLabelIdx (items.dropWhile SwitchItem.isDense).reverse high
      lowPart.next
    let c := callFor stmt items low high
    buildCodeForSwitchItems stmt label2Freq numItems (fuel + 1) newLabelIdx items low high n dft =
      (remainingBlock stmt label2Freq (buildCodeForSwitchItems stmt label2Freq numItems fuel 0)
        c.items c.low c.high highPart.next dft).prepend (lowPart.code ++ highPart.code) := by
  intro lowPart highPart c
  obtain ⟨item, items, rfl⟩ := List.exists_cons_of_ne_nil hne
  have hitems : highPart.items.reverse = c.items := by
    rw [callFor_items, peelHigh_items]
    rfl
  have hlow : lowPart.checked = c.low := peelLow_checked stmt newLabelIdx 0 _ low n 0
  have hhigh : highPart.checked = c.high := by
    simp only [c, callFor, peelLow_items]
    exact peelHigh_checked stmt newLabelIdx 0 _ high _ _
  rw [← hitems, ← hlow, ← hhigh]
  simp only [buildCodeForSwitchItems, hdft, false_and, if_false, peelLow_items, lowPart, highPart]

lemma traces_buildCodeForSwitchItems_succ (hdft : stmt.defaultLabel ≠ 0) (hs : stmt.Sorted)
    (hy : OnTagScale stmt x y) (h : LabelsBelow stmt newLabelIdx n₀) (hn : n₀ ≤ n) {fuel : Nat}
    (hrec : RecurSpec stmt label2Freq x y n₀ fuel
      (buildCodeForSwitchItems stmt label2Freq numItems fuel 0) (calls stmt label2Freq fuel))
    (hne : items ≠ []) (hlen : items.length ≤ fuel + 1) (hsl : Slice stmt a b items)
    (hlow : low = true → stmt.tag a ≤ y) (hhigh : high = true → y ≤ stmt.tag (b - 1)) :
    Traces stmt label2Freq (calls stmt label2Freq (fuel + 1) items low high) y a b
      (exec stmt.opndType x (buildCodeForSwitchItems stmt label2Freq numItems (fuel + 1)
        newLabelIdx items low high n dft).code) := by
  have hb : b ≤ stmt.switchTable.length := hsl.bound hne
  obtain ⟨a', b', ha, hb', hsl₁, hsl₂⟩ := slice_withoutDenseEnds hsl
  have hbounds : ∀ c ∈ calls stmt label2Freq (fuel + 1) items low high, InGap stmt y c.run →
      a' < b' ∧ stmt.tag a' < y ∧ y < stmt.tag (b' - 1) :=
    fun c hc hin => hin.calls_succ_bounds hs hsl₂ (by omega) hc
  rw [buildCodeForSwitchItems_succ hdft hne, Built.prepend]
  obtain ⟨hle₁, hc₁⟩ := scoped_peelLow h hn items low
  obtain ⟨hle₂, hc₂⟩ := scoped_peelHigh h (Nat.le_trans hn hle₁)
    (items.dropWhile SwitchItem.isDense).reverse high
  have hc₃ := (scoped_remainingBlock label2Freq h hrec.scope
    (callFor stmt items low high).items (callFor stmt items low high).low
    (callFor stmt items low high).high _ dft (Nat.le_trans hn (Nat.le_trans hle₁ hle₂))).2
  rw [exec_append hn (Nat.le_trans hle₁ hle₂) (Scoped.append hn hle₁ hle₂ hc₁ hc₂) hc₃,
    exec_append hn hle₁ hc₁ hc₂]
  have hab : a < b := by
    have := hsl.length_le
    have := List.length_pos_of_ne_nil hne
    omega
  rcases exec_peelLow hdft hs hy h hn hsl hsl₁ (fun hl _ => hlow hl) with
    ⟨l, hleave, hsel, hya⟩ | ⟨hfall, hpast, hch⟩
  · rw [hleave]
    refine Traces.of_leave (fun c hc hin => ?_) hsel
    obtain ⟨hlt, h₁, -⟩ := hbounds c hc hin
    have := hya (by omega)
    omega
  rw [hfall]
  rcases exec_peelHigh hdft hs hy h (Nat.le_trans hn hle₁)
      (by rwa [List.reverse_reverse]) hsl₂ (fun hh _ => hhigh hh) with
    ⟨l, hleave, hsel, hyb⟩ | ⟨hfall', hpast', hch'⟩
  · simp only [hleave]
    refine Traces.of_leave (fun c hc hin => ?_) (hsel.widen ha (Nat.le_refl b)
      (fun i h₁ h₂ => ne_of_lt (hpast i h₁ h₂)) (fun i h₁ h₂ => by omega))
    obtain ⟨hlt, -, h₂⟩ := hbounds c hc hin
    have := hyb hlt
    omega
  simp only [hfall']
  have hend : a' = b' → ¬ ((callFor stmt items low high).low = true ∧
      (callFor stmt items low high).high = true) := by
    rintro rfl ⟨hl, hh⟩
    rcases Nat.lt_or_ge a' b with hlt | hge
    · have h₁ := hpast' a' (Nat.le_refl a') hlt
      have h₂ := hch ((peelLow_checked stmt newLabelIdx 0 items low n 0).trans hl) hlt
      omega
    · -- nothing is left of the slice, so that the upper bound is that of the caller
      have hnil : items.dropWhile SwitchItem.isDense = [] := by
        have := hsl₁.length_le
        exact List.length_eq_zero_iff.mp (by omega)
      simp only [callFor, peelLow_items, hnil, List.reverse_nil, peelHigh] at hh
      have h₁ := hhigh hh
      have h₂ := hpast (b - 1) (by omega) (by omega)
      omega
  have htr := traces_remainingBlock dft hdft hs hy h
    (Nat.le_trans hn (Nat.le_trans hle₁ hle₂)) hrec (c := callFor stmt items low high)
    (by rwa [callFor_items]) (fun _ _ => callFor_head_isSparse)
    (by
      rw [callFor_items]
      exact (length_withoutDenseEnds_le items).trans hlen)
    (fun hl hlt => hch ((peelLow_checked stmt newLabelIdx 0 items low n 0).trans hl) (by omega))
    (fun hh => by
      simp only [callFor, peelLow_items] at hh
      exact hch' ((peelHigh_checked stmt newLabelIdx 0 _ high _ 0).trans hh))
    hend
  exact htr.widen ha hb' (fun i h₁ h₂ => ne_of_lt (hpast i h₁ h₂))
    (fun i h₁ h₂ => ne_of_gt (hpast' i h₁ h₂))

lemma exec_buildCodeForSwitchItems_stuck (hdft : stmt.defaultLabel ≠ 0) (hs : stmt.Sorted)
    (hy : OnTagScale stmt x y) (h : LabelsBelow stmt newLabelIdx n₀) (hn : n₀ ≤ n) (fuel : Nat)
    (hne : items ≠ []) (hsl : Slice stmt a b items)
    (hdense : ∀ item ∈ items.head?, item.isDense = true) (hlt : y < stmt.tag a) :
    exec stmt.opndType x (buildCodeForSwitchItems stmt label2Freq numItems (fuel + 1)
      newLabelIdx items true high n dft).code = .stuck := by
  cases hsl with
  | nil => exact absurd rfl hne
  | sparse ha hsl =>
    have := hdense _ rfl
    simp [SwitchItem.isDense] at this
  | @dense _ _ j items haj hj hsl =>
    have hj0 : ¬ j = 0 := by omega
    have hya := hs a j haj hj
    have htable : exec stmt.opndType x (guardedRangeGoto stmt newLabelIdx
        (buildCmpNode stmt .le j) ⟨a, j⟩ n).1 = .stuck := by
      rw [exec_guardedRangeGoto hdft h hn, CompareNode.holds, buildCmpNode, hy.eval_wrap .le j hj]
      simp only [CmpOp.eval, decide_eq_true_eq, if_pos (show y ≤ stmt.tag j by omega)]
      exact exec_buildRangeGotoNode_outside hs (by rwa [fillLabel_of_default hdft newLabelIdx]) hy
        haj hj (Or.inl hlt)
    rw [buildCodeForSwitchItems_succ hdft hne, Built.prepend]
    simp only [peelLow, hj0, if_false, lowCheck, Bool.true_or, if_true, List.nil_append,
      List.append_assoc]
    exact exec_append_of_stuck_left htable

/-- `BuildCodeForSwitchItems` follows `Traces`, for as many recursive calls as there are items. -/
theorem recurSpec_buildCodeForSwitchItems (hdft : stmt.defaultLabel ≠ 0) (hs : stmt.Sorted)
    (hy : OnTagScale stmt x y) (h : LabelsBelow stmt newLabelIdx n₀) (fuel : Nat) :
    RecurSpec stmt label2Freq x y n₀ fuel
      (buildCodeForSwitchItems stmt label2Freq numItems fuel newLabelIdx)
      (calls stmt label2Freq fuel) := by
  induction fuel generalizing newLabelIdx with
  | zero =>
    refine ⟨scoped_buildCodeForSwitchItems h 0, fun _ hne hlen => ?_, fun hne hlen => ?_,
      fun _ _ hc => ?_⟩
    · exact absurd (List.length_eq_zero_iff.mp (Nat.le_zero.mp hlen)) hne
    · exact absurd (List.length_eq_zero_iff.mp (Nat.le_zero.mp hlen)) hne
    · simp [calls] at hc
  | succ fuel ih =>
    refine ⟨scoped_buildCodeForSwitchItems h _, fun _ hne hlen hsl hn hlow hhigh => ?_,
      fun hne _ hsl hdense hn hlt => ?_, fun hsl hb hc hin => ?_⟩
    · exact traces_buildCodeForSwitchItems_succ hdft hs hy h hn (ih h.zero) hne hlen hsl hlow hhigh
    · exact exec_buildCodeForSwitchItems_stuck hdft hs hy h hn fuel hne hsl hdense hlt
    · obtain ⟨h₁, h₂, h₃, -⟩ := hin.calls_bounds hs hsl hb hc
      exact ⟨h₁, h₂, h₃⟩

end Maple.SwitchLowerer
