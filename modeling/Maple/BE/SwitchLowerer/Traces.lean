import Maple.BE.SwitchLowerer.Calls

/-!
# Where an operand value goes

The code of a slice jumps to the target that the slice selects, except for values in a gap of a run
of tests that are reordered by frequency. `Traces` says which of the two happens.
-/

namespace Maple.SwitchLowerer

open ForwardCode

variable [Target] {stmt : SwitchNode} {label2Freq : Option (LabelIdx → Int)}
  {newLabelIdx : LabelIdx} {numItems : Nat} {x y : Int} {a b n₀ n k : Nat}
  {item : SwitchItem} {items : List SwitchItem} {low high dft : Bool}

/-! ### Scopes -/

lemma scoped_equalityPart (h : LabelsBelow stmt newLabelIdx n₀) (hn : n₀ ≤ n) :
    ScopedCode stmt.opndType n₀ n n (equalityPart stmt label2Freq items low high n).code := by
  unfold equalityPart
  split
  · split
    · rw [reorderedTests_code]
      exact scoped_tests h hn _
    · exact scoped_equalityTests h hn _ _ _
  · exact scoped_equalityTests h hn _ _ _

lemma scoped_finishBlock (h : LabelsBelow stmt newLabelIdx n₀) (low high : Bool) (n : LabelIdx)
    (dft : Bool) :
    (finishBlock stmt low high n dft).next = n ∧
      ScopedCode stmt.opndType n₀ n n (finishBlock stmt low high n dft).code := by
  unfold finishBlock
  split
  · exact ⟨rfl, scopedCode_nil⟩
  · exact ⟨rfl, scopedCode_gotoDefault h.default_lt⟩

/-- The code of a block is scoped and its labels are counted. -/
def ScopedBuild (stmt : SwitchNode) (n₀ : Nat) (recur : BuildFn) : Prop :=
  ∀ items low high n dft, n₀ ≤ n →
    n ≤ (recur items low high n dft).next ∧
      ScopedCode stmt.opndType n₀ n (recur items low high n dft).next
        (recur items low high n dft).code

lemma scoped_testsBlock (h : LabelsBelow stmt newLabelIdx n₀) {recur : BuildFn}
    (hrec : ScopedBuild stmt n₀ recur) : ScopedBuild stmt n₀ (testsBlock stmt label2Freq recur) := by
  intro items low high n dft hn
  simp only [testsBlock]
  split
  · obtain ⟨hnext, hcode⟩ := scoped_finishBlock h
      (equalityPart stmt label2Freq items low high n).checked high n dft
    simp only [Built.prepend, hnext]
    exact ⟨Nat.le_refl n, Scoped.append hn (Nat.le_refl n) (Nat.le_refl n)
      (scoped_equalityPart h hn) hcode⟩
  · next item rest hitems =>
    obtain ⟨hle, hcode⟩ := hrec (equalityPart stmt label2Freq items low high n).items
      (equalityPart stmt label2Freq items low high n).checked high n dft hn
    exact ⟨hle, Scoped.append hn (Nat.le_refl n) hle (scoped_equalityPart h hn) hcode⟩

lemma scoped_searchBlock {recur : BuildFn} (hrec : ScopedBuild stmt n₀ recur) (item : SwitchItem) :
    ScopedBuild stmt n₀ (searchBlock stmt recur item) := by
  intro items low high n dft hn
  simp only [searchBlock]
  split
  · next prev mid rest hprev hright =>
    obtain ⟨hle₁, hthen⟩ := hrec (splitAtMiddle stmt item items).1 low
      (leftHighChecked stmt prev mid) n dft hn
    obtain ⟨hle₂, helse⟩ := hrec (splitAtMiddle stmt item items).2 true high _
      (recur (splitAtMiddle stmt item items).1 low (leftHighChecked stmt prev mid) n
        dft).jumpToDefault (Nat.le_trans hn hle₁)
    refine ⟨Nat.le_trans hle₁ (Nat.le_trans hle₂ (le_lowerIfStmt _ _ _ _)), ?_⟩
    exact Scoped.lowerIfStmt hn (Nat.le_trans hle₁ hle₂) (hthen.mono (Nat.le_refl n) hle₂)
      (helse.mono hle₁ (Nat.le_refl _))
  · exact ⟨Nat.le_refl n, scopedCode_nil⟩

lemma scoped_remainingBlock (label2Freq : Option (LabelIdx → Int))
    (h : LabelsBelow stmt newLabelIdx n₀) {recur : BuildFn}
    (hrec : ScopedBuild stmt n₀ recur) :
    ScopedBuild stmt n₀ (remainingBlock stmt label2Freq recur) := by
  intro items low high n dft hn
  cases items with
  | nil =>
    obtain ⟨hnext, hcode⟩ := scoped_finishBlock h low high n dft
    simp only [remainingBlock, hnext]
    exact ⟨Nat.le_refl n, hcode⟩
  | cons item items =>
    simp only [remainingBlock]
    split_ifs
    · exact ⟨Nat.le_refl n, scopedCode_goto (h.lab_lt item.first)⟩
    · exact scoped_testsBlock h hrec _ _ _ _ _ hn
    · exact scoped_searchBlock hrec _ _ _ _ _ _ hn
    · exact ⟨Nat.le_refl n, scopedCode_nil⟩

lemma scoped_buildCodeForSwitchItems (h : LabelsBelow stmt newLabelIdx n₀) (fuel : Nat) :
    ScopedBuild stmt n₀
      (buildCodeForSwitchItems stmt label2Freq numItems fuel newLabelIdx) := by
  induction fuel generalizing newLabelIdx with
  | zero => exact fun items low high n dft hn => ⟨Nat.le_refl n, scopedCode_nil⟩
  | succ fuel ih =>
    intro items low high n dft hn
    cases items with
    | nil => exact ⟨Nat.le_refl n, scopedCode_nil⟩
    | cons item items =>
      simp only [buildCodeForSwitchItems]
      split_ifs
      · exact ⟨Nat.le_refl n, Scoped.append (a := [_]) hn (Nat.le_refl n) (Nat.le_refl n)
          (scoped_equalityTest h item.first) (scopedCode_goto (h.lab_lt _))⟩
      · obtain ⟨hle₁, hc₁⟩ := scoped_peelLow h hn (item :: items) low
        obtain ⟨hle₂, hc₂⟩ := scoped_peelHigh h (Nat.le_trans hn hle₁)
          (peelLow stmt newLabelIdx (item :: items) low n).items.reverse high
        obtain ⟨hle₃, hc₃⟩ := scoped_remainingBlock label2Freq h (ih h.zero)
          (peelHigh stmt newLabelIdx (peelLow stmt newLabelIdx (item :: items) low n).items.reverse
            high (peelLow stmt newLabelIdx (item :: items) low n).next).items.reverse
          (peelLow stmt newLabelIdx (item :: items) low n).checked
          (peelHigh stmt newLabelIdx (peelLow stmt newLabelIdx (item :: items) low n).items.reverse
            high (peelLow stmt newLabelIdx (item :: items) low n).next).checked _ dft
          (Nat.le_trans hn (Nat.le_trans hle₁ hle₂))
        exact ⟨Nat.le_trans hle₁ (Nat.le_trans hle₂ hle₃),
          Scoped.append hn (Nat.le_trans hle₁ hle₂) hle₃
            (Scoped.append hn hle₁ hle₂ hc₁ hc₂) hc₃⟩

/-! ### Flags do not depend on the code -/

lemma peelLow_checked (stmt : SwitchNode) (l l' : LabelIdx) (items : List SwitchItem)
    (low : Bool) (n n' : LabelIdx) :
    (peelLow stmt l items low n).checked = (peelLow stmt l' items low n').checked := by
  induction items generalizing low n n' with
  | nil => rfl
  | cons item items ih =>
    simp only [peelLow]
    split
    · rfl
    · exact ih _ _ _

lemma peelHigh_checked (stmt : SwitchNode) (l l' : LabelIdx) (items : List SwitchItem)
    (high : Bool) (n n' : LabelIdx) :
    (peelHigh stmt l items high n).checked = (peelHigh stmt l' items high n').checked := by
  induction items generalizing high n n' with
  | nil => rfl
  | cons item items ih =>
    simp only [peelHigh]
    split
    · rfl
    · exact ih _ _ _

lemma equalityTests_checked (stmt : SwitchNode) (items : List SwitchItem) (low high : Bool)
    (n n' : LabelIdx) :
    (equalityTests stmt high items low n).checked =
      (equalityTests stmt high items low n').checked := by
  induction items generalizing low with
  | nil => rfl
  | cons item items ih =>
    simp only [equalityTests]
    split
    · rfl
    · exact ih _

lemma equalityPart_checked (stmt : SwitchNode) (label2Freq : Option (LabelIdx → Int))
    (items : List SwitchItem) (low high : Bool) (n n' : LabelIdx) :
    (equalityPart stmt label2Freq items low high n).checked =
      (equalityPart stmt label2Freq items low high n').checked := by
  unfold equalityPart
  split
  · split
    · rfl
    · exact equalityTests_checked stmt items low high n n'
  · exact equalityTests_checked stmt items low high n n'

/-! ### Traces -/

/-- Where an operand value goes that is `y` on the scale of the tags, given the calls made. -/
structure Traces (stmt : SwitchNode) (label2Freq : Option (LabelIdx → Int)) (cs : List Call)
    (y : Int) (a b : Nat) (o : Outcome LabelIdx) : Prop where
  stuck : ∀ c ∈ cs, InGap stmt y c.run → c.intoTable stmt label2Freq = true → o = .stuck
  fall : ∀ c ∈ cs, InGap stmt y c.run → c.intoEnd stmt label2Freq = true → o = .fall
  leave : (∀ c ∈ cs, InGap stmt y c.run →
      c.intoTable stmt label2Freq = false ∧ c.intoEnd stmt label2Freq = false) →
    ∃ l, o = .leave l ∧ Selects stmt y a b l

section Traces

variable {cs cs' : List Call} {o : Outcome LabelIdx}

omit [Target] in
lemma Traces.of_leave {l : LabelIdx} (hgap : ∀ c ∈ cs, ¬ InGap stmt y c.run)
    (h : Selects stmt y a b l) : Traces stmt label2Freq cs y a b (.leave l) where
  stuck c hc hin := absurd hin (hgap c hc)
  fall c hc hin := absurd hin (hgap c hc)
  leave _ := ⟨l, rfl, h⟩

omit [Target] in
lemma Traces.widen {a' b' : Nat} (h : Traces stmt label2Freq cs y a' b' o) (ha : a ≤ a')
    (hb : b' ≤ b) (hlow : ∀ i, a ≤ i → i < a' → stmt.tag i ≠ y)
    (hhigh : ∀ i, b' ≤ i → i < b → stmt.tag i ≠ y) : Traces stmt label2Freq cs y a b o where
  stuck := h.stuck
  fall := h.fall
  leave hok := by
    obtain ⟨l, hl, hsel⟩ := h.leave hok
    exact ⟨l, hl, hsel.widen ha hb hlow hhigh⟩

omit [Target] in
lemma Traces.mono (h : Traces stmt label2Freq cs y a b o) (hsub : cs ⊆ cs')
    (hadd : ∀ c ∈ cs', c ∈ cs ∨ (InGap stmt y c.run →
      c.intoTable stmt label2Freq = false ∧ c.intoEnd stmt label2Freq = false)) :
    Traces stmt label2Freq cs' y a b o where
  stuck c hc hin htrap := by
    rcases hadd c hc with hc | hno
    · exact h.stuck c hc hin htrap
    · rw [(hno hin).1] at htrap
      cases htrap
  fall c hc hin htrap := by
    rcases hadd c hc with hc | hno
    · exact h.fall c hc hin htrap
    · rw [(hno hin).2] at htrap
      cases htrap
  leave hok := h.leave fun c hc => hok c (hsub hc)

end Traces

/-- What the recursive calls do, for slices of at most `k` items. -/
structure RecurSpec (stmt : SwitchNode) (label2Freq : Option (LabelIdx → Int)) (x y : Int)
    (n₀ k : Nat) (recur : BuildFn) (recurCalls : List SwitchItem → Bool → Bool → List Call) :
    Prop where
  scope : ScopedBuild stmt n₀ recur
  traces : ∀ {items a b low high n} (dft : Bool), items ≠ [] → items.length ≤ k →
    Slice stmt a b items →
    n₀ ≤ n → (low = true → stmt.tag a ≤ y) → (high = true → y ≤ stmt.tag (b - 1)) →
    Traces stmt label2Freq (recurCalls items low high) y a b
      (exec stmt.opndType x (recur items low high n dft).code)
  /-- A value below a dense item whose lower bound is taken as checked. -/
  stuck : ∀ {items a b high n dft}, items ≠ [] → items.length ≤ k → Slice stmt a b items →
    (∀ item ∈ items.head?, item.isDense = true) → n₀ ≤ n → y < stmt.tag a →
    exec stmt.opndType x (recur items true high n dft).code = .stuck
  bounds : ∀ {items a b low high c}, Slice stmt a b items → b ≤ stmt.switchTable.length →
    c ∈ recurCalls items low high → InGap stmt y c.run →
    a < b ∧ stmt.tag a < y ∧ y < stmt.tag (b - 1)

/-! ### Equality tests -/

section Tests

variable {m : Nat} {recur : BuildFn} {recurCalls : List SwitchItem → Bool → Bool → List Call}

/-- What is known of a value once the equality tests of a call have been executed: it has been
dispatched by its tag, or it is no tag of the run and a flag that is set has been checked, unless
the tests are reordered and the value is in one of their gaps. -/
def TestsSpec (stmt : SwitchNode) (label2Freq : Option (LabelIdx → Int)) (x y : Int) (a m b : Nat)
    (c : Call) (tests : Peeled) : Prop :=
  (∃ i, a ≤ i ∧ i < m ∧ stmt.tag i = y ∧
      exec stmt.opndType x tests.code = .leave (stmt.lab i)) ∨
    exec stmt.opndType x tests.code = .fall ∧ (∀ i, a ≤ i → i < m → stmt.tag i ≠ y) ∧
      (tests.checked = true → m < b → y < stmt.tag m →
        c.intoTable stmt label2Freq = true ∧ InGap stmt y c.run) ∧
      (tests.checked = true → m = b → c.high = true →
        c.intoEnd stmt label2Freq = true ∧ InGap stmt y c.run)

lemma testsSpec_equalityTests (hy : OnTagScale stmt x y) (h : LabelsBelow stmt newLabelIdx n₀)
    (hn : n₀ ≤ n) (hsl : Slice stmt a b items)
    (hm : Slice stmt m b (items.dropWhile SwitchItem.isSparse)) (ham : a < m)
    (hlow : low = true → stmt.tag a ≤ y) (hhigh : high = true → y ≤ stmt.tag (b - 1)) :
    TestsSpec stmt label2Freq x y a m b ⟨items, low, high⟩
      (equalityTests stmt high items low n) := by
  have hmb := hm.le
  rcases exec_equalityTests hy h hn hsl hm (fun hl _ => hlow hl) (fun hh _ => hhigh hh) with
    hleave | ⟨hfall, hne, hch, hend⟩
  · exact Or.inl hleave
  · refine Or.inr ⟨hfall, hne, fun hc hlt hym => ?_, fun hc heq hh => ?_⟩
    · have := hch hc hlt
      omega
    · exact absurd ⟨hc, hh⟩ (hend (by omega) heq)

omit [Target] in
lemma slice_run (hsl : Slice stmt a b items)
    (hm : Slice stmt m b (items.dropWhile SwitchItem.isSparse)) :
    Slice stmt a m (items.takeWhile SwitchItem.isSparse) := by
  obtain ⟨m', hrun, hm'⟩ := hsl.takeWhile_dropWhile SwitchItem.isSparse
  obtain rfl := hm'.start_unique hm
  exact hrun

lemma reorderedTests_checked {freq : LabelIdx → Int} (hsl : Slice stmt a b items)
    (hm : Slice stmt m b (items.dropWhile SwitchItem.isSparse)) (ham : a < m) :
    (reorderedTests stmt freq items low n).checked =
      lowCheckedAfterTest stmt low ⟨m - 1, 0⟩ (items.dropWhile SwitchItem.isSparse) := by
  simp only [reorderedTests]
  rw [(slice_run hsl hm).getLast?_of_sparse (fun _ hi => List.mem_takeWhile_imp hi) ham]

omit [Target] in
lemma lowCheckedAfterTest_iff {rest : List SwitchItem} (hm : Slice stmt m b rest) (i : Nat) :
    lowCheckedAfterTest stmt low ⟨i, 0⟩ rest = true ↔
      low = true ∧ (m < b → stmt.tag i + 1 = stmt.tag m) := by
  cases rest with
  | nil =>
    cases hm
    simp [lowCheckedAfterTest]
  | cons next rest =>
    have hmb : m < b := lt_of_le_of_lt hm.first_le_lastIdx hm.lastIdx_lt
    simp [lowCheckedAfterTest, hm.first_eq, hmb]

lemma testsSpec_reorderedTests {freq : LabelIdx → Int} (hs : stmt.Sorted)
    (hy : OnTagScale stmt x y)
    (hsl : Slice stmt a b items) (hm : Slice stmt m b (items.dropWhile SwitchItem.isSparse))
    (ham : a < m) (hreord : (Call.mk items low high).reordered stmt label2Freq = true)
    (hlow : low = true → stmt.tag a ≤ y) (hhigh : high = true → y ≤ stmt.tag (b - 1)) :
    TestsSpec stmt label2Freq x y a m b ⟨items, low, high⟩
      (reorderedTests stmt freq items low n) := by
  have hmb := hm.le
  have hrun := slice_run hsl hm
  have hsp : ∀ i ∈ items.takeWhile SwitchItem.isSparse, i.isSparse = true :=
    fun _ hi => List.mem_takeWhile_imp hi
  have hb : b ≤ stmt.switchTable.length := hsl.bound (hsl.ne_nil_of_lt (by omega))
  rcases exec_reorderedTests freq low n hy hsl hm with
    hleave | ⟨hfall, hne⟩
  · exact Or.inl hleave
  · have gap : low = true → y ≤ stmt.tag (m - 1) →
        hasGap stmt (items.takeWhile SwitchItem.isSparse) = true ∧
          InGap stmt y (items.takeWhile SwitchItem.isSparse) := fun hl hle => by
      have hin := inGap_of_ne hrun hsp ham (hlow hl) hle hne
      exact ⟨(hasGap_iff hs (by omega) hrun hsp).mpr ⟨y, hin⟩, hin⟩
    refine Or.inr ⟨hfall, hne, fun hc hlt hym => ?_, fun hc heq hh => ?_⟩
    · rw [reorderedTests_checked hsl hm ham, lowCheckedAfterTest_iff hm] at hc
      obtain ⟨hl, hadj⟩ := hc
      obtain ⟨hgap, hin⟩ := gap hl (by have := hadj hlt; omega)
      obtain ⟨next, rest, hrest⟩ := List.exists_cons_of_ne_nil (hm.ne_nil_of_lt hlt)
      have hfirst : next.first = m := (hrest ▸ hm : Slice stmt m b (next :: rest)).first_eq
      subst hl
      refine ⟨?_, hin⟩
      simp only [Call.intoTable, hreord, Call.run, Call.rest, hgap, Bool.and_self,
        Bool.true_and, hrun.getLast?_of_sparse hsp ham, hrest, hfirst, beq_iff_eq]
      exact hadj hlt
    · subst heq
      rw [reorderedTests_checked hsl hm ham, lowCheckedAfterTest_iff hm] at hc
      obtain ⟨hgap, hin⟩ := gap hc.1 (hhigh hh)
      obtain ⟨rfl, rfl⟩ : low = true ∧ high = true := ⟨hc.1, hh⟩
      refine ⟨?_, hin⟩
      have hrest : items.dropWhile SwitchItem.isSparse = [] := by
        have := hm.length_le
        exact List.length_eq_zero_iff.mp (by omega)
      simp [Call.intoEnd, hreord, Call.run, Call.rest, hgap, hrest]

lemma testsSpec_equalityPart (label2Freq : Option (LabelIdx → Int)) (hs : stmt.Sorted)
    (hy : OnTagScale stmt x y)
    (h : LabelsBelow stmt newLabelIdx n₀) (hn : n₀ ≤ n) (hsl : Slice stmt a b items)
    (hm : Slice stmt m b (items.dropWhile SwitchItem.isSparse)) (ham : a < m)
    (hlen : items.length ≤ kClusterSwitchCutoff) (hlow : low = true → stmt.tag a ≤ y)
    (hhigh : high = true → y ≤ stmt.tag (b - 1)) :
    TestsSpec stmt label2Freq x y a m b ⟨items, low, high⟩
      (equalityPart stmt label2Freq items low high n) := by
  unfold equalityPart
  split
  · next freq =>
    split_ifs with hprio
    · exact testsSpec_reorderedTests hs hy hsl hm ham (by simp [Call.reordered, hlen, hprio])
        hlow hhigh
    · exact testsSpec_equalityTests hy h hn hsl hm ham hlow hhigh
  · exact testsSpec_equalityTests hy h hn hsl hm ham hlow hhigh

lemma equalityPart_of_reordered
    (hreord : (Call.mk items low high).reordered stmt label2Freq = true) :
    ∃ freq, equalityPart stmt label2Freq items low high n = reorderedTests stmt freq items low n := by
  unfold Call.reordered at hreord
  split at hreord
  · next freq =>
    simp only [Bool.and_eq_true] at hreord
    exact ⟨freq, if_pos hreord.2⟩
  · cases hreord

lemma lt_of_intoTable (hs : stmt.Sorted) (hsl : Slice stmt a b items)
    (hm : Slice stmt m b (items.dropWhile SwitchItem.isSparse)) (ham : a < m)
    (htrap : (Call.mk items low high).intoTable stmt label2Freq = true)
    (hin : InGap stmt y (items.takeWhile SwitchItem.isSparse)) (n : LabelIdx) :
    (equalityPart stmt label2Freq items low high n).checked = true ∧ m < b ∧ y < stmt.tag m := by
  have hrun := slice_run hsl hm
  have hsp : ∀ i ∈ items.takeWhile SwitchItem.isSparse, i.isSparse = true :=
    fun _ hi => List.mem_takeWhile_imp hi
  simp only [Call.intoTable, Bool.and_eq_true, Call.run, Call.rest] at htrap
  obtain ⟨⟨⟨hreord, hl⟩, -⟩, hadj⟩ := htrap
  obtain ⟨freq, hpart⟩ := equalityPart_of_reordered (n := n) hreord
  rw [hrun.getLast?_of_sparse hsp ham] at hadj
  cases hrest : items.dropWhile SwitchItem.isSparse with
  | nil => simp [hrest] at hadj
  | cons next rest =>
    rw [hrest] at hadj
    have hm' : Slice stmt m b (next :: rest) := hrest ▸ hm
    simp only [hm'.first_eq, beq_iff_eq] at hadj
    have hmb : m < b := lt_of_le_of_lt hm'.first_le_lastIdx hm'.lastIdx_lt
    refine ⟨?_, hmb, ?_⟩
    · rw [hpart, reorderedTests_checked hsl hm ham, lowCheckedAfterTest_iff hm]
      exact ⟨hl, fun _ => hadj⟩
    · have hlen := hsl.bound (hsl.ne_nil_of_lt (by omega))
      obtain ⟨i, hai, him, -, hlt⟩ := (inGap_iff hrun hsp).mp hin
      have := hs.le (show i + 1 ≤ m by omega) (by omega)
      omega

lemma eq_of_intoEnd (hsl : Slice stmt a b items)
    (hm : Slice stmt m b (items.dropWhile SwitchItem.isSparse)) (ham : a < m)
    (htrap : (Call.mk items low high).intoEnd stmt label2Freq = true) (n : LabelIdx) :
    (equalityPart stmt label2Freq items low high n).checked = true ∧ m = b ∧ high = true := by
  simp only [Call.intoEnd, Bool.and_eq_true, Call.rest, List.isEmpty_iff] at htrap
  obtain ⟨⟨⟨⟨hreord, hl⟩, hh⟩, -⟩, hrest⟩ := htrap
  obtain ⟨freq, hpart⟩ := equalityPart_of_reordered (n := n) hreord
  have hmb : m = b := by
    rw [hrest] at hm
    cases hm
    rfl
  refine ⟨?_, hmb, hh⟩
  rw [hpart, reorderedTests_checked hsl hm ham, lowCheckedAfterTest_iff hm]
  exact ⟨hl, fun hlt => absurd hlt (by omega)⟩

end Tests

end Maple.SwitchLowerer
