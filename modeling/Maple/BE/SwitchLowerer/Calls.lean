import Maple.BE.SwitchLowerer.Parts

/-!
# The calls of `BuildCodeForSwitchItems`

`calls` lists the slices that `BuildCodeForSwitchItems` is called for, each as it is after the dense
items at both sides have been dealt with.
-/

namespace Maple.SwitchLowerer

variable [Target] (stmt : SwitchNode) (label2Freq : Option (LabelIdx → Int))

/-- The items that the loops over the dense items leave, and the flags at that point. -/
structure Call where
  items : List SwitchItem
  low : Bool
  high : Bool

/-- The run of sparse items at the low side of a call. -/
def Call.run (c : Call) : List SwitchItem := c.items.takeWhile SwitchItem.isSparse

/-- The items from the first dense item on. -/
def Call.rest (c : Call) : List SwitchItem := c.items.dropWhile SwitchItem.isSparse

def callFor (items : List SwitchItem) (low high : Bool) : Call :=
  let lowPart := peelLow stmt 0 items low 0
  let highPart := peelHigh stmt 0 lowPart.items.reverse high 0
  ⟨highPart.items.reverse, lowPart.checked, highPart.checked⟩

/-- The slices and flags of the recursive calls that a call makes. -/
def nextSlices (c : Call) : List (List SwitchItem × Bool × Bool) :=
  match c.items with
  | [] => []
  | item :: items =>
    if items = [] ∧ c.low ∧ c.high then []
    else if items.length < kClusterSwitchCutoff then
      let tests := equalityPart stmt label2Freq c.items c.low c.high 0
      if tests.items = [] then [] else [(tests.items, tests.checked, c.high)]
    else
      let (left, right) := splitAtMiddle stmt item items
      match left.getLast?, right with
      | some prev, mid :: _ =>
        [(left, c.low, leftHighChecked stmt prev mid), (right, true, c.high)]
      | _, _ => []

/-- The calls made for a slice of the items, in the order in which they are made. -/
def calls : (fuel : Nat) → List SwitchItem → (low high : Bool) → List Call
  | 0, _, _, _ => []
  | fuel + 1, items, low, high =>
    let c := callFor stmt items low high
    c :: (nextSlices stmt label2Freq c).flatMap fun s => calls fuel s.1 s.2.1 s.2.2

/-! ### Gaps between tags -/

/-- Two neighbouring tags of a run are not consecutive. -/
def hasGap : List SwitchItem → Bool
  | p :: q :: run => stmt.tag p.first + 1 != stmt.tag q.first || hasGap (q :: run)
  | _ => false

/-- A value strictly between two neighbouring tags of a run. -/
def InGap (y : Int) : List SwitchItem → Prop
  | p :: q :: run => stmt.tag p.first < y ∧ y < stmt.tag q.first ∨ InGap y (q :: run)
  | _ => False

/-- The equality tests of the call are reordered. -/
def Call.reordered (c : Call) : Bool :=
  match label2Freq with
  | some freq => decide (c.items.length ≤ kClusterSwitchCutoff) && freqPriority stmt freq c.items
  | none => false

/-- A value in a gap of the reordered run reaches the jump table behind it. -/
def Call.intoTable (c : Call) : Bool :=
  c.reordered stmt label2Freq && c.low && hasGap stmt c.run &&
    match c.run.getLast?, c.rest with
    | some last, next :: _ => stmt.tag last.first + 1 == stmt.tag next.first
    | _, _ => false

/-- A value in a gap of the reordered run falls through the end of the block. -/
def Call.intoEnd (c : Call) : Bool :=
  c.reordered stmt label2Freq && c.low && c.high && hasGap stmt c.run && c.rest.isEmpty

/-- The block of the call ends in a jump to the default label. -/
def Call.jumpsToDefault (c : Call) : Bool :=
  match c.items with
  | [] => !(c.low && c.high)
  | _ :: items =>
    let tests := equalityPart stmt label2Freq c.items c.low c.high 0
    decide (items.length < kClusterSwitchCutoff) && !(items.isEmpty && c.low && c.high) &&
      tests.items.isEmpty && !(tests.checked && c.high)

/-! ### Gaps of a run of sparse items -/

section Gap

variable {stmt} {y : Int} {a b m : Nat} {items run : List SwitchItem}

omit [Target] in
lemma inGap_iff (h : Slice stmt a m run) (hsp : ∀ i ∈ run, i.isSparse = true) :
    InGap stmt y run ↔ ∃ i, a ≤ i ∧ i + 1 < m ∧ stmt.tag i < y ∧ y < stmt.tag (i + 1) := by
  induction h with
  | nil =>
    simp only [InGap, false_iff, not_exists]
    omega
  | @dense a m j run haj hj h ih =>
    have := hsp _ List.mem_cons_self
    simp only [SwitchItem.isSparse, beq_iff_eq] at this
    omega
  | @sparse a m run ha h ih =>
    have ih := ih fun i hi => hsp i (List.mem_cons_of_mem _ hi)
    cases run with
    | nil =>
      cases h
      simp only [InGap, false_iff, not_exists]
      omega
    | cons q run =>
      have hq : q.first = a + 1 := h.first_eq
      have hm : a + 1 < m := h.tail.le.trans_lt' (by have := h.first_le_lastIdx; omega)
      simp only [InGap, hq, ih]
      constructor
      · rintro (hgap | ⟨i, hi, him, hgap⟩)
        · exact ⟨a, Nat.le_refl a, hm, hgap⟩
        · exact ⟨i, by omega, him, hgap⟩
      · rintro ⟨i, hi, him, hgap⟩
        rcases Nat.eq_or_lt_of_le hi with rfl | hi
        · exact Or.inl hgap
        · exact Or.inr ⟨i, hi, him, hgap⟩

omit [Target] in
lemma hasGap_iff (hs : stmt.Sorted) (hm : m ≤ stmt.switchTable.length) (h : Slice stmt a m run)
    (hsp : ∀ i ∈ run, i.isSparse = true) : hasGap stmt run = true ↔ ∃ y, InGap stmt y run := by
  induction h with
  | nil => simp [hasGap, InGap]
  | @dense a m j run haj hj h ih =>
    have := hsp _ List.mem_cons_self
    simp only [SwitchItem.isSparse, beq_iff_eq] at this
    omega
  | @sparse a m run ha h ih =>
    have ih := ih hm fun i hi => hsp i (List.mem_cons_of_mem _ hi)
    cases run with
    | nil => simp [hasGap, InGap]
    | cons q run =>
      have hq : q.first = a + 1 := h.first_eq
      have hlt := hs a (a + 1) (Nat.lt_succ_self a) (by
        have := h.first_le_lastIdx
        have := h.lastIdx_lt
        omega)
      simp only [hasGap, InGap, Bool.or_eq_true, bne_iff_ne, ne_eq, ih, hq, exists_or]
      refine or_congr_left ⟨fun hne => ⟨stmt.tag a + 1, by omega, by omega⟩, ?_⟩
      rintro ⟨y, h₁, h₂⟩
      omega

omit [Target] in
lemma InGap.bounds (hs : stmt.Sorted) (h : Slice stmt a b items)
    (hgap : InGap stmt y (items.takeWhile SwitchItem.isSparse)) :
    a < b ∧ stmt.tag a < y ∧ y < stmt.tag (b - 1) ∧
      ∀ k, k < stmt.switchTable.length → stmt.tag k ≠ y := by
  obtain ⟨m, hrun, hrest⟩ := h.takeWhile_dropWhile SwitchItem.isSparse
  obtain ⟨i, hai, him, h₁, h₂⟩ :=
    (inGap_iff hrun fun _ hi => List.mem_takeWhile_imp hi).mp hgap
  have hmb := hrest.le
  have hb : b ≤ stmt.switchTable.length := by
    refine h.bound fun hnil => ?_
    simp [hnil, InGap] at hgap
  have ha := hs.le hai (by omega)
  have hb' := hs.le (show i + 1 ≤ b - 1 by omega) (by omega)
  refine ⟨by omega, by omega, by omega, fun k hk => ?_⟩
  rcases Nat.lt_or_ge i k with hik | hik
  · have := hs.le (show i + 1 ≤ k from hik) hk
    omega
  · have := hs.le hik (by omega)
    omega

omit [Target] in
lemma inGap_of_ne (h : Slice stmt a m run) (hsp : ∀ i ∈ run, i.isSparse = true) (ham : a < m)
    (hlow : stmt.tag a ≤ y) (hhigh : y ≤ stmt.tag (m - 1))
    (hne : ∀ i, a ≤ i → i < m → stmt.tag i ≠ y) : InGap stmt y run := by
  rw [inGap_iff h hsp]
  clear h hsp
  -- the last tag that is not above `y`
  induction m with
  | zero => omega
  | succ m ih =>
    rcases Nat.lt_or_ge a m with hlt | hge
    · by_cases hm : y ≤ stmt.tag (m - 1)
      · obtain ⟨i, h₁, h₂, h₃⟩ := ih hlt hm fun i h₁ h₂ => hne i h₁ (by omega)
        exact ⟨i, h₁, by omega, h₃⟩
      · refine ⟨m - 1, by omega, by omega, by omega, ?_⟩
        rw [show m - 1 + 1 = m by omega]
        have := hne m (by omega) (Nat.lt_succ_self m)
        simp only [Nat.add_sub_cancel] at hhigh
        omega
    · obtain rfl : a = m := by omega
      have := hne a (Nat.le_refl a) ham
      simp only [Nat.add_sub_cancel] at hhigh
      omega

end Gap

/-! ### The slices of the calls -/

section Slices

variable {stmt} {a b : Nat} {item : SwitchItem} {items : List SwitchItem} {low high : Bool}

/-- The items that remain once dense items have been removed at both sides. -/
def withoutDenseEnds (items : List SwitchItem) : List SwitchItem :=
  ((items.dropWhile SwitchItem.isDense).reverse.dropWhile SwitchItem.isDense).reverse

lemma callFor_items (stmt : SwitchNode) (items : List SwitchItem) (low high : Bool) :
    (callFor stmt items low high).items = withoutDenseEnds items := by
  simp only [callFor, peelLow_items, peelHigh_items, withoutDenseEnds]

omit [Target] in
lemma slice_withoutDenseEnds (h : Slice stmt a b items) :
    ∃ a' b', a ≤ a' ∧ b' ≤ b ∧ Slice stmt a' b (items.dropWhile SwitchItem.isDense) ∧
      Slice stmt a' b' (withoutDenseEnds items) := by
  obtain ⟨a', hfst, hlow⟩ := h.takeWhile_dropWhile SwitchItem.isDense
  rw [← List.reverse_reverse (items.dropWhile SwitchItem.isDense)] at hlow
  obtain ⟨b', hhigh, hb⟩ := hlow.reverse_dropWhile SwitchItem.isDense
  rw [List.reverse_reverse] at hlow
  exact ⟨a', b', hfst.le, hb, hlow, hhigh⟩

omit [Target] in
lemma dropWhile_withoutDenseEnds (items : List SwitchItem) :
    withoutDenseEnds items <+: items.dropWhile SwitchItem.isDense := by
  have := List.dropWhile_suffix SwitchItem.isDense
    (l := (items.dropWhile SwitchItem.isDense).reverse)
  simpa [withoutDenseEnds] using List.reverse_prefix.mpr this

omit [Target] in
lemma length_withoutDenseEnds_le (items : List SwitchItem) :
    (withoutDenseEnds items).length ≤ items.length :=
  (dropWhile_withoutDenseEnds items).length_le.trans (List.length_dropWhile_le _ _)

omit [Target] in
lemma isSparse_of_withoutDenseEnds {rest : List SwitchItem}
    (h : withoutDenseEnds items = item :: rest) : item.isSparse = true := by
  obtain ⟨tl, htl⟩ := dropWhile_withoutDenseEnds items
  have hhead := List.head?_dropWhile_not SwitchItem.isDense items
  rw [← htl, h, List.cons_append, List.head?_cons] at hhead
  simpa [SwitchItem.isDense, SwitchItem.isSparse] using hhead

lemma equalityPart_items (stmt : SwitchNode) (label2Freq : Option (LabelIdx → Int))
    (items : List SwitchItem) (low high : Bool) (n : LabelIdx) :
    (equalityPart stmt label2Freq items low high n).items =
      items.dropWhile SwitchItem.isSparse := by
  unfold equalityPart
  split
  · split
    · rfl
    · exact equalityTests_items stmt items low high n
  · exact equalityTests_items stmt items low high n

omit [Target] in
lemma middleTag_bounds (lo hi : Int) (h : lo + 2 ≤ hi) :
    lo < middleTag lo hi ∧ middleTag lo hi ≤ hi := by
  unfold middleTag
  rw [Int.tdiv_eq_ediv, Int.tdiv_eq_ediv]
  simp only [Int.sign_eq_one_of_pos (show (0 : Int) < 2 by decide)]
  split_ifs <;> omega

omit [Target] in
lemma splitAtMiddle_spec (hs : stmt.Sorted) (h : Slice stmt a b (item :: items))
    (hlen : kClusterSwitchCutoff ≤ items.length) :
    ∃ m prev mid right,
      (splitAtMiddle stmt item items).1.getLast? = some prev ∧
      (splitAtMiddle stmt item items).2 = mid :: right ∧
      Slice stmt a m (splitAtMiddle stmt item items).1 ∧
      Slice stmt m b (mid :: right) ∧
      (splitAtMiddle stmt item items).1.length ≤ items.length ∧
      (mid :: right).length ≤ items.length := by
  have hb := h.bound (List.cons_ne_nil _ _)
  set below := fun i : SwitchItem =>
    decide (stmt.tag i.first <
      middleTag (stmt.tag item.first) (stmt.tag (items.getLastD item).first)) with hbelow
  have hfirst := h.first_eq
  have hlast : a + items.length ≤ (items.getLastD item).first ∧
      (items.getLastD item).first < b := by
    rcases List.eq_nil_or_concat items with rfl | ⟨init, last, rfl⟩
    · simp [kClusterSwitchCutoff] at hlen
    · rw [List.concat_eq_append, ← List.cons_append] at h
      obtain ⟨m, hinit, hl⟩ := Slice.append_iff.mp h
      have h₁ := hinit.length_le
      have h₂ := hl.lastIdx_lt
      have h₃ := hl.first_le_lastIdx
      simp only [List.concat_eq_append, List.getLastD_concat, List.length_append,
        List.length_cons, List.length_nil, hl.first_eq] at h₁ ⊢
      omega
  have htags := hs.add_le (show a ≤ (items.getLastD item).first by omega) (by omega)
  have hmid := middleTag_bounds (stmt.tag item.first) (stmt.tag (items.getLastD item).first) (by
      rw [hfirst]
      simp only [kClusterSwitchCutoff] at hlen
      omega)
  have hhead : below item = true := decide_eq_true hmid.1
  have hright : (item :: items).dropWhile below ≠ [] := by
    intro hnil
    have := List.dropWhile_eq_nil_iff.mp hnil (items.getLastD item) (by
      rcases List.eq_nil_or_concat items with rfl | ⟨init, last, rfl⟩ <;> simp)
    simp only [hbelow, decide_eq_true_eq] at this
    omega
  have hleft : (item :: items).takeWhile below = item :: items.takeWhile below := by
    rw [List.takeWhile_cons, if_pos hhead]
  obtain ⟨mid, right, hmr⟩ := List.exists_cons_of_ne_nil hright
  obtain ⟨m, hl, hr⟩ := h.takeWhile_dropWhile below
  have hlens := congrArg List.length
    (List.takeWhile_append_dropWhile (p := below) (l := item :: items))
  rw [List.length_append, hmr, hleft] at hlens
  simp only [List.length_cons] at hlens
  refine ⟨m, ((item :: items).takeWhile below).getLast (by simp [hleft]), mid, right,
    List.getLast?_eq_getLast_of_ne_nil _, hmr, hl, hmr ▸ hr, ?_, ?_⟩
  · show ((item :: items).takeWhile below).length ≤ _
    rw [hleft]
    simp only [List.length_cons]
    omega
  · simp only [List.length_cons]
    omega

variable {label2Freq} {c : Call}

lemma nextSlices_spec (hs : stmt.Sorted) (h : Slice stmt a b c.items)
    (hsp : ∀ item rest, c.items = item :: rest → item.isSparse = true)
    {s : List SwitchItem × Bool × Bool} (hmem : s ∈ nextSlices stmt label2Freq c) :
    s.1 ≠ [] ∧ s.1.length < c.items.length ∧ ∃ a' b', a ≤ a' ∧ b' ≤ b ∧ Slice stmt a' b' s.1 := by
  unfold nextSlices at hmem
  split at hmem
  · simp at hmem
  · next item items hitems =>
    rw [hitems] at h ⊢
    split_ifs at hmem with hone hfew
    · simp at hmem
    · simp only [List.mem_ite_nil_left, List.mem_singleton] at hmem
      obtain ⟨hnil, rfl⟩ := hmem
      simp only [equalityPart_items, hitems, List.dropWhile_cons,
        hsp item items hitems, if_true] at hnil ⊢
      obtain ⟨m, -, hm⟩ := h.tail.takeWhile_dropWhile SwitchItem.isSparse
      have hle := h.first_le_lastIdx
      have hm' : item.lastIdx + 1 ≤ m := by
        obtain ⟨m', h₁, h₂⟩ := h.tail.takeWhile_dropWhile SwitchItem.isSparse
        obtain rfl := h₂.start_unique hm
        exact h₁.le
      refine ⟨hnil, ?_, m, b, by omega, Nat.le_refl b, hm⟩
      exact Nat.lt_succ_of_le (List.length_dropWhile_le _ _)
    · obtain ⟨m, prev, mid, right, hprev, hright, hl, hr, hll, hrl⟩ :=
        splitAtMiddle_spec hs h (by omega)
      simp only [hprev, hright, List.mem_cons, List.not_mem_nil, or_false] at hmem
      rcases hmem with rfl | rfl
      · refine ⟨fun hnil => ?_, by simp only [List.length_cons]; omega, a, m, Nat.le_refl a,
          hr.le, hl⟩
        have hnil : (splitAtMiddle stmt item items).1 = [] := hnil
        rw [hnil] at hprev
        cases hprev
      · exact ⟨List.cons_ne_nil _ _, by simp only [List.length_cons] at hrl ⊢; omega, m, b,
          hl.le, Nat.le_refl b, hr⟩

lemma callFor_head_isSparse {rest : List SwitchItem}
    (h : (callFor stmt items low high).items = item :: rest) : item.isSparse = true :=
  isSparse_of_withoutDenseEnds ((callFor_items stmt items low high).symm.trans h)

lemma slice_callFor (h : Slice stmt a b items) (low high : Bool) :
    ∃ a' b', a ≤ a' ∧ b' ≤ b ∧ Slice stmt a' b' (callFor stmt items low high).items := by
  obtain ⟨a', b', ha, hb, -, hsl⟩ := slice_withoutDenseEnds h
  exact ⟨a', b', ha, hb, (callFor_items stmt items low high).symm ▸ hsl⟩

lemma slice_of_mem_calls (hs : stmt.Sorted) {fuel : Nat} (h : Slice stmt a b items)
    (hc : c ∈ calls stmt label2Freq fuel items low high) :
    ∃ a' b', a ≤ a' ∧ b' ≤ b ∧ Slice stmt a' b' c.items := by
  induction fuel generalizing a b items low high with
  | zero => simp [calls] at hc
  | succ fuel ih =>
    simp only [calls, List.mem_cons, List.mem_flatMap] at hc
    obtain ⟨a₁, b₁, ha₁, hb₁, h₁⟩ := slice_callFor h low high
    rcases hc with rfl | ⟨s, hs', hc⟩
    · exact ⟨a₁, b₁, ha₁, hb₁, h₁⟩
    · obtain ⟨-, -, a₂, b₂, ha₂, hb₂, h₂⟩ :=
        nextSlices_spec hs h₁ (fun _ _ => callFor_head_isSparse) hs'
      obtain ⟨a₃, b₃, ha₃, hb₃, h₃⟩ := ih h₂ hc
      exact ⟨a₃, b₃, by omega, by omega, h₃⟩

lemma InGap.calls_bounds (hs : stmt.Sorted) {y : Int} {fuel : Nat} (h : Slice stmt a b items)
    (hb : b ≤ stmt.switchTable.length)
    (hc : c ∈ calls stmt label2Freq fuel items low high) (hgap : InGap stmt y c.run) :
    a < b ∧ stmt.tag a < y ∧ y < stmt.tag (b - 1) ∧
      ∀ k, k < stmt.switchTable.length → stmt.tag k ≠ y := by
  obtain ⟨a', b', ha, hb', h'⟩ := slice_of_mem_calls hs h hc
  obtain ⟨hlt, h₁, h₂, hne⟩ := hgap.bounds hs h'
  have h₃ := hs.le ha (by omega)
  have h₄ := hs.le (show b' - 1 ≤ b - 1 by omega) (by omega)
  exact ⟨by omega, by omega, by omega, hne⟩

/-- A value in a gap of one of the calls lies strictly between the outer tags of what remains once
the dense items at both sides have been dealt with. -/
lemma InGap.calls_succ_bounds (hs : stmt.Sorted) {y : Int} {fuel : Nat}
    (h : Slice stmt a b (withoutDenseEnds items)) (hb : b ≤ stmt.switchTable.length)
    (hc : c ∈ calls stmt label2Freq (fuel + 1) items low high) (hgap : InGap stmt y c.run) :
    a < b ∧ stmt.tag a < y ∧ y < stmt.tag (b - 1) := by
  rw [← callFor_items stmt items low high] at h
  simp only [calls, List.mem_cons, List.mem_flatMap] at hc
  rcases hc with rfl | ⟨s, hs', hc⟩
  · obtain ⟨hlt, h₁, h₂, -⟩ := hgap.bounds hs h
    exact ⟨hlt, h₁, h₂⟩
  · obtain ⟨-, -, a', b', ha, hb', h'⟩ :=
      nextSlices_spec hs h (fun _ _ => callFor_head_isSparse) hs'
    obtain ⟨hlt, h₁, h₂, -⟩ := hgap.calls_bounds hs h' (by omega) hc
    have h₃ := hs.le ha (by omega)
    have h₄ := hs.le (show b' - 1 ≤ b - 1 by omega) (by omega)
    exact ⟨by omega, by omega, by omega⟩

end Slices

end Maple.SwitchLowerer
