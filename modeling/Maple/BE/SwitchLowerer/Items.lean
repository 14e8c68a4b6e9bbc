import Maple.BE.SwitchLowerer.Basic
import Mathlib.Data.List.GetD

/-!
# Slices of switch items

The switch items partition the case table: a slice of the items stands for a contiguous range of
entries, in order, whatever the density test.
-/

namespace Maple.SwitchLowerer

variable {stmt : SwitchNode} {a b c : Nat} {items : List SwitchItem} {item : SwitchItem}

/-- The last entry of the case table that an item stands for. -/
def SwitchItem.lastIdx (item : SwitchItem) : Nat :=
  if item.second = 0 then item.first else item.second

/-- `Slice stmt a b items`: the items stand for the entries from `a` to `b - 1`. -/
inductive Slice (stmt : SwitchNode) : Nat → Nat → List SwitchItem → Prop where
  | nil (a : Nat) : Slice stmt a a []
  | sparse {a b : Nat} {items : List SwitchItem} (ha : a < stmt.switchTable.length)
      (h : Slice stmt (a + 1) b items) : Slice stmt a b (⟨a, 0⟩ :: items)
  | dense {a b j : Nat} {items : List SwitchItem} (haj : a < j) (hj : j < stmt.switchTable.length)
      (h : Slice stmt (j + 1) b items) : Slice stmt a b (⟨a, j⟩ :: items)

namespace Slice

lemma le (h : Slice stmt a b items) : a ≤ b := by
  induction h with
  | nil => exact Nat.le_refl _
  | sparse _ _ ih => omega
  | dense _ _ _ ih => omega

lemma length_le (h : Slice stmt a b items) : a + items.length ≤ b := by
  induction h with
  | nil => simp
  | sparse _ _ ih =>
    simp only [List.length_cons]
    omega
  | dense _ _ _ ih =>
    simp only [List.length_cons]
    omega

lemma bound (h : Slice stmt a b items) (hne : items ≠ []) : b ≤ stmt.switchTable.length := by
  induction h with
  | nil => exact absurd rfl hne
  | sparse ha h ih =>
    cases h with
    | nil => exact ha
    | sparse ha' h' => exact ih (List.cons_ne_nil _ _)
    | dense haj hj h' => exact ih (List.cons_ne_nil _ _)
  | dense haj hj h ih =>
    cases h with
    | nil => exact hj
    | sparse ha' h' => exact ih (List.cons_ne_nil _ _)
    | dense haj' hj' h' => exact ih (List.cons_ne_nil _ _)

lemma first_eq (h : Slice stmt a b (item :: items)) : item.first = a := by
  cases h <;> rfl

lemma tail (h : Slice stmt a b (item :: items)) : Slice stmt (item.lastIdx + 1) b items := by
  cases h with
  | sparse _ h => exact h
  | dense haj _ h =>
    have : ¬ (_ : Nat) = 0 := Nat.ne_of_gt (Nat.zero_lt_of_lt haj)
    simpa [SwitchItem.lastIdx, this] using h

lemma first_le_lastIdx (h : Slice stmt a b (item :: items)) : a ≤ item.lastIdx := by
  cases h with
  | sparse _ _ => simp [SwitchItem.lastIdx]
  | dense haj _ _ =>
    simp only [SwitchItem.lastIdx]
    split <;> omega

lemma lastIdx_lt (h : Slice stmt a b (item :: items)) : item.lastIdx < b := h.tail.le

lemma append_iff {xs ys : List SwitchItem} :
    Slice stmt a c (xs ++ ys) ↔ ∃ b, Slice stmt a b xs ∧ Slice stmt b c ys := by
  induction xs generalizing a with
  | nil =>
    constructor
    · intro h
      exact ⟨a, .nil a, h⟩
    · rintro ⟨b, hxs, hys⟩
      cases hxs
      exact hys
  | cons item xs ih =>
    constructor
    · intro h
      cases h with
      | sparse ha h =>
        obtain ⟨b, hxs, hys⟩ := ih.mp h
        exact ⟨b, .sparse ha hxs, hys⟩
      | dense haj hj h =>
        obtain ⟨b, hxs, hys⟩ := ih.mp h
        exact ⟨b, .dense haj hj hxs, hys⟩
    · rintro ⟨b, hxs, hys⟩
      cases hxs with
      | sparse ha h => exact .sparse ha (ih.mpr ⟨b, h, hys⟩)
      | dense haj hj h => exact .dense haj hj (ih.mpr ⟨b, h, hys⟩)

lemma lastIdx_of_getLast (h : Slice stmt a b items) (hl : items.getLast? = some item) :
    item.lastIdx + 1 = b := by
  obtain ⟨xs, rfl⟩ := List.getLast?_eq_some_iff.mp hl
  obtain ⟨m, -, hitem⟩ := append_iff.mp h
  have := hitem.tail
  cases this
  rfl

lemma le_of_getLast (h : Slice stmt a b items) (hl : items.getLast? = some item) :
    item.first < b ∧ item.second < b := by
  have hlast := h.lastIdx_of_getLast hl
  obtain ⟨xs, rfl⟩ := List.getLast?_eq_some_iff.mp hl
  obtain ⟨m, -, hitem⟩ := append_iff.mp h
  have hfirst := hitem.first_le_lastIdx
  rw [← hitem.first_eq] at hfirst
  refine ⟨by omega, ?_⟩
  unfold SwitchItem.lastIdx at hlast
  split at hlast <;> omega

lemma start_unique {a' : Nat} (h : Slice stmt a b items) (h' : Slice stmt a' b items) : a = a' := by
  cases h <;> cases h' <;> rfl

lemma end_unique {b' : Nat} (h : Slice stmt a b items) (h' : Slice stmt a b' items) : b = b' := by
  induction h with
  | nil =>
    cases h'
    rfl
  | sparse _ _ ih =>
    cases h' with
    | sparse _ h' => exact ih h'
    | dense haj _ _ => omega
  | dense haj _ _ ih =>
    cases h' with
    | sparse _ _ => omega
    | dense _ _ h' => exact ih h'

lemma takeWhile_dropWhile (h : Slice stmt a b items) (p : SwitchItem → Bool) :
    ∃ m, Slice stmt a m (items.takeWhile p) ∧ Slice stmt m b (items.dropWhile p) := by
  rw [← List.takeWhile_append_dropWhile (p := p) (l := items)] at h
  exact append_iff.mp h

lemma reverse_dropWhile (h : Slice stmt a b items.reverse) (p : SwitchItem → Bool) :
    ∃ m, Slice stmt a m (items.dropWhile p).reverse ∧ m ≤ b := by
  rw [← List.takeWhile_append_dropWhile (p := p) (l := items), List.reverse_append] at h
  obtain ⟨m, hm, hm'⟩ := append_iff.mp h
  exact ⟨m, hm, hm'.le⟩

lemma dense_cons (h : Slice stmt a b (item :: items)) (hd : item.isDense = true) :
    ∃ j, a < j ∧ j < stmt.switchTable.length ∧ item = ⟨a, j⟩ := by
  cases h with
  | sparse _ _ => simp [SwitchItem.isDense] at hd
  | @dense _ _ j _ haj hj h => exact ⟨j, haj, hj, rfl⟩

lemma dense_of_getLast (h : Slice stmt a b items) (hl : items.getLast? = some item)
    (hd : item.isDense = true) :
    ∃ m j, m < j ∧ j < stmt.switchTable.length ∧ item = ⟨m, j⟩ := by
  obtain ⟨xs, rfl⟩ := List.getLast?_eq_some_iff.mp hl
  obtain ⟨m, -, hitem⟩ := append_iff.mp h
  obtain ⟨j, hmj, hj, heq⟩ := hitem.dense_cons hd
  exact ⟨m, j, hmj, hj, heq⟩

lemma dense_singleton (h : Slice stmt a b [item]) (hd : item.second ≠ 0) :
    ∃ j, a < j ∧ j < stmt.switchTable.length ∧ item = ⟨a, j⟩ ∧ b = j + 1 := by
  cases h with
  | sparse _ _ => exact absurd rfl hd
  | @dense _ _ j _ haj hj h =>
    cases h
    exact ⟨j, haj, hj, rfl, rfl⟩

lemma map_first_of_sparse (h : Slice stmt a b items) (hsp : ∀ i ∈ items, i.isSparse = true) :
    items.map SwitchItem.first = List.range' a (b - a) := by
  induction h with
  | nil => simp
  | @sparse a b items ha h ih =>
    have := h.le
    rw [show b - a = (b - (a + 1)) + 1 by omega, List.range'_succ, List.map_cons,
      ih fun i hi => hsp i (List.mem_cons_of_mem _ hi)]
  | @dense a b j items haj hj h ih =>
    have := hsp _ List.mem_cons_self
    simp only [SwitchItem.isSparse, beq_iff_eq] at this
    omega

lemma ne_nil_of_lt (h : Slice stmt a b items) (hab : a < b) : items ≠ [] := by
  rintro rfl
  cases h
  omega

lemma getLast?_of_sparse (h : Slice stmt a b items) (hsp : ∀ i ∈ items, i.isSparse = true)
    (hab : a < b) : items.getLast? = some ⟨b - 1, 0⟩ := by
  obtain ⟨init, last, rfl⟩ := List.eq_nil_or_concat items |>.resolve_left (h.ne_nil_of_lt hab)
  rw [List.concat_eq_append] at h hsp ⊢
  have hl : last.second = 0 := by
    simpa [SwitchItem.isSparse] using hsp last (by simp)
  have hlast := h.lastIdx_of_getLast List.getLast?_concat
  simp only [SwitchItem.lastIdx, hl, if_true] at hlast
  rw [List.getLast?_concat]
  obtain ⟨f, s⟩ := last
  simp only [Option.some.injEq, SwitchItem.mk.injEq] at hl hlast ⊢
  omega

end Slice

/-! ### The items of a case table -/

lemma findClusterEnd_spec {dense : Int → Int → Int → Bool} {i n j : Nat}
    (h : findClusterEnd dense stmt i n = some j) : i < j ∧ j ≤ n := by
  induction n with
  | zero => simp [findClusterEnd] at h
  | succ n ih =>
    simp only [findClusterEnd] at h
    split_ifs at h with hi hd
    · cases h
      exact ⟨hi, Nat.le_refl _⟩
    · have := ih h
      omega

/-- Clusters that follow each other from entry `k` on. -/
inductive ClustersFrom (stmt : SwitchNode) : Nat → List (Nat × Nat) → Prop where
  | nil (k : Nat) : ClustersFrom stmt k []
  | cons {k i j : Nat} {clusters : List (Nat × Nat)} (hki : k ≤ i) (hij : i < j)
      (hj : j < stmt.switchTable.length) (h : ClustersFrom stmt (j + 1) clusters) :
      ClustersFrom stmt k ((i, j) :: clusters)

lemma ClustersFrom.mono {k k' : Nat} {clusters : List (Nat × Nat)}
    (h : ClustersFrom stmt k clusters) (hk : k' ≤ k) : ClustersFrom stmt k' clusters := by
  cases h with
  | nil => exact .nil k'
  | cons hki hij hj h => exact .cons (Nat.le_trans hk hki) hij hj h

lemma clustersFrom_findClusters (dense : Int → Int → Int → Bool) (stmt : SwitchNode)
    (fuel i : Nat) : ClustersFrom stmt i (findClusters dense stmt fuel i) := by
  induction fuel generalizing i with
  | zero => exact .nil i
  | succ fuel ih =>
    simp only [findClusters]
    split_ifs with hlt
    · cases hend : findClusterEnd dense stmt i (stmt.switchTable.length - 1) with
      | some j =>
        have := findClusterEnd_spec hend
        exact .cons (Nat.le_refl i) this.1 (by omega) (ih (j + 1))
      | none => exact (ih (i + 1)).mono (Nat.le_succ i)
    · exact .nil i

lemma slice_initSwitchItems {fuel i : Nat} {clusters : List (Nat × Nat)}
    (hcl : ClustersFrom stmt i clusters) (hi : i ≤ stmt.switchTable.length)
    (hfuel : stmt.switchTable.length ≤ fuel + i) :
    Slice stmt i stmt.switchTable.length (initSwitchItems stmt fuel i clusters) := by
  induction fuel generalizing i clusters with
  | zero =>
    obtain rfl : i = stmt.switchTable.length := by omega
    exact .nil _
  | succ fuel ih =>
    simp only [initSwitchItems]
    split_ifs with hlt
    · cases hcl with
      | nil => exact .sparse hlt (ih (.nil _) hlt (by omega))
      | @cons _ k j _ hki hij hj h =>
        simp only
        split_ifs with heq
        · subst heq
          exact .dense hij hj (ih h hj (by omega))
        · exact .sparse hlt (ih (.cons (by omega) hij hj h) hlt (by omega))
    · obtain rfl : i = stmt.switchTable.length := by omega
      exact .nil _

/-- The switch items stand for the whole case table. -/
theorem slice_switchItems (dense : Int → Int → Int → Bool) (stmt : SwitchNode) :
    Slice stmt 0 stmt.switchTable.length (switchItems dense stmt) :=
  slice_initSwitchItems (clustersFrom_findClusters dense stmt _ 0) (Nat.zero_le _) (Nat.le_refl _)

/-! ### Sorted case tables -/

/-- The tags of the case table are strictly increasing. -/
def SwitchNode.Sorted (stmt : SwitchNode) : Prop :=
  ∀ i j, i < j → j < stmt.switchTable.length → stmt.tag i < stmt.tag j

lemma SwitchNode.Sorted.le (hs : stmt.Sorted) {i j : Nat} (hij : i ≤ j)
    (hj : j < stmt.switchTable.length) : stmt.tag i ≤ stmt.tag j := by
  rcases Nat.eq_or_lt_of_le hij with rfl | h
  · exact le_rfl
  · exact (hs i j h hj).le

lemma SwitchNode.Sorted.inj (hs : stmt.Sorted) {i j : Nat} (hi : i < stmt.switchTable.length)
    (hj : j < stmt.switchTable.length) (h : stmt.tag i = stmt.tag j) : i = j := by
  rcases lt_trichotomy i j with hlt | heq | hlt
  · exact absurd h (ne_of_lt (hs i j hlt hj))
  · exact heq
  · exact absurd h (ne_of_gt (hs j i hlt hi))

lemma SwitchNode.Sorted.add_le (hs : stmt.Sorted) {i j : Nat} (hij : i ≤ j)
    (hj : j < stmt.switchTable.length) : stmt.tag i + (j - i : Nat) ≤ stmt.tag j := by
  induction j, hij using Nat.le_induction with
  | base => simp
  | succ j hij ih =>
    have h₁ := ih (by omega)
    have h₂ := hs j (j + 1) (Nat.lt_succ_self j) hj
    omega

lemma SwitchNode.getCasePair_mem {i : Nat} (hi : i < stmt.switchTable.length) :
    stmt.getCasePair i ∈ stmt.switchTable := by
  rw [getCasePair, List.getD_eq_getElem _ _ hi]
  exact List.getElem_mem hi

lemma SwitchNode.sortCasePair_perm (stmt : SwitchNode) :
    stmt.sortCasePair.switchTable.Perm stmt.switchTable :=
  List.perm_insertionSort _ _

lemma SwitchNode.sorted_sortCasePair (h : (stmt.switchTable.map Prod.fst).Nodup) :
    stmt.sortCasePair.Sorted := by
  have : Std.Total fun l r : CasePair => l.1 ≤ r.1 := ⟨fun l r => le_total l.1 r.1⟩
  have : IsTrans CasePair fun l r => l.1 ≤ r.1 := ⟨fun _ _ _ => le_trans⟩
  have hle : stmt.sortCasePair.switchTable.Pairwise fun l r => l.1 ≤ r.1 :=
    List.pairwise_insertionSort _ _
  have hne : stmt.sortCasePair.switchTable.Pairwise fun l r => l.1 ≠ r.1 :=
    List.pairwise_map.mp ((stmt.sortCasePair_perm.map Prod.fst).nodup_iff.mpr h)
  intro i j hij hj
  have h₁ := List.pairwise_iff_getElem.mp hle i j (by omega) hj hij
  have h₂ := List.pairwise_iff_getElem.mp hne i j (by omega) hj hij
  simp only [SwitchNode.tag, SwitchNode.getCasePair]
  rw [List.getD_eq_getElem _ _ hj, List.getD_eq_getElem _ _ (by omega)]
  omega

end Maple.SwitchLowerer
