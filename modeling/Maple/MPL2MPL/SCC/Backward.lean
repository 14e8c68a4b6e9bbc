import Maple.MPL2MPL.SCC.Invariant

/-!
# The second visit of a node

The last open node becomes a finished node, unless it does not reach below its own order: then it and
the finished nodes after it are a component.
-/

namespace Maple
namespace SCC

variable {α : Type*} [DecidableEq α] {outNodes : α → List α}

omit [DecidableEq α] in
lemma Search.backward_cases {t : State α} {opened : List α} (h : Search outNodes t opened)
    {node : α} {parent : Option α} {rest : List (α × Option α)}
    (hstack : t.stack = (node, parent) :: rest) (hne : t.visitedOrder node ≠ 0) :
    (t.secondTimeVisited node = true ∧ Chain outNodes t.visitedOrder rest opened) ∨
      ∃ opened', opened = node :: opened' ∧ parent = opened'.head? ∧
        (∀ p ∈ opened'.head?, node ∈ outNodes p) ∧ (opened' = [] → rest = []) ∧
        Chain outNodes t.visitedOrder rest opened' := by
  have hchain := h.chain
  rw [hstack] at hchain
  cases hchain with
  | root r hzero => exact absurd hzero hne
  | opened hchain hroot hedge => exact Or.inr ⟨_, rfl, rfl, hedge, hroot, hchain⟩
  | @pushed _ g _ opened' hchain hedge horder =>
    left
    refine ⟨?_, hchain⟩
    have hlt : t.visitedOrder g < t.visitedOrder node := horder.resolve_left hne
    by_contra hsecond
    have hfalse : t.secondTimeVisited node = false := by simpa using hsecond
    by_cases hin : t.inStack node = true
    · -- an open node that is visited after the last open node
      have hmem := (h.opened_iff node).mpr ⟨hin, hfalse⟩
      rcases List.mem_cons.mp hmem with rfl | hmem
      · exact lt_irrefl _ hlt
      · have := (List.pairwise_cons.mp h.opened_sorted).1 node hmem
        omega
    · have hscc : t.sccNode node ≠ none := by
        intro hnone
        exact hin ((h.inStack_iff node).mpr ⟨hne, hnone⟩)
      have := h.old node hscc hfalse g (by simp)
      omega

omit [DecidableEq α] in
lemma Search.skip {t : State α} {opened : List α} (h : Search outNodes t opened)
    {node : α} {parent : Option α} {rest : List (α × Option α)}
    (hstack : t.stack = (node, parent) :: rest) (hne : t.visitedOrder node ≠ 0)
    (hchain : Chain outNodes t.visitedOrder rest opened) :
    Search outNodes { t with stack := rest } opened := by
  exact ⟨hchain, h.inStack_iff, h.scc_visited, h.second_visited, h.order_le, h.order_inj,
    h.opened_iff, h.opened_sorted, h.finished_iff, h.finished_nodup, h.finished_sorted, h.old,
    h.low_le, h.low_reach, h.low_edge, h.finished_low, h.finished_edge,
    fun _ hx _ hy => h.edge_of_pop hstack hne hx hy, h.closed⟩

/-! ### The lowest order of the parent -/

/-- The lowest orders after `node` has passed its own to its parent. -/
def lowered (t : State α) (node : α) (parent : Option α) : α → Nat :=
  match parent with
  | none => t.lowestOrder
  | some parent => Function.update t.lowestOrder parent
    (min (t.lowestOrder parent) (t.lowestOrder node))

lemma lowered_le (t : State α) (node : α) (parent : Option α) (x : α) :
    lowered t node parent x ≤ t.lowestOrder x := by
  cases parent with
  | none => exact le_refl _
  | some p =>
    rw [lowered, Function.update_apply]
    split_ifs with hx
    · rw [hx]
      exact min_le_left _ _
    · exact le_refl _

lemma lowered_of_ne (t : State α) (node : α) {parent : Option α} {x : α}
    (h : ∀ p ∈ parent, x ≠ p) : lowered t node parent x = t.lowestOrder x := by
  cases parent with
  | none => rfl
  | some p => exact Function.update_of_ne (h p rfl) ..

lemma lowered_parent (t : State α) (node p : α) :
    lowered t node (some p) p = min (t.lowestOrder p) (t.lowestOrder node) :=
  Function.update_self ..

/-- The state when the last open node is popped. -/
def closing (t : State α) (node : α) (parent : Option α) (rest : List (α × Option α)) : State α :=
  { t with
    stack := rest
    secondTimeVisited := Function.update t.secondTimeVisited node true
    lowestOrder := lowered t node parent }

lemma visitBackward_eq {t : State α} {node : α} (parent : Option α) (rest : List (α × Option α))
    (hsecond : t.secondTimeVisited node = false) (hparent : ∀ p ∈ parent, node ≠ p) :
    visitBackward node parent { t with stack := rest } =
      if t.lowestOrder node = t.visitedOrder node then newSCC node (closing t node parent rest)
      else { closing t node parent rest with visitStack := node :: t.visitStack } := by
  have hlow := lowered_of_ne t node hparent
  have hclosing : (closing t node parent rest).lowestOrder node = t.lowestOrder node := hlow
  rw [← hclosing]
  unfold visitBackward
  rw [if_neg (by simp [hsecond])]
  rfl

/-! ### The popped nodes -/

omit [DecidableEq α] in
lemma mem_takeWhile_iff {p : α → Bool} {l : List α} (hl : l.Pairwise fun x y => p y → p x) {x : α} :
    x ∈ l.takeWhile p ↔ x ∈ l ∧ p x = true := by
  induction l with
  | nil => simp
  | cons y l ih =>
    obtain ⟨hy, hl⟩ := List.pairwise_cons.mp hl
    cases hp : p y with
    | true =>
      rw [List.takeWhile_cons_of_pos hp, List.mem_cons, List.mem_cons, ih hl]
      constructor
      · rintro (rfl | hx)
        · exact ⟨Or.inl rfl, hp⟩
        · exact ⟨Or.inr hx.1, hx.2⟩
      · rintro ⟨rfl | hx, hpx⟩
        · exact Or.inl rfl
        · exact Or.inr ⟨hx, hpx⟩
    | false =>
      rw [List.takeWhile_cons_of_neg (by simp [hp])]
      simp only [List.not_mem_nil, List.mem_cons, false_iff, not_and]
      rintro (rfl | hx) hpx
      · rw [hp] at hpx
        cases hpx
      · rw [hy x hx hpx] at hp
        cases hp

omit [DecidableEq α] in
lemma mem_dropWhile_iff {p : α → Bool} {l : List α} (hl : l.Pairwise fun x y => p y → p x) {x : α} :
    x ∈ l.dropWhile p ↔ x ∈ l ∧ p x = false := by
  induction l with
  | nil => simp
  | cons y l ih =>
    obtain ⟨hy, hl⟩ := List.pairwise_cons.mp hl
    cases hp : p y with
    | true =>
      rw [List.dropWhile_cons_of_pos hp, List.mem_cons, ih hl]
      constructor
      · exact fun hx => ⟨Or.inr hx.1, hx.2⟩
      · rintro ⟨rfl | hx, hpx⟩
        · rw [hp] at hpx
          cases hpx
        · exact ⟨hx, hpx⟩
    | false =>
      rw [List.dropWhile_cons_of_neg (by simp [hp])]
      refine ⟨fun hx => ⟨hx, ?_⟩, fun hx => hx.1⟩
      rcases List.mem_cons.mp hx with rfl | hx
      · exact hp
      · by_contra hpx
        rw [hy x hx (by simpa using hpx)] at hp
        cases hp

/-! ### A node that becomes a finished node -/

section Close

variable {t : State α} {node : α} {opened : List α} (h : Search outNodes t (node :: opened))
include h

omit [DecidableEq α] in
lemma Search.node_lt {g : α} (hg : g ∈ opened) : t.visitedOrder g < t.visitedOrder node :=
  (List.pairwise_cons.mp h.opened_sorted).1 g hg

omit [DecidableEq α] in
lemma Search.node_in : t.inStack node = true ∧ t.secondTimeVisited node = false :=
  (h.opened_iff node).mp (by simp)

omit [DecidableEq α] in
lemma Search.parent_ne {p : α} (hp : p ∈ opened.head?) : node ≠ p := by
  rintro rfl
  exact lt_irrefl _ (h.node_lt (List.mem_of_mem_head? hp))

omit [DecidableEq α] in
lemma Search.node_edge {rest : List (α × Option α)} (hstack : t.stack = (node, opened.head?) :: rest)
    (hchain : Chain outNodes t.visitedOrder rest opened) {y : α} (hy : y ∈ outNodes node) :
    t.visitedOrder y ≠ 0 := by
  have hnot : node ∉ opened := fun hmem => lt_irrefl _ (h.node_lt hmem)
  rcases h.opened_edge node (by simp) y hy with hyne | hmem
  · exact hyne
  · rw [hstack] at hmem
    rcases List.mem_cons.mp hmem with heq | hmem
    · exact absurd (List.mem_of_mem_head? (Prod.mk.inj heq).2.symm) hnot
    · exact absurd (hchain.parent_mem hmem) hnot

omit [DecidableEq α] in
lemma Search.exists_parent (hlow : t.lowestOrder node < t.visitedOrder node) :
    ∃ p, opened.head? = some p := by
  cases opened with
  | cons p rest => exact ⟨p, rfl⟩
  | nil =>
    obtain ⟨y, hy, hyorder, -⟩ := h.low_reach node h.node_in.1
    cases hsecond : t.secondTimeVisited y with
    | false =>
      have hmem := (h.opened_iff y).mpr ⟨hy, hsecond⟩
      rw [List.mem_singleton] at hmem
      rw [hmem] at hyorder
      omega
    | true =>
      obtain ⟨-, g, hg, hlt, -⟩ := h.finished_low y ((h.finished_iff y).mpr ⟨hy, hsecond⟩)
      rw [List.mem_singleton] at hg
      rw [hg] at hlt
      omega

lemma Search.opened_iff_of_close (x : α) : x ∈ opened ↔
    t.inStack x = true ∧ Function.update t.secondTimeVisited node true x = false := by
  rw [update_true_eq_false_iff]
  constructor
  · intro hx
    obtain ⟨hxin, hxsecond⟩ := (h.opened_iff x).mp (List.mem_cons_of_mem _ hx)
    refine ⟨hxin, ?_, hxsecond⟩
    rintro rfl
    exact lt_irrefl _ (h.node_lt hx)
  · rintro ⟨hxin, hne, hxsecond⟩
    exact (List.mem_cons.mp ((h.opened_iff x).mpr ⟨hxin, hxsecond⟩)).resolve_left hne

lemma Search.finish {rest : List (α × Option α)} (hstack : t.stack = (node, opened.head?) :: rest)
    (hchain : Chain outNodes t.visitedOrder rest opened)
    (hedge : ∀ p ∈ opened.head?, node ∈ outNodes p)
    (hne : t.lowestOrder node ≠ t.visitedOrder node) :
    Search outNodes
      { closing t node opened.head? rest with visitStack := node :: t.visitStack } opened := by
  obtain ⟨hin, hsecond⟩ := h.node_in
  have hlow : t.lowestOrder node < t.visitedOrder node := lt_of_le_of_ne (h.low_le node hin) hne
  obtain ⟨p, hp⟩ := h.exists_parent hlow
  have hpmem : p ∈ opened := List.mem_of_mem_head? hp
  have hplt := h.node_lt hpmem
  have hpmax : ∀ g ∈ opened, t.visitedOrder g ≤ t.visitedOrder p := by
    intro g hg
    cases opened with
    | nil => exact absurd hg List.not_mem_nil
    | cons q opened =>
      cases hp
      rcases List.mem_cons.mp hg with rfl | hg
      · exact le_refl _
      · exact ((List.pairwise_cons.mp (List.pairwise_cons.mp h.opened_sorted).2).1 g hg).le
  have hnode : lowered t node opened.head? node = t.lowestOrder node :=
    lowered_of_ne t node fun p hp => h.parent_ne hp
  have hplow : lowered t node opened.head? p = min (t.lowestOrder p) (t.lowestOrder node) := by
    rw [hp, lowered_parent]
  -- finished nodes are not open, so their lowest orders stay
  have hfinlow : ∀ x ∈ t.visitStack, lowered t node opened.head? x = t.lowestOrder x := by
    intro x hx
    apply lowered_of_ne
    rintro q hq rfl
    have hopen := (h.opened_iff x).mp (List.mem_cons_of_mem _ (List.mem_of_mem_head? hq))
    have hfin := (h.finished_iff x).mp hx
    rw [hopen.2] at hfin
    cases hfin.2
  have hsecond' : ∀ x, Function.update t.secondTimeVisited node true x = true ↔
      x = node ∨ t.secondTimeVisited x = true := fun _ => update_true_iff
  refine ⟨hchain, h.inStack_iff, h.scc_visited, ?_, h.order_le, h.order_inj, ?_,
    (List.pairwise_cons.mp h.opened_sorted).2, ?_, ?_, ?_, ?_, ?_, ?_, ?_, ?_, ?_, ?_, h.closed⟩
  · -- second_visited
    intro x hx
    rcases (hsecond' x).mp hx with rfl | hx
    · exact h.order_ne_zero hin
    · exact h.second_visited x hx
  · -- opened_iff
    exact h.opened_iff_of_close
  · -- finished_iff
    intro x
    simp only [closing, hsecond', List.mem_cons, h.finished_iff x]
    constructor
    · rintro (rfl | hx)
      · exact ⟨hin, Or.inl rfl⟩
      · exact ⟨hx.1, Or.inr hx.2⟩
    · rintro ⟨hxin, rfl | hx⟩
      · exact Or.inl rfl
      · exact Or.inr ⟨hxin, hx⟩
  · -- finished_nodup
    apply List.nodup_cons.mpr ⟨?_, h.finished_nodup⟩
    intro hmem
    have hc := ((h.finished_iff node).mp hmem).2
    rw [hsecond] at hc
    cases hc
  · -- finished_sorted
    apply List.pairwise_cons.mpr ⟨fun y _ g hg _ => h.node_lt hg, ?_⟩
    apply h.finished_sorted.imp
    exact fun hxy g hg => hxy g (List.mem_cons_of_mem _ hg)
  · -- old
    intro x hx hxsecond g hg
    obtain ⟨-, hfalse⟩ := update_true_eq_false_iff.mp hxsecond
    exact h.old x hx hfalse g (List.mem_cons_of_mem _ hg)
  · -- low_le
    exact fun x hx => (lowered_le t node _ x).trans (h.low_le x hx)
  · -- low_reach
    intro x hx
    by_cases hxp : x = p
    · subst hxp
      simp only [closing, hplow]
      rcases min_choice (t.lowestOrder x) (t.lowestOrder node) with hmin | hmin
      · rw [hmin]
        exact h.low_reach x hx
      · rw [hmin]
        obtain ⟨y, hy, hyorder, hreach⟩ := h.low_reach node hin
        exact ⟨y, hy, hyorder, (Reach.edge (hedge x hp)).trans hreach⟩
    · have hx' : lowered t node opened.head? x = t.lowestOrder x := by
        apply lowered_of_ne
        rintro q hq rfl
        exact hxp (Option.some.inj (hq.symm.trans hp))
      simp only [closing, hx']
      exact h.low_reach x hx
  · -- low_edge
    exact fun x y hx hxy hy hlt => (lowered_le t node _ x).trans (h.low_edge x y hx hxy hy hlt)
  · -- finished_low
    intro x hx
    have hparentlow : lowered t node opened.head? p ≤ t.lowestOrder node := by
      rw [hplow]
      exact min_le_right _ _
    rcases List.mem_cons.mp hx with rfl | hx
    · refine ⟨?_, p, hpmem, hplt, fun g' hg' _ => hpmax g' hg', ?_, Reach.edge (hedge p hp)⟩
      · simp only [closing, hnode]
        exact hlow
      · simp only [closing, hnode]
        exact hparentlow
    · obtain ⟨hxlow, g, hg, hgx, hmax, hglow, hreach⟩ := h.finished_low x hx
      simp only [closing, hfinlow x hx]
      refine ⟨hxlow, ?_⟩
      rcases List.mem_cons.mp hg with rfl | hg
      · exact ⟨p, hpmem, hplt.trans hgx, fun g' hg' _ => hpmax g' hg', hparentlow.trans hglow,
          (Reach.edge (hedge p hp)).trans hreach⟩
      · exact ⟨g, hg, hgx, fun g' hg' => hmax g' (List.mem_cons_of_mem _ hg'),
          (lowered_le t node _ g).trans hglow, hreach⟩
  · -- finished_edge
    intro x hx y hy
    rcases List.mem_cons.mp hx with rfl | hx
    · exact h.node_edge hstack hchain hy
    · exact h.finished_edge x hx y hy
  · -- opened_edge
    exact fun x hx y hy =>
      h.edge_of_pop hstack (h.order_ne_zero hin) (List.mem_cons_of_mem _ hx) hy

/-! ### A new component -/

omit [DecidableEq α] in
lemma Search.pairwise_popped : t.visitStack.Pairwise fun x y =>
    decide (t.visitedOrder node ≤ t.visitedOrder y) = true →
      decide (t.visitedOrder node ≤ t.visitedOrder x) = true := by
  apply h.finished_sorted.imp_of_mem
  intro x y _ hy hxy hle
  rw [decide_eq_true_eq] at hle ⊢
  apply (hxy node (by simp) _).le
  apply lt_of_le_of_ne hle
  intro heq
  have hyn := h.order_inj node y (h.order_ne_zero h.node_in.1) heq
  have hfin := ((h.finished_iff y).mp hy).2
  rw [← hyn, h.node_in.2] at hfin
  cases hfin

omit [DecidableEq α] in
lemma Search.mem_members {x : α} :
    x ∈ node :: popped node t ↔ t.inStack x = true ∧ t.visitedOrder node ≤ t.visitedOrder x := by
  rw [List.mem_cons, popped, mem_takeWhile_iff h.pairwise_popped, h.finished_iff,
    decide_eq_true_eq]
  constructor
  · rintro (rfl | ⟨⟨hx, -⟩, hle⟩)
    · exact ⟨h.node_in.1, le_refl _⟩
    · exact ⟨hx, hle⟩
  · rintro ⟨hx, hle⟩
    cases hsecond : t.secondTimeVisited x with
    | true => exact Or.inr ⟨⟨hx, rfl⟩, hle⟩
    | false =>
      left
      rcases List.mem_cons.mp ((h.opened_iff x).mpr ⟨hx, hsecond⟩) with rfl | hmem
      · rfl
      · have := h.node_lt hmem
        omega

omit [DecidableEq α] in
lemma Search.member_low {x : α} (hx : x ∈ popped node t) :
    t.lowestOrder x < t.visitedOrder x ∧ t.lowestOrder node ≤ t.lowestOrder x ∧
      Reach outNodes node x := by
  rw [popped, mem_takeWhile_iff h.pairwise_popped, decide_eq_true_eq] at hx
  obtain ⟨hlow, g, hg, hlt, hmax, hglow, hreach⟩ := h.finished_low x hx.1
  have hnx : t.visitedOrder node < t.visitedOrder x := by
    apply lt_of_le_of_ne hx.2
    intro heq
    have hxn := h.order_inj node x (h.order_ne_zero h.node_in.1) heq
    have hfin := ((h.finished_iff x).mp hx.1).2
    rw [← hxn, h.node_in.2] at hfin
    cases hfin
  have hle := hmax node (by simp) hnx
  rcases List.mem_cons.mp hg with rfl | hg
  · exact ⟨hlow, hglow, hreach⟩
  · have := h.node_lt hg
    omega

omit [DecidableEq α] in
lemma Search.reach_member {x : α} (hx : x ∈ node :: popped node t) : Reach outNodes node x := by
  rcases List.mem_cons.mp hx with rfl | hx
  · exact Relation.ReflTransGen.refl
  · exact (h.member_low hx).2.2

omit [DecidableEq α] in
lemma Search.member_reach (hroot : t.lowestOrder node = t.visitedOrder node) {x : α}
    (hx : x ∈ node :: popped node t) : Reach outNodes x node := by
  induction hn : t.visitedOrder x using Nat.strongRecOn generalizing x with
  | _ n ih =>
    rcases List.mem_cons.mp hx with rfl | hpop
    · exact Relation.ReflTransGen.refl
    · obtain ⟨hlow, hnode, -⟩ := h.member_low hpop
      obtain ⟨y, hy, hyorder, hreach⟩ := h.low_reach x (h.mem_members.mp hx).1
      have hmem : y ∈ node :: popped node t := h.mem_members.mpr ⟨hy, by omega⟩
      exact hreach.trans (ih _ (by omega) hmem rfl)

omit [DecidableEq α] in
lemma Search.member_edge {rest : List (α × Option α)}
    (hstack : t.stack = (node, opened.head?) :: rest)
    (hchain : Chain outNodes t.visitedOrder rest opened)
    (hroot : t.lowestOrder node = t.visitedOrder node) {x y : α}
    (hx : x ∈ node :: popped node t) (hy : y ∈ outNodes x) :
    y ∈ node :: popped node t ∨ t.sccNode y ≠ none := by
  have hyne : t.visitedOrder y ≠ 0 := by
    rcases List.mem_cons.mp hx with rfl | hpop
    · exact h.node_edge hstack hchain hy
    · rw [popped, mem_takeWhile_iff h.pairwise_popped] at hpop
      exact h.finished_edge x hpop.1 y hy
  by_cases hscc : t.sccNode y = none
  · left
    have hyin : t.inStack y = true := (h.inStack_iff y).mpr ⟨hyne, hscc⟩
    have hxin := h.mem_members.mp hx
    apply h.mem_members.mpr ⟨hyin, ?_⟩
    by_contra hlt
    have hlow := h.low_edge x y hxin.1 hy hyin (by omega)
    have hnode : t.lowestOrder node ≤ t.lowestOrder x := by
      rcases List.mem_cons.mp hx with rfl | hpop
      · exact le_refl _
      · exact (h.member_low hpop).2.1
    omega
  · exact Or.inr hscc

lemma Search.newSCC {rest : List (α × Option α)}
    (hstack : t.stack = (node, opened.head?) :: rest)
    (hchain : Chain outNodes t.visitedOrder rest opened)
    (hroot : t.lowestOrder node = t.visitedOrder node) :
    Search outNodes (newSCC node (closing t node opened.head? rest)) opened := by
  obtain ⟨hin, hsecond⟩ := h.node_in
  have hpop : popped node (closing t node opened.head? rest) = popped node t := rfl
  -- what stays has a lower order
  have hin' : ∀ x, (SCC.newSCC node (closing t node opened.head? rest)).inStack x = true ↔
      t.inStack x = true ∧ t.visitedOrder x < t.visitedOrder node := by
    intro x
    simp only [SCC.newSCC, hpop]
    by_cases hx : x ∈ node :: popped node t
    · rw [if_pos hx]
      have hle := (h.mem_members.mp hx).2
      simp only [Bool.false_eq_true, false_iff, not_and]
      omega
    · rw [if_neg hx]
      rw [h.mem_members] at hx
      constructor
      · intro hxin
        have hxin' : t.inStack x = true := hxin
        refine ⟨hxin', ?_⟩
        by_contra hge
        exact hx ⟨hxin', by omega⟩
      · exact fun hxin => hxin.1
  have hstay : ∀ x, x ∈ (SCC.newSCC node (closing t node opened.head? rest)).visitStack ↔
      x ∈ t.visitStack ∧ t.visitedOrder x < t.visitedOrder node := by
    intro x
    have hdrop := mem_dropWhile_iff h.pairwise_popped (x := x)
    rw [decide_eq_false_iff_not, Nat.not_le] at hdrop
    exact hdrop
  have hscc : ∀ x, (SCC.newSCC node (closing t node opened.head? rest)).sccNode x =
      if x ∈ node :: popped node t then some t.numOfSccs else t.sccNode x := fun x => rfl
  have hsecond' : ∀ x, Function.update t.secondTimeVisited node true x = true ↔
      x = node ∨ t.secondTimeVisited x = true := fun _ => update_true_iff
  -- the parent already reaches lower than the node
  have hlow : ∀ x, t.inStack x = true → lowered t node opened.head? x = t.lowestOrder x := by
    intro x hx
    cases hp : opened.head? with
    | none => rfl
    | some p =>
      rw [lowered, Function.update_apply]
      split_ifs with hxp
      · subst hxp
        have hle := h.low_le x hx
        have hlt := h.node_lt (List.mem_of_mem_head? hp)
        exact min_eq_left (by omega)
      · rfl
  have hopened_in : ∀ g ∈ opened, t.inStack g = true := by
    intro g hg
    exact ((h.opened_iff g).mp (List.mem_cons_of_mem _ hg)).1
  refine ⟨hchain, ?_, ?_, ?_, h.order_le, h.order_inj, ?_,
    (List.pairwise_cons.mp h.opened_sorted).2, ?_, ?_, ?_, ?_, ?_, ?_, ?_, ?_, ?_, ?_, ?_⟩
  · -- inStack_iff
    intro x
    rw [hin', hscc]
    have hiff := h.inStack_iff x
    have hmem := h.mem_members (x := x)
    constructor
    · rintro ⟨hxin, hlt⟩
      rw [if_neg (fun hc => by have := (hmem.mp hc).2; omega)]
      exact hiff.mp hxin
    · rintro ⟨hne, hnone⟩
      split_ifs at hnone with hc
      have hxin := hiff.mpr ⟨hne, hnone⟩
      refine ⟨hxin, ?_⟩
      by_contra hge
      exact hc (hmem.mpr ⟨hxin, by omega⟩)
  · -- scc_visited
    intro x hx
    rw [hscc] at hx
    split_ifs at hx with hc
    · exact h.order_ne_zero (h.mem_members.mp hc).1
    · exact h.scc_visited x hx
  · -- second_visited
    intro x hx
    rcases (hsecond' x).mp hx with rfl | hx
    · exact h.order_ne_zero hin
    · exact h.second_visited x hx
  · -- opened_iff
    intro x
    rw [hin']
    constructor
    · intro hx
      obtain ⟨hxin, hxsecond⟩ := (h.opened_iff_of_close x).mp hx
      exact ⟨⟨hxin, h.node_lt hx⟩, hxsecond⟩
    · rintro ⟨⟨hxin, -⟩, hxsecond⟩
      exact (h.opened_iff_of_close x).mpr ⟨hxin, hxsecond⟩
  · -- finished_iff
    intro x
    have hupdate := hsecond' x
    rw [hin', hstay, h.finished_iff]
    change _ ↔ _ ∧ Function.update t.secondTimeVisited node true x = true
    rw [hupdate]
    constructor
    · rintro ⟨⟨hxin, hxsecond⟩, hlt⟩
      exact ⟨⟨hxin, hlt⟩, Or.inr hxsecond⟩
    · rintro ⟨⟨hxin, hlt⟩, rfl | hxsecond⟩
      · exact absurd hlt (lt_irrefl _)
      · exact ⟨⟨hxin, hxsecond⟩, hlt⟩
  · -- finished_nodup
    exact h.finished_nodup.sublist (List.dropWhile_sublist _)
  · -- finished_sorted
    apply (h.finished_sorted.sublist (List.dropWhile_sublist _)).imp
    exact fun hxy g hg => hxy g (List.mem_cons_of_mem _ hg)
  · -- old
    intro x hx hxsecond g hg
    obtain ⟨hxne, hfalse⟩ := update_true_eq_false_iff.mp hxsecond
    rw [hscc] at hx
    split_ifs at hx with hc
    · have hpopped := (List.mem_cons.mp hc).resolve_left hxne
      rw [popped, mem_takeWhile_iff h.pairwise_popped] at hpopped
      have hfin := ((h.finished_iff x).mp hpopped.1).2
      rw [hfalse] at hfin
      cases hfin
    · exact h.old x hx hfalse g (List.mem_cons_of_mem _ hg)
  · -- low_le
    intro x hx
    exact (lowered_le t node _ x).trans (h.low_le x ((hin' x).mp hx).1)
  · -- low_reach
    intro x hx
    obtain ⟨hxin, hlt⟩ := (hin' x).mp hx
    obtain ⟨y, hy, hyorder, hreach⟩ := h.low_reach x hxin
    have hle := h.low_le x hxin
    refine ⟨y, (hin' y).mpr ⟨hy, by omega⟩, ?_, hreach⟩
    exact hyorder.trans (hlow x hxin).symm
  · -- low_edge
    intro x y hx hxy hy hlt
    exact (lowered_le t node _ x).trans
      (h.low_edge x y ((hin' x).mp hx).1 hxy ((hin' y).mp hy).1 hlt)
  · -- finished_low
    intro x hx
    obtain ⟨hxfin, hxlt⟩ := (hstay x).mp hx
    have hxin := ((h.finished_iff x).mp hxfin).1
    obtain ⟨hxlow, g, hg, hgx, hmax, hglow, hreach⟩ := h.finished_low x hxfin
    have hlowx : (SCC.newSCC node (closing t node opened.head? rest)).lowestOrder x =
        t.lowestOrder x := hlow x hxin
    rcases List.mem_cons.mp hg with rfl | hg
    · omega
    · have hlowg : (SCC.newSCC node (closing t node opened.head? rest)).lowestOrder g =
          t.lowestOrder g := hlow g (hopened_in g hg)
      rw [hlowx]
      refine ⟨hxlow, g, hg, hgx, fun g' hg' => hmax g' (List.mem_cons_of_mem _ hg'), ?_, hreach⟩
      rw [hlowg]
      exact hglow
  · -- finished_edge
    exact fun x hx => h.finished_edge x ((hstay x).mp hx).1
  · -- opened_edge
    exact fun x hx y hy =>
      h.edge_of_pop hstack (h.order_ne_zero hin) (List.mem_cons_of_mem _ hx) hy
  · -- closed
    intro x y hx hxy
    rw [hscc] at hx ⊢
    by_cases hy : y ∈ node :: popped node t
    · rw [if_pos hy]
      simp
    · rw [if_neg hy]
      split_ifs at hx with hc
      · exact (h.member_edge hstack hchain hroot hc hxy).resolve_left hy
      · exact h.closed x y hx hxy

end Close

end SCC
end Maple
