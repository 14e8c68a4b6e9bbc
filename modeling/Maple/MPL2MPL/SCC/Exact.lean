import Maple.MPL2MPL.SCC.Backward
import Mathlib.Data.List.Nodup
import Mathlib.Algebra.GroupWithZero.Nat

/-!
# The components are exact and in topological order

Each search keeps the components exact; between two searches every visited node has a component.
-/

namespace Maple
namespace SCC

variable {α : Type*} [DecidableEq α] {outNodes : α → List α}

/-! ### The components so far -/

/-- The components that have been built: they are the classes of mutual reachability, and edges
lead to the same or to earlier components. -/
structure Components (outNodes : α → List α) (t : State α) : Prop where
  scc_lt : ∀ x k, t.sccNode x = some k → k < t.numOfSccs
  scc_iff : ∀ x y, t.sccNode x ≠ none → t.sccNode y ≠ none →
    (t.sccNode x = t.sccNode y ↔ Reach outNodes x y ∧ Reach outNodes y x)
  scc_edge : ∀ x y k, t.sccNode x = some k → y ∈ outNodes x → ∃ j ≤ k, t.sccNode y = some j
  ids : t.topologicalVec.map SCCNode.id = List.range t.numOfSccs
  members : ∀ scc ∈ t.topologicalVec, scc.nodes ≠ [] ∧ scc.nodes.Nodup ∧
    ∀ x, x ∈ scc.nodes ↔ t.sccNode x = some scc.id

omit [DecidableEq α] in
lemma Search.closed_reach {t : State α} {opened : List α} (h : Search outNodes t opened) {x y : α}
    (hx : t.sccNode x ≠ none) (hxy : Reach outNodes x y) : t.sccNode y ≠ none := by
  induction hxy with
  | refl => exact hx
  | tail _ hedge ih => exact h.closed _ _ ih hedge

lemma Components.newSCC {t : State α} {node : α} {opened : List α}
    {rest : List (α × Option α)} (hc : Components outNodes t)
    (h : Search outNodes t (node :: opened)) (hstack : t.stack = (node, opened.head?) :: rest)
    (hchain : Chain outNodes t.visitedOrder rest opened)
    (hroot : t.lowestOrder node = t.visitedOrder node) :
    Components outNodes (newSCC node (closing t node opened.head? rest)) := by
  have hscc : ∀ x, (SCC.newSCC node (closing t node opened.head? rest)).sccNode x =
      if x ∈ node :: popped node t then some t.numOfSccs else t.sccNode x := fun x => rfl
  have hnone : ∀ x ∈ node :: popped node t, t.sccNode x = none := by
    intro x hx
    exact ((h.inStack_iff x).mp (h.mem_members.mp hx).1).2
  have hne : ∀ x y, x ∈ node :: popped node t → t.sccNode y ≠ none → ¬Reach outNodes y x := by
    intro x y hx hy hreach
    exact h.closed_reach hy hreach (hnone x hx)
  have hfresh : ∀ x, t.sccNode x ≠ some t.numOfSccs := by
    intro x hx
    exact lt_irrefl _ (hc.scc_lt x _ hx)
  constructor
  · intro x k hx
    rw [hscc] at hx
    split_ifs at hx with hmem
    · cases hx
      exact Nat.lt_succ_self _
    · exact Nat.lt_succ_of_lt (hc.scc_lt x k hx)
  · intro x y hx hy
    rw [hscc] at hx hy
    rw [hscc, hscc]
    by_cases hxm : x ∈ node :: popped node t
    · by_cases hym : y ∈ node :: popped node t
      · rw [if_pos hxm, if_pos hym]
        have hxr := h.member_reach hroot hxm
        have hyr := h.member_reach hroot hym
        exact ⟨fun _ => ⟨hxr.trans (h.reach_member hym), hyr.trans (h.reach_member hxm)⟩,
          fun _ => rfl⟩
      · rw [if_neg hym] at hy
        rw [if_pos hxm, if_neg hym]
        exact ⟨fun heq => absurd heq.symm (hfresh y), fun hr => absurd hr.2 (hne x y hxm hy)⟩
    · rw [if_neg hxm] at hx
      by_cases hym : y ∈ node :: popped node t
      · rw [if_neg hxm, if_pos hym]
        exact ⟨fun heq => absurd heq (hfresh x), fun hr => absurd hr.1 (hne y x hym hx)⟩
      · rw [if_neg hym] at hy
        rw [if_neg hxm, if_neg hym]
        exact hc.scc_iff x y hx hy
  · intro x y k hx hxy
    rw [hscc] at hx
    rw [hscc]
    by_cases hym : y ∈ node :: popped node t
    · rw [if_pos hym]
      split_ifs at hx with hxm
      · cases hx
        exact ⟨_, le_refl _, rfl⟩
      · obtain ⟨j, -, hj⟩ := hc.scc_edge x y k hx hxy
        rw [hnone y hym] at hj
        cases hj
    · rw [if_neg hym]
      split_ifs at hx with hxm
      · cases hx
        have hy := (h.member_edge hstack hchain hroot hxm hxy).resolve_left hym
        obtain ⟨j, hj⟩ := Option.ne_none_iff_exists'.mp hy
        exact ⟨j, (hc.scc_lt y j hj).le, hj⟩
      · exact hc.scc_edge x y k hx hxy
  · simp only [SCC.newSCC, closing, List.map_append, hc.ids, List.map_cons, List.map_nil,
      List.range_succ]
  · intro scc hmem
    rcases List.mem_append.mp hmem with hmem | hmem
    · obtain ⟨hnil, hnodup, hiff⟩ := hc.members scc hmem
      refine ⟨hnil, hnodup, ?_⟩
      intro x
      rw [hiff x, hscc]
      split_ifs with hxm
      · rw [hnone x hxm]
        have hid : scc.id ∈ List.range t.numOfSccs := by
          rw [← hc.ids]
          exact List.mem_map_of_mem hmem
        rw [List.mem_range] at hid
        simp only [reduceCtorEq, Option.some.injEq, false_iff]
        omega
      · exact Iff.rfl
    · rw [List.mem_singleton] at hmem
      subst hmem
      refine ⟨by simp, ?_, ?_⟩
      · apply List.nodup_cons.mpr ⟨?_, h.finished_nodup.sublist (List.takeWhile_sublist _)⟩
        intro hmem
        have hfin := ((h.finished_iff node).mp ((List.takeWhile_sublist _).mem hmem)).2
        rw [h.node_in.2] at hfin
        cases hfin
      · intro x
        rw [hscc]
        change x ∈ node :: popped node t ↔ _ = some t.numOfSccs
        split_ifs with hxm
        · exact ⟨fun _ => rfl, fun _ => hxm⟩
        · exact ⟨fun hx => absurd hx hxm, fun hx => absurd hx (hfresh x)⟩

/-! ### The loop of BuildSCCDFS -/

/-- The nodes of a graph and their successors, which are nodes too. -/
structure Graph (α : Type*) where
  nodes : List α
  outNodes : α → List α
  closed : ∀ x ∈ nodes, ∀ y ∈ outNodes x, y ∈ nodes

/-- The invariant of the loop that started in `t₀` with a root. -/
structure LoopInv (g : Graph α) (rootNode : α) (t₀ t : State α) : Prop where
  search : ∃ opened, Search g.outNodes t opened
  components : Components g.outNodes t
  visited : ∀ x, t.visitedOrder x ≠ 0 → x ∈ g.nodes
  stack : ∀ e ∈ t.stack, e.1 ∈ g.nodes
  root : t.visitedOrder rootNode ≠ 0 ∨ (rootNode, none) ∈ t.stack
  kept : ∀ x, t₀.sccNode x ≠ none → t.sccNode x ≠ none
  neighbours : t.outScc = t₀.outScc ∧ t.inScc = t₀.inScc

/-- A bound for the rounds that are still to come: a first visit pushes at most the successors. -/
def rounds (g : Graph α) (t : State α) : Nat :=
  (g.nodes.map fun x => if t.visitedOrder x = 0 then (g.outNodes x).length + 1 else 0).sum +
    t.stack.length

lemma sum_visit_le {order : α → Nat} (f : α → Nat) {nodes : List α} {node : α} {k : Nat}
    (hk : k ≠ 0) (hnode : node ∈ nodes) (hzero : order node = 0) :
    (nodes.map fun x => if Function.update order node k x = 0 then f x else 0).sum + f node ≤
      (nodes.map fun x => if order x = 0 then f x else 0).sum := by
  have hle : ∀ nodes : List α,
      (nodes.map fun x => if Function.update order node k x = 0 then f x else 0).sum ≤
        (nodes.map fun x => if order x = 0 then f x else 0).sum := by
    intro nodes
    induction nodes with
    | nil => exact le_refl _
    | cons x nodes ih =>
      simp only [List.map_cons, List.sum_cons]
      apply Nat.add_le_add _ ih
      by_cases hx : x = node
      · rw [hx, Function.update_self, if_neg hk]
        exact Nat.zero_le _
      · rw [Function.update_of_ne hx]
  induction nodes with
  | nil => exact absurd hnode List.not_mem_nil
  | cons x nodes ih =>
    simp only [List.map_cons, List.sum_cons]
    by_cases hx : x = node
    · subst hx
      have := hle nodes
      rw [Function.update_self, if_neg hk, if_pos hzero]
      omega
    · have := ih ((List.mem_cons.mp hnode).resolve_left (Ne.symm hx))
      rw [Function.update_of_ne hx]
      omega

lemma visitForward_frame (outNodes : α → List α) (node : α) (t : State α) :
    ∃ low pushes, visitForward outNodes node t =
        { t with
          visitIndex := t.visitIndex + 1
          visitedOrder := Function.update t.visitedOrder node (t.visitIndex + 1)
          lowestOrder := low
          inStack := Function.update t.inStack node true
          stack := pushes ++ t.stack } ∧
      (∀ e ∈ pushes, e.1 ∈ outNodes node) ∧ pushes.length ≤ (outNodes node).length := by
  obtain ⟨low, pushes, heq, -, -, -, -, hpushes, hlen⟩ :=
    foldl_visitSucc node (outNodes node).reverse
      { t with
        visitIndex := t.visitIndex + 1
        visitedOrder := Function.update t.visitedOrder node (t.visitIndex + 1)
        lowestOrder := Function.update t.lowestOrder node (t.visitIndex + 1)
        inStack := Function.update t.inStack node true }
  refine ⟨_, pushes, heq, ?_, by simpa using hlen⟩
  intro e he
  obtain ⟨v, hv, rfl, -⟩ := hpushes e he
  exact List.mem_reverse.mp hv

lemma LoopInv.step {g : Graph α} {rootNode : α} {t₀ t : State α} (h : LoopInv g rootNode t₀ t)
    (hne : t.stack ≠ []) :
    LoopInv g rootNode t₀ (dfsStep g.outNodes t) ∧ rounds g (dfsStep g.outNodes t) < rounds g t := by
  obtain ⟨opened, hsearch⟩ := h.search
  cases hstack : t.stack with
  | nil => exact absurd hstack hne
  | cons top rest =>
    obtain ⟨node, parent⟩ := top
    have hnode : node ∈ g.nodes := h.stack (node, parent) (by simp [hstack])
    have hrest : ∀ e ∈ rest, e.1 ∈ g.nodes := fun e he => h.stack e (by simp [hstack, he])
    by_cases hzero : t.visitedOrder node = 0
    · -- the first visit
      obtain ⟨low, pushes, heq, hpushes, hlen⟩ := visitForward_frame g.outNodes node t
      have hstep : dfsStep g.outNodes t = visitForward g.outNodes node t := by
        simp only [dfsStep, hstack, if_pos hzero]
      rw [hstep]
      refine ⟨⟨⟨_, hsearch.forward hstack hzero⟩, ?_, ?_, ?_, ?_, ?_, ?_⟩, ?_⟩
      · rw [heq]
        exact ⟨h.components.scc_lt, h.components.scc_iff, h.components.scc_edge, h.components.ids,
          h.components.members⟩
      · rw [heq]
        intro x hx
        by_cases hxn : x = node
        · exact hxn ▸ hnode
        · simp only [Function.update_of_ne hxn] at hx
          exact h.visited x hx
      · rw [heq]
        intro e he
        rcases List.mem_append.mp he with he | he
        · exact g.closed node hnode _ (hpushes e he)
        · exact h.stack e he
      · rw [heq]
        rcases h.root with hroot | hroot
        · left
          have hrn : rootNode ≠ node := by
            rintro rfl
            exact hroot hzero
          simp only [Function.update_of_ne hrn]
          exact hroot
        · exact Or.inr (List.mem_append_right _ hroot)
      · rw [heq]
        exact h.kept
      · rw [heq]
        exact h.neighbours
      · have hsum := sum_visit_le (fun x => (g.outNodes x).length + 1)
          (Nat.add_one_ne_zero t.visitIndex) hnode hzero
        rw [heq]
        simp only [rounds, List.length_append]
        omega
    · -- the node is popped
      have hroot : t.visitedOrder rootNode ≠ 0 ∨ (rootNode, none) ∈ rest := by
        rcases h.root with hroot | hroot
        · exact Or.inl hroot
        · rw [hstack] at hroot
          rcases List.mem_cons.mp hroot with heq | hroot
          · exact Or.inl ((Prod.mk.inj heq).1 ▸ hzero)
          · exact Or.inr hroot
      have hstep : dfsStep g.outNodes t = visitBackward node parent { t with stack := rest } := by
        simp only [dfsStep, hstack, if_neg hzero]
      rw [hstep]
      rcases hsearch.backward_cases hstack hzero with
        ⟨hsecond, hchain⟩ | ⟨opened', rfl, rfl, hedge, -, hchain⟩
      · have hskip : visitBackward node parent { t with stack := rest } =
            { t with stack := rest } := if_pos hsecond
        rw [hskip]
        refine ⟨⟨⟨_, hsearch.skip hstack hzero hchain⟩, ?_, h.visited, hrest, hroot, h.kept,
          h.neighbours⟩, ?_⟩
        · exact ⟨h.components.scc_lt, h.components.scc_iff, h.components.scc_edge,
            h.components.ids, h.components.members⟩
        · simp only [rounds, hstack, List.length_cons]
          omega
      · rw [visitBackward_eq _ rest hsearch.node_in.2 fun p hp => hsearch.parent_ne hp]
        split_ifs with hlow
        · refine ⟨⟨⟨_, hsearch.newSCC hstack hchain hlow⟩,
            h.components.newSCC hsearch hstack hchain hlow, h.visited, hrest, hroot, ?_,
            h.neighbours⟩, ?_⟩
          · intro x hx
            have hold := h.kept x hx
            change (if x ∈ node :: popped node t then some t.numOfSccs else t.sccNode x) ≠ none
            split_ifs
            · simp
            · exact hold
          · exact Nat.add_lt_add_left (hstack ▸ Nat.lt_succ_self rest.length) _
        · refine ⟨⟨⟨_, hsearch.finish hstack hchain hedge hlow⟩, ?_, h.visited, hrest, hroot,
            h.kept, h.neighbours⟩, ?_⟩
          · exact ⟨h.components.scc_lt, h.components.scc_iff, h.components.scc_edge,
              h.components.ids, h.components.members⟩
          · exact Nat.add_lt_add_left (hstack ▸ Nat.lt_succ_self rest.length) _

/-! ### BuildSCC -/

/-- Between two searches every visited node has a component. -/
structure Idle (g : Graph α) (t : State α) : Prop where
  assigned : ∀ x, t.visitedOrder x ≠ 0 ↔ t.sccNode x ≠ none
  inStack : ∀ x, t.inStack x = false
  visitStack : t.visitStack = []
  order_le : ∀ x, t.visitedOrder x ≤ t.visitIndex
  order_inj : ∀ x y, t.visitedOrder x ≠ 0 → t.visitedOrder x = t.visitedOrder y → x = y
  components : Components g.outNodes t
  visited : ∀ x, t.visitedOrder x ≠ 0 → x ∈ g.nodes
  neighbours : t.outScc = (fun _ => ∅) ∧ t.inScc = (fun _ => ∅)

omit [DecidableEq α] in
lemma Idle.start (g : Graph α) : Idle g start :=
  ⟨fun _ => by simp [SCC.start], fun _ => rfl, rfl, fun _ => Nat.zero_le _, fun _ _ h => absurd rfl h,
    ⟨fun _ _ h => absurd h (by simp [SCC.start]), fun _ _ h => absurd rfl h,
      fun _ _ _ h => absurd h (by simp [SCC.start]), rfl, fun _ h => absurd h List.not_mem_nil⟩,
    fun _ h => absurd rfl h, rfl, rfl⟩

omit [DecidableEq α] in
lemma Idle.loopInv {g : Graph α} {t : State α} (h : Idle g t) {rootNode : α}
    (hmem : rootNode ∈ g.nodes) (hnone : t.sccNode rootNode = none) :
    LoopInv g rootNode t
      { t with stack := [(rootNode, none)], secondTimeVisited := fun _ => false } := by
  have hzero : t.visitedOrder rootNode = 0 := by
    by_contra hne
    exact (h.assigned rootNode).mp hne hnone
  have hin : ∀ x, ¬t.inStack x = true := fun x => by simp [h.inStack x]
  refine ⟨⟨[], Chain.root rootNode hzero, ?_, ?_, ?_, h.order_le, h.order_inj, ?_, List.Pairwise.nil,
    ?_, ?_, ?_, ?_, ?_, ?_, ?_, ?_, ?_, ?_, ?_⟩, ?_, h.visited, ?_, Or.inr (by simp), fun _ hx => hx,
    rfl, rfl⟩
  · intro x
    have hx := h.assigned x
    simp only [h.inStack x, Bool.false_eq_true, false_iff, not_and]
    exact fun hne hc => hx.mp hne hc
  · exact fun x hx => (h.assigned x).mpr hx
  · exact fun x hx => absurd hx (by simp)
  · exact fun x => ⟨fun hx => absurd hx List.not_mem_nil, fun hx => absurd hx.1 (hin x)⟩
  · intro x
    simp only [h.visitStack, List.not_mem_nil, false_iff]
    exact fun hx => hin x hx.1
  · rw [h.visitStack]
    exact List.nodup_nil
  · rw [h.visitStack]
    exact List.Pairwise.nil
  · exact fun x _ _ y hy => absurd hy List.not_mem_nil
  · exact fun x hx => absurd hx (hin x)
  · exact fun x hx => absurd hx (hin x)
  · exact fun x y hx => absurd hx (hin x)
  · simp [h.visitStack]
  · simp [h.visitStack]
  · simp
  · intro x y hx hy
    obtain ⟨k, hk⟩ := Option.ne_none_iff_exists'.mp hx
    obtain ⟨j, -, hj⟩ := h.components.scc_edge x y k hk hy
    change t.sccNode y ≠ none
    rw [hj]
    simp
  · exact ⟨h.components.scc_lt, h.components.scc_iff, h.components.scc_edge, h.components.ids,
      h.components.members⟩
  · intro e he
    rw [List.mem_singleton.mp he]
    exact hmem

omit [DecidableEq α] in
lemma Search.done {t : State α} {opened : List α} (h : Search outNodes t opened)
    (hstack : t.stack = []) : t.visitStack = [] ∧ ∀ x, t.inStack x = false := by
  have hopened : opened = [] := by
    have hchain := h.chain
    rw [hstack] at hchain
    cases hchain
    rfl
  subst hopened
  have hfin : t.visitStack = [] := by
    apply List.eq_nil_iff_forall_not_mem.mpr
    intro x hx
    obtain ⟨-, g, hg, -⟩ := h.finished_low x hx
    exact List.not_mem_nil hg
  refine ⟨hfin, ?_⟩
  intro x
  by_contra hx
  have hin : t.inStack x = true := by simpa using hx
  cases hsecond : t.secondTimeVisited x with
  | true =>
    have hmem := (h.finished_iff x).mpr ⟨hin, hsecond⟩
    rw [hfin] at hmem
    exact List.not_mem_nil hmem
  | false => exact List.not_mem_nil ((h.opened_iff x).mpr ⟨hin, hsecond⟩)

lemma buildSCCDFS_settles {g : Graph α} {t : State α} (h : Idle g t) {rootNode : α}
    (hmem : rootNode ∈ g.nodes) (hnone : t.sccNode rootNode = none) :
    ∃ t', Outcome.Settles (fun fuel => buildSCCDFS g.outNodes rootNode fuel t) (.done t') ∧
      Idle g t' ∧ t'.sccNode rootNode ≠ none ∧
      ∀ x, t.sccNode x ≠ none → t'.sccNode x ≠ none := by
  have hstep : ∀ s, LoopInv g rootNode t s → (!s.stack.isEmpty) = true →
      LoopInv g rootNode t (dfsStep g.outNodes s) ∧ rounds g (dfsStep g.outNodes s) < rounds g s :=
    fun s hs hcond => hs.step (by simpa using hcond)
  obtain ⟨t', hsettles, hinv, hcond⟩ :=
    whileLoop_settles (LoopInv g rootNode t) (rounds g) hstep (h.loopInv hmem hnone)
  have hstack : t'.stack = [] := by simpa using hcond
  obtain ⟨opened, hsearch⟩ := hinv.search
  obtain ⟨hvisit, hin⟩ := hsearch.done hstack
  have hassigned : ∀ x, t'.visitedOrder x ≠ 0 ↔ t'.sccNode x ≠ none := by
    intro x
    refine ⟨?_, hsearch.scc_visited x⟩
    intro hx hc
    have hxin := (hsearch.inStack_iff x).mpr ⟨hx, hc⟩
    rw [hin x] at hxin
    cases hxin
  refine ⟨t', hsettles, ⟨hassigned, hin, hvisit, hsearch.order_le, hsearch.order_inj,
    hinv.components, hinv.visited, ?_⟩, ?_, hinv.kept⟩
  · rw [hinv.neighbours.1, hinv.neighbours.2]
    exact h.neighbours
  · rcases hinv.root with hroot | hroot
    · exact (hassigned rootNode).mp hroot
    · rw [hstack] at hroot
      exact absurd hroot List.not_mem_nil

lemma buildAll_settles {g : Graph α} {nodes : List α} (hnodes : ∀ x ∈ nodes, x ∈ g.nodes)
    {t : State α} (h : Idle g t) :
    ∃ t', Outcome.Settles (fun fuel => buildAll g.outNodes nodes fuel t) (.done t') ∧
      Idle g t' ∧ (∀ x ∈ nodes, t'.sccNode x ≠ none) ∧
      ∀ x, t.sccNode x ≠ none → t'.sccNode x ≠ none := by
  induction nodes generalizing t with
  | nil => exact ⟨t, Outcome.settles_const (by simp), h, by simp, fun _ hx => hx⟩
  | cons node nodes ih =>
    have hrest : ∀ x ∈ nodes, x ∈ g.nodes := fun x hx => hnodes x (by simp [hx])
    by_cases hnone : t.sccNode node = none
    · obtain ⟨t₁, hdfs, hidle, hnode, hkept⟩ := buildSCCDFS_settles h (hnodes node (by simp)) hnone
      obtain ⟨t', hall, hidle', hassigned, hkept'⟩ := ih hrest hidle
      refine ⟨t', ?_, hidle', ?_, fun x hx => hkept' x (hkept x hx)⟩
      · simp only [buildAll, if_pos hnone]
        exact hdfs.bind hall
      · intro x hx
        rcases List.mem_cons.mp hx with rfl | hx
        · exact hkept' x hnode
        · exact hassigned x hx
    · obtain ⟨t', hall, hidle', hassigned, hkept⟩ := ih hrest h
      refine ⟨t', ?_, hidle', ?_, hkept⟩
      · simp only [buildAll, if_neg hnone]
        exact hall
      · intro x hx
        rcases List.mem_cons.mp hx with rfl | hx
        · exact hkept x hnone
        · exact hassigned x hx

/-! ### Setup -/

/-- The state with other neighbours of the components. -/
def State.withNeighbours (t : State α) (outScc inScc : Nat → Finset Nat) : State α :=
  { t with outScc := outScc, inScc := inScc }

/-- The neighbours `out` and `into` with the edges `cross`, in both directions, give `out'` and
`into'`. -/
def Adds (cross : Nat → Nat → Prop) (out into out' into' : Nat → Finset Nat) : Prop :=
  ∀ a b, (b ∈ out' a ↔ b ∈ out a ∨ cross a b) ∧ (a ∈ into' b ↔ a ∈ into b ∨ cross a b)

omit [DecidableEq α] in
lemma foldlM_adds {β : Type*} {f : State α → β → Option (State α)} {t : State α} {vs : List β}
    {cross : β → Nat → Nat → Prop}
    (h : ∀ v ∈ vs, ∀ out into, ∃ out' into', f (t.withNeighbours out into) v =
      some (t.withNeighbours out' into') ∧ Adds (cross v) out into out' into')
    (out into : Nat → Finset Nat) :
    ∃ out' into', vs.foldlM f (t.withNeighbours out into) = some (t.withNeighbours out' into') ∧
      Adds (fun a b => ∃ v ∈ vs, cross v a b) out into out' into' := by
  induction vs generalizing out into with
  | nil => exact ⟨out, into, rfl, fun a b => by simp⟩
  | cons v vs ih =>
    obtain ⟨out₁, into₁, hstep, hadds₁⟩ := h v (by simp) out into
    obtain ⟨out₂, into₂, hfold, hadds₂⟩ := ih (fun w hw => h w (by simp [hw])) out₁ into₁
    refine ⟨out₂, into₂, ?_, ?_⟩
    · rw [List.foldlM_cons, hstep]
      exact hfold
    · intro a b
      rw [(hadds₂ a b).1, (hadds₂ a b).2, (hadds₁ a b).1, (hadds₁ a b).2]
      constructor
      · simp only [List.exists_mem_cons_iff, or_assoc]
      · simp only [List.exists_mem_cons_iff, or_assoc]

omit [DecidableEq α] in
lemma setupEdge_adds {scc : SCCNode α} {t : State α} {v : α} (hv : t.sccNode v ≠ none)
    (out into : Nat → Finset Nat) :
    ∃ out' into', setupEdge scc (t.withNeighbours out into) v =
        some (t.withNeighbours out' into') ∧
      Adds (fun a b => a = scc.id ∧ b ≠ scc.id ∧ t.sccNode v = some b) out into out' into' := by
  obtain ⟨k, hk⟩ := Option.ne_none_iff_exists'.mp hv
  have hv' : (t.withNeighbours out into).sccNode v = some k := hk
  by_cases hself : k = scc.id
  · refine ⟨out, into, ?_, ?_⟩
    · simp only [setupEdge, hv', if_pos hself]
    · intro a b
      have hnot : ¬(a = scc.id ∧ b ≠ scc.id ∧ t.sccNode v = some b) := by
        rintro ⟨-, hb, heq⟩
        rw [hk] at heq
        exact hb ((Option.some.inj heq).symm.trans hself)
      constructor
      · simp only [hnot, or_false]
      · simp only [hnot, or_false]
  · refine ⟨Function.update out scc.id (insert k (out scc.id)),
      Function.update into k (insert scc.id (into k)), ?_, ?_⟩
    · simp only [setupEdge, hv', if_neg hself]
      rfl
    · intro a b
      have hcross : (a = scc.id ∧ b ≠ scc.id ∧ t.sccNode v = some b) ↔ a = scc.id ∧ b = k := by
        rw [hk, Option.some.injEq]
        constructor
        · rintro ⟨ha, -, hb⟩
          exact ⟨ha, hb.symm⟩
        · rintro ⟨ha, hb⟩
          exact ⟨ha, hb ▸ hself, hb.symm⟩
      simp only [hcross, Function.update_apply]
      constructor
      · split_ifs with ha
        · simp [ha, or_comm]
        · simp [ha]
      · split_ifs with hb
        · simp [hb, or_comm]
        · simp [hb]

omit [DecidableEq α] in
lemma verifyAndSetup_adds {scc : SCCNode α} {t : State α} (hne : scc.nodes ≠ [])
    (hmem : ∀ x ∈ scc.nodes, t.sccNode x = some scc.id)
    (hout : ∀ x ∈ scc.nodes, ∀ y ∈ outNodes x, t.sccNode y ≠ none)
    (out into : Nat → Finset Nat) :
    ∃ out' into', verifyAndSetup outNodes (t.withNeighbours out into) scc =
        some (t.withNeighbours out' into') ∧
      Adds (fun a b => ∃ y ∈ scc.nodes.flatMap outNodes,
        a = scc.id ∧ b ≠ scc.id ∧ t.sccNode y = some b) out into out' into' := by
  have hverify : verify scc (t.withNeighbours out into) = true := by
    simp only [verify, Bool.and_eq_true, Bool.not_eq_true', List.isEmpty_eq_false_iff,
      List.all_eq_true, decide_eq_true_eq]
    exact ⟨hne, hmem⟩
  rw [verifyAndSetup, if_pos hverify]
  apply foldlM_adds
  intro y hy
  obtain ⟨x, hx, hxy⟩ := List.mem_flatMap.mp hy
  exact setupEdge_adds (hout x hx y hxy)

lemma idxOf_reverse_range {n a : Nat} (ha : a < n) : (List.range n).reverse.idxOf a = n - 1 - a := by
  have hlt : n - 1 - a < (List.range n).reverse.length := by
    simp only [List.length_reverse, List.length_range]
    omega
  have hget : (List.range n).reverse[n - 1 - a] = a := by
    simp only [List.getElem_reverse, List.getElem_range, List.length_range]
    omega
  have hnodup : (List.range n).reverse.Nodup := List.nodup_reverse.mpr List.nodup_range
  conv_lhs => rw [← hget]
  exact hnodup.idxOf_getElem _ hlt

/-- What `BuildSCC` promises about the components and their order. -/
structure Exact (g : Graph α) (t : State α) : Prop where
  same_scc : ∀ x ∈ g.nodes, ∀ y ∈ g.nodes,
    t.sccNode x = t.sccNode y ↔ Reach g.outNodes x y ∧ Reach g.outNodes y x
  one_scc : ∀ x ∈ g.nodes, ∃ scc ∈ t.topologicalVec, t.sccNode x = some scc.id ∧
    scc.nodes.count x = 1 ∧ ∀ scc' ∈ t.topologicalVec, x ∈ scc'.nodes → scc' = scc
  order : ∀ x ∈ g.nodes, ∀ y ∈ g.outNodes x, ∀ a b, t.sccNode x = some a → t.sccNode y = some b →
    a ≠ b → (t.topologicalVec.map SCCNode.id).idxOf a < (t.topologicalVec.map SCCNode.id).idxOf b
  outScc : ∀ a b, b ∈ t.outScc a ↔
    a ≠ b ∧ ∃ x ∈ g.nodes, ∃ y ∈ g.outNodes x, t.sccNode x = some a ∧ t.sccNode y = some b
  inScc : ∀ a b, a ∈ t.inScc b ↔ b ∈ t.outScc a

lemma Components.one_scc {t : State α} (h : Components outNodes t) {x : α}
    (hx : t.sccNode x ≠ none) :
    ∃ scc ∈ t.topologicalVec, t.sccNode x = some scc.id ∧ scc.nodes.count x = 1 ∧
      ∀ scc' ∈ t.topologicalVec, x ∈ scc'.nodes → scc' = scc := by
  obtain ⟨k, hk⟩ := Option.ne_none_iff_exists'.mp hx
  have hid : k ∈ t.topologicalVec.map SCCNode.id := by
    rw [h.ids]
    exact List.mem_range.mpr (h.scc_lt x k hk)
  obtain ⟨scc, hscc, rfl⟩ := List.mem_map.mp hid
  obtain ⟨-, hnodup, hiff⟩ := h.members scc hscc
  refine ⟨scc, hscc, hk, List.count_eq_one_of_mem hnodup ((hiff x).mpr hk), ?_⟩
  intro scc' hscc' hx'
  have heq := ((h.members scc' hscc').2.2 x).mp hx'
  rw [hk] at heq
  apply List.inj_on_of_nodup_map _ hscc' hscc (Option.some.inj heq).symm
  rw [h.ids]
  exact List.nodup_range

/-- `BuildSCC` ends; the components are the classes of mutual reachability, in topological order,
and their neighbours are the components that edges connect. -/
theorem buildSCC_exact (g : Graph α) :
    ∃ t, Outcome.Settles (fun fuel => buildSCC g.outNodes g.nodes fuel) (.done t) ∧
      Exact g t := by
  obtain ⟨t, hall, hidle, hassigned, -⟩ :=
    buildAll_settles (fun x (hx : x ∈ g.nodes) => hx) (Idle.start g)
  have hc := hidle.components
  have hmem : ∀ x, x ∈ g.nodes ↔ t.sccNode x ≠ none :=
    fun x => ⟨hassigned x, fun hx => hidle.visited x ((hidle.assigned x).mpr hx)⟩
  have hscc : ∀ scc ∈ t.topologicalVec, ∀ out into, ∃ out' into',
      verifyAndSetup g.outNodes (t.withNeighbours out into) scc =
        some (t.withNeighbours out' into') ∧
      Adds (fun a b => ∃ y ∈ scc.nodes.flatMap g.outNodes,
        a = scc.id ∧ b ≠ scc.id ∧ t.sccNode y = some b) out into out' into' := by
    intro scc hscc
    obtain ⟨hne, -, hiff⟩ := hc.members scc hscc
    apply verifyAndSetup_adds hne (fun x hx => (hiff x).mp hx)
    intro x hx y hy
    obtain ⟨j, -, hj⟩ := hc.scc_edge x y scc.id ((hiff x).mp hx) hy
    rw [hj]
    exact Option.some_ne_none j
  obtain ⟨out, into, hfold, hadds⟩ := foldlM_adds hscc t.outScc t.inScc
  refine ⟨{ t.withNeighbours out into with topologicalVec := t.topologicalVec.reverse }, ?_, ?_⟩
  · apply hall.bind
    have hfold' : t.topologicalVec.foldlM (verifyAndSetup g.outNodes) t =
      some (t.withNeighbours out into) := hfold
    simp only [hfold', Outcome.ofOption, Outcome.bind]
    exact Outcome.settles_const (by simp)
  have hcross : ∀ a b, (∃ scc ∈ t.topologicalVec, ∃ y ∈ scc.nodes.flatMap g.outNodes,
      a = scc.id ∧ b ≠ scc.id ∧ t.sccNode y = some b) ↔
      a ≠ b ∧ ∃ x ∈ g.nodes, ∃ y ∈ g.outNodes x, t.sccNode x = some a ∧ t.sccNode y = some b := by
    intro a b
    constructor
    · rintro ⟨scc, hscc, y, hy, rfl, hb, hyb⟩
      obtain ⟨x, hx, hxy⟩ := List.mem_flatMap.mp hy
      have hxa := ((hc.members scc hscc).2.2 x).mp hx
      refine ⟨hb.symm, x, (hmem x).mpr (by simp [hxa]), y, hxy, hxa, hyb⟩
    · rintro ⟨hab, x, hx, y, hxy, hxa, hyb⟩
      obtain ⟨scc, hscc, hid, -, -⟩ := hc.one_scc ((hmem x).mp hx)
      have ha : a = scc.id := by
        rw [hxa] at hid
        exact Option.some.inj hid
      refine ⟨scc, hscc, y, ?_, ha, ha ▸ hab.symm, hyb⟩
      exact List.mem_flatMap.mpr ⟨x, ((hc.members scc hscc).2.2 x).mpr hid, hxy⟩
  have hempty : ∀ a, t.outScc a = ∅ ∧ t.inScc a = ∅ := by
    intro a
    rw [hidle.neighbours.1, hidle.neighbours.2]
    exact ⟨rfl, rfl⟩
  have hout : ∀ a b, b ∈ out a ↔
      a ≠ b ∧ ∃ x ∈ g.nodes, ∃ y ∈ g.outNodes x, t.sccNode x = some a ∧ t.sccNode y = some b := by
    intro a b
    rw [(hadds a b).1, (hempty a).1]
    simp only [Finset.notMem_empty, false_or]
    exact hcross a b
  constructor
  · intro x hx y hy
    exact hc.scc_iff x y ((hmem x).mp hx) ((hmem y).mp hy)
  · intro x hx
    obtain ⟨scc, hscc, hid, hcount, honly⟩ := hc.one_scc ((hmem x).mp hx)
    refine ⟨scc, List.mem_reverse.mpr hscc, hid, hcount, ?_⟩
    exact fun scc' hscc' hx' => honly scc' (List.mem_reverse.mp hscc') hx'
  · intro x hx y hxy a b ha hb hne
    obtain ⟨j, hj, hyj⟩ := hc.scc_edge x y a ha hxy
    have hba : b ≤ a := by
      have hb' : t.sccNode y = some b := hb
      rw [hyj] at hb'
      cases hb'
      exact hj
    have hlt : a < t.numOfSccs := hc.scc_lt x a ha
    have hids : t.topologicalVec.reverse.map SCCNode.id = (List.range t.numOfSccs).reverse := by
      rw [List.map_reverse, hc.ids]
    change List.idxOf a (t.topologicalVec.reverse.map SCCNode.id) <
      List.idxOf b (t.topologicalVec.reverse.map SCCNode.id)
    rw [hids, idxOf_reverse_range hlt, idxOf_reverse_range (hba.trans_lt hlt)]
    omega
  · exact hout
  · intro a b
    change a ∈ into b ↔ b ∈ out a
    rw [hout, (hadds a b).2, (hempty b).2]
    simp only [Finset.notMem_empty, false_or]
    exact hcross a b

/-- An edge of a node to itself makes its component no neighbour of itself. -/
theorem buildSCC_self_loop :
    let outNodes : Nat → List Nat := fun _ => [0]
    ∃ t, buildSCC outNodes [0] 10 = .done t ∧ 0 ∈ outNodes 0 ∧ t.sccNode 0 = some 0 ∧
      0 ∉ t.outScc 0 ∧ 0 ∉ t.inScc 0 := by
  refine ⟨_, rfl, by decide, rfl, by decide, by decide⟩

end SCC
end Maple
