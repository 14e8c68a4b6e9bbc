import Maple.Lib.Frontier
import Maple.Util.Dominance.Correct

/-!
# Dominance frontiers

`ComputeDomFrontiers` of `dominance.h`. It looks at the nodes with two predecessors or more in their
lists and walks up from each predecessor.
-/

namespace Maple
namespace Dominance

open Dominators (Above Dominates)

/-- A graph all of whose nodes can be reached, but perhaps for the common exit, and so can the
predecessors in the lists. -/
structure ConnectedGraph extends FlowGraph where
  commonExitNode : NodeId
  reachable : ∀ v, nodeVec[v]? = some (some v) → v ≠ commonExitNode → toGraph.Reachable v
  prev_reachable : ∀ v w, toGraph.Reachable w → v ∈ toGraph.getPrevNodesToVisit w →
    toGraph.Reachable v

abbrev DomFrontier := NodeId → Finset NodeId

/-- The loop over `runner`. -/
def runUp (g : Graph) (doms : Doms) (node : NodeId) (fuel : Nat) (domFrontier : DomFrontier)
    (pre : NodeId) : Outcome DomFrontier :=
  (whileLoop (fun s : DomFrontier × NodeId => doms node ≠ some s.2 ∧ s.2 ≠ g.commonEntryNode)
    (fun s => (doms s.2).map fun runner =>
      (Function.update s.1 s.2 (insert node (s.1 s.2)), runner))
    fuel (domFrontier, pre)).bind fun s => .done s.1

/-- The loop over `prevNodes`. -/
def runUpAll (g : Graph) (doms : Doms) (node : NodeId) (fuel : Nat) :
    List NodeId → DomFrontier → Outcome DomFrontier
  | [], domFrontier => .done domFrontier
  | pre :: prevNodes, domFrontier =>
    (runUp g doms node fuel domFrontier pre).bind fun domFrontier =>
      runUpAll g doms node fuel prevNodes domFrontier

/-- The loop of `ComputeDomFrontiers`. -/
def domFrontierLoop (g : Graph) (commonExitNode : NodeId) (doms : Doms) (fuel : Nat) :
    List (Option NodeId) → DomFrontier → Outcome DomFrontier
  | [], domFrontier => .done domFrontier
  | none :: nodes, domFrontier => domFrontierLoop g commonExitNode doms fuel nodes domFrontier
  | some node :: nodes, domFrontier =>
    let prevNodes := g.getPrevNodesToVisit node
    if node = commonExitNode ∨ prevNodes.length < 2 then
      domFrontierLoop g commonExitNode doms fuel nodes domFrontier
    else
      (runUpAll g doms node fuel prevNodes domFrontier).bind fun domFrontier =>
        domFrontierLoop g commonExitNode doms fuel nodes domFrontier

def computeDomFrontiers (g : Graph) (commonExitNode : NodeId) (doms : Doms) (fuel : Nat) :
    Outcome DomFrontier :=
  domFrontierLoop g commonExitNode doms fuel g.nodeVec fun _ => ∅

/-! ### What the loops insert -/

variable {g : FlowGraph} {ids : NodeId → Int} {pid : Nat} {doms : Doms} {node d : NodeId}

lemma passed_succ (ht : IsTree g ids doms) {pre runner next : NodeId}
    (hrunner : Above doms pre runner) (hne : runner ≠ g.commonEntryNode)
    (hnext : doms runner = some next) (a : NodeId) :
    Above doms pre a ∧ ¬ Above doms next a ↔
      (Above doms pre a ∧ ¬ Above doms runner a) ∨ a = runner := by
  have hnot := Dominators.not_above_of_dom ht hnext hne
  rw [Dominators.above_iff hnext, not_or]
  constructor
  · rintro ⟨hpre, hnext⟩
    by_cases ha : a = runner
    · exact Or.inr ha
    · exact Or.inl ⟨hpre, ha, hnext⟩
  · rintro (⟨hpre, -, hnext⟩ | rfl)
    · exact ⟨hpre, hnext⟩
    · exact ⟨hrunner, hnot⟩

lemma runUp_settles (hpo : IsPostOrder g.toGraph ids pid) (ht : IsTree g ids doms)
    (hd : doms node = some d) {pre : NodeId} (hpre : (doms pre).isSome) (habove : Above doms pre d)
    (df : DomFrontier) :
    ∃ df', Outcome.Settles (runUp g.toGraph doms node · df pre) (.done df') ∧
      ∀ a b, b ∈ df' a ↔ b ∈ df a ∨ b = node ∧ Above doms pre a ∧ ¬ Above doms d a := by
  obtain ⟨⟨df', runner⟩, hsettles, ⟨hsome, hup, hend, hmem⟩, hstop⟩ := @whileLoop_settles_of_step _
    (fun s : DomFrontier × NodeId => doms node ≠ some s.2 ∧ s.2 ≠ g.commonEntryNode)
    (fun s => (doms s.2).map fun runner =>
      (Function.update s.1 s.2 (insert node (s.1 s.2)), runner))
    (fun s => (doms s.2).isSome ∧ Above doms pre s.2 ∧ Above doms s.2 d ∧
      ∀ a b, b ∈ s.1 a ↔ b ∈ df a ∨ b = node ∧ Above doms pre a ∧ ¬ Above doms s.2 a)
    (fun s => (ids g.commonEntryNode - ids s.2).toNat) (by
      rintro ⟨df₁, runner⟩ ⟨hsome, hup, hend, hmem⟩ hcond
      have hcond : doms node ≠ some runner ∧ runner ≠ g.commonEntryNode := by simpa using hcond
      obtain ⟨next, hnext⟩ := Option.isSome_iff_exists.mp hsome
      have hnd : d ≠ runner := fun h => hcond.1 (hd.trans (congrArg some h))
      have hlt := ht.rank_lt runner next hnext hcond.2
      have hns := ht.isSome runner next hnext
      have hle := hpo.le_entry (ht.reachable next hns)
      refine ⟨_, by rw [hnext]; rfl, ⟨hns, hup.tail hnext,
        ((Dominators.above_iff hnext).mp hend).resolve_left hnd, ?_⟩, by simp only; omega⟩
      intro a b
      rw [passed_succ ht hup hcond.2 hnext]
      dsimp only at hmem ⊢
      by_cases ha : a = runner
      · subst ha
        simp only [Function.update_self, Finset.mem_insert, hmem]
        tauto
      · rw [Function.update_of_ne ha, hmem]
        simp only [ha, or_false]) (df, pre)
    ⟨hpre, .refl, habove, fun a b => by simp⟩
  have hrunner : runner = d := by
    by_cases hentry : runner = g.commonEntryNode
    · rw [hentry] at hend ⊢
      exact (hend.eq_entry ht).symm
    · have hdom : doms node = some runner := by
        by_contra hne
        simp [hne, hentry] at hstop
      rw [hd] at hdom
      exact (Option.some.inj hdom).symm
  subst hrunner
  exact ⟨df', hsettles.bind (f := fun s _ => .done s.1) (Outcome.settles_const (by simp)), hmem⟩

lemma runUpAll_settles (hpo : IsPostOrder g.toGraph ids pid) (ht : IsTree g ids doms)
    (hd : doms node = some d) {prevNodes : List NodeId}
    (hprev : ∀ pre ∈ prevNodes, (doms pre).isSome ∧ Above doms pre d) (df : DomFrontier) :
    ∃ df', Outcome.Settles (runUpAll g.toGraph doms node · prevNodes df) (.done df') ∧
      ∀ a b, b ∈ df' a ↔
        b ∈ df a ∨ b = node ∧ ∃ pre ∈ prevNodes, Above doms pre a ∧ ¬ Above doms d a := by
  induction prevNodes generalizing df with
  | nil => exact ⟨df, Outcome.settles_const (by simp), by simp⟩
  | cons pre prevNodes ih =>
    rw [List.forall_mem_cons] at hprev
    obtain ⟨df₁, hs₁, hmem₁⟩ := runUp_settles hpo ht hd hprev.1.1 hprev.1.2 df
    obtain ⟨df₂, hs₂, hmem₂⟩ := ih hprev.2 df₁
    refine ⟨df₂, hs₁.bind (f := fun df fuel => runUpAll g.toGraph doms node fuel prevNodes df) hs₂,
      ?_⟩
    intro a b
    rw [hmem₂, hmem₁, List.exists_mem_cons_iff]
    tauto

/-- The nodes that the loop inserts into the frontier of `a`. -/
def Inserted (g : Graph) (commonExitNode : NodeId) (doms : Doms) (a b : NodeId) : Prop :=
  b ≠ commonExitNode ∧ 2 ≤ (g.getPrevNodesToVisit b).length ∧
    ∃ d, doms b = some d ∧ ∃ pre ∈ g.getPrevNodesToVisit b, Above doms pre a ∧ ¬ Above doms d a

lemma domFrontierLoop_settles (hpo : IsPostOrder g.toGraph ids pid) (ht : IsTree g ids doms)
    (exit : NodeId) (nodes : List (Option NodeId))
    (hnodes : ∀ v, some v ∈ nodes → v ≠ exit → ∃ d, doms v = some d ∧
      ∀ pre ∈ g.getPrevNodesToVisit v, (doms pre).isSome ∧ Above doms pre d) (df : DomFrontier) :
    ∃ df', Outcome.Settles (domFrontierLoop g.toGraph exit doms · nodes df) (.done df') ∧
      ∀ a b, b ∈ df' a ↔ b ∈ df a ∨ some b ∈ nodes ∧ Inserted g.toGraph exit doms a b := by
  induction nodes generalizing df with
  | nil => exact ⟨df, Outcome.settles_const (by simp), by simp⟩
  | cons slot nodes ih =>
    have hrest := ih fun v hv => hnodes v (List.mem_cons_of_mem _ hv)
    cases slot with
    | none =>
      obtain ⟨df', hs, hmem⟩ := hrest df
      exact ⟨df', by simpa only [domFrontierLoop] using hs, by simpa using hmem⟩
    | some node =>
      by_cases hskip : node = exit ∨ (g.getPrevNodesToVisit node).length < 2
      · obtain ⟨df', hs, hmem⟩ := hrest df
        refine ⟨df', by simpa only [domFrontierLoop, hskip, if_true] using hs, ?_⟩
        intro a b
        have hnot : b = node → ¬ Inserted g.toGraph exit doms a b := by
          rintro rfl ⟨hexit, hlength, -⟩
          rcases hskip with heq | hlt
          · exact hexit heq
          · omega
        rw [hmem, List.mem_cons, Option.some_inj]
        tauto
      · rw [not_or, not_lt] at hskip
        obtain ⟨d, hd, hprev⟩ := hnodes node List.mem_cons_self hskip.1
        obtain ⟨df₁, hs₁, hmem₁⟩ := runUpAll_settles hpo ht hd hprev df
        obtain ⟨df₂, hs₂, hmem₂⟩ := hrest df₁
        have hcond : ¬ (node = exit ∨ (g.getPrevNodesToVisit node).length < 2) := by
          rw [not_or, not_lt]
          exact hskip
        refine ⟨df₂, ?_, ?_⟩
        · simp only [domFrontierLoop, hcond, if_false]
          exact hs₁.bind (f := fun df fuel => domFrontierLoop g.toGraph exit doms fuel nodes df) hs₂
        · intro a b
          have hinserted : b = node → ((∃ pre ∈ g.getPrevNodesToVisit node,
              Above doms pre a ∧ ¬ Above doms d a) ↔ Inserted g.toGraph exit doms a b) := by
            rintro rfl
            constructor
            · intro hpre
              exact ⟨hskip.1, hskip.2, d, hd, hpre⟩
            · rintro ⟨-, -, d', hd', hpre⟩
              rw [hd] at hd'
              cases hd'
              exact hpre
          rw [hmem₂, hmem₁, and_congr_right hinserted, or_assoc, ← or_and_right, List.mem_cons,
            Option.some_inj]

/-! ### The frontiers -/

namespace ConnectedGraph

variable (g : ConnectedGraph)

lemma edge_of_mem_prev {p y : NodeId} (hy : g.Reachable y) (hp : p ∈ g.getPrevNodesToVisit y) :
    g.Reachable p ∧ g.Edge p y := by
  have hreach := g.prev_reachable p y hy hp
  refine ⟨hreach, ?_⟩
  by_cases hentry : p = g.commonEntryNode
  · rw [hentry] at hp ⊢
    exact g.entry_mem_prev y hy hp
  · exact (g.mem_prev p y hreach hy hentry).mp hp

/-- The frontier of `x` by the definition of dominance. -/
def Frontier (x y : NodeId) : Prop :=
  y ≠ g.commonExitNode ∧ Dominators.Frontier g.Edge g.commonEntryNode x y

/-- No node but the common exit has an edge from the common entry and one other node as the only
predecessor in its list, and no edge leads back to the common entry. -/
def FrontierSafe : Prop :=
  (∀ y, y ≠ g.commonExitNode → g.Edge g.commonEntryNode y →
      ∀ p, g.getPrevNodesToVisit y = [p] → p = g.commonEntryNode) ∧
    (g.commonEntryNode ≠ g.commonExitNode → ∀ p, g.Reachable p → ¬ g.Edge p g.commonEntryNode)

end ConnectedGraph

section Exact

variable {g : ConnectedGraph} {x y : NodeId}

lemma frontier_of_inserted (hpo : IsPostOrder g.toGraph ids pid)
    (hfinal : IsFinal g.toFlowGraph ids doms) (hy : g.Reachable y) (hye : y ≠ g.commonEntryNode)
    (h : Inserted g.toGraph g.commonExitNode doms x y) : g.Frontier x y := by
  obtain ⟨hexit, -, d, hd, p, hp, hpassed⟩ := h
  obtain ⟨hpr, hpy⟩ := g.edge_of_mem_prev hy hp
  have habove := fun v hv a => hfinal.above_iff (a := a) hpo (v := v) hv
  have hx := (Dominators.above_and_not_above_iff hfinal.tree habove hpr hpy hye hd).mp hpassed
  exact ⟨hexit, ⟨p, hpr, hpy, hx.1⟩, hx.2⟩

lemma dominates_entry_self (y : NodeId) : Dominates g.Edge g.commonEntryNode g.commonEntryNode y :=
  fun _ hl => List.mem_of_head? hl.head

lemma exists_mem_prev_of_frontier (hye : y ≠ g.commonEntryNode) (h : g.Frontier x y) :
    ∃ p ∈ g.getPrevNodesToVisit y, p ≠ g.commonEntryNode ∧ g.Reachable p ∧ g.Edge p y ∧
      Dominates g.Edge g.commonEntryNode x p := by
  obtain ⟨-, ⟨p, hpr, hpy, hxp⟩, hnot⟩ := h
  have hpe : p ≠ g.commonEntryNode := by
    rintro rfl
    have hx := Dominators.dominates_entry_iff.mp hxp
    subst hx
    exact hnot ⟨dominates_entry_self y, Ne.symm hye⟩
  exact ⟨p, (g.mem_prev p y hpr (hpr.tail hpy) hpe).mpr hpy, hpe, hpr, hpy, hxp⟩

lemma inserted_of_frontier (hpo : IsPostOrder g.toGraph ids pid)
    (hfinal : IsFinal g.toFlowGraph ids doms) (hye : y ≠ g.commonEntryNode) (h : g.Frontier x y)
    (hlength : 2 ≤ (g.getPrevNodesToVisit y).length) :
    Inserted g.toGraph g.commonExitNode doms x y := by
  obtain ⟨p, hp, -, hpr, hpy, hxp⟩ := exists_mem_prev_of_frontier hye h
  obtain ⟨d, hd⟩ := Option.isSome_iff_exists.mp (hfinal.isSome y (hpr.tail hpy))
  have habove := fun v hv a => hfinal.above_iff (a := a) hpo (v := v) hv
  have hpassed :=
    (Dominators.above_and_not_above_iff hfinal.tree habove hpr hpy hye hd).mpr ⟨hxp, h.2.2⟩
  exact ⟨h.1, hlength, d, hd, p, hp, hpassed⟩

lemma two_le_of_frontier (hpo : IsPostOrder g.toGraph ids pid)
    (hfinal : IsFinal g.toFlowGraph ids doms) (hye : y ≠ g.commonEntryNode) (h : g.Frontier x y)
    (hsafe : g.FrontierSafe) : 2 ≤ (g.getPrevNodesToVisit y).length := by
  obtain ⟨p, hp, hpe, hpr, hpy, hxp⟩ := exists_mem_prev_of_frontier hye h
  have hy : g.Reachable y := hpr.tail hpy
  by_contra hlength
  have hone : (g.getPrevNodesToVisit y).length = 1 := by
    have hpos := List.length_pos_of_mem hp
    omega
  obtain ⟨q, hq⟩ := List.length_eq_one_iff.mp hone
  rw [hq, List.mem_singleton] at hp
  subst hp
  have honly : ∀ q, g.Reachable q → g.Edge q y → q = p := by
    intro q hqr hqy
    by_cases hqe : q = g.commonEntryNode
    · subst hqe
      exact absurd (hsafe.1 y h.1 hqy p hq) hpe
    · have hmem := (g.mem_prev q y hqr hy hqe).mpr hqy
      rwa [hq, List.mem_singleton] at hmem
  obtain ⟨q, hqr, hqy, hne⟩ := Dominators.exists_pred_ne hye hy
  rw [honly q hqr hqy] at hne
  have hup := (hfinal.above_iff hpo hy).mpr (Dominators.dominates_of_only_pred ids hye honly)
  have hxup := (hfinal.above_iff hpo hpr).mpr hxp
  refine h.2.2 ⟨(hfinal.above_iff hpo hy).mp (hup.trans hxup), ?_⟩
  rintro rfl
  exact hne (hxup.antisymm hfinal.tree hup)

lemma computeDomFrontiers_settles (g : ConnectedGraph) (hpo : IsPostOrder g.toGraph ids pid)
    (hfinal : IsFinal g.toFlowGraph ids doms) :
    ∃ df, Outcome.Settles (computeDomFrontiers g.toGraph g.commonExitNode doms) (.done df) ∧
      ∀ x y, y ∈ df x ↔ g.Reachable y ∧ Inserted g.toGraph g.commonExitNode doms x y := by
  have hslot : ∀ v, some v ∈ g.nodeVec → g.nodeVec[v]? = some (some v) := by
    intro v hv
    obtain ⟨i, hi⟩ := List.mem_iff_getElem?.mp hv
    have heq := g.getID i v hi
    subst heq
    exact hi
  obtain ⟨df, hs, hmem⟩ := domFrontierLoop_settles hpo hfinal.tree g.commonExitNode
    g.nodeVec (by
      intro v hv hexit
      have hreach := g.reachable v (hslot v hv) hexit
      obtain ⟨d, hd⟩ := Option.isSome_iff_exists.mp (hfinal.isSome v hreach)
      refine ⟨d, hd, ?_⟩
      intro pre hpre
      obtain ⟨hpr, hpy⟩ := g.edge_of_mem_prev hreach hpre
      refine ⟨hfinal.isSome pre hpr, ?_⟩
      by_cases hentry : v = g.commonEntryNode
      · subst hentry
        rw [hfinal.tree.entry] at hd
        cases hd
        exact (hfinal.above_iff hpo hpr).mpr (dominates_entry_self pre)
      · exact Dominators.above_pred hfinal.tree (fun v hv a => hfinal.above_iff hpo hv) hpr hpy
          hentry hd) (fun _ => ∅)
  refine ⟨df, hs, ?_⟩
  intro x y
  rw [hmem]
  constructor
  · rintro (hempty | ⟨hy, hinserted⟩)
    · exact absurd hempty (Finset.notMem_empty y)
    · exact ⟨g.reachable y (hslot y hy) hinserted.1, hinserted⟩
  · rintro ⟨hy, hinserted⟩
    exact Or.inr ⟨List.mem_of_getElem? (g.toFlowGraph.slot hy), hinserted⟩

/-- `ComputeDomFrontiers` ends, and it finds the dominance frontiers if and only if no node makes it
miss one. -/
theorem computeDomFrontiers_exact_iff (g : ConnectedGraph) :
    ∃ doms df, Outcome.Settles (init g.toGraph) (.done doms) ∧
      Outcome.Settles (computeDomFrontiers g.toGraph g.commonExitNode doms) (.done df) ∧
      ((∀ x y, y ∈ df x ↔ g.Frontier x y) ↔ g.FrontierSafe) := by
  obtain ⟨ids, pid, doms, hinit, hpo, hfinal⟩ := init_settles g.toFlowGraph
  obtain ⟨df, hdf, hmem⟩ := computeDomFrontiers_settles g hpo hfinal
  refine ⟨doms, df, hinit, hdf, ?_, ?_⟩
  · intro hexact
    constructor
    · intro y hexit hedge p hprev
      by_contra hpe
      have hy : g.Reachable y := .tail .refl hedge
      obtain ⟨hpr, hpy⟩ := g.edge_of_mem_prev hy (by rw [hprev]; exact List.mem_singleton_self p)
      have hfrontier : g.Frontier p y := by
        refine ⟨hexit, ⟨p, hpr, hpy, Dominators.dominates_self _ _ p⟩, ?_⟩
        rintro ⟨hdom, hne⟩
        exact hpe (Dominators.dominates_entry_iff.mp (hdom.of_edge hne hedge))
      obtain ⟨-, -, hlength, -⟩ := (hmem p y).mp ((hexact p y).mpr hfrontier)
      rw [hprev] at hlength
      simp at hlength
    · intro hexit p hpr hedge
      have hfrontier : g.Frontier g.commonEntryNode g.commonEntryNode := by
        refine ⟨hexit, ⟨p, hpr, hedge, dominates_entry_self p⟩, ?_⟩
        rintro ⟨-, hne⟩
        exact hne rfl
      obtain ⟨-, -, -, d, hd, pre, -, -, hnot⟩ := (hmem _ _).mp ((hexact _ _).mpr hfrontier)
      rw [hfinal.tree.entry] at hd
      cases hd
      exact hnot .refl
  · intro hsafe x y
    rw [hmem]
    constructor
    · rintro ⟨hy, hinserted⟩
      refine frontier_of_inserted hpo hfinal hy ?_ hinserted
      rintro rfl
      obtain ⟨hexit, -, -, -, pre, hpre, -⟩ := hinserted
      obtain ⟨hpr, hpy⟩ := g.edge_of_mem_prev hy hpre
      exact hsafe.2 hexit pre hpr hpy
    · intro hfrontier
      have hye : y ≠ g.commonEntryNode := by
        rintro rfl
        obtain ⟨hexit, ⟨p, hpr, hpy, -⟩, -⟩ := hfrontier
        exact hsafe.2 hexit p hpr hpy
      exact ⟨hfrontier.2.reachable, inserted_of_frontier hpo hfinal hye hfrontier
        (two_le_of_frontier hpo hfinal hye hfrontier hsafe)⟩

end Exact

section SelfLoop

/-- A block with an edge from the common entry, a loop to itself and an edge to the common exit. Its
list of predecessors has the block alone. -/
def selfLoopGraph : Graph where
  nodeVec := [some 0, some 1, some 2]
  commonEntryNode := 0
  outNodes v := if v = 0 then [2] else if v = 2 then [2, 1] else []
  inNodes v := if v = 1 ∨ v = 2 then [2] else []
  isPdom := false

lemma edge_selfLoop (v w : NodeId) :
    selfLoopGraph.Edge v w ↔ v = 0 ∧ w = 2 ∨ v = 2 ∧ (w = 2 ∨ w = 1) := by
  by_cases hzero : v = 0
  · simp [Graph.Edge, Graph.getNextNodesToVisit, selfLoopGraph, hzero]
  · by_cases htwo : v = 2 <;>
      simp [Graph.Edge, Graph.getNextNodesToVisit, selfLoopGraph, hzero, htwo]

lemma mem_prev_selfLoop (v w : NodeId) :
    v ∈ selfLoopGraph.getPrevNodesToVisit w ↔ v = 2 ∧ (w = 1 ∨ w = 2) := by
  by_cases hw : w = 1 ∨ w = 2
  · simp [Graph.getPrevNodesToVisit, selfLoopGraph, hw]
  · simp [Graph.getPrevNodesToVisit, selfLoopGraph, hw]

lemma slot_selfLoop (i v : NodeId) :
    selfLoopGraph.nodeVec[i]? = some (some v) ↔ v = i ∧ (i = 0 ∨ i = 1 ∨ i = 2) := by
  rcases i with _ | _ | _ | i
  · simp [selfLoopGraph, eq_comm]
  · simp [selfLoopGraph, eq_comm]
  · simp [selfLoopGraph, eq_comm]
  · simp [selfLoopGraph]

lemma reachable_two_selfLoop : selfLoopGraph.Reachable 2 :=
  .single ((edge_selfLoop 0 2).mpr (by simp))

def selfLoop : ConnectedGraph where
  toGraph := selfLoopGraph
  commonExitNode := 1
  getID i v h := ((slot_selfLoop i v).mp h).1
  entry_mem := rfl
  next_mem v w h := by
    rw [edge_selfLoop] at h
    rw [slot_selfLoop]
    tauto
  mem_prev v w _ _ hv := by
    have hzero : v ≠ 0 := hv
    rw [mem_prev_selfLoop, edge_selfLoop]
    tauto
  entry_mem_prev w _ h := by
    rw [mem_prev_selfLoop] at h
    exact absurd h.1 (by decide)
  reachable v h hv := by
    rw [slot_selfLoop] at h
    rcases h.2 with rfl | rfl | rfl
    · exact .refl
    · exact absurd rfl hv
    · exact reachable_two_selfLoop
  prev_reachable v w _ h := by
    rw [mem_prev_selfLoop] at h
    rw [h.1]
    exact reachable_two_selfLoop

/-- The block belongs into its own frontier, and is not there. -/
theorem computeDomFrontiers_selfLoop :
    ∃ doms df, Outcome.Settles (init selfLoop.toGraph) (.done doms) ∧
      Outcome.Settles (computeDomFrontiers selfLoop.toGraph selfLoop.commonExitNode doms)
        (.done df) ∧
      selfLoop.Frontier 2 2 ∧ 2 ∉ df 2 := by
  obtain ⟨ids, pid, doms, hinit, hpo, hfinal⟩ := init_settles selfLoop.toFlowGraph
  obtain ⟨df, hdf, hmem⟩ := computeDomFrontiers_settles selfLoop hpo hfinal
  refine ⟨doms, df, hinit, hdf, ?_, ?_⟩
  · refine ⟨by decide, ⟨2, reachable_two_selfLoop, (edge_selfLoop 2 2).mpr (by simp),
      Dominators.dominates_self _ _ 2⟩, ?_⟩
    rintro ⟨-, hne⟩
    exact hne rfl
  · intro hin
    obtain ⟨-, -, hlength, -⟩ := (hmem 2 2).mp hin
    exact absurd hlength (by decide)

end SelfLoop

end Dominance
end Maple
