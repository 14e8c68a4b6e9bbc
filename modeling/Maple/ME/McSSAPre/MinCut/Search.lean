import Maple.Lib.FlowNetwork
import Maple.ME.McSSAPre.MinCut.Built

/-!
# The search for a route

The search ends with a route without cycles on whose edges there is capacity left, or with a set of
nodes such that no edge with capacity left leads from the source into it.
-/

namespace Maple
namespace McSSAPre
namespace MinCut

variable {Phi Real : Type}

/-- The reduced graph as a network. -/
def ReducedGraph.toNetwork (g : ReducedGraph Phi Real) (sink : Nat) : Network Nat Visit where
  edges := (Finset.range g.nextRGNodeId).biUnion fun node =>
    (Finset.range (g.node node).pred.length).image fun predIdx => ⟨node, predIdx⟩
  tail v := (g.node v.node).pred.getD v.predIdx g.source
  head := Visit.node
  cap := inEdgesCap g
  source := g.source
  sink := sink

variable {g : ReducedGraph Phi Real} {sink : Nat} {usedCap : Visit → Int}
  {sortedPred : Nat → List Nat}

namespace ReducedGraph

@[simp] lemma toNetwork_head (v : Visit) : (g.toNetwork sink).head v = v.node := rfl

@[simp] lemma toNetwork_cap (v : Visit) : (g.toNetwork sink).cap v = inEdgesCap g v := rfl

lemma Valid.mem_edges (hg : g.Valid sink) {v : Visit} :
    v ∈ (g.toNetwork sink).edges ↔ v.predIdx < (g.node v.node).pred.length := by
  simp only [toNetwork, Finset.mem_biUnion, Finset.mem_image, Finset.mem_range]
  constructor
  · rintro ⟨node, -, i, hi, rfl⟩
    exact hi
  · intro hlt
    refine ⟨v.node, ?_, v.predIdx, hlt, rfl⟩
    exact (hg.pred_lt v.node _ (List.getElem_mem hlt)).1

lemma Valid.mem_edges_iff (hg : g.Valid sink) {v : Visit} {pred : Nat} :
    v ∈ (g.toNetwork sink).edges ∧ (g.toNetwork sink).tail v = pred ↔
      (g.node v.node).pred[v.predIdx]? = some pred := by
  rw [hg.mem_edges, List.getElem?_eq_some_iff]
  constructor
  · rintro ⟨hlt, rfl⟩
    exact ⟨hlt, by simp [toNetwork, hlt]⟩
  · rintro ⟨hlt, rfl⟩
    exact ⟨hlt, by simp [toNetwork, hlt]⟩

end ReducedGraph

/-- The edge is not saturated. -/
def HasCapacity (g : ReducedGraph Phi Real) (usedCap : Visit → Int) (v : Visit) : Prop :=
  usedCap v < inEdgesCap g v

/-- A route without cycles to `node`, with capacity left on its edges. -/
structure RouteTo (g : ReducedGraph Phi Real) (sink : Nat) (usedCap : Visit → Int) (node : Nat)
    (visits : List Visit) : Prop where
  isRoute : (g.toNetwork sink).IsRoute node visits
  hasCapacity : ∀ v ∈ visits, HasCapacity g usedCap v
  nodup : (visits.map Visit.node).Nodup

/-- Edges with capacity left lead to `node` only from visited nodes other than the source. -/
def Closed (g : ReducedGraph Phi Real) (usedCap : Visit → Int) (visitedNodes : Nat → Bool)
    (node : Nat) : Prop :=
  ∀ i pred, (g.node node).pred[i]? = some pred → HasCapacity g usedCap ⟨node, i⟩ →
    pred ≠ g.source ∧ visitedNodes pred = true

/-- What a visit of `node` does to the visited nodes. -/
structure Visited (g : ReducedGraph Phi Real) (usedCap : Visit → Int) (visitedNodes : Nat → Bool)
    (node : Nat) (found : Found) : Prop where
  grows : visitedNodes ≤ found.2
  source : found.2 g.source = false
  closed : found.1 = none → ∀ u, u = node ∨ visitedNodes u = false → found.2 u = true →
    Closed g usedCap found.2 u

/-- The number of nodes that are not visited. -/
def unvisited (g : ReducedGraph Phi Real) (visitedNodes : Nat → Bool) : Nat :=
  ((Finset.range g.nextRGNodeId).filter fun u => visitedNodes u = false).card

variable {visitedNodes visitedNodes' : Nat → Bool} {node pred i : Nat} {visits : List Visit}

lemma visited_of_le (h : visitedNodes ≤ visitedNodes') (hu : visitedNodes node = true) :
    visitedNodes' node = true :=
  Bool.le_iff_imp.mp (h node) hu

lemma unvisited_of_le (h : visitedNodes ≤ visitedNodes') (hu : visitedNodes' node = false) :
    visitedNodes node = false := by
  by_contra htrue
  rw [visited_of_le h (by simpa using htrue)] at hu
  cases hu

lemma le_update (visitedNodes : Nat → Bool) (pred : Nat) :
    visitedNodes ≤ Function.update visitedNodes pred true := by
  intro u
  by_cases h : u = pred
  · subst h
    simp
  · simp [h]

lemma unvisited_mono (h : visitedNodes ≤ visitedNodes') :
    unvisited g visitedNodes' ≤ unvisited g visitedNodes := by
  apply Finset.card_le_card
  intro u hu
  rw [Finset.mem_filter] at hu ⊢
  exact ⟨hu.1, unvisited_of_le h hu.2⟩

lemma unvisited_update_lt (hlt : pred < g.nextRGNodeId) (hpred : visitedNodes pred = false) :
    unvisited g (Function.update visitedNodes pred true) < unvisited g visitedNodes := by
  apply Finset.card_lt_card
  rw [Finset.ssubset_iff_of_subset]
  · exact ⟨pred, by simp [hlt, hpred]⟩
  · intro u hu
    rw [Finset.mem_filter] at hu ⊢
    exact ⟨hu.1, unvisited_of_le (le_update visitedNodes pred) hu.2⟩

lemma Closed.mono (h : Closed g usedCap visitedNodes node) (hle : visitedNodes ≤ visitedNodes') :
    Closed g usedCap visitedNodes' node := by
  intro i pred hpred hcap
  obtain ⟨hsource, hvisited⟩ := h i pred hpred hcap
  exact ⟨hsource, visited_of_le hle hvisited⟩

lemma RouteTo.cons (hg : g.Valid sink) (h : RouteTo g sink usedCap pred visits)
    (hpred : (g.node node).pred[i]? = some pred) (hcap : HasCapacity g usedCap ⟨node, i⟩)
    (hnode : ∀ v ∈ visits, v.node ≠ node) : RouteTo g sink usedCap node (⟨node, i⟩ :: visits) := by
  obtain ⟨hmem, htail⟩ := hg.mem_edges_iff (v := ⟨node, i⟩).mpr hpred
  refine ⟨?_, ?_, ?_⟩
  · have hroute := h.isRoute
    rw [← htail] at hroute
    exact .cons hmem hroute
  · intro v hv
    rcases List.mem_cons.mp hv with rfl | hv
    · exact hcap
    · exact h.hasCapacity v hv
  · rw [List.map_cons, List.nodup_cons]
    refine ⟨?_, h.nodup⟩
    intro hmem'
    obtain ⟨v, hv, heq⟩ := List.mem_map.mp hmem'
    exact hnode v hv heq

/-! ### The loops over predecessors -/

lemma tryPreds_spec (test : (Nat → Bool) → Visit → Nat → Bool)
    {visit : Nat → Nat → (Nat → Bool) → Outcome Found} {n : Nat} {P : (Nat → Bool) → Prop}
    {Q : (Nat → Bool) → List Visit → Prop}
    (hP : ∀ vis vis', P vis → vis ≤ vis' → vis' g.source = false → P vis')
    (hQ : ∀ vis vis' visits, vis ≤ vis' → Q vis' visits → Q vis visits)
    (hvisit : ∀ vis i pred, P vis → (g.node node).pred[i]? = some pred →
      test vis ⟨node, i⟩ pred = true → ∃ found,
        (∀ fuel, n ≤ fuel → visit fuel pred (Function.update vis pred true) = .done found) ∧
        Visited g usedCap (Function.update vis pred true) pred found ∧
        ∀ visits, found.1 = some visits → Q vis (⟨node, i⟩ :: visits))
    {order : List Nat} (horder : ∀ i ∈ order, i < (g.node node).pred.length)
    (visitedNodes : Nat → Bool) (hvis : P visitedNodes) (hsource : visitedNodes g.source = false) :
    ∃ found,
      (∀ fuel, n ≤ fuel → tryPreds g (visit fuel) test node order visitedNodes = .done found) ∧
      visitedNodes ≤ found.2 ∧ found.2 g.source = false ∧
      (∀ visits, found.1 = some visits → Q visitedNodes visits) ∧
      (found.1 = none →
        (∀ u, visitedNodes u = false → found.2 u = true → Closed g usedCap found.2 u) ∧
        ∀ i ∈ order, ∀ pred, (g.node node).pred[i]? = some pred →
          found.2 pred = true ∨ ∃ vis, vis ≤ found.2 ∧ test vis ⟨node, i⟩ pred = false) := by
  induction order generalizing visitedNodes with
  | nil =>
    refine ⟨(none, visitedNodes), fun fuel _ => rfl, le_rfl, hsource, by simp, ?_⟩
    intro _
    refine ⟨?_, by simp⟩
    intro u hfalse htrue
    exact absurd (hfalse.symm.trans htrue) (by simp)
  | cons i order ih =>
    have hi : i < (g.node node).pred.length := horder i List.mem_cons_self
    have horder' : ∀ i ∈ order, i < (g.node node).pred.length :=
      fun i hi => horder i (List.mem_cons_of_mem _ hi)
    obtain ⟨pred, hpred⟩ : ∃ pred, (g.node node).pred[i]? = some pred :=
      ⟨_, List.getElem?_eq_getElem hi⟩
    cases htest : test visitedNodes ⟨node, i⟩ pred with
    | false =>
      obtain ⟨found, hrun, hle, hsource', hsome, hnone⟩ := ih horder' _ hvis hsource
      refine ⟨found, ?_, hle, hsource', hsome, ?_⟩
      · intro fuel hfuel
        rw [tryPreds, hpred]
        simp only [htest, Bool.false_eq_true, if_false]
        exact hrun fuel hfuel
      · intro h
        obtain ⟨hclosed, htried⟩ := hnone h
        refine ⟨hclosed, ?_⟩
        intro j hj pred' hpred'
        rcases List.mem_cons.mp hj with rfl | hj
        · rw [hpred] at hpred'
          cases hpred'
          exact .inr ⟨visitedNodes, hle, htest⟩
        · exact htried j hj pred' hpred'
    | true =>
      obtain ⟨first, hfirst, hv, hfirstSome⟩ := hvisit visitedNodes i pred hvis hpred htest
      have hlefirst : visitedNodes ≤ first.2 := (le_update visitedNodes pred).trans hv.grows
      have hpredfirst : first.2 pred = true := visited_of_le hv.grows (Function.update_self ..)
      obtain ⟨visits | visits, vis⟩ := first
      · obtain ⟨found, hrun, hle, hsource', hsome, hnone⟩ :=
          ih horder' _ (hP _ _ hvis hlefirst hv.source) hv.source
        refine ⟨found, ?_, hlefirst.trans hle, hsource',
          fun visits h => hQ _ _ visits hlefirst (hsome visits h), ?_⟩
        · intro fuel hfuel
          rw [tryPreds, hpred]
          simp only [htest, if_true, hfirst fuel hfuel, Outcome.bind_done]
          exact hrun fuel hfuel
        · intro h
          obtain ⟨hclosed, htried⟩ := hnone h
          refine ⟨?_, ?_⟩
          · intro u hfalse htrue
            cases hu : vis u with
            | false => exact hclosed u hu htrue
            | true =>
              refine (hv.closed rfl u ?_ hu).mono hle
              by_cases heq : u = pred
              · exact .inl heq
              · exact .inr (by rw [Function.update_of_ne heq, hfalse])
          · intro j hj pred' hpred'
            rcases List.mem_cons.mp hj with rfl | hj
            · rw [hpred] at hpred'
              cases hpred'
              exact .inl (visited_of_le hle hpredfirst)
            · exact htried j hj pred' hpred'
      · refine ⟨(some (⟨node, i⟩ :: visits), vis), ?_, hlefirst, hv.source, ?_, by simp⟩
        · intro fuel hfuel
          rw [tryPreds, hpred]
          simp only [htest, if_true, hfirst fuel hfuel, Outcome.bind_done]
        · intro visits' h
          cases h
          exact hfirstSome visits rfl

/-! ### VisitANode -/

lemma sourceEdge_eq_some (h : sourceEdge g usedCap node = some i) :
    (g.node node).pred[i]? = some g.source ∧ HasCapacity g usedCap ⟨node, i⟩ := by
  unfold sourceEdge at h
  simp only at h
  split at h
  · cases h
  · rename_i j hj
    split at h
    · cases h
      have htest := List.find?_some hj
      simpa [HasCapacity] using htest
    · rename_i k hk
      cases h
      have htest := List.find?_some hk
      simp only [Bool.and_eq_true, decide_eq_true_eq, beq_iff_eq] at htest
      refine ⟨htest.1.2, ?_⟩
      rw [HasCapacity, htest.2.1]
      exact htest.2.2

lemma sourceEdge_eq_none (h : sourceEdge g usedCap node = none)
    (hpred : (g.node node).pred[i]? = some g.source) : ¬HasCapacity g usedCap ⟨node, i⟩ := by
  intro hcap
  unfold sourceEdge at h
  simp only at h
  split at h
  · rename_i hfind
    obtain ⟨hlt, -⟩ := List.getElem?_eq_some_iff.mp hpred
    have hnot := List.find?_eq_none.mp hfind i (List.mem_range.mpr hlt)
    apply hnot
    simpa [hpred, HasCapacity] using hcap
  · split at h <;> cases h

/-- `VisitANode` ends. It gives a route to `node` through nodes that were not visited, or leaves a set
of visited nodes that is closed. -/
lemma visitANode_spec (usedCap : Visit → Int) (hg : g.Valid sink)
    (hsorted : ∀ v, (sortedPred v).Perm (List.range (g.node v).pred.length)) (n : Nat)
    (hnode : visitedNodes node = true) (hsource : visitedNodes g.source = false)
    (hn : unvisited g visitedNodes ≤ n) :
    ∃ found,
      (∀ fuel, n + 1 ≤ fuel →
        visitANode g sortedPred usedCap fuel node visitedNodes = .done found) ∧
      Visited g usedCap visitedNodes node found ∧
      ∀ visits, found.1 = some visits → RouteTo g sink usedCap node visits ∧
        ∀ v ∈ visits, v.node = node ∨ visitedNodes v.node = false := by
  induction n using Nat.strongRecOn generalizing node visitedNodes with
  | _ n ih =>
    cases hedge : sourceEdge g usedCap node with
    | some i =>
      obtain ⟨hpred, hcap⟩ := sourceEdge_eq_some hedge
      refine ⟨(some [⟨node, i⟩], visitedNodes), ?_, ⟨le_rfl, hsource, by simp⟩, ?_⟩
      · intro fuel hfuel
        obtain ⟨fuel, rfl⟩ : ∃ k, fuel = k + 1 := ⟨fuel - 1, by omega⟩
        rw [visitANode, hedge]
      · intro visits hvisits
        cases hvisits
        have hnil : RouteTo g sink usedCap g.source [] := ⟨.nil, by simp, by simp⟩
        refine ⟨hnil.cons hg hpred hcap (by simp), ?_⟩
        simp
    | none =>
      let P (vis : Nat → Bool) : Prop :=
        vis node = true ∧ vis g.source = false ∧ unvisited g vis ≤ n
      let Q (vis : Nat → Bool) (visits : List Visit) : Prop :=
        RouteTo g sink usedCap node visits ∧ ∀ v ∈ visits, v.node = node ∨ vis v.node = false
      have hP : ∀ vis vis', P vis → vis ≤ vis' → vis' g.source = false → P vis' := by
        rintro vis vis' ⟨hnode, -, hn⟩ hle hsource
        exact ⟨visited_of_le hle hnode, hsource, (unvisited_mono hle).trans hn⟩
      have hQ : ∀ vis vis' visits, vis ≤ vis' → Q vis' visits → Q vis visits := by
        rintro vis vis' visits hle ⟨hroute, hfresh⟩
        exact ⟨hroute, fun v hv => (hfresh v hv).imp_right (unvisited_of_le hle)⟩
      -- each predecessor that passes a test is new, and its edge has capacity left
      have hvisit : ∀ vis i pred, P vis → (g.node node).pred[i]? = some pred →
          vis pred = false → HasCapacity g usedCap ⟨node, i⟩ → ∃ found,
            (∀ fuel, n ≤ fuel → visitANode g sortedPred usedCap fuel pred
              (Function.update vis pred true) = .done found) ∧
            Visited g usedCap (Function.update vis pred true) pred found ∧
            ∀ visits, found.1 = some visits → Q vis (⟨node, i⟩ :: visits) := by
        rintro vis i pred ⟨hnode, hsource, hn⟩ hpred hfalse hcap
        have hne : pred ≠ g.source := by
          rintro rfl
          exact sourceEdge_eq_none hedge hpred hcap
        have hlt := unvisited_update_lt
          (hg.pred_lt node pred (List.mem_of_getElem? hpred)).2 hfalse
        obtain ⟨found, hrun, hv, hsome⟩ := ih (n - 1) (by omega)
          (Function.update_self pred true vis) (by rw [Function.update_of_ne hne.symm, hsource])
          (by omega)
        refine ⟨found, fun fuel hfuel => hrun fuel (by omega), hv, ?_⟩
        intro visits hvisits
        obtain ⟨hroute, hfresh⟩ := hsome visits hvisits
        have hunvisited : ∀ v ∈ visits, vis v.node = false := by
          intro v hv
          rcases hfresh v hv with heq | hfalse'
          · rw [heq, hfalse]
          · exact unvisited_of_le (le_update vis pred) hfalse'
        refine ⟨hroute.cons hg hpred hcap ?_, ?_⟩
        · intro v hv heq
          have hfalse' := hunvisited v hv
          rw [heq, hnode] at hfalse'
          cases hfalse'
        · intro v hv
          rcases List.mem_cons.mp hv with rfl | hv
          · exact .inl rfl
          · exact .inr (hunvisited v hv)
      have hrange : ∀ i ∈ List.range (g.node node).pred.length, i < (g.node node).pred.length :=
        fun i hi => List.mem_range.mp hi
      obtain ⟨first, hfirst, hle₁, hsource₁, hsome₁, hnone₁⟩ := tryPreds_spec
        (fun visitedNodes v pred =>
          usedCap v == 0 && inEdgesCap g v > 0 && !visitedNodes pred) hP hQ
        (fun vis i pred hp hpred htest => by
          simp only [Bool.and_eq_true, beq_iff_eq, decide_eq_true_eq, Bool.not_eq_true'] at htest
          apply hvisit vis i pred hp hpred htest.2
          rw [HasCapacity, htest.1.1]
          exact htest.1.2) hrange _ ⟨hnode, hsource, hn⟩ hsource
      obtain ⟨visits | visits, vis⟩ := first
      · obtain ⟨found, hrun, hle₂, hsource₂, hsome₂, hnone₂⟩ := tryPreds_spec
          (fun visitedNodes v pred => !visitedNodes pred && inEdgesCap g v > usedCap v) hP hQ
          (fun vis i pred hp hpred htest => by
            simp only [Bool.and_eq_true, decide_eq_true_eq, Bool.not_eq_true'] at htest
            exact hvisit vis i pred hp hpred htest.1 htest.2)
          (fun i hi => hrange i ((hsorted node).mem_iff.mp hi))
          _ (hP _ _ ⟨hnode, hsource, hn⟩ hle₁ hsource₁) hsource₁
        refine ⟨found, ?_, ⟨hle₁.trans hle₂, hsource₂, ?_⟩,
          fun visits h => hQ _ _ visits hle₁ (hsome₂ visits h)⟩
        · intro fuel hfuel
          obtain ⟨fuel, rfl⟩ : ∃ k, fuel = k + 1 := ⟨fuel - 1, by omega⟩
          rw [visitANode, hedge]
          simp only [hfirst fuel (by omega), Outcome.bind_done]
          exact hrun fuel (by omega)
        · intro h u hu htrue
          obtain ⟨hclosed, htried⟩ := hnone₂ h
          by_cases heq : u = node
          · subst heq
            intro i pred hpred hcap
            refine ⟨?_, ?_⟩
            · rintro rfl
              exact sourceEdge_eq_none hedge hpred hcap
            · obtain ⟨hlt, -⟩ := List.getElem?_eq_some_iff.mp hpred
              rcases htried i ((hsorted u).mem_iff.mpr (List.mem_range.mpr hlt)) pred hpred with
                hvisited | ⟨vis', hle, htest⟩
              · exact hvisited
              · apply visited_of_le hle
                simp only [Bool.and_eq_false_iff, decide_eq_false_iff_not,
                  Bool.not_eq_false'] at htest
                exact htest.resolve_right fun hnot => hnot hcap
          · cases hvis : vis u with
            | false => exact hclosed u hvis htrue
            | true => exact ((hnone₁ rfl).1 u (hu.resolve_left heq) hvis).mono hle₂
      · refine ⟨(some visits, vis), ?_, ⟨hle₁, hsource₁, by simp⟩, hsome₁⟩
        intro fuel hfuel
        obtain ⟨fuel, rfl⟩ : ∃ k, fuel = k + 1 := ⟨fuel - 1, by omega⟩
        rw [visitANode, hedge]
        simp only [hfirst fuel (by omega), Outcome.bind_done]

/-! ### The loops of FindAnotherRoute -/

lemma searchRoute_spec (hg : g.Valid sink)
    (hsorted : ∀ v, (sortedPred v).Perm (List.range (g.node v).pred.length))
    (hsink : ∀ i pred, (g.node sink).pred[i]? = some pred → HasCapacity g usedCap ⟨pred, 0⟩ →
      HasCapacity g usedCap ⟨sink, i⟩) :
    ∃ found,
      (∀ fuel, g.nextRGNodeId + 1 ≤ fuel →
        searchRoute g sortedPred sink usedCap fuel = .done found) ∧
      (∀ visits, found.1 = some visits → RouteTo g sink usedCap sink visits) ∧
      (found.1 = none → (g.toNetwork sink).Blocks fun v => ¬HasCapacity g usedCap v) := by
  have hvisit : ∀ vis i pred, vis g.source = false → (g.node sink).pred[i]? = some pred →
      ∃ found, (∀ fuel, g.nextRGNodeId + 1 ≤ fuel → visitANode g sortedPred usedCap fuel pred
          (Function.update vis pred true) = .done found) ∧
        Visited g usedCap (Function.update vis pred true) pred found ∧
        ∀ visits, found.1 = some visits → RouteTo g sink usedCap sink (⟨sink, i⟩ :: visits) := by
    intro vis i pred hsource hpred
    have hmem := List.mem_of_getElem? hpred
    have hlength := hg.single pred hmem
    have hne : pred ≠ g.source := by
      rintro rfl
      rw [hg.source_pred] at hlength
      cases hlength
    have hn : unvisited g (Function.update vis pred true) ≤ g.nextRGNodeId :=
      (Finset.card_filter_le _ _).trans (Finset.card_range _).le
    obtain ⟨found, hrun, hv, hsome⟩ := visitANode_spec usedCap hg hsorted
      g.nextRGNodeId (Function.update_self pred true vis)
      (by rw [Function.update_of_ne hne.symm, hsource]) hn
    refine ⟨found, hrun, hv, ?_⟩
    intro visits hvisits
    obtain ⟨hroute, -⟩ := hsome visits hvisits
    apply hroute.cons hg hpred
    · apply hsink i pred hpred
      -- the next edge of the route is the only one into `pred`
      cases visits with
      | nil =>
        exact absurd (Network.isRoute_nil_iff.mp hroute.isRoute) hne
      | cons v visits =>
        obtain ⟨hv', hhead, -⟩ := Network.isRoute_cons_iff.mp hroute.isRoute
        have hlt := hg.mem_edges.mp hv'
        have hcap := hroute.hasCapacity v List.mem_cons_self
        obtain ⟨node, predIdx⟩ := v
        simp only [ReducedGraph.toNetwork_head] at hhead
        subst hhead
        rw [hlength, Nat.lt_one_iff] at hlt
        rwa [← hlt]
    · intro v hv' heq
      have hmem' := hroute.isRoute.mem_edges
      rcases hroute.isRoute.head_eq v hv' with hhead | ⟨w, hw, htail⟩
      · rw [show pred = sink from hhead.symm.trans heq] at hmem
        exact hg.not_sink sink hmem
      · have hpred' := hg.mem_edges_iff.mp ⟨hmem' w hw, htail⟩
        rw [ReducedGraph.toNetwork_head, heq] at hpred'
        exact hg.not_sink w.node (List.mem_of_getElem? hpred')
  have hrange : ∀ i ∈ List.range (g.node sink).pred.length, i < (g.node sink).pred.length :=
    fun i hi => List.mem_range.mp hi
  let P (vis : Nat → Bool) : Prop := vis g.source = false
  let Q (_ : Nat → Bool) (visits : List Visit) : Prop := RouteTo g sink usedCap sink visits
  have hP : ∀ vis vis', P vis → vis ≤ vis' → vis' g.source = false → P vis' :=
    fun _ _ _ _ hsource => hsource
  have hQ : ∀ vis vis' visits, vis ≤ vis' → Q vis' visits → Q vis visits :=
    fun _ _ _ _ hroute => hroute
  obtain ⟨first, hfirst, hle₁, hsource₁, hsome₁, hnone₁⟩ := tryPreds_spec
    (fun _ v _ => usedCap v == 0) hP hQ
    (fun vis i pred hp hpred _ => hvisit vis i pred hp hpred) hrange
    (fun _ => false) rfl rfl
  obtain ⟨visits | visits, vis⟩ := first
  · obtain ⟨found, hrun, hle₂, hsource₂, hsome₂, hnone₂⟩ := tryPreds_spec
      (fun _ _ _ => true) hP hQ
      (fun vis i pred hp hpred _ => hvisit vis i pred hp hpred) hrange _ hsource₁ hsource₁
    refine ⟨found, ?_, hsome₂, ?_⟩
    · intro fuel hfuel
      unfold searchRoute
      rw [hfirst fuel hfuel]
      exact hrun fuel hfuel
    · intro h
      obtain ⟨hclosed, htried⟩ := hnone₂ h
      have hclosed' : ∀ u, found.2 u = true → Closed g usedCap found.2 u := by
        intro u hu
        cases hvis : vis u with
        | false => exact hclosed u hvis hu
        | true => exact ((hnone₁ rfl).1 u rfl hvis).mono hle₂
      -- no route with capacity left leads to a visited node
      have hnoRoute : ∀ (l : List Visit) (u : Nat), (g.toNetwork sink).IsRoute u l →
          (∀ v ∈ l, HasCapacity g usedCap v) → found.2 u = true → False := by
        intro l
        induction l with
        | nil =>
          intro u hroute _ hu
          rw [Network.isRoute_nil_iff.mp hroute] at hu
          exact absurd (hsource₂.symm.trans hu) (by simp)
        | cons v l ih =>
          intro u hroute hcap hu
          obtain ⟨hv', rfl, hl⟩ := Network.isRoute_cons_iff.mp hroute
          have hpred := hg.mem_edges_iff.mp ⟨hv', rfl⟩
          obtain ⟨-, hvisited⟩ := hclosed' _ hu v.predIdx _ hpred (hcap v List.mem_cons_self)
          exact ih _ hl (fun w hw => hcap w (List.mem_cons_of_mem v hw)) hvisited
      intro l hl
      by_contra hall
      push Not at hall
      cases l with
      | nil => exact hg.sink_ne (Network.isRoute_nil_iff.mp hl)
      | cons v l =>
        obtain ⟨hv', hhead, hl⟩ := Network.isRoute_cons_iff.mp hl
        have hpred := hg.mem_edges_iff.mp ⟨hv', rfl⟩
        rw [show v.node = sink from hhead] at hpred
        obtain ⟨hlt, -⟩ := List.getElem?_eq_some_iff.mp hpred
        refine hnoRoute l _ hl (fun w hw => hall w (List.mem_cons_of_mem v hw)) ?_
        rcases htried v.predIdx (List.mem_range.mpr hlt) _ hpred with hvisited | ⟨_, _, htest⟩
        · exact hvisited
        · cases htest
  · refine ⟨(some visits, vis), ?_, hsome₁, by simp⟩
    intro fuel hfuel
    unfold searchRoute
    rw [hfirst fuel hfuel]
    rfl

end MinCut
end McSSAPre
end Maple
