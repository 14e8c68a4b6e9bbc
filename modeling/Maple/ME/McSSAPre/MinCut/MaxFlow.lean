import Maple.ME.McSSAPre.MinCut.Search
import Mathlib.Algebra.BigOperators.Group.List.Basic

/-!
# The routes of FindMaxFlow

Each route adds to the used capacities and keeps them a flow, so that the loop ends when each path
from the source to the sink has a saturated edge.
-/

namespace Maple
namespace McSSAPre
namespace MinCut

variable {Phi Real : Type} {g : ReducedGraph Phi Real} {sink : Nat}
  {sortedPred : Nat → List Nat} {usedCap : Visit → Int} {visits : List Visit} {s : FlowState}

/-! ### The bottleneck -/

lemma foldl_min_le (f : Visit → Int) (l : List Visit) (m : Int) :
    l.foldl (fun m v => min m (f v)) m ≤ m ∧ ∀ v ∈ l, l.foldl (fun m v => min m (f v)) m ≤ f v := by
  induction l generalizing m with
  | nil => simp
  | cons v l ih =>
    obtain ⟨hm, hl⟩ := ih (min m (f v))
    refine ⟨hm.trans (min_le_left _ _), ?_⟩
    intro w hw
    rcases List.mem_cons.mp hw with rfl | hw
    · exact hm.trans (min_le_right _ _)
    · exact hl w hw

lemma lt_foldl_min {c : Int} (f : Visit → Int) (l : List Visit) (m : Int) (hm : c < m)
    (hl : ∀ v ∈ l, c < f v) : c < l.foldl (fun m v => min m (f v)) m := by
  induction l generalizing m with
  | nil => exact hm
  | cons v l ih =>
    apply ih
    · exact lt_min hm (hl v List.mem_cons_self)
    · exact fun w hw => hl w (List.mem_cons_of_mem v hw)

lemma minAvailCap_le :
    ∀ v ∈ visits, minAvailCap g usedCap visits ≤ availableCapacity g usedCap v := by
  intro v hv
  cases visits with
  | nil => cases hv
  | cons w visits =>
    obtain ⟨hm, hl⟩ := foldl_min_le (availableCapacity g usedCap) visits
      (availableCapacity g usedCap w)
    rcases List.mem_cons.mp hv with rfl | hv
    · exact hm
    · exact hl v hv

lemma minAvailCap_pos (hne : visits ≠ []) (h : ∀ v ∈ visits, HasCapacity g usedCap v) :
    0 < minAvailCap g usedCap visits := by
  cases visits with
  | nil => exact absurd rfl hne
  | cons w visits =>
    apply lt_foldl_min
    · exact sub_pos.mpr (h w List.mem_cons_self)
    · exact fun v hv => sub_pos.mpr (h v (List.mem_cons_of_mem w hv))

/-! ### The sums of the routes -/

/-- What holds between two rounds of `FindMaxFlow`. -/
structure FlowInv (g : ReducedGraph Phi Real) (sink : Nat) (s : FlowState) : Prop where
  isFlow : (g.toNetwork sink).IsFlow s.usedCap
  route : ∀ r ∈ s.maxFlowRoutes, (g.toNetwork sink).IsRoute sink r.visits ∧ r.visits.Nodup ∧
    0 < r.flowValue
  usedCap : s.usedCap = fun v =>
    (s.maxFlowRoutes.map fun r => r.flowValue * Network.unit r.visits v).sum

lemma usedCap_addRoute (s : FlowState) (visits : List Visit) (v : Visit) :
    (addRoute g s visits).usedCap v =
      s.usedCap v + minAvailCap g s.usedCap visits * Network.unit visits v := by
  have hfold : ∀ (c : Int) (l : List Visit) (usedCap : Visit → Int),
      l.foldl (fun usedCap v => Function.update usedCap v (usedCap v + c)) usedCap v =
        usedCap v + c * Network.unit l v := by
    intro c l
    induction l with
    | nil => simp [Network.unit]
    | cons w l ih =>
      intro usedCap
      rw [List.foldl_cons, ih]
      by_cases h : v = w
      · subst h
        simp only [Function.update_self, Network.unit, List.count_cons_self]
        push_cast
        ring
      · rw [Function.update_of_ne h, Network.unit, Network.unit,
          List.count_cons_of_ne (Ne.symm h)]
  exact hfold _ visits s.usedCap

lemma RouteTo.ne_nil (hg : g.Valid sink) (h : RouteTo g sink usedCap sink visits) :
    visits ≠ [] := by
  rintro rfl
  exact hg.sink_ne (Network.isRoute_nil_iff.mp h.isRoute)

lemma FlowInv.addRoute (hg : g.Valid sink) (h : FlowInv g sink s)
    (hroute : RouteTo g sink s.usedCap sink visits) : FlowInv g sink (addRoute g s visits) := by
  have hpos := minAvailCap_pos (hroute.ne_nil hg) hroute.hasCapacity
  have hnodup : visits.Nodup := List.Nodup.of_map _ hroute.nodup
  refine ⟨?_, ?_, ?_⟩
  · have hadd := h.isFlow.add_route hroute.isRoute hnodup hpos.le minAvailCap_le
    rwa [funext (usedCap_addRoute s visits)]
  · intro r hr
    rcases List.mem_append.mp hr with hr | hr
    · exact h.route r hr
    · rw [List.mem_singleton.mp hr]
      exact ⟨hroute.isRoute, hnodup, hpos⟩
  · funext v
    rw [usedCap_addRoute, congrFun h.usedCap v]
    simp [MinCut.addRoute]

lemma FlowInv.maxFlowValue_eq (hg : g.Valid sink) (h : FlowInv g sink s) :
    maxFlowValue s = (g.toNetwork sink).excess s.usedCap sink := by
  rw [h.usedCap, Network.excess_sum, maxFlowValue]
  congr 1
  apply List.map_congr_left
  intro r hr
  have hne : sink ≠ (g.toNetwork sink).source := hg.sink_ne
  rw [(h.route r hr).1.excess_unit, if_pos rfl, if_neg hne]
  ring

lemma FlowInv.usedCap_sink (hg : g.Valid sink) (h : FlowInv g sink s) {i pred : Nat}
    (hpred : (g.node sink).pred[i]? = some pred) : s.usedCap ⟨sink, i⟩ = s.usedCap ⟨pred, 0⟩ := by
  have hmem := List.mem_of_getElem? hpred
  have hlength := hg.single pred hmem
  have hsource : pred ≠ g.source := by
    rintro rfl
    rw [hg.source_pred] at hlength
    cases hlength
  have hsink : pred ≠ sink := by
    rintro rfl
    exact hg.not_sink pred hmem
  have hheads : (g.toNetwork sink).edges.filter (fun v => (g.toNetwork sink).head v = pred) =
      {⟨pred, 0⟩} := by
    ext v
    rw [Finset.mem_filter, hg.mem_edges, ReducedGraph.toNetwork_head, Finset.mem_singleton]
    constructor
    · rintro ⟨hlt, rfl⟩
      rw [hlength, Nat.lt_one_iff] at hlt
      rw [← hlt]
    · rintro rfl
      exact ⟨by simp [hlength], rfl⟩
  have htails : (g.toNetwork sink).edges.filter (fun v => (g.toNetwork sink).tail v = pred) =
      {⟨sink, i⟩} := by
    ext v
    rw [Finset.mem_filter, hg.mem_edges_iff, Finset.mem_singleton]
    constructor
    · intro hv
      have hnode := hg.only_sink pred hmem v.node (List.mem_of_getElem? hv)
      rw [hnode] at hv
      obtain ⟨hlt, heq⟩ := List.getElem?_eq_some_iff.mp hv
      obtain ⟨hlt', heq'⟩ := List.getElem?_eq_some_iff.mp hpred
      have hidx := (List.Nodup.getElem_inj_iff hg.sink_nodup).mp (heq.trans heq'.symm)
      rw [← hnode, ← hidx]
    · rintro rfl
      exact hpred
  have hconserve := h.isFlow.conserve pred hsource hsink
  rw [Network.excess, hheads, htails, Finset.sum_singleton, Finset.sum_singleton] at hconserve
  linarith

lemma FlowInv.hasCapacity_sink (hg : g.Valid sink) (h : FlowInv g sink s) (i pred : Nat)
    (hpred : (g.node sink).pred[i]? = some pred) (hcap : HasCapacity g s.usedCap ⟨pred, 0⟩) :
    HasCapacity g s.usedCap ⟨sink, i⟩ := by
  have hmem := List.mem_of_getElem? hpred
  have hlt : 0 < (g.node pred).inEdgesCap.length := by
    rw [hg.length, hg.single pred hmem]
    exact Nat.one_pos
  have hltSink : i < (g.node sink).inEdgesCap.length := by
    rw [hg.length]
    exact (List.getElem?_eq_some_iff.mp hpred).1
  calc s.usedCap ⟨sink, i⟩ = s.usedCap ⟨pred, 0⟩ := h.usedCap_sink hg hpred
    _ < inEdgesCap g ⟨pred, 0⟩ := hcap
    _ ≤ kInt64Max := by
      rw [inEdgesCap, ← List.getElem_eq_getD 0 (h := hlt)]
      exact hg.single_cap pred hmem _ (List.getElem_mem hlt)
    _ = inEdgesCap g ⟨sink, i⟩ := by
      rw [inEdgesCap, ← List.getElem_eq_getD 0 (h := hltSink)]
      exact (hg.sink_cap _ (List.getElem_mem hltSink)).symm

/-! ### Termination -/

/-- The capacity that is left in the whole graph. -/
def leftCap (g : ReducedGraph Phi Real) (sink : Nat) (usedCap : Visit → Int) : Nat :=
  ∑ v ∈ (g.toNetwork sink).edges, (availableCapacity g usedCap v).toNat

lemma leftCap_addRoute (hg : g.Valid sink) (hroute : RouteTo g sink s.usedCap sink visits) :
    leftCap g sink (addRoute g s visits).usedCap < leftCap g sink s.usedCap := by
  have hne := hroute.ne_nil hg
  have hpos := minAvailCap_pos hne hroute.hasCapacity
  have hunit : ∀ v, availableCapacity g (addRoute g s visits).usedCap v =
      availableCapacity g s.usedCap v -
        minAvailCap g s.usedCap visits * Network.unit visits v := by
    intro v
    rw [availableCapacity, usedCap_addRoute, availableCapacity]
    ring
  apply Finset.sum_lt_sum
  · intro v _
    have hnonneg : 0 ≤ minAvailCap g s.usedCap visits * Network.unit visits v :=
      mul_nonneg hpos.le (Int.natCast_nonneg _)
    rw [hunit]
    omega
  · obtain ⟨v, hv⟩ := List.exists_mem_of_ne_nil visits hne
    refine ⟨v, hroute.isRoute.mem_edges v hv, ?_⟩
    have hcap := hroute.hasCapacity v hv
    have hone : Network.unit visits v = 1 := by
      rw [Network.unit, List.count_eq_one_of_mem (List.Nodup.of_map _ hroute.nodup) hv]
      rfl
    rw [hunit, hone, mul_one]
    rw [HasCapacity] at hcap
    rw [availableCapacity]
    omega

lemma findRoutes_settles (hg : g.Valid sink)
    (hsorted : ∀ v, (sortedPred v).Perm (List.range (g.node v).pred.length))
    (h : FlowInv g sink s) :
    ∃ s', Outcome.Settles (fun fuel => findRoutes g sortedPred sink fuel s) (.done s') ∧
      FlowInv g sink s' ∧ (g.toNetwork sink).Blocks fun v => ¬HasCapacity g s'.usedCap v := by
  induction hn : leftCap g sink s.usedCap using Nat.strongRecOn generalizing s with
  | _ n ih =>
    obtain ⟨⟨found, visitedNodes⟩, hrun, hsome, hnone⟩ :=
      searchRoute_spec hg hsorted (h.hasCapacity_sink hg)
    have hsearch : Outcome.Settles
        (fun fuel => searchRoute g sortedPred sink s.usedCap fuel)
        (.done (found, visitedNodes)) := ⟨by simp, _, hrun⟩
    cases found with
    | none =>
      refine ⟨s, ?_, h, hnone rfl⟩
      apply Outcome.Settles.of_succ
      exact hsearch.bind (Outcome.settles_const (by simp))
    | some visits =>
      have hroute := hsome visits rfl
      have hlt := leftCap_addRoute hg hroute
      rw [hn] at hlt
      obtain ⟨s', hsettles, hend⟩ := ih _ hlt (h.addRoute hg hroute) rfl
      refine ⟨s', ?_, hend⟩
      apply Outcome.Settles.of_succ
      exact hsearch.bind hsettles

lemma flowInv_init (hg : g.Valid sink) :
    FlowInv g sink { usedCap := fun _ => 0, maxFlowRoutes := [] } := by
  refine ⟨Network.isFlow_zero ?_, by simp, by simp⟩
  intro v hv
  rw [hg.mem_edges, ← hg.length] at hv
  have hcap := hg.cap_pos v.node _ (List.getElem_mem hv)
  rw [ReducedGraph.toNetwork_cap, inEdgesCap, ← List.getElem_eq_getD 0 (h := hv)]
  omega

lemma findMaxFlow_settles (hg : ∀ sink, g.sink = some sink → g.Valid sink)
    (hsorted : ∀ v, (sortedPred v).Perm (List.range (g.node v).pred.length)) :
    ∃ s, Outcome.Settles (findMaxFlow g sortedPred) (.done s) ∧
      ∀ sink, g.sink = some sink → FlowInv g sink s ∧
        (g.toNetwork sink).Blocks fun v => ¬HasCapacity g s.usedCap v := by
  cases hsink : g.sink with
  | none =>
    refine ⟨{ usedCap := fun _ => 0, maxFlowRoutes := [] }, ?_, by simp⟩
    unfold findMaxFlow
    rw [hsink]
    exact Outcome.settles_const (by simp)
  | some sink =>
    have hg := hg sink hsink
    obtain ⟨s, hsettles, hinv, hblocks⟩ := findRoutes_settles hg hsorted (flowInv_init hg)
    refine ⟨s, ?_, ?_⟩
    · unfold findMaxFlow
      rw [hsink]
      exact hsettles
    · intro sink' h
      cases h
      exact ⟨hinv, hblocks⟩

end MinCut
end McSSAPre
end Maple
