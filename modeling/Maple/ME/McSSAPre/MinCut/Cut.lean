import Maple.ME.McSSAPre.MinCut.MaxFlow
import Mathlib.Data.Fin.VecNotation

/-!
# The cut of SearchMinCut

The cut has one edge of each route, and the capacities of its edges add up to the sum of the flows.
Paths which switch from one route to another may have no edge of it.
-/

namespace Maple
namespace McSSAPre
namespace MinCut

variable {Phi Real : Type} {g : ReducedGraph Phi Real} {sink : Nat} {s : FlowState}

/-- The capacities of the distinct edges of a cut. -/
def cutCap (g : ReducedGraph Phi Real) (cut : List Visit) : Int :=
  ∑ v ∈ cut.toFinset, inEdgesCap g v

lemma cutCap_append (cut : List Visit) (v : Visit) :
    cutCap g (cut ++ [v]) = cutCap g cut + if v ∈ cut then 0 else inEdgesCap g v := by
  have hinsert : (cut ++ [v]).toFinset = insert v cut.toFinset := by
    ext w
    simp
  rw [cutCap, hinsert]
  split_ifs with h
  · rw [Finset.insert_eq_of_mem (List.mem_toFinset.mpr h), cutCap, add_zero]
  · rw [Finset.sum_insert (by simpa using h), cutCap, add_comm]

/-! ### The search -/

section Search

variable {isCandidate : Visit → Bool} {bound : Int}

lemma searchVisits_eq_some {next : List Visit → Int → List Nat → Option (List Visit) × List Nat}
    {route : Route} {cut cut' : List Visit} {flowSoFar : Int} {visits : List Visit}
    {cutSet : List Nat}
    (h : (searchVisits g isCandidate bound next route cut flowSoFar visits cutSet).1 = some cut') :
    ∃ v ∈ visits, isCandidate v = true ∧ ∃ cutSet,
      flowSoFar + (if v ∈ cut then 0 else inEdgesCap g v) ≤ bound ∧
      (next (cut ++ [v]) (flowSoFar + if v ∈ cut then 0 else inEdgesCap g v) cutSet).1 =
        some cut' := by
  induction visits generalizing cutSet with
  | nil => cases h
  | cons v visits ih =>
    have hrest : ∀ cutSet, (searchVisits g isCandidate bound next route cut flowSoFar visits
        cutSet).1 = some cut' → ∃ w ∈ v :: visits, isCandidate w = true ∧ ∃ cutSet,
          flowSoFar + (if w ∈ cut then 0 else inEdgesCap g w) ≤ bound ∧
          (next (cut ++ [w]) (flowSoFar + if w ∈ cut then 0 else inEdgesCap g w) cutSet).1 =
            some cut' := by
      intro cutSet h
      obtain ⟨w, hw, hfound⟩ := ih h
      exact ⟨w, List.mem_cons_of_mem v hw, hfound⟩
    rw [searchVisits] at h
    simp only at h
    generalize hvisitCap : (if v ∈ cut then 0 else inEdgesCap g v) = visitCap at h
    split_ifs at h with hcand hbound
    · split at h
      · rename_i cut'' cutSet' hnext
        cases h
        subst hvisitCap
        exact ⟨v, List.mem_cons_self, hcand, v.node :: cutSet, hbound, by rw [hnext]⟩
      · exact hrest _ h
    · exact hrest _ h
    · exact hrest _ h

lemma searchCut_eq_some {routes : List Route} {cut cut' : List Visit} {flowSoFar : Int}
    {cutSet : List Nat} (hflow : flowSoFar = cutCap g cut) (hbound : flowSoFar ≤ bound)
    (h : (searchCut g isCandidate bound routes cut flowSoFar cutSet).1 = some cut') :
    cutCap g cut' ≤ bound ∧ (∀ v ∈ cut, v ∈ cut') ∧
      (∀ r ∈ routes, ∃ v ∈ r.visits, v ∈ cut') ∧
      ∀ v ∈ cut', v ∈ cut ∨ isCandidate v = true ∧ ∃ r ∈ routes, v ∈ r.visits := by
  induction routes generalizing cut flowSoFar cutSet with
  | nil =>
    cases h
    exact ⟨hflow ▸ hbound, fun _ hv => hv, by simp, fun _ hv => .inl hv⟩
  | cons r routes ih =>
    rw [searchCut] at h
    obtain ⟨v, hv, hcand, cutSet, hle, hnext⟩ := searchVisits_eq_some h
    have hv : v ∈ r.visits := List.mem_of_mem_drop hv
    have hflow' : (flowSoFar + if v ∈ cut then 0 else inEdgesCap g v) = cutCap g (cut ++ [v]) := by
      rw [cutCap_append, hflow]
    obtain ⟨hcap, hkeep, hroutes, hcut⟩ := ih hflow' hle hnext
    refine ⟨hcap, fun w hw => hkeep w (List.mem_append_left _ hw), ?_, ?_⟩
    · intro r' hr'
      rcases List.mem_cons.mp hr' with rfl | hr'
      · exact ⟨v, hv, hkeep v (by simp)⟩
      · exact hroutes r' hr'
    · intro w hw
      rcases hcut w hw with hw | ⟨hcand', r', hr', hw⟩
      · rcases List.mem_append.mp hw with hw | hw
        · exact .inl hw
        · rw [List.mem_singleton.mp hw]
          exact .inr ⟨hcand, r, List.mem_cons_self, hv⟩
      · exact .inr ⟨hcand', r', List.mem_cons_of_mem r hr', hw⟩

end Search

/-! ### The sum of the capacities -/

/-- The number of edges of the cut on a route. -/
def cutCount (cut : List Visit) (r : Route) : Nat :=
  (cut.toFinset.filter (· ∈ r.visits)).card

lemma sum_usedCap (h : FlowInv g sink s) (cut : List Visit) :
    ∑ v ∈ cut.toFinset, s.usedCap v =
      (s.maxFlowRoutes.map fun r => r.flowValue * (cutCount cut r : Int)).sum := by
  have hcount : ∀ r ∈ s.maxFlowRoutes,
      ∑ v ∈ cut.toFinset, Network.unit r.visits v = (cutCount cut r : Int) := by
    intro r hr
    rw [cutCount, Finset.card_filter]
    push_cast
    apply Finset.sum_congr rfl
    intro v _
    rw [Network.unit, List.Nodup.count (h.route r hr).2.1]
    split_ifs <;> rfl
  have hsum : ∀ rs : List Route,
      ∑ v ∈ cut.toFinset, (rs.map fun r => r.flowValue * Network.unit r.visits v).sum =
        (rs.map fun r => r.flowValue * ∑ v ∈ cut.toFinset, Network.unit r.visits v).sum := by
    intro rs
    induction rs with
    | nil => simp
    | cons r rs ih =>
      simp only [List.map_cons, List.sum_cons]
      rw [Finset.sum_add_distrib, ih, Finset.mul_sum]
  rw [h.usedCap, hsum]
  congr 1
  apply List.map_congr_left
  intro r hr
  rw [hcount r hr]

lemma eq_one_of_sum_le {α : Type} {c : α → Int} {k : α → Nat} {l : List α}
    (h : ∀ r ∈ l, 0 < c r ∧ 1 ≤ k r)
    (hsum : (l.map fun r => c r * (k r : Int)).sum ≤ (l.map c).sum) : ∀ r ∈ l, k r = 1 := by
  induction l with
  | nil => simp
  | cons r l ih =>
    have hl : ∀ r ∈ l, 0 < c r ∧ 1 ≤ k r := fun r' hr' => h r' (List.mem_cons_of_mem r hr')
    have hle : (l.map c).sum ≤ (l.map fun r => c r * (k r : Int)).sum := by
      apply List.sum_le_sum
      intro r' hr'
      obtain ⟨hpos, hone⟩ := hl r' hr'
      nlinarith
    obtain ⟨hpos, hone⟩ := h r List.mem_cons_self
    simp only [List.map_cons, List.sum_cons] at hsum
    have hr : c r ≤ c r * (k r : Int) := by nlinarith
    have hk : c r * ((k r : Int) - 1) ≤ 0 := by linarith
    intro r' hr'
    rcases List.mem_cons.mp hr' with rfl | hr'
    · have hle' := nonpos_of_mul_nonpos_right hk hpos
      omega
    · exact ih hl (by linarith) r' hr'

lemma determineMinCut_exact (h : FlowInv g sink s) {minCut : List Visit}
    (hcut : determineMinCut g s = some (minCut, false)) :
    (∀ r ∈ s.maxFlowRoutes, cutCount minCut r = 1) ∧ cutCap g minCut = maxFlowValue s ∧
      ∀ v ∈ minCut, v ∈ (g.toNetwork sink).edges := by
  unfold determineMinCut at hcut
  split_ifs at hcut with hempty
  · cases hcut
    rw [List.isEmpty_iff] at hempty
    simp [hempty, cutCap, maxFlowValue]
  · simp only at hcut
    split at hcut
    · rename_i cut hsearch
      cases hcut
      split_ifs at hsearch
      have hnonneg : 0 ≤ maxFlowValue s := by
        apply List.sum_nonneg
        intro c hc
        obtain ⟨r, hr, rfl⟩ := List.mem_map.mp hc
        exact (h.route r hr).2.2.le
      obtain ⟨hle, -, hroutes, hcand⟩ := searchCut_eq_some (by simp [cutCap]) hnonneg hsearch
      have hset : (cut.mergeSort visitLe).toFinset = cut.toFinset := by
        ext v
        simp
      have hcount : ∀ r, cutCount (cut.mergeSort visitLe) r = cutCount cut r := by
        intro r
        rw [cutCount, hset, cutCount]
      have hcap : cutCap g (cut.mergeSort visitLe) = cutCap g cut := by
        rw [cutCap, hset, cutCap]
      have hsaturated : cutCap g cut = ∑ v ∈ cut.toFinset, s.usedCap v := by
        apply Finset.sum_congr rfl
        intro v hv
        rcases hcand v (List.mem_toFinset.mp hv) with hv | ⟨hcand', -⟩
        · cases hv
        · exact beq_iff_eq.mp hcand'
      have hpos : ∀ r ∈ s.maxFlowRoutes, 0 < r.flowValue ∧ 1 ≤ cutCount cut r := by
        intro r hr
        refine ⟨(h.route r hr).2.2, Finset.card_pos.mpr ?_⟩
        obtain ⟨v, hv, hvcut⟩ := hroutes r hr
        exact ⟨v, by simp [hv, hvcut]⟩
      have hone : ∀ r ∈ s.maxFlowRoutes, cutCount cut r = 1 := by
        apply eq_one_of_sum_le hpos
        rw [← sum_usedCap h, ← hsaturated]
        exact hle
      refine ⟨fun r hr => (hcount r).trans (hone r hr), ?_, ?_⟩
      · rw [hcap, hsaturated, sum_usedCap h, maxFlowValue]
        congr 1
        apply List.map_congr_left
        intro r hr
        rw [hone r hr]
        simp
      · intro v hv
        rcases hcand v (List.mem_mergeSort.mp hv) with hv | ⟨-, r, hr, hv⟩
        · cases hv
        · exact (h.route r hr).1.mem_edges v hv
    · rw [Option.map_eq_some_iff] at hcut
      obtain ⟨cut, -, heq⟩ := hcut
      cases heq

/-! ### FindMaxFlow and DetermineMinCut -/

section Build

variable [DecidableEq Phi] [DecidableEq Real] {occs : Occs Phi Real} {order : List (Occ Phi Real)}
  {sortedPred : Nat → List Nat}

end Build

/-! ### A path without an edge of the cut -/

local instance crossing_neZero_two : NeZero (2 : Nat) := ⟨by decide⟩

local instance crossing_neZero_three : NeZero (3 : Nat) := ⟨by decide⟩

/-- Two phis that the source reaches, a third phi with both as operands, and real occurrences of the
first phi and the third one. -/
def crossing : Occs (Fin 3) (Fin 2) where
  phiOccs := [0, 1, 2]
  isPartialAnt := fun _ => true
  isFullyAvail := fun _ => false
  phiOpnds := ![[.null, .real], [.null, .real], [.phi 0, .phi 1]]
  predFrequency := fun _ _ => 0
  allOccs := [.phiopnd 2 0, .phiopnd 2 1, .real 0, .real 1]
  rgExcluded := fun _ => false
  realDef := ![some 2, some 0]
  frequency := fun _ => 0

def crossingOrder : List (Occ (Fin 3) (Fin 2)) := [.phi 0, .phi 1, .phi 2, .real 0, .real 1]

def crossingGraph : ReducedGraph (Fin 3) (Fin 2) :=
  (ReducedGraph.build crossing crossingOrder).getD {}

/-- The only route that is found. -/
def crossingRoute : List Visit := [⟨7, 0⟩, ⟨4, 0⟩, ⟨3, 0⟩, ⟨1, 0⟩]

def crossingState : FlowState :=
  addRoute crossingGraph { usedCap := fun _ => 0, maxFlowRoutes := [] } crossingRoute

lemma build_crossing : ReducedGraph.build crossing crossingOrder = some crossingGraph := rfl

lemma findMaxFlow_crossing : Outcome.Settles
    (findMaxFlow crossingGraph fun v => List.range (crossingGraph.node v).pred.length)
    (.done crossingState) := by
  refine ⟨by simp, 12, ?_⟩
  intro fuel hfuel
  obtain ⟨k, rfl⟩ : ∃ k, fuel = k + 12 := ⟨fuel - 12, by omega⟩
  rfl

lemma determineMinCut_crossing :
    determineMinCut crossingGraph crossingState = some ([⟨4, 0⟩], false) := by
  decide +kernel

lemma bounded_crossing : crossing.Bounded :=
  ⟨fun _ _ => by simp [crossing, kInt64Max], fun _ => by simp [crossing, kInt64Max]⟩

lemma valid_crossing : crossingGraph.Valid 7 :=
  ReducedGraph.valid_build bounded_crossing (by decide) build_crossing rfl

lemma isRoute_crossing : (crossingGraph.toNetwork 7).IsRoute 7 [⟨7, 1⟩, ⟨5, 0⟩, ⟨1, 0⟩] := by
  repeat rw [Network.isRoute_cons_iff, valid_crossing.mem_edges]
  rw [Network.isRoute_nil_iff]
  decide +kernel

lemma exists_isFlow_crossing : ∃ f, (crossingGraph.toNetwork 7).IsFlow f ∧
    (crossingGraph.toNetwork 7).excess f 7 = 2 := by
  have hroute : (crossingGraph.toNetwork 7).IsRoute 7 [⟨7, 0⟩, ⟨4, 0⟩, ⟨3, 1⟩, ⟨2, 0⟩] := by
    repeat rw [Network.isRoute_cons_iff, valid_crossing.mem_edges]
    rw [Network.isRoute_nil_iff]
    decide +kernel
  have hzero := (flowInv_init valid_crossing).isFlow
  have hone := hzero.add_route isRoute_crossing (by decide) (c := 1) (by decide)
    (by decide +kernel)
  have htwo := hone.add_route hroute (by decide) (c := 1) (by decide) (by decide +kernel)
  refine ⟨_, htwo, ?_⟩
  rw [Network.excess_add, Network.excess_add, Network.excess_mul, Network.excess_mul,
    isRoute_crossing.excess_unit, hroute.excess_unit]
  simp [Network.excess]
  decide +kernel

end MinCut
end McSSAPre
end Maple
