import Maple.ME.McSSAPre.MinCut.MaxFlow
import Maple.ME.McSSAPre.MinCut.NodeIds
import Mathlib.Data.Fin.VecNotation

/-!
# The table of visited nodes

`FindAnotherRoute` gives `visitedNodes` one more element than the map has entries. The ids of the
occurrences start at 1 and are in range, and that of the source is the first one that is not. The runs
here are those of the search, with a record of the indices.
-/

namespace Maple
namespace McSSAPre
namespace MinCut

/-- An index into `visitedNodes`. -/
structure Access where
  index : Nat
  -- the index of the test in the last loop of `VisitANode`
  isLastTest : Bool
  deriving DecidableEq, Repr

section Trace

variable {Phi Real : Type} (g : ReducedGraph Phi Real) (sortedPred : Nat → List Nat)

/-- The size of `visitedNodes`, with the entries of the map. -/
def visitedSize (order : List (Occ Phi Real)) : Nat := order.length + 1

/-- `tryPreds`, where the test of an edge makes the accesses `reads`. -/
def tracePreds (visit : Nat → (Nat → Bool) → List Access → Outcome (Found × List Access))
    (reads : Visit → Nat → List Access) (test : (Nat → Bool) → Visit → Nat → Bool) (node : Nat) :
    List Nat → (Nat → Bool) → List Access → Outcome (Found × List Access)
  | [], visitedNodes, trace => .done ((none, visitedNodes), trace)
  | i :: order, visitedNodes, trace =>
    match (g.node node).pred[i]? with
    | none => .assertionFailed
    | some pred =>
      let trace := trace ++ reads ⟨node, i⟩ pred
      if test visitedNodes ⟨node, i⟩ pred then
        (visit pred (Function.update visitedNodes pred true) (trace ++ [⟨pred, false⟩])).bind fun
          | ((some visits, visitedNodes), trace) =>
            .done ((some (⟨node, i⟩ :: visits), visitedNodes), trace)
          | ((none, visitedNodes), trace) =>
            tracePreds visit reads test node order visitedNodes trace
      else tracePreds visit reads test node order visitedNodes trace

/-- `visitANode`. The first test looks at `visitedNodes` last, and the second one first. -/
def traceANode (usedCap : Visit → Int) :
    Nat → Nat → (Nat → Bool) → List Access → Outcome (Found × List Access)
  | 0, _, _, _ => .outOfFuel
  | fuel + 1, node, visitedNodes, trace =>
    match sourceEdge g usedCap node with
    | some i => .done ((some [⟨node, i⟩], visitedNodes), trace)
    | none =>
      (tracePreds g (traceANode usedCap fuel)
          (fun v pred => if usedCap v == 0 && inEdgesCap g v > 0 then [⟨pred, false⟩] else [])
          (fun visitedNodes v pred =>
            usedCap v == 0 && inEdgesCap g v > 0 && !visitedNodes pred)
          node (List.range (g.node node).pred.length) visitedNodes trace).bind fun
        | ((some visits, visitedNodes), trace) => .done ((some visits, visitedNodes), trace)
        | ((none, visitedNodes), trace) =>
          tracePreds g (traceANode usedCap fuel) (fun _ pred => [⟨pred, true⟩])
            (fun visitedNodes v pred => !visitedNodes pred && inEdgesCap g v > usedCap v)
            node (sortedPred node) visitedNodes trace

/-- `searchRoute`, whose loops only mark. -/
def traceRoute (sink : Nat) (usedCap : Visit → Int) (fuel : Nat) (trace : List Access) :
    Outcome (Found × List Access) :=
  (tracePreds g (traceANode g sortedPred usedCap fuel) (fun _ _ => [])
    (fun _ v _ => usedCap v == 0) sink (List.range (g.node sink).pred.length)
    (fun _ => false) trace).bind fun
    | ((some visits, visitedNodes), trace) => .done ((some visits, visitedNodes), trace)
    | ((none, visitedNodes), trace) =>
      tracePreds g (traceANode g sortedPred usedCap fuel) (fun _ _ => []) (fun _ _ _ => true) sink
        (List.range (g.node sink).pred.length) visitedNodes trace

/-- `findRoutes`. -/
def traceRoutes (sink : Nat) : Nat → FlowState → List Access → Outcome (FlowState × List Access)
  | 0, _, _ => .outOfFuel
  | fuel + 1, s, trace =>
    (traceRoute g sortedPred sink s.usedCap fuel trace).bind fun
      | ((none, _), trace) => .done (s, trace)
      | ((some visits, _), trace) => traceRoutes sink fuel (addRoute g s visits) trace

/-- `findMaxFlow`, with the indices of all its searches. -/
def traceMaxFlow (fuel : Nat) : Outcome (FlowState × List Access) :=
  match g.sink with
  | none => .done ({ usedCap := fun _ => 0, maxFlowRoutes := [] }, [])
  | some sink =>
    traceRoutes g sortedPred sink fuel { usedCap := fun _ => 0, maxFlowRoutes := [] } []

end Trace

variable {Phi Real : Type} {g : ReducedGraph Phi Real} {sink : Nat}
  {sortedPred : Nat → List Nat} {usedCap : Visit → Int} {trace : List Access}

/-! ### The same search -/

/-- A run without its record. -/
def untraced {α : Type} (o : Outcome (α × List Access)) : Outcome α := o.bind fun r => .done r.1

lemma untraced_eq_done_iff {α : Type} {o : Outcome (α × List Access)} {a : α} :
    untraced o = .done a ↔ ∃ trace, o = .done (a, trace) := by
  rw [untraced, Outcome.bind_eq_done_iff]
  constructor
  · rintro ⟨⟨b, trace⟩, rfl, h⟩
    cases h
    exact ⟨trace, rfl⟩
  · rintro ⟨trace, rfl⟩
    exact ⟨_, rfl, rfl⟩

lemma untraced_bind {α β : Type} {o : Outcome (α × List Access)} {o' : Outcome α}
    {f : α × List Access → Outcome (β × List Access)} {f' : α → Outcome β}
    (h : untraced o = o') (hf : ∀ r, untraced (f r) = f' r.1) :
    untraced (o.bind f) = o'.bind f' := by
  subst h
  cases o with
  | done r => exact hf r
  | assertionFailed => rfl
  | outOfFuel => rfl

lemma untraced_tracePreds {visit : Nat → (Nat → Bool) → Outcome Found}
    {visit' : Nat → (Nat → Bool) → List Access → Outcome (Found × List Access)}
    (hvisit : ∀ pred visitedNodes trace,
      untraced (visit' pred visitedNodes trace) = visit pred visitedNodes)
    (reads : Visit → Nat → List Access) (test : (Nat → Bool) → Visit → Nat → Bool)
    (node : Nat) (order : List Nat) (visitedNodes : Nat → Bool) (trace : List Access) :
    untraced (tracePreds g visit' reads test node order visitedNodes trace) =
      tryPreds g visit test node order visitedNodes := by
  induction order generalizing visitedNodes trace with
  | nil => rfl
  | cons i order ih =>
    rw [tracePreds, tryPreds]
    cases (g.node node).pred[i]? with
    | none => rfl
    | some pred =>
      simp only
      split_ifs
      · apply untraced_bind (hvisit _ _ _)
        rintro ⟨⟨visits | visits, visitedNodes⟩, trace⟩
        · exact ih visitedNodes trace
        · rfl
      · exact ih _ _

lemma untraced_traceANode (fuel node : Nat) (visitedNodes : Nat → Bool) (trace : List Access) :
    untraced (traceANode g sortedPred usedCap fuel node visitedNodes trace) =
      visitANode g sortedPred usedCap fuel node visitedNodes := by
  induction fuel generalizing node visitedNodes trace with
  | zero => rfl
  | succ fuel ih =>
    rw [traceANode, visitANode]
    cases sourceEdge g usedCap node with
    | some i => rfl
    | none =>
      apply untraced_bind (untraced_tracePreds ih _ _ _ _ _ _)
      rintro ⟨⟨visits | visits, visitedNodes⟩, trace⟩
      · exact untraced_tracePreds ih _ _ _ _ _ _
      · rfl

lemma untraced_traceRoute (fuel : Nat) (trace : List Access) :
    untraced (traceRoute g sortedPred sink usedCap fuel trace) =
      searchRoute g sortedPred sink usedCap fuel := by
  apply untraced_bind (untraced_tracePreds (untraced_traceANode fuel) _ _ _ _ _ _)
  rintro ⟨⟨visits | visits, visitedNodes⟩, trace⟩
  · exact untraced_tracePreds (untraced_traceANode fuel) _ _ _ _ _ _
  · rfl

lemma untraced_traceRoutes (fuel : Nat) (s : FlowState) (trace : List Access) :
    untraced (traceRoutes g sortedPred sink fuel s trace) =
      findRoutes g sortedPred sink fuel s := by
  induction fuel generalizing s trace with
  | zero => rfl
  | succ fuel ih =>
    apply untraced_bind (untraced_traceRoute fuel trace)
    rintro ⟨⟨visits | visits, visitedNodes⟩, trace⟩
    · rfl
    · exact ih _ _

lemma untraced_traceMaxFlow (fuel : Nat) :
    untraced (traceMaxFlow g sortedPred fuel) = findMaxFlow g sortedPred fuel := by
  unfold traceMaxFlow findMaxFlow
  cases g.sink with
  | none => rfl
  | some sink => exact untraced_traceRoutes fuel _ _

/-! ### The indices -/

/-- No index is greater than the id of the source, and only tests of last loops have that one. -/
def Sound (g : ReducedGraph Phi Real) (trace : List Access) : Prop :=
  ∀ a ∈ trace, a.index ≤ g.source ∧ (a.isLastTest = false → a.index ≠ g.source)

lemma sound_nil : Sound g [] := by simp [Sound]

lemma sound_of_lt {index : Nat} (h : index < g.source) (isLastTest : Bool) :
    Sound g [⟨index, isLastTest⟩] := by
  simp [Sound, h.le, h.ne]

lemma sound_lastTest {index : Nat} (h : index ≤ g.source) : Sound g [⟨index, true⟩] := by
  simp [Sound, h]

lemma Sound.append {trace' : List Access} (h : Sound g trace) (h' : Sound g trace') :
    Sound g (trace ++ trace') :=
  fun a ha => (List.mem_append.mp ha).elim (h a) (h' a)

lemma sound_tracePreds {node : Nat}
    {visit : Nat → (Nat → Bool) → List Access → Outcome (Found × List Access)}
    {reads : Visit → Nat → List Access} {test : (Nat → Bool) → Visit → Nat → Bool}
    (hvisit : ∀ pred visitedNodes trace r, Sound g trace →
      visit pred visitedNodes trace = .done r → Sound g r.2)
    (hreads : ∀ i pred, (g.node node).pred[i]? = some pred → Sound g (reads ⟨node, i⟩ pred))
    (hmark : ∀ visitedNodes i pred, (g.node node).pred[i]? = some pred →
      test visitedNodes ⟨node, i⟩ pred = true → pred < g.source)
    {order : List Nat} {visitedNodes : Nat → Bool} {r : Found × List Access}
    (htrace : Sound g trace)
    (hr : tracePreds g visit reads test node order visitedNodes trace = .done r) :
    Sound g r.2 := by
  induction order generalizing visitedNodes trace with
  | nil =>
    cases hr
    exact htrace
  | cons i order ih =>
    rw [tracePreds] at hr
    cases hpred : (g.node node).pred[i]? with
    | none =>
      rw [hpred] at hr
      cases hr
    | some pred =>
      simp only [hpred] at hr
      have hread := htrace.append (hreads i pred hpred)
      cases htest : test visitedNodes ⟨node, i⟩ pred with
      | false =>
        rw [htest] at hr
        exact ih hread hr
      | true =>
        rw [htest, if_pos rfl, Outcome.bind_eq_done_iff] at hr
        have hmarked := hread.append (sound_of_lt (hmark visitedNodes i pred hpred htest) false)
        obtain ⟨⟨⟨visits | visits, vis⟩, trace'⟩, hrun, hr⟩ := hr
        · exact ih (hvisit _ _ _ _ hmarked hrun) hr
        · have hsound := hvisit _ _ _ _ hmarked hrun
          cases hr
          exact hsound

/-- The source and the sink have the last two ids. -/
structure LastIds (g : ReducedGraph Phi Real) (sink : Nat) : Prop where
  sink_eq : sink = g.source + 1
  nextRGNodeId_eq : g.nextRGNodeId = sink + 1

lemma LastIds.pred_le (h : LastIds g sink) (hg : g.Valid sink) {node i pred : Nat}
    (hpred : (g.node node).pred[i]? = some pred) : pred ≤ g.source := by
  have hmem := List.mem_of_getElem? hpred
  have hlt := (hg.pred_lt node pred hmem).2
  have hne : pred ≠ sink := by
    rintro rfl
    exact hg.not_sink node hmem
  have hsink := h.sink_eq
  have hnext := h.nextRGNodeId_eq
  omega

lemma sound_traceANode (hids : LastIds g sink) (hg : g.Valid sink) {fuel node : Nat}
    {visitedNodes : Nat → Bool} {r : Found × List Access} (htrace : Sound g trace)
    (hr : traceANode g sortedPred usedCap fuel node visitedNodes trace = .done r) :
    Sound g r.2 := by
  induction fuel generalizing node visitedNodes trace r with
  | zero => cases hr
  | succ fuel ih =>
    rw [traceANode] at hr
    cases hedge : sourceEdge g usedCap node with
    | some i =>
      rw [hedge] at hr
      cases hr
      exact htrace
    | none =>
      have hlt : ∀ i pred, (g.node node).pred[i]? = some pred → HasCapacity g usedCap ⟨node, i⟩ →
          pred < g.source := by
        intro i pred hpred hcap
        apply lt_of_le_of_ne (hids.pred_le hg hpred)
        rintro rfl
        exact sourceEdge_eq_none hedge hpred hcap
      have hnever : ∀ i, (usedCap ⟨node, i⟩ == 0 && inEdgesCap g ⟨node, i⟩ > 0) = true →
          HasCapacity g usedCap ⟨node, i⟩ := by
        intro i htest
        simp only [Bool.and_eq_true, beq_iff_eq, decide_eq_true_eq] at htest
        rw [HasCapacity, htest.1]
        exact htest.2
      have hvisit : ∀ pred visitedNodes trace r, Sound g trace →
          traceANode g sortedPred usedCap fuel pred visitedNodes trace = .done r → Sound g r.2 :=
        fun _ _ _ _ => ih
      rw [hedge] at hr
      simp only [Outcome.bind_eq_done_iff] at hr
      obtain ⟨⟨⟨found, vis⟩, trace'⟩, hfirst, hr⟩ := hr
      have htrace' : Sound g trace' := by
        refine sound_tracePreds hvisit ?_ ?_ htrace hfirst
        · intro i pred hpred
          split_ifs with htest
          · exact sound_of_lt (hlt i pred hpred (hnever i htest)) false
          · exact sound_nil
        · intro visitedNodes i pred hpred htest
          exact hlt i pred hpred (hnever i (Bool.and_eq_true_iff.mp htest).1)
      cases found with
      | some visits =>
        cases hr
        exact htrace'
      | none =>
        refine sound_tracePreds hvisit ?_ ?_ htrace' hr
        · intro i pred hpred
          exact sound_lastTest (hids.pred_le hg hpred)
        · intro visitedNodes i pred hpred htest
          simp only [Bool.and_eq_true, decide_eq_true_eq] at htest
          exact hlt i pred hpred htest.2

lemma sound_traceRoute (hids : LastIds g sink) (hg : g.Valid sink) {fuel : Nat}
    {r : Found × List Access} (htrace : Sound g trace)
    (hr : traceRoute g sortedPred sink usedCap fuel trace = .done r) : Sound g r.2 := by
  have hvisit : ∀ pred visitedNodes trace r, Sound g trace →
      traceANode g sortedPred usedCap fuel pred visitedNodes trace = .done r → Sound g r.2 :=
    fun _ _ _ _ => sound_traceANode hids hg
  -- an edge into the sink comes from a real occurrence
  have hlt : ∀ i pred : Nat, (g.node sink).pred[i]? = some pred → pred < g.source := by
    intro i pred hpred
    apply lt_of_le_of_ne (hids.pred_le hg hpred)
    rintro rfl
    have hlength := hg.single _ (List.mem_of_getElem? hpred)
    rw [hg.source_pred] at hlength
    cases hlength
  simp only [traceRoute, Outcome.bind_eq_done_iff] at hr
  obtain ⟨⟨⟨found, vis⟩, trace'⟩, hfirst, hr⟩ := hr
  have htrace' : Sound g trace' :=
    sound_tracePreds hvisit (fun _ _ _ => sound_nil) (fun _ i pred hpred _ => hlt i pred hpred)
      htrace hfirst
  cases found with
  | some visits =>
    cases hr
    exact htrace'
  | none =>
    exact sound_tracePreds hvisit (fun _ _ _ => sound_nil)
      (fun _ i pred hpred _ => hlt i pred hpred) htrace' hr

lemma sound_traceRoutes (hids : LastIds g sink) (hg : g.Valid sink) {fuel : Nat}
    {s : FlowState} {r : FlowState × List Access} (htrace : Sound g trace)
    (hr : traceRoutes g sortedPred sink fuel s trace = .done r) : Sound g r.2 := by
  induction fuel generalizing s trace with
  | zero => cases hr
  | succ fuel ih =>
    simp only [traceRoutes, Outcome.bind_eq_done_iff] at hr
    obtain ⟨⟨⟨found, vis⟩, trace'⟩, hfirst, hr⟩ := hr
    have htrace' := sound_traceRoute hids hg htrace hfirst
    cases found with
    | none =>
      cases hr
      exact htrace'
    | some visits => exact ih htrace' hr

/-! ### The table -/

section Build

variable [DecidableEq Phi] [DecidableEq Real] {occs : Occs Phi Real} {order : List (Occ Phi Real)}

end Build

/-! ### A table that is too small -/

local instance frequentUse_neZero : NeZero (2 : Nat) := ⟨by decide⟩

/-- An occurrence in one branch and one behind the join, with a phi between them. The other branch is
never taken. -/
def frequentUse : Occs Unit (Fin 2) where
  phiOccs := [()]
  isPartialAnt := fun _ => true
  isFullyAvail := fun _ => false
  phiOpnds := fun _ => [.real, .null]
  predFrequency := fun _ i => if i = 0 then 5 else 0
  allOccs := [.real 0, .phiopnd () 0, .phiopnd () 1, .real 1]
  rgExcluded := fun _ => false
  realDef := ![none, some ()]
  frequency := fun _ => 5

def frequentUseOrder : List (Occ Unit (Fin 2)) := [.phi (), .real 1]

def frequentUseGraph : ReducedGraph Unit (Fin 2) :=
  (ReducedGraph.build frequentUse frequentUseOrder).getD {}

def frequentUseSorted (v : Nat) : List Nat := List.range (frequentUseGraph.node v).pred.length

lemma build_frequentUse :
    ReducedGraph.build frequentUse frequentUseOrder = some frequentUseGraph := rfl

lemma bounded_frequentUse : frequentUse.Bounded := by
  refine ⟨fun _ i => ?_, fun _ => by simp [frequentUse, kInt64Max]⟩
  by_cases hi : i = 0 <;> simp [frequentUse, kInt64Max, hi]

lemma keys_frequentUse (occ : Occ Unit (Fin 2)) :
    occ ∈ frequentUseOrder ↔ ∃ v, frequentUseGraph.occ2RGNodeMap occ = some v := by
  rw [← Option.isSome_iff_exists]
  rcases occ with ⟨⟨⟩⟩ | realOcc
  · decide
  · revert realOcc
    decide

end MinCut
end McSSAPre
end Maple
