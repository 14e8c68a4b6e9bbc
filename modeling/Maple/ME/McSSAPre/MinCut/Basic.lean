import Maple.Lib.While
import Maple.ME.McSSAPre.MinCut.ReducedGraph
import Mathlib.Algebra.Ring.Int.Defs

/-!
# Maximum flow and minimum cut

`FindMaxFlow` and `DetermineMinCut` of `mc_ssa_pre.cpp`, on the reduced graph. `usedCap` is a function
of the edges. Flow values are integers without a bound.
-/

namespace Maple
namespace McSSAPre
namespace MinCut

/-- `Visit`: the edge into `node` from its predecessor `predIdx`. -/
structure Visit where
  node : Nat
  predIdx : Nat
  deriving DecidableEq, Repr

/-- `Route`, from the sink to the source. -/
structure Route where
  visits : List Visit
  flowValue : Int
  deriving DecidableEq, Repr

section Flow

variable {Phi Real : Type} (g : ReducedGraph Phi Real) (sortedPred : Nat → List Nat)

def inEdgesCap (v : Visit) : Int := (g.node v.node).inEdgesCap.getD v.predIdx 0

def availableCapacity (usedCap : Visit → Int) (v : Visit) : Int := inEdgesCap g v - usedCap v

/-! ### VisitANode -/

/-- What a search for a route gives: the visits it adds, if it has success, and the nodes it has
visited. -/
abbrev Found := Option (List Visit) × (Nat → Bool)

/-- The first loop of `VisitANode`: an edge from the source with some capacity left. -/
def sourceEdge (usedCap : Visit → Int) (node : Nat) : Option Nat :=
  let pred := (g.node node).pred
  let isSource (i : Nat) : Bool := pred[i]? = some g.source
  match (List.range pred.length).find? fun i =>
      isSource i && inEdgesCap g ⟨node, i⟩ > usedCap ⟨node, i⟩ with
  | none => none
  | some i =>
    -- if there is another pred never taken that also reaches source, use that instead
    match (List.range pred.length).find? fun k =>
        i < k && isSource k && (usedCap ⟨node, k⟩ == 0 && inEdgesCap g ⟨node, k⟩ > 0) with
    | none => some i
    | some k => some k

/-- The loops over predecessors in some order: each one that passes the test is marked and visited,
until a visit has success. -/
def tryPreds (visit : Nat → (Nat → Bool) → Outcome Found)
    (test : (Nat → Bool) → Visit → Nat → Bool) (node : Nat) :
    List Nat → (Nat → Bool) → Outcome Found
  | [], visitedNodes => .done (none, visitedNodes)
  | i :: order, visitedNodes =>
    match (g.node node).pred[i]? with
    | none => .assertionFailed
    | some pred =>
      if test visitedNodes ⟨node, i⟩ pred then
        (visit pred (Function.update visitedNodes pred true)).bind fun
          | (some visits, visitedNodes) => .done (some (⟨node, i⟩ :: visits), visitedNodes)
          | (none, visitedNodes) => tryPreds visit test node order visitedNodes
      else tryPreds visit test node order visitedNodes

/-- `VisitANode`, with the order into which `std::sort` puts the predecessors of each node. -/
def visitANode (usedCap : Visit → Int) : Nat → Nat → (Nat → Bool) → Outcome Found
  | 0, _, _ => .outOfFuel
  | fuel + 1, node, visitedNodes =>
    match sourceEdge g usedCap node with
    | some i => .done (some [⟨node, i⟩], visitedNodes)
    | none =>
      -- pick an never-taken predecessor path first
      (tryPreds g (visitANode usedCap fuel) (fun visitedNodes v pred =>
          usedCap v == 0 && inEdgesCap g v > 0 && !visitedNodes pred)
        node (List.range (g.node node).pred.length) visitedNodes).bind fun
        | (some visits, visitedNodes) => .done (some visits, visitedNodes)
        | (none, visitedNodes) =>
          tryPreds g (visitANode usedCap fuel) (fun visitedNodes v pred =>
              !visitedNodes pred && inEdgesCap g v > usedCap v)
            node (sortedPred node) visitedNodes

/-! ### FindMaxFlow -/

/-- The used capacities and the routes so far. -/
structure FlowState where
  usedCap : Visit → Int
  maxFlowRoutes : List Route

/-- The two loops of `FindAnotherRoute` over the predecessors of the sink. -/
def searchRoute (sink : Nat) (usedCap : Visit → Int) (fuel : Nat) : Outcome Found :=
  (tryPreds g (visitANode g sortedPred usedCap fuel) (fun _ v _ => usedCap v == 0) sink
    (List.range (g.node sink).pred.length) fun _ => false).bind fun
    | (some visits, visitedNodes) => .done (some visits, visitedNodes)
    | (none, visitedNodes) =>
      tryPreds g (visitANode g sortedPred usedCap fuel) (fun _ _ _ => true) sink
        (List.range (g.node sink).pred.length) visitedNodes

/-- The bottleneck capacity along a route. -/
def minAvailCap (usedCap : Visit → Int) : List Visit → Int
  | [] => 0
  | v :: visits => visits.foldl (fun m v => min m (availableCapacity g usedCap v))
      (availableCapacity g usedCap v)

/-- The state with one more route. -/
def addRoute (s : FlowState) (visits : List Visit) : FlowState :=
  let flowValue := minAvailCap g s.usedCap visits
  { usedCap := visits.foldl (fun usedCap v =>
      Function.update usedCap v (usedCap v + flowValue)) s.usedCap
    maxFlowRoutes := s.maxFlowRoutes ++ [⟨visits, flowValue⟩] }

/-- The loop of `FindMaxFlow`. -/
def findRoutes (sink : Nat) : Nat → FlowState → Outcome FlowState
  | 0, _ => .outOfFuel
  | fuel + 1, s =>
    (searchRoute g sortedPred sink s.usedCap fuel).bind fun
      | (none, _) => .done s
      | (some visits, _) => findRoutes sink fuel (addRoute g s visits)

def findMaxFlow (fuel : Nat) : Outcome FlowState :=
  match g.sink with
  | none => .done { usedCap := fun _ => 0, maxFlowRoutes := [] }
  | some sink => findRoutes g sortedPred sink fuel { usedCap := fun _ => 0, maxFlowRoutes := [] }

def maxFlowValue (s : FlowState) : Int := (s.maxFlowRoutes.map Route.flowValue).sum

/-! ### DetermineMinCut -/

/-- The first loop of the searches, from the end of the route back: the index of the last node that
is in `cutSet`, or 1. -/
def startIdx (cutSet : List Nat) (visits : List Visit) : Nat → Nat
  | 0 => 1
  | 1 => 1
  | visitIdx + 2 =>
    match visits[visitIdx + 2]? with
    | none => startIdx cutSet visits (visitIdx + 1)
    | some v => if v.node ∈ cutSet then visitIdx + 2 else startIdx cutSet visits (visitIdx + 1)

def removeRouteNodesFromCutSet (cutSet : List Nat) (route : Route) : List Nat :=
  (route.visits.drop 1).foldl (fun cutSet v => cutSet.erase v.node) cutSet

/-- The last loop of the searches, over the visits from `visitIdx` on: `next` is the search on the
routes behind this one, and `cut` has the choices for the routes before it. -/
def searchVisits (isCandidate : Visit → Bool) (bound : Int)
    (next : List Visit → Int → List Nat → Option (List Visit) × List Nat) (route : Route)
    (cut : List Visit) (flowSoFar : Int) :
    List Visit → List Nat → Option (List Visit) × List Nat
  | [], cutSet => (none, removeRouteNodesFromCutSet cutSet route)
  | v :: visits, cutSet =>
    let cutSet := v.node :: cutSet
    if isCandidate v then
      -- `IncludedEarlier`
      let visitCap := if v ∈ cut then 0 else inEdgesCap g v
      if flowSoFar + visitCap ≤ bound then
        match next (cut ++ [v]) (flowSoFar + visitCap) cutSet with
        | (some cut, cutSet) => (some cut, cutSet)
        | (none, cutSet) =>
          searchVisits isCandidate bound next route cut flowSoFar visits cutSet
      else searchVisits isCandidate bound next route cut flowSoFar visits cutSet
    else searchVisits isCandidate bound next route cut flowSoFar visits cutSet

/-- The search that `SearchMinCut` and `SearchRelaxedMinCut` share, on the routes that are left. -/
def searchCut (isCandidate : Visit → Bool) (bound : Int) :
    List Route → List Visit → Int → List Nat → Option (List Visit) × List Nat
  | [], cut, _, cutSet => (some cut, cutSet)
  | route :: routes, cut, flowSoFar, cutSet =>
    let visitIdx := startIdx cutSet route.visits (route.visits.length - 1)
    -- update cutSet with visited nodes lower than visitIdx
    let lower := (route.visits.take visitIdx).drop 1
    searchVisits g isCandidate bound (searchCut isCandidate bound routes) route cut flowSoFar
      (route.visits.drop visitIdx) (lower.map Visit.node ++ cutSet)

/-- `SearchMinCut`: only edges all of whose capacity is used are candidates. -/
def searchMinCut (s : FlowState) : Option (List Visit) :=
  (searchCut g (fun v => inEdgesCap g v == s.usedCap v) (maxFlowValue s) s.maxFlowRoutes [] 0 []).1

def searchRelaxedMinCut (s : FlowState) (relaxedMaxFlowValue : Int) : Option (List Visit) :=
  (searchCut g (fun _ => true) relaxedMaxFlowValue s.maxFlowRoutes [] 0 []).1

/-- The order by which the cut is sorted. -/
def visitLe (left right : Visit) : Bool :=
  if left.node ≠ right.node then left.node < right.node else left.predIdx ≤ right.predIdx

/-- `DetermineMinCut`: `minCut`, and whether the search was the relaxed one; `none` if both fail. The
choices are pointers into the visits of different routes, so that no two are the same pointer and
none is removed as a duplicate. -/
def determineMinCut (s : FlowState) : Option (List Visit × Bool) :=
  if s.maxFlowRoutes.isEmpty then some ([], false)
  else
    let tooMany := s.maxFlowRoutes.length ≥ 20
    -- the product with 1.25 is one of doubles
    let relaxedMaxFlowValue := if tooMany
      then maxFlowValue s * (s.maxFlowRoutes.length / 10 : Nat)
      else maxFlowValue s * 5 / 4
    match if tooMany then none else searchMinCut g s with
    | some cut => some (cut.mergeSort visitLe, false)
    | none => (searchRelaxedMinCut g s relaxedMaxFlowValue).map fun cut =>
        (cut.mergeSort visitLe, true)

end Flow
end MinCut
end McSSAPre
end Maple
