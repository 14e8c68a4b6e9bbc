import Maple.ME.McSSAPre.WillBeAvail

/-!
# The reduced graph

`GraphReduction`, `AddSingleSource` and `AddSingleSink` of `mc_ssa_pre.cpp`. A node is its id, and
frequencies are integers.
-/

namespace Maple
namespace McSSAPre
namespace MinCut

/-- The occurrences that have a node. -/
inductive Occ (Phi Real : Type) where
  | phi (phiOcc : Phi)
  | real (realOcc : Real)
  deriving DecidableEq, Repr

/-- An element of `allOccs`; the operand `i` of a phi is in the predecessor `i` of its block. -/
inductive SortedOcc (Phi Real : Type) where
  | real (realOcc : Real)
  | phiopnd (defPhiOcc : Phi) (i : Nat)
  | other (id : Nat)
  deriving DecidableEq, Repr

/-- The occurrences of a candidate, with what the earlier steps have computed for them. -/
structure Occs (Phi Real : Type) where
  phiOccs : List Phi
  isPartialAnt : Phi → Bool
  isFullyAvail : Phi → Bool
  -- `GetDef` of the operands
  phiOpnds : Phi → List (OpndDef Phi)
  -- `GetBB()->GetPred(i)->GetFrequency()`
  predFrequency : Phi → Nat → Int
  allOccs : List (SortedOcc Phi Real)
  rgExcluded : Real → Bool
  -- a real occurrence has no other definition than a phi
  realDef : Real → Option Phi
  frequency : Real → Int

/-- `RGNode`, without `usedCap`. -/
structure RGNode (Phi Real : Type) where
  occ : Option (Occ Phi Real)
  pred : List Nat := []
  phiOpndIndices : List Nat := []
  inEdgesCap : List Int := []

/-- The members of `McSSAPre` for the reduced graph. -/
structure ReducedGraph (Phi Real : Type) where
  nextRGNodeId : Nat := 1
  occ2RGNodeMap : Occ Phi Real → Option Nat := fun _ => none
  node : Nat → RGNode Phi Real := fun _ => { occ := none }
  source : Nat := 0
  sink : Option Nat := none
  numSourceEdges : Nat := 0

def kInt64Max : Int := 9223372036854775807

namespace ReducedGraph

variable {Phi Real : Type} [DecidableEq Phi] [DecidableEq Real]

/-- `new RGNode` for an occurrence that gets into the map. -/
def addNode (g : ReducedGraph Phi Real) (occ : Occ Phi Real) : ReducedGraph Phi Real :=
  { g with
    nextRGNodeId := g.nextRGNodeId + 1
    occ2RGNodeMap := Function.update g.occ2RGNodeMap occ (some g.nextRGNodeId)
    node := Function.update g.node g.nextRGNodeId { occ := some occ } }

/-- An edge from `defNode` to `use`. -/
def addEdge (g : ReducedGraph Phi Real) (use defNode : Nat) (i : Option Nat) (cap : Int) :
    ReducedGraph Phi Real :=
  let rgNode := g.node use
  { g with
    node := Function.update g.node use { rgNode with
      pred := rgNode.pred ++ [defNode]
      phiOpndIndices := rgNode.phiOpndIndices ++ i.toList
      inEdgesCap := rgNode.inEdgesCap ++ [cap] } }

/-! ### GraphReduction -/

/-- The phis that have a node. -/
def isInGraph (occs : Occs Phi Real) (phiOcc : Phi) : Bool :=
  occs.isPartialAnt phiOcc && !occs.isFullyAvail phiOcc

def addDefNode (occs : Occs Phi Real) (g : ReducedGraph Phi Real) (phiOcc : Phi) :
    ReducedGraph Phi Real :=
  if isInGraph occs phiOcc then g.addNode (.phi phiOcc) else g

/-- The loop over `allOccs`. The result is `none` if an assertion fails. -/
def addUse (occs : Occs Phi Real) (g : ReducedGraph Phi Real) :
    SortedOcc Phi Real → Option (ReducedGraph Phi Real)
  | .real realOcc =>
    if occs.rgExcluded realOcc then some g
    else
      match occs.realDef realOcc with
      | none => some g
      | some defOcc =>
        match g.occ2RGNodeMap (.phi defOcc) with
        | none => some g
        | some defNode =>
          let use := g.nextRGNodeId
          some ((g.addNode (.real realOcc)).addEdge use defNode none (occs.frequency realOcc + 1))
  | .phiopnd defPhiOcc i =>
    if isInGraph occs defPhiOcc then
      match (occs.phiOpnds defPhiOcc)[i]? with
      | none => none
      | some (.phi defOcc) =>
        if isInGraph occs defOcc then
          match g.occ2RGNodeMap (.phi defOcc), g.occ2RGNodeMap (.phi defPhiOcc) with
          | some defNode, some use =>
            some (g.addEdge use defNode (some i) (occs.predFrequency defPhiOcc i + 1))
          | _, _ => none
        else some g
      | some _ => some g
    else some g
  | .other _ => some g

def graphReduction (occs : Occs Phi Real) : Option (ReducedGraph Phi Real) :=
  let g := occs.phiOccs.foldl (addDefNode occs) {}
  if occs.phiOccs.any (isInGraph occs) then occs.allOccs.foldlM (addUse occs) g else some g

/-! ### AddSingleSource and AddSingleSink -/

/-- The visit of one operand in `AddSingleSource`. -/
def addSourceEdge (occs : Occs Phi Real) (phiOcc : Phi) (g : ReducedGraph Phi Real) (i : Nat) :
    ReducedGraph Phi Real :=
  if (occs.phiOpnds phiOcc)[i]? = some .null then
    match g.occ2RGNodeMap (.phi phiOcc) with
    | none => g
    | some sucNode =>
      { g.addEdge sucNode g.source (some i) (occs.predFrequency phiOcc i + 1) with
        numSourceEdges := g.numSourceEdges + 1 }
  else g

/-- The visit of one phi in `AddSingleSource`. -/
def addSourceEdges (occs : Occs Phi Real) (g : ReducedGraph Phi Real) (phiOcc : Phi) :
    ReducedGraph Phi Real :=
  if isInGraph occs phiOcc then
    (List.range (occs.phiOpnds phiOcc).length).foldl (addSourceEdge occs phiOcc) g
  else g

def addSingleSource (occs : Occs Phi Real) (g : ReducedGraph Phi Real) : ReducedGraph Phi Real :=
  occs.phiOccs.foldl (addSourceEdges occs) { g with
    source := g.nextRGNodeId
    nextRGNodeId := g.nextRGNodeId + 1 }

/-- The visit of one entry of the map in `AddSingleSink`. -/
def addSinkEdge (sink : Nat) (g : ReducedGraph Phi Real) : Occ Phi Real → ReducedGraph Phi Real
  | .phi _ => g
  | .real realOcc =>
    match g.occ2RGNodeMap (.real realOcc) with
    | none => g
    | some use => g.addEdge sink use none kInt64Max

/-- `AddSingleSink`, with the order in which the map is iterated over. -/
def addSingleSink (order : List (Occ Phi Real)) (g : ReducedGraph Phi Real) :
    ReducedGraph Phi Real :=
  if g.numSourceEdges = 0 then g
  else
    let sink := g.nextRGNodeId
    order.foldl (addSinkEdge sink) { g with
      sink := some sink
      nextRGNodeId := sink + 1 }

/-- The three steps in the order of `ApplyMCSSAPRE`. -/
def build (occs : Occs Phi Real) (order : List (Occ Phi Real)) : Option (ReducedGraph Phi Real) :=
  (graphReduction occs).map fun g => addSingleSink order (addSingleSource occs g)

end ReducedGraph
end MinCut
end McSSAPre
end Maple
