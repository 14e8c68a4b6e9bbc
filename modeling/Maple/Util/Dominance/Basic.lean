import Maple.Lib.While
import Mathlib.Logic.Function.Basic
import Mathlib.Logic.Relation

/-!
# Dominators of a flow graph

`GenPostOrderID`, `ComputeDominance` and `Dominate` of `dominance.h`. A node is its id, the index of
its slot in `nodeVec`; vectors and maps that ids index are functions, and a missing entry of `doms`
is one that holds a null pointer.
-/

namespace Maple
namespace Dominance

abbrev NodeId := Nat

/-- The members that the constructor of `Dominance` gets, and the edge lists of the nodes. A slot of
`nodeVec` without a node holds a null pointer. -/
structure Graph where
  nodeVec : List (Option NodeId)
  commonEntryNode : NodeId
  outNodes : NodeId → List NodeId
  inNodes : NodeId → List NodeId
  isPdom : Bool

namespace Graph

variable (g : Graph)

def getNextNodesToVisit (node : NodeId) : List NodeId :=
  if g.isPdom then g.inNodes node else g.outNodes node

def getPrevNodesToVisit (node : NodeId) : List NodeId :=
  if g.isPdom then g.outNodes node else g.inNodes node

/-- The edges in the direction of the walk. -/
def Edge (v w : NodeId) : Prop := w ∈ g.getNextNodesToVisit v

def Reachable : NodeId → Prop := Relation.ReflTransGen g.Edge g.commonEntryNode

end Graph

/-- A graph whose nodes are in the slots of their ids and whose two edge lists agree. The list of the
edges into a node may leave out an edge from the common entry. -/
structure FlowGraph extends Graph where
  getID : ∀ i v : NodeId, nodeVec[i]? = some (some v) → v = i
  entry_mem : nodeVec[commonEntryNode]? = some (some commonEntryNode)
  next_mem : ∀ v w, toGraph.Edge v w → nodeVec[w]? = some (some w)
  mem_prev : ∀ v w, toGraph.Reachable v → toGraph.Reachable w → v ≠ commonEntryNode →
    (v ∈ toGraph.getPrevNodesToVisit w ↔ toGraph.Edge v w)
  entry_mem_prev : ∀ w, toGraph.Reachable w →
    commonEntryNode ∈ toGraph.getPrevNodesToVisit w → toGraph.Edge commonEntryNode w

/-! ### GenPostOrderID -/

/-- The local variables of `PostOrderWalk` and the ids it writes. The top of the stack is the head of
its list. -/
structure Walk where
  stack : List NodeId
  visitedMap : NodeId → Bool
  postOrderIDVec : NodeId → Int
  pid : Nat

/-- One round of the loop of `PostOrderWalk`. -/
def walkStep (g : Graph) (t : Walk) : Option Walk :=
  match t.stack with
  | [] => none
  | node :: rest =>
    match g.nodeVec[node]? with
    | none => none
    | some none => some { t with stack := rest }
    | some (some _) =>
      match (g.getNextNodesToVisit node).find? fun succ => !t.visitedMap succ with
      | some succ =>
        some { t with
          stack := succ :: t.stack
          visitedMap := Function.update t.visitedMap succ true }
      | none =>
        some { t with
          stack := rest
          postOrderIDVec := Function.update t.postOrderIDVec node t.pid
          pid := t.pid + 1 }

def postOrderWalk (g : Graph) (fuel : Nat) : Outcome Walk :=
  whileLoop (fun t => !t.stack.isEmpty) (walkStep g) fuel
    { stack := [g.commonEntryNode]
      visitedMap := Function.update (fun _ => false) g.commonEntryNode true
      postOrderIDVec := fun _ => -1
      pid := 0 }

/-- The nodes with the last number first; a position that no node takes holds a null pointer. -/
def reversePostOrder (g : Graph) (t : Walk) : List (Option NodeId) :=
  (List.range g.nodeVec.length).foldl (fun order i =>
    if t.postOrderIDVec i = -1 then order
    else order.set (t.pid - 1 - (t.postOrderIDVec i).toNat) g.nodeVec[i]?.join)
    (List.replicate t.pid none)

/-! ### Intersect -/

abbrev Doms := NodeId → Option NodeId

/-- An inner loop of `Intersect`. -/
def climb (postOrderIDVec : NodeId → Int) (doms : Doms) (other : NodeId) (fuel : Nat)
    (ptrNode : NodeId) : Outcome NodeId :=
  whileLoop (fun ptrNode => postOrderIDVec ptrNode < postOrderIDVec other) doms fuel ptrNode

def intersect (postOrderIDVec : NodeId → Int) (doms : Doms) :
    Nat → NodeId → NodeId → Outcome NodeId
  | 0, _, _ => .outOfFuel
  | fuel + 1, ptrNode1, ptrNode2 =>
    if ptrNode1 = ptrNode2 then .done ptrNode1
    else
      (climb postOrderIDVec doms ptrNode2 fuel ptrNode1).bind fun ptrNode1 =>
        (climb postOrderIDVec doms ptrNode1 fuel ptrNode2).bind fun ptrNode2 =>
          intersect postOrderIDVec doms fuel ptrNode1 ptrNode2

/-! ### ComputeDominance -/

def initNodeIsPred (g : Graph) (node : NodeId) : Bool :=
  (g.getNextNodesToVisit g.commonEntryNode).contains node

/-- The loop over `prevNodes` to the first node that has been visited. The result has the nodes that
the second loop goes over. -/
def firstPre (doms : Doms) (node : NodeId) : NodeId → List NodeId → NodeId × List NodeId
  | pre, [] => (pre, [])
  | pre, next :: prevNodes =>
    if doms pre = none ∨ pre = node then firstPre doms node next prevNodes
    else (pre, next :: prevNodes)

/-- The second loop over `prevNodes`. -/
def intersectAll (postOrderIDVec : NodeId → Int) (doms : Doms) (fuel : Nat) (node : NodeId) :
    NodeId → List NodeId → Outcome NodeId
  | newIDom, [] => .done newIDom
  | newIDom, pre :: prevNodes =>
    if doms pre ≠ none ∧ pre ≠ node then
      (intersect postOrderIDVec doms fuel pre newIDom).bind fun newIDom =>
        intersectAll postOrderIDVec doms fuel node newIDom prevNodes
    else intersectAll postOrderIDVec doms fuel node newIDom prevNodes

/-- The node that `ComputeDominance` takes as the new immediate dominator of `node`. -/
def newIDom (g : Graph) (postOrderIDVec : NodeId → Int) (doms : Doms) (fuel : Nat)
    (node : NodeId) : Outcome NodeId :=
  let prevNodes := g.getPrevNodesToVisit node
  let pre := if initNodeIsPred g node then g.commonEntryNode
    else prevNodes.headD g.commonEntryNode
  let (pre, rest) := firstPre doms node pre (prevNodes.drop 1)
  intersectAll postOrderIDVec doms fuel node pre rest

/-- One round of the inner loop of `ComputeDominance`, with `changed`. -/
def visitNode (g : Graph) (postOrderIDVec : NodeId → Int) (fuel : Nat) (s : Doms × Bool)
    (node : NodeId) : Outcome (Doms × Bool) :=
  (newIDom g postOrderIDVec s.1 fuel node).bind fun newIDom =>
    .done (if s.1 node ≠ some newIDom then (Function.update s.1 node (some newIDom), true) else s)

/-- The inner loop of `ComputeDominance`. -/
def visitNodes (g : Graph) (postOrderIDVec : NodeId → Int) (fuel : Nat) :
    List (Option NodeId) → Doms × Bool → Outcome (Doms × Bool)
  | [], s => .done s
  | none :: _, _ => .assertionFailed
  | some node :: rest, s =>
    (visitNode g postOrderIDVec fuel s node).bind fun s =>
      visitNodes g postOrderIDVec fuel rest s

/-- The outer loop of `ComputeDominance`. -/
def computeRounds (g : Graph) (postOrderIDVec : NodeId → Int) (order : List (Option NodeId)) :
    Nat → Doms → Outcome Doms
  | 0, _ => .outOfFuel
  | fuel + 1, doms =>
    (visitNodes g postOrderIDVec fuel (order.drop 1) (doms, false)).bind fun (doms, changed) =>
      if changed then computeRounds g postOrderIDVec order fuel doms else .done doms

def computeDominance (g : Graph) (postOrderIDVec : NodeId → Int)
    (order : List (Option NodeId)) (fuel : Nat) : Outcome Doms :=
  computeRounds g postOrderIDVec order fuel
    (Function.update (fun _ => none) g.commonEntryNode (some g.commonEntryNode))

/-- `GenPostOrderID` and `ComputeDominance`, as `Init` calls them. -/
def init (g : Graph) (fuel : Nat) : Outcome Doms :=
  (postOrderWalk g fuel).bind fun t =>
    computeDominance g t.postOrderIDVec (reversePostOrder g t) fuel

/-! ### Dominate -/

/-- The loop of `Dominate`. -/
def dominateFrom (g : Graph) (doms : Doms) (node1 : NodeId) : Nat → NodeId → Outcome Bool
  | 0, _ => .outOfFuel
  | fuel + 1, iDom =>
    if iDom = g.commonEntryNode then .done false
    else
      match doms iDom with
      | none => .done false
      | some iDom => if iDom = node1 then .done true else dominateFrom g doms node1 fuel iDom

def dominate (g : Graph) (doms : Doms) (node1 node2 : NodeId) (fuel : Nat) : Outcome Bool :=
  if node1 = node2 then .done true else dominateFrom g doms node1 fuel node2

end Dominance
end Maple
