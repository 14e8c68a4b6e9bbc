import Maple.Lib.Worklist
import Mathlib.Logic.Function.Iterate

/-!
# The list scheduler

`ListScheduler::DoListScheduling` for one block. Nodes move between the candidates, the waiting
queue, the ready list and the results while the clock advances. Cycles are `uint32`. The units of
the machine and the ranking of the ready list are parameters; what only feeds the ranking (delays,
latest start cycles, unit counts) is left out.
-/

namespace Maple
namespace ListScheduler

inductive ScheduleState where
  | kNormal | kCandidate | kWaiting | kReady | kScheduled
  deriving DecidableEq, Repr

/-- The latency types that `UpdateAdvanceCycle` tells apart. -/
inductive LatencyType where
  | kLtClinit | kLtAdrpLdr | kLtClinitTail | other
  deriving DecidableEq, Repr

structure DepLink (α : Type*) where
  src : α
  dst : α
  latency : Nat
  deriving DecidableEq, Repr

/-- The nodes of the block (`GetAllDataNodes`) and their dependences. -/
structure DepGraph (α : Type*) where
  nodes : List α
  links : List (DepLink α)
  latencyType : α → LatencyType

/-- The units of the machine with their reservations. -/
structure Mad (α ρ : Type*) where
  releaseAllUnits : ρ → ρ
  advanceOneCycleForAll : ρ → ρ
  isFullIssued : ρ → Bool
  isResourceIdle : α → ρ → Bool
  occupyRequiredUnits : α → ρ → ρ

/-- The fields of the scheduler, of the nodes and of the common scheduling information. -/
structure SchedInfo (α ρ : Type*) where
  candidates : List α
  waitingQueue : List α
  readyList : List α
  schedResults : List α
  state : α → ScheduleState
  validPredsSize : α → Nat
  topoPredsSize : α → Nat
  eStart : α → Nat
  schedCycle : α → Nat
  currCycle : Nat
  advancedCycle : Nat
  maxEStart : Nat
  scheduledNodeNum : Nat
  lastSchedNode : Option α
  units : ρ

def kClinitAdvanceCycle : Nat := 12
def kAdrpLdrAdvanceCycle : Nat := 4
def kClinitTailAdvanceCycle : Nat := 6

/-- Addition of `uint32`. -/
def add32 (x y : Nat) : Nat := (x + y) % 2 ^ 32

/-- `x--` of a `uint32`. -/
def dec32 (x : Nat) : Nat := (x + (2 ^ 32 - 1)) % 2 ^ 32

section

variable {α ρ : Type*} [DecidableEq α]

def DepGraph.succs (g : DepGraph α) (n : α) : List (DepLink α) :=
  g.links.filter fun l => l.src = n

def DepGraph.preds (g : DepGraph α) (n : α) : List (DepLink α) :=
  g.links.filter fun l => l.dst = n

/-- What a scheduler is built with: whether it runs after register allocation, the machine, and
the sorting of the ready list. -/
structure Config (α ρ : Type*) where
  isAfterRegAlloc : Bool
  mad : Mad α ρ
  sortReadyList : SchedInfo α ρ → List α
  sortReadyList_perm : ∀ s, (sortReadyList s).Perm s.readyList

variable (g : DepGraph α) (c : Config α ρ)

def init (s : SchedInfo α ρ) : SchedInfo α ρ :=
  { s with
    waitingQueue := [], readyList := [], units := c.mad.releaseAllUnits s.units,
    currCycle := 0, advancedCycle := 0, scheduledNodeNum := 0,
    eStart := fun n => if n ∈ s.candidates then 0 else s.eStart n }

def candidateToWaitingQueue (s : SchedInfo α ρ) : SchedInfo α ρ :=
  let moved := s.candidates.filter fun n => s.validPredsSize n = 0
  { s with
    candidates := s.candidates.filter fun n => s.validPredsSize n ≠ 0
    waitingQueue := s.waitingQueue ++ moved
    state := fun n => if n ∈ moved then .kWaiting else s.state n }

/-! ### Earliest start cycles -/

def initInfoBeforeCompEStart (cycle : Nat) (s : SchedInfo α ρ) : List α × SchedInfo α ρ :=
  (g.nodes.filter fun n => (g.preds n).length % 2 ^ 32 = 0,
    { s with
      topoPredsSize := fun n =>
        if n ∈ g.nodes then (g.preds n).length % 2 ^ 32 else s.topoPredsSize n
      eStart := fun n =>
        if n ∈ g.nodes ∧ s.state n ≠ .kScheduled then cycle else s.eStart n })

/-- The visit of one successor in `ComputeEStart`. -/
def computeEStartSucc (depNode : α) (t : List α × SchedInfo α ρ) (succLink : DepLink α) :
    List α × SchedInfo α ρ :=
  let (traversalList, s) := t
  let succNode := succLink.dst
  let topoPredsSize := Function.update s.topoPredsSize succNode (dec32 (s.topoPredsSize succNode))
  let eStart :=
    if s.state succNode ≠ .kScheduled then
      Function.update s.eStart succNode
        (max (add32 (s.eStart depNode) succLink.latency) (s.eStart succNode))
    else s.eStart
  (if topoPredsSize succNode = 0 then traversalList ++ [succNode] else traversalList,
    { s with
      topoPredsSize := topoPredsSize, eStart := eStart
      maxEStart := max (eStart succNode) s.maxEStart })

def computeEStart (cycle : Nat) (fuel : Nat) (s : SchedInfo α ρ) : Outcome (SchedInfo α ρ) :=
  (worklist (fun depNode t => (g.succs depNode).foldl (computeEStartSucc depNode) t) fuel
    (initInfoBeforeCompEStart g cycle s)).bind fun s =>
      .done { s with maxEStart := max s.maxEStart cycle }

/-- The visit of one successor in `UpdateEStart`; the cycle is the scheduled node's also for
indirect successors. -/
def updateEStartSucc (schedNode : α) (t : List α × SchedInfo α ρ) (succLink : DepLink α) :
    List α × SchedInfo α ρ :=
  let (traversalList, s) := t
  let succNode := succLink.dst
  let eStart := max (s.eStart succNode) (add32 (s.schedCycle schedNode) succLink.latency)
  (if g.succs succNode ≠ [] ∧ succNode ∉ traversalList then traversalList ++ [succNode]
    else traversalList,
    { s with
      eStart := Function.update s.eStart succNode eStart
      maxEStart := max s.maxEStart eStart })

def updateEStart (schedNode : α) (fuel : Nat) (s : SchedInfo α ρ) : Outcome (SchedInfo α ρ) :=
  worklist (fun curNode t => (g.succs curNode).foldl (updateEStartSucc g schedNode) t) fuel
    ([schedNode], s)

/-! ### One round -/

/-- The loop of `UpdateInfoBeforeSelectNode` over the advanced cycles. -/
def advanceCycles : Nat → SchedInfo α ρ → SchedInfo α ρ
  | 0, s => s
  | advancedCycle + 1, s =>
    advanceCycles advancedCycle
      { s with
        currCycle := add32 s.currCycle 1
        units := c.mad.advanceOneCycleForAll s.units
        advancedCycle := advancedCycle }

/-- A node has to wait for its units or for its earliest start cycle. -/
def hasConflict (s : SchedInfo α ρ) (n : α) : Bool :=
  c.isAfterRegAlloc && !c.mad.isResourceIdle n s.units || s.currCycle < s.eStart n

/-- `UpdateNodesInReadyList`. It checks for every node of the list that there is a node that was
scheduled last. -/
def updateNodesInReadyList (s : SchedInfo α ρ) : Option (SchedInfo α ρ) :=
  if s.readyList ≠ [] ∧ s.lastSchedNode.isNone then none
  else
    let moved := s.readyList.filter fun n => hasConflict c s n
    some { s with
      readyList := s.readyList.filter fun n => !hasConflict c s n
      waitingQueue := s.waitingQueue ++ moved
      state := fun n => if n ∈ moved then .kWaiting else s.state n }

def updateInfoBeforeSelectNode (s : SchedInfo α ρ) : Option (SchedInfo α ρ) :=
  updateNodesInReadyList c (advanceCycles c s.advancedCycle s)

def waitingQueueToReadyList (s : SchedInfo α ρ) : SchedInfo α ρ :=
  let moved := s.waitingQueue.filter fun n => !hasConflict c s n
  { s with
    waitingQueue := s.waitingQueue.filter fun n => hasConflict c s n
    readyList := s.readyList ++ moved
    state := fun n => if n ∈ moved then .kReady else s.state n }

def updateAdvanceCycle (schedNode : α) (s : SchedInfo α ρ) : SchedInfo α ρ :=
  let advancedCycle :=
    match g.latencyType schedNode with
    | .kLtClinit => kClinitAdvanceCycle
    | .kLtAdrpLdr => kAdrpLdrAdvanceCycle
    | .kLtClinitTail => kClinitTailAdvanceCycle
    | .other => s.advancedCycle
  { s with
    advancedCycle :=
      if advancedCycle = 0 ∧ c.mad.isFullIssued s.units then 1 else advancedCycle }

/-- The visit of one successor in `UpdateInfoAfterSelectNode`. -/
def resolveSucc (s : SchedInfo α ρ) (succLink : DepLink α) : SchedInfo α ρ :=
  let succNode := succLink.dst
  let validPredsSize :=
    Function.update s.validPredsSize succNode (dec32 (s.validPredsSize succNode))
  let s := { s with validPredsSize := validPredsSize }
  if validPredsSize succNode = 0 ∧ s.state succNode = .kCandidate then
    { s with
      waitingQueue := s.waitingQueue ++ [succNode]
      candidates := s.candidates.erase succNode
      state := Function.update s.state succNode .kWaiting }
  else s

/-- `UpdateInfoAfterSelectNode`, before it updates the earliest start cycles. -/
def recordSchedNode (schedNode : α) (s : SchedInfo α ρ) : SchedInfo α ρ :=
  let s := updateAdvanceCycle g c schedNode
    { s with
      state := Function.update s.state schedNode .kScheduled
      schedCycle := Function.update s.schedCycle schedNode s.currCycle
      units :=
        if c.isAfterRegAlloc then c.mad.occupyRequiredUnits schedNode s.units else s.units
      eStart := Function.update s.eStart schedNode s.currCycle
      schedResults := s.schedResults ++ [schedNode]
      lastSchedNode := some schedNode
      readyList := s.readyList.erase schedNode }
  (g.succs schedNode).foldl resolveSucc s

def updateInfoAfterSelectNode (schedNode : α) (fuel : Nat) (s : SchedInfo α ρ) :
    Outcome (SchedInfo α ρ) :=
  updateEStart g schedNode fuel (recordSchedNode g c schedNode s)

/-- One round of the loop in `DoListScheduling`. -/
def scheduleRound (fuel : Nat) (s : SchedInfo α ρ) : Outcome (SchedInfo α ρ) :=
  (Outcome.ofOption (updateInfoBeforeSelectNode c s)).bind fun s =>
    let s := waitingQueueToReadyList c s
    -- if there are no ready insns, stall until one is ready
    if s.readyList = [] then .done { s with advancedCycle := 1 }
    else
      let s := { s with readyList := c.sortReadyList s }
      match s.readyList with
      | [] => .assertionFailed
      | schedNode :: _ =>
        updateInfoAfterSelectNode g c schedNode fuel
          { s with scheduledNodeNum := s.scheduledNodeNum + 1 }

/-- The loop of `DoListScheduling`, until the instructions of the block are scheduled. -/
def scheduleLoop : Nat → SchedInfo α ρ → Outcome (SchedInfo α ρ)
  | 0, _ => .outOfFuel
  | fuel + 1, s =>
    if s.scheduledNodeNum < g.nodes.length then
      (scheduleRound g c fuel s).bind fun s => scheduleLoop fuel s
    else .done s

def doListScheduling (fuel : Nat) (s : SchedInfo α ρ) : Outcome (SchedInfo α ρ) :=
  let s := candidateToWaitingQueue (init c s)
  (computeEStart g s.currCycle fuel s).bind fun s => scheduleLoop g c fuel s

end

end ListScheduler
end Maple
