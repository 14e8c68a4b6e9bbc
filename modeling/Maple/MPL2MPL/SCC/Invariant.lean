import Maple.Lib.While
import Mathlib.Data.Finset.Insert
import Mathlib.Logic.Relation
import Mathlib.Tactic.Common

/-!
# Strongly connected components

`BuildSCC` of `scc.h`: an iterative search that keeps one stack of nodes to visit, with the parent
that pushed each of them, and one stack of finished nodes without a component. Nodes are their own
ids, so the vectors that are indexed by ids are functions; the counters are natural numbers.
-/

namespace Maple
namespace SCC

variable {α : Type*} [DecidableEq α]

/-- `SCCNode`, without its neighbours. -/
structure SCCNode (α : Type*) where
  id : Nat
  nodes : List α
  deriving DecidableEq, Repr

/-- The local variables of `BuildSCC` and `BuildSCCDFS`, and the components: of the nodes
(`GetSCCNode`) and with their neighbours. The top of a stack is the head of its list. -/
structure State (α : Type*) where
  visitIndex : Nat
  visitedOrder : α → Nat
  lowestOrder : α → Nat
  inStack : α → Bool
  visitStack : List α
  numOfSccs : Nat
  sccNode : α → Option Nat
  topologicalVec : List (SCCNode α)
  outScc : Nat → Finset Nat
  inScc : Nat → Finset Nat
  -- the stacks `s` and `parent`
  stack : List (α × Option α)
  secondTimeVisited : α → Bool

/-! ### BuildSCCDFS -/

/-- The visit of one successor of a node that is visited for the first time. -/
def visitSucc (node : α) (t : State α) (succ : α) : State α :=
  if t.inStack succ then
    { t with
      lowestOrder := Function.update t.lowestOrder node
        (min (t.lowestOrder node) (t.visitedOrder succ)) }
  else if t.visitedOrder succ = 0 then { t with stack := (succ, some node) :: t.stack }
  else t

/-- The first visit of a node. -/
def visitForward (outNodes : α → List α) (node : α) (t : State α) : State α :=
  let visitIndex := t.visitIndex + 1
  (outNodes node).reverse.foldl (visitSucc node)
    { t with
      visitIndex := visitIndex
      visitedOrder := Function.update t.visitedOrder node visitIndex
      lowestOrder := Function.update t.lowestOrder node visitIndex
      inStack := Function.update t.inStack node true }

/-- The nodes that the component of `node` takes from the stack of finished nodes. -/
def popped (node : α) (t : State α) : List α :=
  t.visitStack.takeWhile fun top => t.visitedOrder node ≤ t.visitedOrder top

/-- A new component of `node` and the finished nodes above it. -/
def newSCC (node : α) (t : State α) : State α :=
  let nodes := node :: popped node t
  { t with
    numOfSccs := t.numOfSccs + 1
    sccNode := fun x => if x ∈ nodes then some t.numOfSccs else t.sccNode x
    inStack := fun x => if x ∈ nodes then false else t.inStack x
    visitStack := t.visitStack.dropWhile fun top => t.visitedOrder node ≤ t.visitedOrder top
    topologicalVec := t.topologicalVec ++ [⟨t.numOfSccs, nodes⟩] }

/-- The node at the top of the stack has been visited before. -/
def visitBackward (node : α) (parentNode : Option α) (t : State α) : State α :=
  if t.secondTimeVisited node then t
  else
    let t := { t with
      secondTimeVisited := Function.update t.secondTimeVisited node true
      lowestOrder :=
        match parentNode with
        | none => t.lowestOrder
        | some parent => Function.update t.lowestOrder parent
          (min (t.lowestOrder parent) (t.lowestOrder node)) }
    if t.lowestOrder node = t.visitedOrder node then newSCC node t
    else { t with visitStack := node :: t.visitStack }

/-- One round of the loop of `BuildSCCDFS`. -/
def dfsStep (outNodes : α → List α) (t : State α) : State α :=
  match t.stack with
  | [] => t
  | (node, parentNode) :: rest =>
    if t.visitedOrder node = 0 then visitForward outNodes node t
    else visitBackward node parentNode { t with stack := rest }

def buildSCCDFS (outNodes : α → List α) (rootNode : α) (fuel : Nat) (t : State α) :
    Outcome (State α) :=
  whileLoop (fun t => !t.stack.isEmpty) (fun t => some (dfsStep outNodes t)) fuel
    { t with stack := [(rootNode, none)], secondTimeVisited := fun _ => false }

/-! ### BuildSCC -/

def verify (scc : SCCNode α) (t : State α) : Bool :=
  !scc.nodes.isEmpty && scc.nodes.all fun node => t.sccNode node = some scc.id

/-- The visit of one successor in `SCCNode::Setup`; every node has a component there. -/
def setupEdge (scc : SCCNode α) (t : State α) (outNode : α) : Option (State α) :=
  match t.sccNode outNode with
  | none => none
  | some outNodeScc =>
    if outNodeScc = scc.id then some t
    else some { t with
      outScc := Function.update t.outScc scc.id (insert outNodeScc (t.outScc scc.id))
      inScc := Function.update t.inScc outNodeScc (insert scc.id (t.inScc outNodeScc)) }

/-- `SCCNode::Setup`, over the successors of the nodes of the component. -/
def setup (outNodes : α → List α) (scc : SCCNode α) (t : State α) : Option (State α) :=
  (scc.nodes.flatMap outNodes).foldlM (setupEdge scc) t

def verifyAndSetup (outNodes : α → List α) (t : State α) (scc : SCCNode α) : Option (State α) :=
  if verify scc t then setup outNodes scc t else none

/-- The loop of `BuildSCC` over the nodes. -/
def buildAll (outNodes : α → List α) : List α → Nat → State α → Outcome (State α)
  | [], _, t => .done t
  | node :: rest, fuel, t =>
    if t.sccNode node = none then
      (buildSCCDFS outNodes node fuel t).bind fun t => buildAll outNodes rest fuel t
    else buildAll outNodes rest fuel t

/-- The variables at the start of `BuildSCC`, when no node has a component. -/
def start : State α where
  visitIndex := 1
  visitedOrder _ := 0
  lowestOrder _ := 0
  inStack _ := false
  visitStack := []
  numOfSccs := 0
  sccNode _ := none
  topologicalVec := []
  outScc _ := ∅
  inScc _ := ∅
  stack := []
  secondTimeVisited _ := false

def buildSCC (outNodes : α → List α) (allNodes : List α) (fuel : Nat) : Outcome (State α) :=
  (buildAll outNodes allNodes fuel start).bind fun t =>
    (Outcome.ofOption (t.topologicalVec.foldlM (verifyAndSetup outNodes) t)).bind fun t =>
      .done { t with topologicalVec := t.topologicalVec.reverse }

end SCC
end Maple

/-! ### The invariant of the search

A node is open from its first visit until it is popped as the top of the stack. The open nodes form
a chain of parents. The nodes without a component are the open nodes and the finished nodes of
`visitStack`; the lowest order of each is the order of one of them that it reaches.
-/

namespace Maple
namespace SCC

variable {α : Type*} [DecidableEq α] {outNodes : α → List α}

/-- One node reaches the other along the edges of the graph. -/
def Reach (outNodes : α → List α) : α → α → Prop :=
  Relation.ReflTransGen fun x y => y ∈ outNodes x

omit [DecidableEq α] in
lemma Reach.edge {x y : α} (h : y ∈ outNodes x) : Reach outNodes x y :=
  Relation.ReflTransGen.single h

omit [DecidableEq α] in
lemma Reach.trans {x y z : α} (h : Reach outNodes x y) (h' : Reach outNodes y z) :
    Reach outNodes x z :=
  Relation.ReflTransGen.trans h h'

/-- The stack, for the open nodes from the last to the root. Above an open node are the
successors that it pushed; one that has been visited meanwhile was visited later than it. -/
inductive Chain (outNodes : α → List α) (order : α → Nat) :
    List (α × Option α) → List α → Prop where
  | nil : Chain outNodes order [] []
  | root (r : α) (h : order r = 0) : Chain outNodes order [(r, none)] []
  | opened {node : α} {stack : List (α × Option α)} {opened : List α}
      (hchain : Chain outNodes order stack opened) (hroot : opened = [] → stack = [])
      (hedge : ∀ p ∈ opened.head?, node ∈ outNodes p) :
      Chain outNodes order ((node, opened.head?) :: stack) (node :: opened)
  | pushed {succ node : α} {stack : List (α × Option α)} {opened : List α}
      (hchain : Chain outNodes order stack (node :: opened)) (hedge : succ ∈ outNodes node)
      (horder : order succ = 0 ∨ order node < order succ) :
      Chain outNodes order ((succ, some node) :: stack) (node :: opened)

omit [DecidableEq α] in
lemma Chain.parent_mem {order : α → Nat} {stack : List (α × Option α)} {opened : List α}
    (h : Chain outNodes order stack opened) {node p : α} (hmem : (node, some p) ∈ stack) :
    p ∈ opened := by
  induction h with
  | nil => exact absurd hmem List.not_mem_nil
  | root r _ => simp at hmem
  | opened hchain _ _ ih =>
    rcases List.mem_cons.mp hmem with heq | hmem
    · have hp := (Prod.mk.inj heq).2
      exact List.mem_cons_of_mem _ (List.mem_of_mem_head? hp.symm)
    · exact List.mem_cons_of_mem _ (ih hmem)
  | pushed hchain _ _ ih =>
    rcases List.mem_cons.mp hmem with heq | hmem
    · rw [Option.some.inj (Prod.mk.inj heq).2]
      exact List.mem_cons_self ..
    · exact ih hmem

omit [DecidableEq α] in
lemma Chain.append_pushed {order : α → Nat} {stack pushes : List (α × Option α)} {node : α}
    {opened : List α} (h : Chain outNodes order stack (node :: opened))
    (hpushes : ∀ e ∈ pushes, ∃ v ∈ outNodes node, e = (v, some node) ∧ order v = 0) :
    Chain outNodes order (pushes ++ stack) (node :: opened) := by
  induction pushes with
  | nil => exact h
  | cons e pushes ih =>
    obtain ⟨v, hv, rfl, hzero⟩ := hpushes e (by simp)
    exact Chain.pushed (ih fun e he => hpushes e (by simp [he])) hv (Or.inl hzero)

lemma Chain.visit {order : α → Nat} {stack : List (α × Option α)} {opened : List α}
    (h : Chain outNodes order stack opened) {x : α} {k : Nat}
    (hopened : ∀ g ∈ opened, g ≠ x ∧ order g < k) (hroot : opened = [] → stack = []) :
    Chain outNodes (Function.update order x k) stack opened := by
  induction h with
  | nil => exact Chain.nil
  | root r _ => exact absurd (hroot rfl) (by simp)
  | opened hchain hroot' hedge ih =>
    exact Chain.opened (ih (fun g hg => hopened g (by simp [hg])) hroot') hroot' hedge
  | @pushed succ node stack opened hchain hedge horder ih =>
    apply Chain.pushed (ih hopened (by simp)) hedge
    obtain ⟨hne, hlt⟩ := hopened node (by simp)
    rw [Function.update_of_ne hne]
    by_cases hx : succ = x
    · right
      rw [hx, Function.update_self]
      exact hlt
    · rw [Function.update_of_ne hx]
      exact horder

/-- The invariant of the search, for the open nodes from the last to the root. -/
structure Search (outNodes : α → List α) (t : State α) (opened : List α) : Prop where
  chain : Chain outNodes t.visitedOrder t.stack opened
  inStack_iff : ∀ x, t.inStack x = true ↔ t.visitedOrder x ≠ 0 ∧ t.sccNode x = none
  scc_visited : ∀ x, t.sccNode x ≠ none → t.visitedOrder x ≠ 0
  second_visited : ∀ x, t.secondTimeVisited x = true → t.visitedOrder x ≠ 0
  order_le : ∀ x, t.visitedOrder x ≤ t.visitIndex
  order_inj : ∀ x y, t.visitedOrder x ≠ 0 → t.visitedOrder x = t.visitedOrder y → x = y
  opened_iff : ∀ x, x ∈ opened ↔ t.inStack x = true ∧ t.secondTimeVisited x = false
  opened_sorted : opened.Pairwise fun x y => t.visitedOrder y < t.visitedOrder x
  finished_iff : ∀ x, x ∈ t.visitStack ↔ t.inStack x = true ∧ t.secondTimeVisited x = true
  finished_nodup : t.visitStack.Nodup
  finished_sorted : t.visitStack.Pairwise fun x y =>
    ∀ g ∈ opened, t.visitedOrder g < t.visitedOrder y → t.visitedOrder g < t.visitedOrder x
  -- components of earlier searches
  old : ∀ x, t.sccNode x ≠ none → t.secondTimeVisited x = false →
    ∀ g ∈ opened, t.visitedOrder x < t.visitedOrder g
  low_le : ∀ x, t.inStack x = true → t.lowestOrder x ≤ t.visitedOrder x
  low_reach : ∀ x, t.inStack x = true →
    ∃ y, t.inStack y = true ∧ t.visitedOrder y = t.lowestOrder x ∧ Reach outNodes x y
  low_edge : ∀ x y, t.inStack x = true → y ∈ outNodes x → t.inStack y = true →
    t.visitedOrder y < t.visitedOrder x → t.lowestOrder x ≤ t.visitedOrder y
  -- the last open node before a finished node reaches at least as low as that
  finished_low : ∀ x ∈ t.visitStack, t.lowestOrder x < t.visitedOrder x ∧
    ∃ g ∈ opened, t.visitedOrder g < t.visitedOrder x ∧
      (∀ g' ∈ opened, t.visitedOrder g' < t.visitedOrder x →
        t.visitedOrder g' ≤ t.visitedOrder g) ∧
      t.lowestOrder g ≤ t.lowestOrder x ∧ Reach outNodes g x
  finished_edge : ∀ x ∈ t.visitStack, ∀ y ∈ outNodes x, t.visitedOrder y ≠ 0
  opened_edge : ∀ x ∈ opened, ∀ y ∈ outNodes x,
    t.visitedOrder y ≠ 0 ∨ (y, some x) ∈ t.stack
  closed : ∀ x y, t.sccNode x ≠ none → y ∈ outNodes x → t.sccNode y ≠ none

omit [DecidableEq α] in
lemma Search.order_ne_zero {t : State α} {opened : List α} (h : Search outNodes t opened) {x : α}
    (hx : t.inStack x = true) : t.visitedOrder x ≠ 0 :=
  ((h.inStack_iff x).mp hx).1

omit [DecidableEq α] in
lemma Search.opened_ne_zero {t : State α} {opened : List α} (h : Search outNodes t opened) {x : α}
    (hx : x ∈ opened) : t.visitedOrder x ≠ 0 :=
  h.order_ne_zero ((h.opened_iff x).mp hx).1

omit [DecidableEq α] in
lemma Search.edge_of_pop {t : State α} {opened : List α} (h : Search outNodes t opened) {node : α}
    {parent : Option α} {rest : List (α × Option α)} (hstack : t.stack = (node, parent) :: rest)
    (hne : t.visitedOrder node ≠ 0) {x y : α} (hx : x ∈ opened) (hy : y ∈ outNodes x) :
    t.visitedOrder y ≠ 0 ∨ (y, some x) ∈ rest := by
  rcases h.opened_edge x hx y hy with hyne | hmem
  · exact Or.inl hyne
  · rw [hstack] at hmem
    rcases List.mem_cons.mp hmem with heq | hmem
    · exact Or.inl ((Prod.mk.inj heq).1 ▸ hne)
    · exact Or.inr hmem

lemma update_true_iff {f : α → Bool} {node x : α} :
    Function.update f node true x = true ↔ x = node ∨ f x = true := by
  rw [Function.update_apply]
  split_ifs with hx
  · simp [hx]
  · simp [hx]

lemma update_true_eq_false_iff {f : α → Bool} {node x : α} :
    Function.update f node true x = false ↔ x ≠ node ∧ f x = false := by
  rw [Bool.eq_false_iff, ne_eq, update_true_iff, not_or, Bool.not_eq_true]

/-! ### The first visit of a node -/

lemma foldl_visitSucc (node : α) (succs : List α) (t : State α) :
    ∃ low pushes, succs.foldl (visitSucc node) t =
        { t with
          lowestOrder := Function.update t.lowestOrder node low, stack := pushes ++ t.stack } ∧
      low ≤ t.lowestOrder node ∧
      (low = t.lowestOrder node ∨ ∃ v ∈ succs, t.inStack v = true ∧ t.visitedOrder v = low) ∧
      (∀ v ∈ succs, t.inStack v = true → low ≤ t.visitedOrder v) ∧
      (∀ v ∈ succs, t.inStack v = false → t.visitedOrder v = 0 → (v, some node) ∈ pushes) ∧
      (∀ e ∈ pushes, ∃ v ∈ succs, e = (v, some node) ∧ t.visitedOrder v = 0) ∧
      pushes.length ≤ succs.length := by
  induction succs generalizing t with
  | nil =>
    exact ⟨t.lowestOrder node, [], by simp, le_refl _, Or.inl rfl, by simp, by simp, by simp, by simp⟩
  | cons v succs ih =>
    by_cases hin : t.inStack v = true
    · obtain ⟨low, pushes, heq, hle, hlow, hbound, hpush, hpushes, hlen⟩ := ih { t with
        lowestOrder := Function.update t.lowestOrder node
          (min (t.lowestOrder node) (t.visitedOrder v)) }
      have hstep : visitSucc node t v = { t with
          lowestOrder := Function.update t.lowestOrder node
            (min (t.lowestOrder node) (t.visitedOrder v)) } := if_pos hin
      simp only [Function.update_self] at hle hlow
      refine ⟨low, pushes, ?_, hle.trans (min_le_left _ _), ?_, ?_, ?_, ?_, hlen.trans (by simp)⟩
      · rw [List.foldl_cons, hstep, heq]
        simp
      · rcases hlow with hlow | ⟨w, hw, hwin, hworder⟩
        · rcases min_choice (t.lowestOrder node) (t.visitedOrder v) with hmin | hmin
          · exact Or.inl (hlow.trans hmin)
          · exact Or.inr ⟨v, by simp, hin, (hlow.trans hmin).symm⟩
        · exact Or.inr ⟨w, by simp [hw], hwin, hworder⟩
      · intro w hw hwin
        rcases List.mem_cons.mp hw with rfl | hw
        · exact hle.trans (min_le_right _ _)
        · exact hbound w hw hwin
      · intro w hw hwin hzero
        rcases List.mem_cons.mp hw with rfl | hw
        · rw [hin] at hwin
          cases hwin
        · exact hpush w hw hwin hzero
      · intro e he
        obtain ⟨w, hw, hrest⟩ := hpushes e he
        exact ⟨w, by simp [hw], hrest⟩
    · by_cases hzero : t.visitedOrder v = 0
      · obtain ⟨low, pushes, heq, hle, hlow, hbound, hpush, hpushes, hlen⟩ :=
          ih { t with stack := (v, some node) :: t.stack }
        have hstep : visitSucc node t v = { t with stack := (v, some node) :: t.stack } := by
          rw [visitSucc, if_neg hin, if_pos hzero]
        refine ⟨low, pushes ++ [(v, some node)], ?_, hle, ?_, ?_, ?_, ?_, by simp [hlen]⟩
        · rw [List.foldl_cons, hstep, heq]
          simp
        · rcases hlow with hlow | ⟨w, hw, hwin, hworder⟩
          · exact Or.inl hlow
          · exact Or.inr ⟨w, by simp [hw], hwin, hworder⟩
        · intro w hw hwin
          rcases List.mem_cons.mp hw with rfl | hw
          · exact absurd hwin hin
          · exact hbound w hw hwin
        · intro w hw hwin hwzero
          rcases List.mem_cons.mp hw with rfl | hw
          · simp
          · exact List.mem_append_left _ (hpush w hw hwin hwzero)
        · intro e he
          rcases List.mem_append.mp he with he | he
          · obtain ⟨w, hw, hrest⟩ := hpushes e he
            exact ⟨w, by simp [hw], hrest⟩
          · exact ⟨v, by simp, List.mem_singleton.mp he, hzero⟩
      · obtain ⟨low, pushes, heq, hle, hlow, hbound, hpush, hpushes, hlen⟩ := ih t
        have hstep : visitSucc node t v = t := by
          rw [visitSucc, if_neg hin, if_neg hzero]
        refine ⟨low, pushes, ?_, hle, ?_, ?_, ?_, ?_, hlen.trans (by simp)⟩
        · rw [List.foldl_cons, hstep, heq]
        · rcases hlow with hlow | ⟨w, hw, hwin, hworder⟩
          · exact Or.inl hlow
          · exact Or.inr ⟨w, by simp [hw], hwin, hworder⟩
        · intro w hw hwin
          rcases List.mem_cons.mp hw with rfl | hw
          · exact absurd hwin hin
          · exact hbound w hw hwin
        · intro w hw hwin hwzero
          rcases List.mem_cons.mp hw with rfl | hw
          · exact absurd hwzero hzero
          · exact hpush w hw hwin hwzero
        · intro e he
          obtain ⟨w, hw, hrest⟩ := hpushes e he
          exact ⟨w, by simp [hw], hrest⟩

lemma Chain.open_top {order : α → Nat} {stack : List (α × Option α)} {opened : List α} {node : α}
    {parent : Option α} (h : Chain outNodes order ((node, parent) :: stack) opened) {k : Nat}
    (hopened : ∀ g ∈ opened, g ≠ node ∧ order g < k) :
    Chain outNodes (Function.update order node k) ((node, parent) :: stack) (node :: opened) := by
  cases h with
  | root r _ => exact Chain.opened Chain.nil (fun _ => rfl) (by simp)
  | opened hchain _ _ => exact absurd rfl (hopened node (by simp)).1
  | pushed hchain hedge _ =>
    exact Chain.opened (hchain.visit hopened (by simp)) (by simp) (by simpa using hedge)

lemma Search.forward {t : State α} {opened : List α} (h : Search outNodes t opened) {node : α}
    {parent : Option α} {rest : List (α × Option α)} (hstack : t.stack = (node, parent) :: rest)
    (hzero : t.visitedOrder node = 0) :
    Search outNodes (visitForward outNodes node t) (node :: opened) := by
  have hnin : ¬t.inStack node = true := fun hin => h.order_ne_zero hin hzero
  have hnscc : t.sccNode node = none := by
    by_contra hne
    exact h.scc_visited node hne hzero
  have hnsecond : t.secondTimeVisited node = false := by
    by_contra hne
    exact h.second_visited node (by simpa using hne) hzero
  have hnmem : ∀ g ∈ opened, g ≠ node := by
    rintro g hg rfl
    exact h.opened_ne_zero hg hzero
  have hnfin : ∀ x ∈ t.visitStack, x ≠ node := by
    rintro x hx rfl
    exact hnin ((h.finished_iff x).mp hx).1
  obtain ⟨low, pushes, heq, hle, hlow, hbound, hpush, hpushes, -⟩ :=
    foldl_visitSucc node (outNodes node).reverse
      { t with
        visitIndex := t.visitIndex + 1
        visitedOrder := Function.update t.visitedOrder node (t.visitIndex + 1)
        lowestOrder := Function.update t.lowestOrder node (t.visitIndex + 1)
        inStack := Function.update t.inStack node true }
  simp only [Function.update_self, Function.update_idem, List.mem_reverse] at heq hle hlow hbound
  simp only [List.mem_reverse] at hpush hpushes
  rw [visitForward, heq]
  -- the order of a node other than the new one, and the nodes in the stack
  have horder : ∀ x, x ≠ node →
      Function.update t.visitedOrder node (t.visitIndex + 1) x = t.visitedOrder x :=
    fun x hx => Function.update_of_ne hx ..
  have hself : Function.update t.visitedOrder node (t.visitIndex + 1) node = t.visitIndex + 1 :=
    Function.update_self ..
  have hin : ∀ x, Function.update t.inStack node true x = true ↔ x = node ∨ t.inStack x = true :=
    fun _ => update_true_iff
  have hmono : ∀ x, t.visitedOrder x ≠ 0 →
      Function.update t.visitedOrder node (t.visitIndex + 1) x ≠ 0 := by
    intro x hx
    rw [Function.update_apply]
    split_ifs
    · exact Nat.succ_ne_zero _
    · exact hx
  constructor
  · -- chain
    have hchain := h.chain
    rw [hstack] at hchain
    have htop := hchain.open_top (k := t.visitIndex + 1)
      (fun g hg => ⟨hnmem g hg, Nat.lt_succ_of_le (h.order_le g)⟩)
    simp only [hstack]
    apply htop.append_pushed
    intro e he
    obtain ⟨v, hv, hve⟩ := hpushes e he
    exact ⟨v, hv, hve⟩
  · -- inStack_iff
    intro x
    simp only [hin]
    by_cases hx : x = node
    · subst hx
      simp [hnscc]
    · rw [horder x hx, ← h.inStack_iff x]
      simp [hx]
  · -- scc_visited
    exact fun x hx => hmono x (h.scc_visited x hx)
  · -- second_visited
    exact fun x hx => hmono x (h.second_visited x hx)
  · -- order_le
    intro x
    simp only [Function.update_apply]
    split_ifs
    · exact le_refl _
    · exact (h.order_le x).trans (Nat.le_succ _)
  · -- order_inj
    intro x y hx hxy
    simp only [Function.update_apply] at hx hxy
    have hlex := h.order_le x
    have hley := h.order_le y
    split_ifs at hx hxy with hxn hyn hyn
    · rw [hxn, hyn]
    · omega
    · omega
    · exact h.order_inj x y hx hxy
  · -- opened_iff
    intro x
    simp only [List.mem_cons, h.opened_iff x, hin]
    constructor
    · rintro (rfl | hx)
      · exact ⟨Or.inl rfl, hnsecond⟩
      · exact ⟨Or.inr hx.1, hx.2⟩
    · rintro ⟨rfl | hx, hsecond⟩
      · exact Or.inl rfl
      · exact Or.inr ⟨hx, hsecond⟩
  · -- opened_sorted
    rw [List.pairwise_cons]
    constructor
    · intro g hg
      simp only [hself, horder g (hnmem g hg)]
      exact Nat.lt_succ_of_le (h.order_le g)
    · apply h.opened_sorted.imp_of_mem
      intro x y hx hy hlt
      simp only [horder x (hnmem x hx), horder y (hnmem y hy)]
      exact hlt
  · -- finished_iff
    intro x
    simp only [h.finished_iff x, hin]
    constructor
    · exact fun hx => ⟨Or.inr hx.1, hx.2⟩
    · rintro ⟨rfl | hx, hsecond⟩
      · rw [hnsecond] at hsecond
        cases hsecond
      · exact ⟨hx, hsecond⟩
  · -- finished_nodup
    exact h.finished_nodup
  · -- finished_sorted
    apply h.finished_sorted.imp_of_mem
    intro x y hx hy hlt g hg
    simp only [horder x (hnfin x hx), horder y (hnfin y hy)]
    rcases List.mem_cons.mp hg with rfl | hg
    · have := h.order_le y
      simp only [hself]
      omega
    · rw [horder g (hnmem g hg)]
      exact hlt g hg
  · -- old
    intro x hx hsecond g hg
    have hxn : x ≠ node := by
      rintro rfl
      exact hx hnscc
    simp only [horder x hxn]
    rcases List.mem_cons.mp hg with rfl | hg
    · rw [hself]
      exact Nat.lt_succ_of_le (h.order_le x)
    · rw [horder g (hnmem g hg)]
      exact h.old x hx hsecond g hg
  · -- low_le
    intro x hx
    by_cases hxn : x = node
    · subst hxn
      simp only [Function.update_self]
      exact hle
    · simp only [Function.update_of_ne hxn]
      exact h.low_le x (((hin x).mp hx).resolve_left hxn)
  · -- low_reach
    intro x hx
    by_cases hxn : x = node
    · subst hxn
      simp only [Function.update_self]
      rcases hlow with hlow | ⟨v, hv, hvin, hvorder⟩
      · exact ⟨x, (hin x).mpr (Or.inl rfl), by rw [hself, hlow], Relation.ReflTransGen.refl⟩
      · exact ⟨v, hvin, hvorder, Reach.edge hv⟩
    · obtain ⟨y, hy, hylow, hreach⟩ := h.low_reach x (((hin x).mp hx).resolve_left hxn)
      have hyn : y ≠ node := by
        rintro rfl
        exact hnin hy
      refine ⟨y, (hin y).mpr (Or.inr hy), ?_, hreach⟩
      simp only [Function.update_of_ne hxn, horder y hyn]
      exact hylow
  · -- low_edge
    intro x y hx hxy hy hlt
    by_cases hxn : x = node
    · subst hxn
      simp only [Function.update_self]
      exact hbound y hxy hy
    · have hxin := ((hin x).mp hx).resolve_left hxn
      simp only [horder x hxn] at hlt
      by_cases hyn : y = node
      · have := h.order_le x
        rw [hyn, hself] at hlt
        omega
      · rw [horder y hyn] at hlt
        simp only [Function.update_of_ne hxn, horder y hyn]
        exact h.low_edge x y hxin hxy (((hin y).mp hy).resolve_left hyn) hlt
  · -- finished_low
    intro x hx
    obtain ⟨hlt, g, hg, hgx, hmax, hglow, hreach⟩ := h.finished_low x hx
    simp only [horder x (hnfin x hx), Function.update_of_ne (hnfin x hx)]
    refine ⟨hlt, g, List.mem_cons_of_mem _ hg, ?_, ?_, ?_, hreach⟩
    · rw [horder g (hnmem g hg)]
      exact hgx
    · intro g' hg'
      rcases List.mem_cons.mp hg' with rfl | hg'
      · have := h.order_le x
        rw [hself]
        omega
      · rw [horder g' (hnmem g' hg'), horder g (hnmem g hg)]
        exact hmax g' hg'
    · rw [Function.update_of_ne (hnmem g hg)]
      exact hglow
  · -- finished_edge
    exact fun x hx y hy => hmono y (h.finished_edge x hx y hy)
  · -- opened_edge
    intro x hx y hy
    rcases List.mem_cons.mp hx with rfl | hx
    · by_cases hyin : Function.update t.inStack x true y = true
      · left
        rcases (hin y).mp hyin with rfl | hyin
        · simp only [hself]
          exact Nat.succ_ne_zero _
        · exact hmono y (h.order_ne_zero hyin)
      · by_cases hyzero : Function.update t.visitedOrder x (t.visitIndex + 1) y = 0
        · exact Or.inr (List.mem_append_left _ (hpush y hy (by simpa using hyin) hyzero))
        · exact Or.inl hyzero
    · rcases h.opened_edge x hx y hy with hyne | hmem
      · exact Or.inl (hmono y hyne)
      · exact Or.inr (List.mem_append_right _ hmem)
  · -- closed
    exact h.closed

end SCC
end Maple
