import Maple.ME.McSSAPre.MinCut.Basic
import Mathlib.Data.List.Nodup
import Mathlib.Tactic.Linarith

/-!
# The graphs that are built

Each use of a reduced graph has its edges from phis and from the source, and each real occurrence
exactly one edge, so that the sink has an edge from each real occurrence that no other node uses.
-/

namespace Maple
namespace McSSAPre
namespace MinCut

variable {Phi Real : Type} {g : ReducedGraph Phi Real} {occs : Occs Phi Real}

/-- The capacities are at least 1 and fit into the type of frequencies. -/
structure Occs.Bounded (occs : Occs Phi Real) : Prop where
  predFrequency : ∀ phiOcc i, 1 ≤ occs.predFrequency phiOcc i + 1 ∧
    occs.predFrequency phiOcc i + 1 ≤ kInt64Max
  frequency : ∀ realOcc, 1 ≤ occs.frequency realOcc + 1 ∧
    occs.frequency realOcc + 1 ≤ kInt64Max

namespace ReducedGraph

/-- What the steps keep: the nodes of occurrences are below `n`, and edges come from phis or from
the nodes `other`. -/
structure Inv (n : Nat) (other : Nat → Prop) (g : ReducedGraph Phi Real) : Prop where
  map_lt : ∀ occ v, g.occ2RGNodeMap occ = some v → 1 ≤ v ∧ v < n
  map_inj : ∀ occ occ' v, g.occ2RGNodeMap occ = some v → g.occ2RGNodeMap occ' = some v → occ = occ'
  empty : ∀ v, n ≤ v → (g.node v).pred = [] ∧ (g.node v).inEdgesCap = []
  pred : ∀ v, ∀ p ∈ (g.node v).pred, (∃ phiOcc, g.occ2RGNodeMap (.phi phiOcc) = some p) ∨ other p
  length : ∀ v, (g.node v).inEdgesCap.length = (g.node v).pred.length
  cap : ∀ v, ∀ c ∈ (g.node v).inEdgesCap, 1 ≤ c ∧ c ≤ kInt64Max
  sink : g.sink = none

/-- The nodes of real occurrences have one edge. -/
def RealSingle (g : ReducedGraph Phi Real) : Prop :=
  ∀ realOcc v, g.occ2RGNodeMap (.real realOcc) = some v → (g.node v).pred.length = 1

variable {n : Nat} {other : Nat → Prop} {use defNode : Nat} {i : Option Nat} {cap : Int}

/-! ### New edges -/

@[simp] lemma addEdge_map (g : ReducedGraph Phi Real) (use defNode : Nat) (i : Option Nat)
    (cap : Int) : (g.addEdge use defNode i cap).occ2RGNodeMap = g.occ2RGNodeMap := rfl

lemma addEdge_pred (g : ReducedGraph Phi Real) (use defNode : Nat) (i : Option Nat) (cap : Int)
    (v : Nat) : ((g.addEdge use defNode i cap).node v).pred =
      if v = use then (g.node v).pred ++ [defNode] else (g.node v).pred := by
  by_cases h : v = use
  · subst h
    simp [addEdge]
  · simp [addEdge, h]

lemma addEdge_inEdgesCap (g : ReducedGraph Phi Real) (use defNode : Nat) (i : Option Nat)
    (cap : Int) (v : Nat) : ((g.addEdge use defNode i cap).node v).inEdgesCap =
      if v = use then (g.node v).inEdgesCap ++ [cap] else (g.node v).inEdgesCap := by
  by_cases h : v = use
  · subst h
    simp [addEdge]
  · simp [addEdge, h]

lemma Inv.addEdge (h : g.Inv n other) (huse : use < n)
    (hdef : (∃ phiOcc, g.occ2RGNodeMap (.phi phiOcc) = some defNode) ∨ other defNode)
    (hcap : 1 ≤ cap ∧ cap ≤ kInt64Max) : (g.addEdge use defNode i cap).Inv n other := by
  refine ⟨h.map_lt, h.map_inj, ?_, ?_, ?_, ?_, h.sink⟩
  · intro v hv
    have hne : v ≠ use := by omega
    rw [addEdge_pred, addEdge_inEdgesCap, if_neg hne, if_neg hne]
    exact h.empty v hv
  · intro v p hp
    rw [addEdge_pred] at hp
    split_ifs at hp
    · rcases List.mem_append.mp hp with hp | hp
      · exact h.pred v p hp
      · rw [List.mem_singleton.mp hp]
        exact hdef
    · exact h.pred v p hp
  · intro v
    rw [addEdge_pred, addEdge_inEdgesCap]
    split_ifs
    · simp [h.length v]
    · exact h.length v
  · intro v c hc
    rw [addEdge_inEdgesCap] at hc
    split_ifs at hc
    · rcases List.mem_append.mp hc with hc | hc
      · exact h.cap v c hc
      · rw [List.mem_singleton.mp hc]
        exact hcap
    · exact h.cap v c hc

lemma RealSingle.addEdge (h : g.RealSingle)
    (hreal : ∀ realOcc, g.occ2RGNodeMap (.real realOcc) ≠ some use) :
    (g.addEdge use defNode i cap).RealSingle := by
  intro realOcc v hv
  have hne : v ≠ use := by
    rintro rfl
    exact hreal realOcc hv
  rw [addEdge_pred, if_neg hne]
  exact h realOcc v hv

/-! ### GraphReduction -/

section GraphReduction

variable [DecidableEq Phi] [DecidableEq Real]

lemma addNode_map (g : ReducedGraph Phi Real) (occ occ' : Occ Phi Real) :
    (g.addNode occ).occ2RGNodeMap occ' =
      if occ' = occ then some g.nextRGNodeId else g.occ2RGNodeMap occ' := by
  by_cases h : occ' = occ
  · subst h
    simp [addNode]
  · simp [addNode, h]

lemma addNode_node (h : g.Inv g.nextRGNodeId other) (occ : Occ Phi Real) (v : Nat) :
    ((g.addNode occ).node v).pred = (g.node v).pred ∧
      ((g.addNode occ).node v).inEdgesCap = (g.node v).inEdgesCap := by
  by_cases hv : v = g.nextRGNodeId
  · subst hv
    have hempty := h.empty g.nextRGNodeId le_rfl
    simp [addNode, hempty]
  · simp [addNode, hv]

lemma Inv.addNode (h : g.Inv g.nextRGNodeId fun _ => False) (hpos : 1 ≤ g.nextRGNodeId)
    {occ : Occ Phi Real} (hocc : ∀ v, g.occ2RGNodeMap occ = some v → ∀ u, v ∉ (g.node u).pred) :
    (g.addNode occ).Inv (g.addNode occ).nextRGNodeId fun _ => False := by
  have hnode := addNode_node h occ
  have hnext : (g.addNode occ).nextRGNodeId = g.nextRGNodeId + 1 := rfl
  rw [hnext]
  refine ⟨?_, ?_, ?_, ?_, ?_, ?_, h.sink⟩
  · intro occ' v hv
    rw [addNode_map] at hv
    split_ifs at hv
    · cases hv
      omega
    · have hlt := h.map_lt occ' v hv
      omega
  · intro occ₁ occ₂ v h₁ h₂
    rw [addNode_map] at h₁ h₂
    split_ifs at h₁ h₂ with heq₁ heq₂ heq₂
    · rw [heq₁, heq₂]
    · cases h₁
      exact absurd (h.map_lt occ₂ _ h₂).2 (by omega)
    · cases h₂
      exact absurd (h.map_lt occ₁ _ h₁).2 (by omega)
    · exact h.map_inj occ₁ occ₂ v h₁ h₂
  · intro v hv
    rw [(hnode v).1, (hnode v).2]
    exact h.empty v (by omega)
  · intro v p hp
    rw [(hnode v).1] at hp
    obtain ⟨q, hq⟩ := (h.pred v p hp).resolve_right id
    refine .inl ⟨q, ?_⟩
    rw [addNode_map, if_neg]
    · exact hq
    · rintro rfl
      exact hocc p hq v hp
  · intro v
    rw [(hnode v).1, (hnode v).2]
    exact h.length v
  · intro v c hc
    rw [(hnode v).2] at hc
    exact h.cap v c hc

lemma inv_addDefNodes (occs : Occs Phi Real) (phiOccs : List Phi) :
    let g := phiOccs.foldl (addDefNode occs) {}
    g.Inv g.nextRGNodeId (fun _ => False) ∧ 1 ≤ g.nextRGNodeId ∧ (∀ v, (g.node v).pred = []) ∧
      ∀ realOcc, g.occ2RGNodeMap (.real realOcc) = none := by
  have hstep : ∀ (g : ReducedGraph Phi Real) phiOcc, (g.Inv g.nextRGNodeId (fun _ => False) ∧
      1 ≤ g.nextRGNodeId ∧ (∀ v, (g.node v).pred = []) ∧
      ∀ realOcc, g.occ2RGNodeMap (.real realOcc) = none) →
      let g' := addDefNode occs g phiOcc
      g'.Inv g'.nextRGNodeId (fun _ => False) ∧ 1 ≤ g'.nextRGNodeId ∧
        (∀ v, (g'.node v).pred = []) ∧ ∀ realOcc, g'.occ2RGNodeMap (.real realOcc) = none := by
    rintro g phiOcc ⟨h, hpos, hpred, hreal⟩
    unfold addDefNode
    split_ifs
    · refine ⟨h.addNode hpos fun v _ u => by simp [hpred u], Nat.le_succ_of_le hpos, ?_, ?_⟩
      · intro v
        rw [(addNode_node h (.phi phiOcc) v).1, hpred v]
      · intro realOcc
        rw [addNode_map, if_neg (by simp), hreal realOcc]
    · exact ⟨h, hpos, hpred, hreal⟩
  have hrun : ∀ g : ReducedGraph Phi Real, (g.Inv g.nextRGNodeId (fun _ => False) ∧
      1 ≤ g.nextRGNodeId ∧ (∀ v, (g.node v).pred = []) ∧
      ∀ realOcc, g.occ2RGNodeMap (.real realOcc) = none) →
      let g' := phiOccs.foldl (addDefNode occs) g
      g'.Inv g'.nextRGNodeId (fun _ => False) ∧ 1 ≤ g'.nextRGNodeId ∧
        (∀ v, (g'.node v).pred = []) ∧ ∀ realOcc, g'.occ2RGNodeMap (.real realOcc) = none := by
    induction phiOccs with
    | nil => exact fun g h => h
    | cons phiOcc phiOccs ih =>
      intro g h
      exact ih _ (hstep g phiOcc h)
  apply hrun
  refine ⟨⟨by simp, by simp, by simp, by simp, by simp, by simp, rfl⟩, by simp, by simp, by simp⟩

lemma inv_addUse (hb : occs.Bounded) {occ : SortedOcc Phi Real} {g' : ReducedGraph Phi Real}
    (h : g.Inv g.nextRGNodeId fun _ => False) (hpos : 1 ≤ g.nextRGNodeId) (hr : g.RealSingle)
    (hg' : addUse occs g occ = some g') :
    g'.Inv g'.nextRGNodeId (fun _ => False) ∧ 1 ≤ g'.nextRGNodeId ∧ g'.RealSingle := by
  cases occ with
  | real realOcc =>
    rw [addUse] at hg'
    split_ifs at hg'
    · cases hg'
      exact ⟨h, hpos, hr⟩
    · split at hg'
      · cases hg'
        exact ⟨h, hpos, hr⟩
      · rename_i defOcc _
        split at hg'
        · cases hg'
          exact ⟨h, hpos, hr⟩
        · rename_i defNode hdef
          cases hg'
          have hnotPred : ∀ v, g.occ2RGNodeMap (.real realOcc) = some v →
              ∀ u, v ∉ (g.node u).pred := by
            intro v hv u hu
            obtain ⟨q, hq⟩ := (h.pred u v hu).resolve_right id
            exact absurd (h.map_inj _ _ v hq hv) (by simp)
          have hnew := h.addNode hpos hnotPred
          have hdef' : (g.addNode (.real realOcc)).occ2RGNodeMap (.phi defOcc) = some defNode := by
            rw [addNode_map, if_neg (by simp), hdef]
          refine ⟨hnew.addEdge (Nat.lt_succ_self _) (.inl ⟨defOcc, hdef'⟩) (hb.frequency realOcc),
            Nat.le_succ_of_le hpos, ?_⟩
          intro realOcc' v hv
          rw [addEdge_map, addNode_map] at hv
          rw [addEdge_pred, (addNode_node h _ v).1]
          split_ifs at hv with heq
          · cases hv
            rw [if_pos rfl, (h.empty _ le_rfl).1]
            rfl
          · rw [if_neg (by
              rintro rfl
              exact absurd (h.map_lt _ _ hv).2 (by omega))]
            exact hr realOcc' v hv
  | phiopnd defPhiOcc i =>
    rw [addUse] at hg'
    split_ifs at hg'
    · split at hg'
      · cases hg'
      · rename_i defOcc _
        split_ifs at hg'
        · split at hg'
          · rename_i defNode use hdef huse
            cases hg'
            refine ⟨h.addEdge (h.map_lt _ _ huse).2 (.inl ⟨defOcc, hdef⟩)
              (hb.predFrequency defPhiOcc i), hpos, hr.addEdge ?_⟩
            intro realOcc hreal
            exact absurd (h.map_inj _ _ use hreal huse) (by simp)
          · cases hg'
        · cases hg'
          exact ⟨h, hpos, hr⟩
      · cases hg'
        exact ⟨h, hpos, hr⟩
    · cases hg'
      exact ⟨h, hpos, hr⟩
  | other id =>
    cases hg'
    exact ⟨h, hpos, hr⟩

lemma inv_graphReduction (hb : occs.Bounded) (hg : graphReduction occs = some g) :
    g.Inv g.nextRGNodeId (fun _ => False) ∧ 1 ≤ g.nextRGNodeId ∧ g.RealSingle := by
  have hrun : ∀ (allOccs : List (SortedOcc Phi Real)) (g₀ g₁ : ReducedGraph Phi Real),
      g₀.Inv g₀.nextRGNodeId (fun _ => False) → 1 ≤ g₀.nextRGNodeId → g₀.RealSingle →
      allOccs.foldlM (addUse occs) g₀ = some g₁ →
      g₁.Inv g₁.nextRGNodeId (fun _ => False) ∧ 1 ≤ g₁.nextRGNodeId ∧ g₁.RealSingle := by
    intro allOccs
    induction allOccs with
    | nil =>
      intro g₀ g₁ h hpos hr hfold
      cases hfold
      exact ⟨h, hpos, hr⟩
    | cons occ allOccs ih =>
      intro g₀ g₁ h hpos hr hfold
      rw [List.foldlM_cons, Option.bind_eq_bind, Option.bind_eq_some_iff] at hfold
      obtain ⟨g', hg', hfold⟩ := hfold
      obtain ⟨h', hpos', hr'⟩ := inv_addUse hb h hpos hr hg'
      exact ih g' g₁ h' hpos' hr' hfold
  obtain ⟨h, hpos, -, hreal⟩ := inv_addDefNodes occs occs.phiOccs
  have hr : RealSingle (occs.phiOccs.foldl (addDefNode occs) {}) := by
    intro realOcc v hv
    rw [hreal] at hv
    cases hv
  unfold graphReduction at hg
  simp only at hg
  split_ifs at hg
  · exact hrun _ _ _ h hpos hr hg
  · cases hg
    exact ⟨h, hpos, hr⟩

/-! ### AddSingleSource -/

omit [DecidableEq Real] in
lemma inv_addSourceEdge (hb : occs.Bounded) (h : g.Inv n (· = n)) (hr : g.RealSingle)
    (hsource : g.source = n) (phiOcc : Phi) (i : Nat) :
    let g' := addSourceEdge occs phiOcc g i
    g'.Inv n (· = n) ∧ g'.RealSingle ∧ g'.source = n ∧ g'.nextRGNodeId = g.nextRGNodeId := by
  unfold addSourceEdge
  split_ifs
  · split
    · exact ⟨h, hr, hsource, rfl⟩
    · rename_i sucNode hsuc
      have hinv := h.addEdge (i := some i) (h.map_lt _ _ hsuc).2 (.inr hsource)
        (hb.predFrequency phiOcc i)
      have hreal : (g.addEdge sucNode g.source (some i)
          (occs.predFrequency phiOcc i + 1)).RealSingle := by
        apply hr.addEdge
        intro realOcc hreal
        exact absurd (h.map_inj _ _ sucNode hreal hsuc) (by simp)
      exact ⟨⟨hinv.map_lt, hinv.map_inj, hinv.empty, hinv.pred, hinv.length, hinv.cap, hinv.sink⟩,
        hreal, hsource, rfl⟩
  · exact ⟨h, hr, hsource, rfl⟩

omit [DecidableEq Real] in
lemma inv_addSingleSource (hb : occs.Bounded) (h : g.Inv g.nextRGNodeId fun _ => False)
    (hr : g.RealSingle) :
    let g' := addSingleSource occs g
    let n := g.nextRGNodeId
    g'.Inv n (· = n) ∧ g'.RealSingle ∧ g'.source = n ∧ g'.nextRGNodeId = n + 1 := by
  let n := g.nextRGNodeId
  let P (g' : ReducedGraph Phi Real) : Prop := g'.Inv n (· = n) ∧ g'.RealSingle ∧ g'.source = n ∧
    g'.nextRGNodeId = n + 1
  have hedges : ∀ phiOcc (is : List Nat) g₀, P g₀ →
      P (is.foldl (addSourceEdge occs phiOcc) g₀) := by
    intro phiOcc is
    induction is with
    | nil => exact fun g₀ h => h
    | cons i is ih =>
      rintro g₀ ⟨h, hr, hsource, hnext⟩
      obtain ⟨h', hr', hsource', hnext'⟩ := inv_addSourceEdge hb h hr hsource phiOcc i
      exact ih _ ⟨h', hr', hsource', hnext'.trans hnext⟩
  have hphis : ∀ (phiOccs : List Phi) g₀, P g₀ → P (phiOccs.foldl (addSourceEdges occs) g₀) := by
    intro phiOccs
    induction phiOccs with
    | nil => exact fun g₀ h => h
    | cons phiOcc phiOccs ih =>
      intro g₀ hg₀
      apply ih
      unfold addSourceEdges
      split_ifs
      · exact hedges phiOcc _ g₀ hg₀
      · exact hg₀
  apply hphis
  exact ⟨⟨h.map_lt, h.map_inj, h.empty, fun v p hp => (h.pred v p hp).imp_right False.elim,
    h.length, h.cap, h.sink⟩, hr, rfl, rfl⟩

/-! ### AddSingleSink -/

/-- The node from which `AddSingleSink` adds an edge. -/
def sinkPred (g : ReducedGraph Phi Real) : Occ Phi Real → Option Nat
  | .real realOcc => g.occ2RGNodeMap (.real realOcc)
  | .phi _ => none

omit [DecidableEq Phi] [DecidableEq Real] in
lemma addSinkEdge_eq (sink : Nat) (g : ReducedGraph Phi Real) (occ : Occ Phi Real) :
    addSinkEdge sink g occ =
      match g.sinkPred occ with
      | none => g
      | some use => g.addEdge sink use none kInt64Max := by
  cases occ <;> rfl

omit [DecidableEq Phi] [DecidableEq Real] in
lemma foldl_addSinkEdge (sink : Nat) (order : List (Occ Phi Real)) (g : ReducedGraph Phi Real) :
    let g' := order.foldl (addSinkEdge sink) g
    g'.source = g.source ∧ g'.sink = g.sink ∧ g'.nextRGNodeId = g.nextRGNodeId ∧
      (∀ v, v ≠ sink → g'.node v = g.node v) ∧
      (g'.node sink).pred = (g.node sink).pred ++ order.filterMap g.sinkPred ∧
      (g'.node sink).inEdgesCap =
        (g.node sink).inEdgesCap ++ (order.filterMap g.sinkPred).map fun _ => kInt64Max := by
  induction order generalizing g with
  | nil => simp
  | cons occ order ih =>
    cases hocc : g.sinkPred occ with
    | none =>
      simp only [List.foldl_cons, addSinkEdge_eq, List.filterMap_cons, hocc]
      exact ih g
    | some use =>
      have hsinkPred : (g.addEdge sink use none kInt64Max).sinkPred = g.sinkPred := by
        funext occ
        cases occ <;> rfl
      obtain ⟨hsource, hsink, hnext, hne, hpred, hcap⟩ :=
        ih (g.addEdge sink use none kInt64Max)
      simp only [List.foldl_cons, addSinkEdge_eq, List.filterMap_cons, hocc]
      refine ⟨hsource, hsink, hnext, ?_, ?_, ?_⟩
      · intro v hv
        rw [hne v hv]
        simp [ReducedGraph.addEdge, hv]
      · rw [hpred, hsinkPred, addEdge_pred, if_pos rfl]
        simp
      · rw [hcap, hsinkPred, addEdge_inEdgesCap, if_pos rfl]
        simp

end GraphReduction

/-! ### The graph with its source and sink -/

/-- A reduced graph with a source and a sink. -/
structure Valid (g : ReducedGraph Phi Real) (sink : Nat) : Prop where
  source_pred : (g.node g.source).pred = []
  sink_ne : sink ≠ g.source
  not_sink : ∀ v, sink ∉ (g.node v).pred
  pred_lt : ∀ v, ∀ p ∈ (g.node v).pred, v < g.nextRGNodeId ∧ p < g.nextRGNodeId
  length : ∀ v, (g.node v).inEdgesCap.length = (g.node v).pred.length
  cap_pos : ∀ v, ∀ c ∈ (g.node v).inEdgesCap, 1 ≤ c
  sink_cap : ∀ c ∈ (g.node sink).inEdgesCap, c = kInt64Max
  sink_nodup : (g.node sink).pred.Nodup
  -- a node with an edge to the sink has one edge to it and no other use
  single : ∀ p ∈ (g.node sink).pred, (g.node p).pred.length = 1
  single_cap : ∀ p ∈ (g.node sink).pred, ∀ c ∈ (g.node p).inEdgesCap, c ≤ kInt64Max
  only_sink : ∀ p ∈ (g.node sink).pred, ∀ v, p ∈ (g.node v).pred → v = sink

variable [DecidableEq Phi] [DecidableEq Real]

omit [DecidableEq Phi] [DecidableEq Real] in
lemma valid_addSingleSink {n sink : Nat} {order : List (Occ Phi Real)} (h : g.Inv n (· = n))
    (hr : g.RealSingle) (hsource : g.source = n) (hnext : g.nextRGNodeId = n + 1)
    (horder : order.Nodup) (hsink : (addSingleSink order g).sink = some sink) :
    (addSingleSink order g).Valid sink := by
  unfold addSingleSink at hsink ⊢
  split_ifs at hsink ⊢ with h0
  · rw [h.sink] at hsink
    cases hsink
  · simp only at hsink ⊢
    obtain ⟨hsource', hsink', hnext', hne, hpred, hcap⟩ := foldl_addSinkEdge g.nextRGNodeId order
      { g with
        sink := some g.nextRGNodeId
        nextRGNodeId := g.nextRGNodeId + 1 }
    generalize order.foldl _ _ = g' at *
    rw [hsink'] at hsink
    cases hsink
    simp only [hnext] at *
    have hpreds : (g'.node (n + 1)).pred = order.filterMap g.sinkPred := by
      rw [hpred, (h.empty (n + 1) (Nat.le_succ n)).1]
      rfl
    have hcaps : (g'.node (n + 1)).inEdgesCap =
        (order.filterMap g.sinkPred).map fun _ => kInt64Max := by
      rw [hcap, (h.empty (n + 1) (Nat.le_succ n)).2]
      rfl
    have hreal : ∀ p ∈ (g'.node (n + 1)).pred,
        ∃ realOcc, g.occ2RGNodeMap (.real realOcc) = some p := by
      intro p hp
      rw [hpreds, List.mem_filterMap] at hp
      obtain ⟨occ, -, hocc⟩ := hp
      cases occ with
      | phi phiOcc => cases hocc
      | real realOcc => exact ⟨realOcc, hocc⟩
    have hpred_lt : ∀ v, v ≠ n + 1 → ∀ p ∈ (g'.node v).pred, v < n ∧ p < n + 1 := by
      intro v hv p hp
      rw [hne v hv] at hp
      refine ⟨?_, ?_⟩
      · by_contra hge
        rw [(h.empty v (by omega)).1] at hp
        cases hp
      · rcases h.pred v p hp with ⟨phiOcc, hphi⟩ | rfl
        · exact Nat.lt_succ_of_lt (h.map_lt _ _ hphi).2
        · exact Nat.lt_succ_self _
    have hreal_lt : ∀ p ∈ (g'.node (n + 1)).pred, p < n := by
      intro p hp
      obtain ⟨realOcc, hp⟩ := hreal p hp
      exact (h.map_lt _ _ hp).2
    refine ⟨?_, ?_, ?_, ?_, ?_, ?_, ?_, ?_, ?_, ?_, ?_⟩
    · rw [hsource', hsource, hne n (by omega)]
      exact (h.empty n le_rfl).1
    · rw [hsource', hsource]
      omega
    · intro v hmem
      by_cases hv : v = n + 1
      · subst hv
        exact absurd (hreal_lt _ hmem) (by omega)
      · exact absurd (hpred_lt v hv _ hmem).2 (by omega)
    · intro v p hp
      rw [hnext']
      by_cases hv : v = n + 1
      · subst hv
        have hlt := hreal_lt p hp
        omega
      · have hlt := hpred_lt v hv p hp
        omega
    · intro v
      by_cases hv : v = n + 1
      · subst hv
        rw [hcaps, hpreds, List.length_map]
      · rw [hne v hv]
        exact h.length v
    · intro v c hc
      by_cases hv : v = n + 1
      · subst hv
        rw [hcaps, List.mem_map] at hc
        obtain ⟨-, -, rfl⟩ := hc
        simp [kInt64Max]
      · rw [hne v hv] at hc
        exact (h.cap v c hc).1
    · intro c hc
      rw [hcaps, List.mem_map] at hc
      obtain ⟨-, -, rfl⟩ := hc
      rfl
    · rw [hpreds]
      apply List.Nodup.filterMap ?_ horder
      intro occ occ' p hocc hocc'
      cases occ with
      | phi phiOcc => cases hocc
      | real realOcc =>
        cases occ' with
        | phi phiOcc => cases hocc'
        | real realOcc' => exact h.map_inj _ _ p hocc hocc'
    · intro p hp
      have hlt := hreal_lt p hp
      obtain ⟨realOcc, hp⟩ := hreal p hp
      rw [hne p (by omega)]
      exact hr realOcc p hp
    · intro p hp c hc
      have hlt := hreal_lt p hp
      rw [hne p (by omega)] at hc
      exact (h.cap p c hc).2
    · intro p hp v hv
      by_contra hvne
      have hlt := hreal_lt p hp
      obtain ⟨realOcc, hp⟩ := hreal p hp
      rw [hne v hvne] at hv
      rcases h.pred v p hv with ⟨phiOcc, hphi⟩ | rfl
      · exact absurd (h.map_inj _ _ p hphi hp) (by simp)
      · omega

lemma valid_build {order : List (Occ Phi Real)} {sink : Nat} (hb : occs.Bounded)
    (horder : order.Nodup) (hg : build occs order = some g) (hsink : g.sink = some sink) :
    g.Valid sink := by
  rw [build, Option.map_eq_some_iff] at hg
  obtain ⟨g₀, hg₀, rfl⟩ := hg
  obtain ⟨h, -, hr⟩ := inv_graphReduction hb hg₀
  obtain ⟨h', hr', hsource, hnext⟩ := inv_addSingleSource hb h hr
  exact valid_addSingleSink h' hr' hsource hnext horder hsink

end ReducedGraph
end MinCut
end McSSAPre
end Maple
