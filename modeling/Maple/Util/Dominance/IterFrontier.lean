import Maple.Util.Dominance.Frontier
import Mathlib.Data.Finset.Sort

/-!
# Iterated dominance frontiers

`ComputeIterDomFrontiers` of `dominance.h`. For each node a depth-first search collects the frontiers
that its frontier leads to; at a node with a smaller id it takes the set that is there already.
-/

namespace Maple
namespace Dominance

/-- The set that is being computed, and the nodes that have been visited. -/
abbrev Collected := Finset NodeId × (NodeId → Bool)

/-- The loop of `GetIterDomFrontier` over a frontier, with the recursive call as a parameter. -/
def collectFrontier (g : Graph) (iterDomFrontier : DomFrontier) (nodeIdMarker : NodeId)
    (getIterDomFrontier : NodeId → Collected → Outcome Collected) :
    List NodeId → Collected → Outcome Collected
  | [], s => .done s
  | frontierNodeId :: rest, s =>
    let dfSet := insert frontierNodeId s.1
    if frontierNodeId < nodeIdMarker then
      -- union with its computed result
      collectFrontier g iterDomFrontier nodeIdMarker getIterDomFrontier rest
        (dfSet ∪ iterDomFrontier frontierNodeId, s.2)
    else
      match g.nodeVec[frontierNodeId]? with
      | none => .assertionFailed
      | some none =>
        collectFrontier g iterDomFrontier nodeIdMarker getIterDomFrontier rest (dfSet, s.2)
      | some (some frontierNode) =>
        (getIterDomFrontier frontierNode (dfSet, s.2)).bind fun s =>
          collectFrontier g iterDomFrontier nodeIdMarker getIterDomFrontier rest s

/-- `GetIterDomFrontier`. The ids of a frontier are visited in ascending order. -/
def getIterDomFrontier (g : Graph) (domFrontier iterDomFrontier : DomFrontier)
    (nodeIdMarker : NodeId) : Nat → NodeId → Collected → Outcome Collected
  | 0, _, _ => .outOfFuel
  | fuel + 1, node, (dfSet, visitedMap) =>
    if visitedMap node then .done (dfSet, visitedMap)
    else
      collectFrontier g iterDomFrontier nodeIdMarker
        (getIterDomFrontier g domFrontier iterDomFrontier nodeIdMarker fuel)
        ((domFrontier node).sort (· ≤ ·)) (dfSet, Function.update visitedMap node true)

/-- The loop of `ComputeIterDomFrontiers`. -/
def iterDomFrontierLoop (g : Graph) (commonExitNode : NodeId) (domFrontier : DomFrontier)
    (fuel : Nat) : List (Option NodeId) → DomFrontier → Outcome DomFrontier
  | [], iterDomFrontier => .done iterDomFrontier
  | none :: nodes, iterDomFrontier =>
    iterDomFrontierLoop g commonExitNode domFrontier fuel nodes iterDomFrontier
  | some node :: nodes, iterDomFrontier =>
    if node = commonExitNode then
      iterDomFrontierLoop g commonExitNode domFrontier fuel nodes iterDomFrontier
    else
      (getIterDomFrontier g domFrontier iterDomFrontier node fuel node
        (iterDomFrontier node, fun _ => false)).bind fun s =>
          iterDomFrontierLoop g commonExitNode domFrontier fuel nodes
            (Function.update iterDomFrontier node s.1)

def computeIterDomFrontiers (g : Graph) (commonExitNode : NodeId) (domFrontier : DomFrontier)
    (fuel : Nat) : Outcome DomFrontier :=
  iterDomFrontierLoop g commonExitNode domFrontier fuel g.nodeVec fun _ => ∅

/-! ### What one search collects -/

variable {g : Graph} {df iter : DomFrontier} {marker node : NodeId}

/-- The nodes that steps from frontier to frontier lead to. -/
def Leads (df : DomFrontier) : NodeId → NodeId → Prop := Relation.TransGen fun a b => b ∈ df a

/-- The set has a frontier node and what it leads to, unless this node has been visited. -/
structure Covered (iter : DomFrontier) (marker : NodeId) (s : Collected) (f : NodeId) : Prop where
  mem : f ∈ s.1
  computed : f < marker → iter f ⊆ s.1
  visited : marker ≤ f → s.2 f = true

/-- What a search adds: it covers the frontiers of the nodes that it visits, and no more than `node`
leads to. -/
structure Grows (df iter : DomFrontier) (marker node : NodeId) (s s' : Collected) : Prop where
  subset : s.1 ⊆ s'.1
  visited : ∀ v, s.2 v = true → s'.2 v = true
  covered : ∀ v, s'.2 v = true → s.2 v = false → ∀ f ∈ df v, Covered iter marker s' f
  sound : ∀ y ∈ s'.1, y ∈ s.1 ∨ Leads df node y

lemma Covered.mono {s s' : Collected} {f : NodeId} (h : Covered iter marker s f)
    (hsubset : s.1 ⊆ s'.1) (hvisited : ∀ v, s.2 v = true → s'.2 v = true) :
    Covered iter marker s' f where
  mem := hsubset h.mem
  computed hf := (h.computed hf).trans hsubset
  visited hf := hvisited f (h.visited hf)

lemma Grows.refl (df iter : DomFrontier) (marker node : NodeId) (s : Collected) :
    Grows df iter marker node s s where
  subset := Finset.Subset.refl _
  visited _ h := h
  covered v h h' := absurd h (by simp [h'])
  sound _ h := Or.inl h

lemma Grows.trans {s₁ s₂ s₃ : Collected} (h : Grows df iter marker node s₁ s₂)
    (h' : Grows df iter marker node s₂ s₃) : Grows df iter marker node s₁ s₃ where
  subset := h.subset.trans h'.subset
  visited v hv := h'.visited v (h.visited v hv)
  covered v hv hnot f hf := by
    cases hmid : s₂.2 v with
    | true => exact (h.covered v hmid hnot f hf).mono h'.subset h'.visited
    | false => exact h'.covered v hv hmid f hf
  sound y hy := by
    rcases h'.sound y hy with hmid | hleads
    · exact h.sound y hmid
    · exact Or.inr hleads

lemma Grows.of_frontier {s s' : Collected} {f : NodeId} (hf : f ∈ df node)
    (h : Grows df iter marker f s s') : Grows df iter marker node s s' where
  subset := h.subset
  visited := h.visited
  covered := h.covered
  sound y hy := (h.sound y hy).imp_right fun hleads => .head hf hleads

lemma Grows.add {s : Collected} {dfSet : Finset NodeId} (hsubset : s.1 ⊆ dfSet)
    (hsound : ∀ y ∈ dfSet, y ∈ s.1 ∨ Leads df node y) :
    Grows df iter marker node s (dfSet, s.2) where
  subset := hsubset
  visited _ h := h
  covered v h h' := absurd h (by simp [h'])
  sound := hsound

/-- The sets of the smaller ids are complete. -/
def Complete (df iter : DomFrontier) (marker : NodeId) : Prop :=
  ∀ a, ∀ f ∈ df a, f < marker → ∀ y, y ∈ iter f ↔ Leads df f y

lemma collectFrontier_settles (hnodes : ∀ a, ∀ b ∈ df a, g.nodeVec[b]? = some (some b))
    (hcomplete : Complete df iter marker) {search : Nat → NodeId → Collected → Outcome Collected}
    (visitedMap : NodeId → Bool)
    (hsearch : ∀ f ∈ df node, ∀ s : Collected, (∀ v, visitedMap v = true → s.2 v = true) →
      ∃ s', Outcome.Settles (search · f s) (.done s') ∧ Grows df iter marker f s s' ∧
        s'.2 f = true)
    (fs : List NodeId) (hfs : ∀ f ∈ fs, f ∈ df node) (s : Collected)
    (hs : ∀ v, visitedMap v = true → s.2 v = true) :
    ∃ s', Outcome.Settles (fun fuel => collectFrontier g iter marker (search fuel) fs s)
        (.done s') ∧
      Grows df iter marker node s s' ∧ ∀ f ∈ fs, Covered iter marker s' f := by
  induction fs generalizing s with
  | nil =>
    exact ⟨s, Outcome.settles_const (by simp), Grows.refl df iter marker node s, by simp⟩
  | cons f fs ih =>
    rw [List.forall_mem_cons] at hfs
    by_cases hlt : f < marker
    · have hgrows : Grows df iter marker node s (insert f s.1 ∪ iter f, s.2) := by
        apply Grows.add
        · intro y hy
          simp [hy]
        · intro y hy
          rw [Finset.mem_union, Finset.mem_insert] at hy
          rcases hy with (rfl | hy) | hy
          · exact Or.inr (.single hfs.1)
          · exact Or.inl hy
          · exact Or.inr (.head hfs.1 ((hcomplete node f hfs.1 hlt y).mp hy))
      obtain ⟨s', hsettles, hrest, hcovered⟩ := ih hfs.2 (insert f s.1 ∪ iter f, s.2) hs
      refine ⟨s', ?_, hgrows.trans hrest, ?_⟩
      · simpa only [collectFrontier, hlt, if_true] using hsettles
      · rw [List.forall_mem_cons]
        refine ⟨⟨hrest.subset (by simp), ?_, fun hle => absurd hlt (not_lt.mpr hle)⟩, hcovered⟩
        intro _ y hy
        exact hrest.subset (by simp [hy])
    · have hadd : Grows df iter marker node s (insert f s.1, s.2) := by
        apply Grows.add
        · exact Finset.subset_insert f s.1
        · intro y hy
          rcases Finset.mem_insert.mp hy with rfl | hy
          · exact Or.inr (.single hfs.1)
          · exact Or.inl hy
      obtain ⟨s₁, hs₁, hgrows, hvisited⟩ := hsearch f hfs.1 (insert f s.1, s.2) hs
      have hall := hgrows.of_frontier hfs.1
      obtain ⟨s', hsettles, hrest, hcovered⟩ := ih hfs.2 s₁ fun v hv => hall.visited v (hs v hv)
      refine ⟨s', ?_, (hadd.trans hall).trans hrest, ?_⟩
      · simp only [collectFrontier, hlt, if_false, hnodes node f hfs.1]
        exact hs₁.bind (f := fun s fuel => collectFrontier g iter marker (search fuel) fs s) hsettles
      · rw [List.forall_mem_cons]
        refine ⟨⟨?_, fun h => absurd h hlt, fun _ => hrest.visited f hvisited⟩, hcovered⟩
        exact hrest.subset (hgrows.subset (Finset.mem_insert_self f s.1))

/-- The nodes that have not been visited. -/
def unvisited (g : Graph) (visitedMap : NodeId → Bool) : Finset NodeId :=
  (Finset.range g.nodeVec.length).filter fun v => visitedMap v = false

lemma getIterDomFrontier_settles (hnodes : ∀ a, ∀ b ∈ df a, g.nodeVec[b]? = some (some b))
    (hcomplete : Complete df iter marker) (hnode : g.nodeVec[node]? = some (some node))
    (s : Collected) :
    ∃ s', Outcome.Settles (getIterDomFrontier g df iter marker · node s) (.done s') ∧
      Grows df iter marker node s s' ∧ s'.2 node = true := by
  induction hn : (unvisited g s.2).card using Nat.strongRecOn generalizing node s with
  | _ n ih =>
    cases hvisited : s.2 node with
    | true =>
      refine ⟨s, ?_, Grows.refl df iter marker node s, hvisited⟩
      apply Outcome.Settles.of_succ
      simp only [getIterDomFrontier, hvisited, if_true]
      exact Outcome.settles_const (by simp)
    | false =>
      have hlt : ∀ s₁ : Collected, (∀ v, Function.update s.2 node true v = true → s₁.2 v = true) →
          (unvisited g s₁.2).card < n := by
        intro s₁ hs₁
        subst hn
        apply Finset.card_lt_card
        have hmem : node ∈ unvisited g s.2 := by
          rw [unvisited, Finset.mem_filter, Finset.mem_range]
          exact ⟨(List.getElem?_eq_some_iff.mp hnode).1, hvisited⟩
        rw [Finset.ssubset_iff_of_subset]
        · refine ⟨node, hmem, ?_⟩
          have hnow := hs₁ node (Function.update_self node true s.2)
          simp [unvisited, hnow]
        · intro v hv
          rw [unvisited, Finset.mem_filter] at hv ⊢
          refine ⟨hv.1, ?_⟩
          by_contra hold
          have hnow := hs₁ v (by by_cases h : v = node <;> simp_all)
          simp [hnow] at hv
      obtain ⟨s', hsettles, hgrows, hcovered⟩ := collectFrontier_settles hnodes hcomplete
        (Function.update s.2 node true)
        (fun f hf s₁ hs₁ => ih _ (hlt s₁ hs₁) (hnodes node f hf) s₁ rfl)
        ((df node).sort (· ≤ ·)) (fun f hf => (Finset.mem_sort _).mp hf)
        (s.1, Function.update s.2 node true) (fun v hv => hv)
      have hnow := hgrows.visited node (Function.update_self node true s.2)
      refine ⟨s', ?_, ?_, hnow⟩
      · apply Outcome.Settles.of_succ
        simp only [getIterDomFrontier, hvisited, Bool.false_eq_true, if_false]
        exact hsettles
      · refine ⟨hgrows.subset, ?_, ?_, hgrows.sound⟩
        · intro v hv
          apply hgrows.visited
          by_cases h : v = node <;> simp [h, hv]
        · intro v hv hnot
          by_cases h : v = node
          · subst h
            intro f hf
            exact hcovered f ((Finset.mem_sort _).mpr hf)
          · exact hgrows.covered v hv (by simp [h, hnot])

lemma getIterDomFrontier_exact (hnodes : ∀ a, ∀ b ∈ df a, g.nodeVec[b]? = some (some b))
    (hcomplete : Complete df iter marker) (hnode : g.nodeVec[node]? = some (some node)) :
    ∃ s', Outcome.Settles (getIterDomFrontier g df iter marker · node (∅, fun _ => false))
        (.done s') ∧ ∀ y, y ∈ s'.1 ↔ Leads df node y := by
  obtain ⟨s', hsettles, hgrows, hvisited⟩ :=
    getIterDomFrontier_settles hnodes hcomplete hnode (∅, fun _ => false)
  refine ⟨s', hsettles, fun y => ⟨fun hy => ?_, fun hy => ?_⟩⟩
  · exact (hgrows.sound y hy).resolve_left (Finset.notMem_empty y)
  · have hall : ∀ v, Leads df v y → s'.2 v = true → y ∈ s'.1 := by
      intro v hv
      induction hv using Relation.TransGen.head_induction_on with
      | single hstep =>
        intro hnow
        exact (hgrows.covered _ hnow rfl _ hstep).mem
      | @head v f hstep hleads ih =>
        intro hnow
        have hcovered := hgrows.covered v hnow rfl f hstep
        by_cases hlt : f < marker
        · exact hcovered.computed hlt ((hcomplete v f hstep hlt y).mpr hleads)
        · exact ih (hcovered.visited (not_lt.mp hlt))
    exact hall node hy hvisited

/-! ### All nodes -/

/-- The sets of the nodes before `k` are complete, and all others are empty. -/
structure LoopInv (g : Graph) (exit : NodeId) (df iter : DomFrontier) (k : Nat) : Prop where
  done : ∀ v < k, g.nodeVec[v]? = some (some v) → v ≠ exit → ∀ y, y ∈ iter v ↔ Leads df v y
  empty : ∀ v, k ≤ v ∨ v = exit → iter v = ∅

lemma iterDomFrontierLoop_settles (hgetID : ∀ i v : NodeId, g.nodeVec[i]? = some (some v) → v = i)
    {exit : NodeId} (hnodes : ∀ a, ∀ b ∈ df a, g.nodeVec[b]? = some (some b) ∧ b ≠ exit)
    (pre nodes : List (Option NodeId)) (hsplit : g.nodeVec = pre ++ nodes)
    (hinv : LoopInv g exit df iter pre.length) :
    ∃ iter', Outcome.Settles (iterDomFrontierLoop g exit df · nodes iter) (.done iter') ∧
      LoopInv g exit df iter' g.nodeVec.length := by
  induction nodes generalizing pre iter with
  | nil =>
    rw [List.append_nil] at hsplit
    exact ⟨iter, Outcome.settles_const (by simp), hsplit ▸ hinv⟩
  | cons slot nodes ih =>
    have hslot : g.nodeVec[pre.length]? = some slot := by
      rw [hsplit, List.getElem?_append_right le_rfl, Nat.sub_self]
      rfl
    have hnext : g.nodeVec = (pre ++ [slot]) ++ nodes := by
      rw [hsplit, List.append_assoc, List.singleton_append]
    have hlength : (pre ++ [slot]).length = pre.length + 1 := by simp
    have hkeep : (∀ v, slot = some v → v = exit) →
        LoopInv g exit df iter (pre ++ [slot]).length := by
      intro hskip
      rw [hlength]
      refine ⟨?_, fun v hv => hinv.empty v (hv.imp_left fun h => by omega)⟩
      intro v hv hnode hexit
      by_cases hlast : v = pre.length
      · subst hlast
        rw [hslot] at hnode
        exact absurd (hskip _ (Option.some.inj hnode)) hexit
      · exact hinv.done v (by omega) hnode hexit
    cases slot with
    | none =>
      obtain ⟨iter', hs, hend⟩ := ih (pre ++ [none]) hnext (hkeep fun v hv => nomatch hv)
      exact ⟨iter', by simpa only [iterDomFrontierLoop] using hs, hend⟩
    | some node =>
      have hnode : @Eq Nat node pre.length := hgetID _ _ hslot
      by_cases hexit : node = exit
      · obtain ⟨iter', hs, hend⟩ := ih (pre ++ [some node]) hnext
          (hkeep fun v hv => (Option.some.inj hv).symm.trans hexit)
        exact ⟨iter', by simpa only [iterDomFrontierLoop, hexit, if_true] using hs, hend⟩
      · have hcomplete : Complete df iter node := by
          intro a f hf hlt
          exact hinv.done f (hlt.trans_eq hnode) (hnodes a f hf).1 (hnodes a f hf).2
        have hself : g.nodeVec[node]? = some (some node) := by
          rw [← hnode] at hslot
          exact hslot
        obtain ⟨s', hs₁, hexact⟩ :=
          getIterDomFrontier_exact (fun a b hb => (hnodes a b hb).1) hcomplete hself
        have hinv' : LoopInv g exit df (Function.update iter node s'.1)
            (pre ++ [some node]).length := by
          rw [hlength]
          constructor
          · intro v hv hvnode hvexit y
            by_cases hlast : v = node
            · subst hlast
              rw [Function.update_self]
              exact hexact y
            · rw [Function.update_of_ne hlast]
              exact hinv.done v (by omega) hvnode hvexit y
          · intro v hv
            have hne : v ≠ node := by
              rintro rfl
              rcases hv with hle | heq
              · omega
              · exact hexit heq
            rw [Function.update_of_ne hne]
            exact hinv.empty v (hv.imp_left fun h => by omega)
        obtain ⟨iter', hs, hend⟩ := ih (pre ++ [some node]) hnext hinv'
        refine ⟨iter', ?_, hend⟩
        simp only [iterDomFrontierLoop, hexit, if_false, hinv.empty node (Or.inl (by omega))]
        exact hs₁.bind (f := fun s fuel => iterDomFrontierLoop g exit df fuel nodes
          (Function.update iter node s.1)) hs

/-- `ComputeIterDomFrontiers` ends for any frontiers of nodes in the vector, and finds for each node
what its frontier leads to. -/
lemma computeIterDomFrontiers_settles
    (hgetID : ∀ i v : NodeId, g.nodeVec[i]? = some (some v) → v = i) {exit : NodeId}
    (hnodes : ∀ a, ∀ b ∈ df a, g.nodeVec[b]? = some (some b) ∧ b ≠ exit) :
    ∃ iter, Outcome.Settles (computeIterDomFrontiers g exit df) (.done iter) ∧
      (∀ x, g.nodeVec[x]? = some (some x) → x ≠ exit → ∀ y, y ∈ iter x ↔ Leads df x y) ∧
      iter exit = ∅ := by
  have hstart : LoopInv g exit df (fun _ => ∅) ([] : List (Option NodeId)).length :=
    ⟨fun v hv => absurd hv (Nat.not_lt_zero v), fun _ _ => rfl⟩
  obtain ⟨iter, hs, hend⟩ := iterDomFrontierLoop_settles hgetID hnodes [] g.nodeVec rfl hstart
  refine ⟨iter, hs, ?_, hend.empty exit (Or.inr rfl)⟩
  intro x hx hexit
  exact hend.done x (List.getElem?_eq_some_iff.mp hx).1 hx hexit

lemma domFrontier_exit {g : ConnectedGraph} {ids : NodeId → Int} {doms : Doms}
    (ht : IsTree g.toFlowGraph ids doms) (hexit : ∀ w, ¬ g.Edge g.commonExitNode w) {y : NodeId}
    (hy : g.Reachable y) : ¬ Inserted g.toGraph g.commonExitNode doms g.commonExitNode y := by
  rintro ⟨-, -, d, -, p, hp, hup, -⟩
  obtain ⟨hpr, hpy⟩ := g.edge_of_mem_prev hy hp
  rcases Relation.ReflTransGen.cases_head (hup.path ht) with heq | ⟨v, hv, -⟩
  · exact hexit y (heq ▸ hpy)
  · exact hexit v hv.1

/-- `ComputeIterDomFrontiers` ends, and finds the least sets that contain the frontiers and are closed
under them. A common exit, which it skips, must not have an edge out of it. -/
theorem computeIterDomFrontiers_isLeast (g : ConnectedGraph) :
    ∃ doms df iter, Outcome.Settles (init g.toGraph) (.done doms) ∧
      Outcome.Settles (computeDomFrontiers g.toGraph g.commonExitNode doms) (.done df) ∧
      Outcome.Settles (computeIterDomFrontiers g.toGraph g.commonExitNode df) (.done iter) ∧
      ∀ x, g.nodeVec[x]? = some (some x) →
        (x = g.commonExitNode → ∀ w, ¬ g.Edge g.commonExitNode w) →
          IsLeast {S : Set NodeId | (df x : Set NodeId) ⊆ S ∧ ∀ y ∈ S, (df y : Set NodeId) ⊆ S}
            (iter x) := by
  obtain ⟨ids, pid, doms, hinit, hpo, hfinal⟩ := init_settles g.toFlowGraph
  obtain ⟨df, hdf, hmem⟩ := computeDomFrontiers_settles g hpo hfinal
  have hnodes : ∀ a, ∀ b ∈ df a, g.nodeVec[b]? = some (some b) ∧ b ≠ g.commonExitNode := by
    intro a b hb
    obtain ⟨hreach, hinserted⟩ := (hmem a b).mp hb
    exact ⟨g.toFlowGraph.slot hreach, hinserted.1⟩
  obtain ⟨iter, hiter, hexact, hempty⟩ := computeIterDomFrontiers_settles g.getID hnodes
  refine ⟨doms, df, iter, hinit, hdf, hiter, ?_⟩
  intro x hx hexit
  have hleast := Dominators.isLeast_transGen (fun a b => b ∈ df a) x
  have hset : (iter x : Set NodeId) = {y | Relation.TransGen (fun a b => b ∈ df a) x y} := by
    ext y
    by_cases hxe : x = g.commonExitNode
    · subst hxe
      rw [hempty]
      simp only [Finset.coe_empty, Set.mem_empty_iff_false, false_iff, Set.mem_ofPred_eq]
      intro hleads
      obtain ⟨f, hf, -⟩ := Relation.TransGen.head'_iff.mp hleads
      obtain ⟨hreach, hinserted⟩ := (hmem _ _).mp hf
      exact domFrontier_exit hfinal.tree (hexit rfl) hreach hinserted
    · exact hexact x hx hxe y
  rw [hset]
  exact hleast

end Dominance
end Maple
