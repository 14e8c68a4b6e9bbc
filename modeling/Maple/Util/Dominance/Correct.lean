import Maple.Util.Dominance.Compute

/-!
# `ComputeDominance` and `Dominate`

The rounds end with the immediate dominator of each reachable node, and `Dominate` answers the
question that its name asks.
-/

namespace Maple
namespace Dominance

open Dominators

variable {g : FlowGraph} {ids : NodeId → Int} {pid : Nat} {doms : Doms} {k : Nat}
  {node : NodeId} {todo : List NodeId}

/-! ### Rounds -/

/-- What a round after `k` others keeps, with the nodes it has not visited. -/
structure RoundInv (g : FlowGraph) (ids : NodeId → Int) (k : Nat) (todo : List NodeId)
    (doms : Doms) : Prop where
  tree : IsTree g ids doms
  visited : ∀ v, g.Reachable v → v ∉ todo →
    (doms v).isSome ∧ Excludes g.Edge ids g.commonEntryNode doms (k + 1) v
  excludes : ∀ v, Excludes g.Edge ids g.commonEntryNode doms k v
  isSome : 0 < k → ∀ v, g.Reachable v → (doms v).isSome

/-- The paths with less than `k` edges against the order decide which nodes dominate. -/
def IsExact (g : FlowGraph) (ids : NodeId → Int) (k : Nat) : Prop :=
  0 < k ∧ ∀ d v, g.Reachable d → g.Reachable v →
    (∃ j, Avoids g.Edge ids g.commonEntryNode d j v) →
      ∃ j < k, Avoids g.Edge ids g.commonEntryNode d j v

lemma exists_isExact (g : FlowGraph) (ids : NodeId → Int) :
    ∃ K, ∀ k, K ≤ k → IsExact g ids k := by
  obtain ⟨K, hK⟩ := exists_bound g.Edge ids g.commonEntryNode (Finset.range g.nodeVec.length)
  refine ⟨K + 1, ?_⟩
  intro k hk
  refine ⟨by omega, ?_⟩
  intro d v hd hv hav
  have hrange : ∀ w, g.Reachable w → w ∈ Finset.range g.nodeVec.length := by
    intro w hw
    rw [Finset.mem_range]
    exact (List.getElem?_eq_some_iff.mp (g.slot hw)).1
  obtain ⟨j, hj, hav⟩ := hK d (hrange d hd) v (hrange v hv) hav
  exact ⟨j, by omega, hav⟩

lemma excludes_of_isExact {v : NodeId} (hexact : IsExact g ids k) (ht : IsTree g ids doms)
    (h : Excludes g.Edge ids g.commonEntryNode doms k v) (m : Nat) :
    Excludes g.Edge ids g.commonEntryNode doms m v := by
  intro hve x hx j _ hav
  have hxs := ht.isSome v x hx
  obtain ⟨i, hi, hav⟩ := hexact.2 x v (ht.reachable x hxs) hav.reachable ⟨j, hav⟩
  exact h hve x hx i hi hav

lemma visitNode_settles (hpo : IsPostOrder g.toGraph ids pid) {s : Doms × Bool}
    (h : RoundInv g ids k (node :: todo) s.1) (hnode : g.Reachable node)
    (hne : node ≠ g.commonEntryNode) (hless : ∀ w ∈ todo, ids w < ids node) :
    ∃ s', Outcome.Settles (visitNode g.toGraph ids · s node) (.done s') ∧
      RoundInv g ids k todo s'.1 ∧ (s'.2 = false → s' = s) ∧ (IsExact g ids k → s' = s) := by
  have hroot : ∀ v, g.Reachable v → ids v ≤ ids g.commonEntryNode := fun v hv => hpo.le_entry hv
  have hafter : ∀ w, ids node < ids w → w ∉ node :: todo := by
    intro w hw hmem
    rcases List.mem_cons.mp hmem with rfl | hmem
    · omega
    · exact absurd (hless w hmem) (by omega)
  have hbefore : ∀ p, g.Reachable p → ids node < ids p → (s.1 p).isSome :=
    fun p hp hlt => (h.visited p hp (hafter p hlt)).1
  obtain ⟨c, S, hc, hmeet, hS, hup, habove⟩ := newIDom_settles hpo h.tree hnode hne hbefore
  have hvisit : Outcome.Settles (visitNode g.toGraph ids · s node)
      (.done (if s.1 node ≠ some c then (Function.update s.1 node (some c), true) else s)) :=
    hc.bind (Outcome.settles_const (by simp))
  -- the new state, whether the dominator changes or not
  have htree : IsTree g ids (Function.update s.1 node (some c)) :=
    IsPartialTree.update h.tree hroot hne hS hup hmeet
  have hlater : ∀ w, ids node < ids w →
      Excludes g.Edge ids g.commonEntryNode s.1 (k + 1) w := by
    intro w hw hwe x hx
    have hreach := h.tree.reachable w (by rw [hx]; rfl)
    exact (h.visited w hreach (hafter w hw)).2 hwe x hx
  have hexcl : ∀ j < k + 1, ¬Avoids g.Edge ids g.commonEntryNode c j node := by
    intro j hj
    apply Excludes.of_above h.tree hne hlater h.excludes ?_ habove hj
    rintro p hp (hk | hlt)
    · exact h.isSome hk p hp
    · exact hbefore p hp hlt
  have hnew : ∀ m ≤ k + 1, Excludes g.Edge ids g.commonEntryNode
      (Function.update s.1 node (some c)) m node := by
    intro m hm _ x hx j hj
    rw [Function.update_self] at hx
    cases hx
    exact hexcl j (by omega)
  have hother : ∀ m v, v ≠ node → Excludes g.Edge ids g.commonEntryNode s.1 m v →
      Excludes g.Edge ids g.commonEntryNode (Function.update s.1 node (some c)) m v := by
    intro m v hv hex hve x hx
    rw [Function.update_of_ne hv] at hx
    exact hex hve x hx
  have hinv : RoundInv g ids k todo (Function.update s.1 node (some c)) := by
    refine ⟨htree, ?_, ?_, ?_⟩
    · intro v hv hmem
      by_cases hvn : v = node
      · subst hvn
        exact ⟨by simp, hnew (k + 1) le_rfl⟩
      · have hvisited := h.visited v hv (by simp [hvn, hmem])
        rw [Function.update_of_ne hvn]
        exact ⟨hvisited.1, hother (k + 1) v hvn hvisited.2⟩
    · intro v
      by_cases hvn : v = node
      · rw [hvn]
        exact hnew k (by omega)
      · exact hother k v hvn (h.excludes v)
    · intro hk v hv
      by_cases hvn : v = node
      · simp [hvn]
      · rw [Function.update_of_ne hvn]
        exact h.isSome hk v hv
  by_cases hsame : s.1 node = some c
  · have hupdate : Function.update s.1 node (some c) = s.1 := by
      rw [← hsame, Function.update_eq_self]
    rw [hupdate] at hinv
    rw [if_neg (by simpa using hsame)] at hvisit
    exact ⟨s, hvisit, hinv, fun _ => rfl, fun _ => rfl⟩
  · rw [if_pos hsame] at hvisit
    refine ⟨_, hvisit, hinv, by simp, ?_⟩
    -- both the old and the new node are the immediate dominator
    intro hexact
    obtain ⟨x, hx⟩ := Option.isSome_iff_exists.mp (h.isSome hexact.1 node hnode)
    have hold := h.tree.isImmediateDominator
      (fun m => excludes_of_isExact hexact h.tree (h.excludes node) m) hne hx
    have hnew' := htree.isImmediateDominator
      (fun m => excludes_of_isExact hexact htree (hinv.excludes node) m) hne (Function.update_self ..)
    have heq := h.tree.eq_of_isImmediateDominator htree hroot hx (Function.update_self ..) hold
      hnew'
    exact absurd (hx.trans (congrArg some heq)) hsame

lemma visitNodes_settles (hpo : IsPostOrder g.toGraph ids pid) {s : Doms × Bool}
    (h : RoundInv g ids k todo s.1) (hpair : todo.Pairwise fun v w => ids w < ids v)
    (hnodes : ∀ v ∈ todo, g.Reachable v ∧ v ≠ g.commonEntryNode) :
    ∃ s', Outcome.Settles (visitNodes g.toGraph ids · (todo.map some) s) (.done s') ∧
      RoundInv g ids k [] s'.1 ∧ (s'.2 = false → s' = s) ∧ (IsExact g ids k → s' = s) := by
  induction todo generalizing s with
  | nil => exact ⟨s, Outcome.settles_const (by simp), h, fun _ => rfl, fun _ => rfl⟩
  | cons node todo ih =>
    rw [List.pairwise_cons] at hpair
    rw [List.forall_mem_cons] at hnodes
    obtain ⟨s₁, hs₁, hinv₁, hsame₁, hexact₁⟩ :=
      visitNode_settles hpo h hnodes.1.1 hnodes.1.2 hpair.1
    obtain ⟨s₂, hs₂, hinv₂, hsame₂, hexact₂⟩ := ih hinv₁ hpair.2 hnodes.2
    refine ⟨s₂, hs₁.bind hs₂, hinv₂, ?_, ?_⟩
    · intro hfalse
      have heq := hsame₂ hfalse
      subst heq
      exact hsame₁ hfalse
    · intro hexact
      rw [hexact₂ hexact, hexact₁ hexact]

lemma RoundInv.next (h : RoundInv g ids k [] doms) {nodes : List NodeId}
    (hnodes : ∀ v, g.Reachable v → v ∉ nodes → v = g.commonEntryNode) :
    RoundInv g ids (k + 1) nodes doms := by
  refine ⟨h.tree, ?_, ?_, fun _ v hv => (h.visited v hv (by simp)).1⟩
  · intro v hv hmem
    exact ⟨(h.visited v hv (by simp)).1, fun hve => absurd (hnodes v hv hmem) hve⟩
  · intro v hve x hx
    have hv := h.tree.reachable v (by rw [hx]; rfl)
    exact (h.visited v hv (by simp)).2 hve x hx

/-- What the last round leaves: the immediate dominators. -/
structure IsFinal (g : FlowGraph) (ids : NodeId → Int) (doms : Doms) : Prop where
  tree : IsTree g ids doms
  isSome : ∀ v, g.Reachable v → (doms v).isSome
  excludes : ∀ k v, Excludes g.Edge ids g.commonEntryNode doms k v

section Rounds

variable {nodes : List NodeId}

/-- The order of the nodes that a round visits. -/
structure IsOrder (g : FlowGraph) (ids : NodeId → Int) (nodes : List NodeId) : Prop where
  pairwise : nodes.Pairwise fun v w => ids w < ids v
  reachable : ∀ v ∈ nodes, g.Reachable v ∧ v ≠ g.commonEntryNode
  complete : ∀ v, g.Reachable v → v ∉ nodes → v = g.commonEntryNode

lemma RoundInv.isFinal (hpo : IsPostOrder g.toGraph ids pid) (ho : IsOrder g ids nodes)
    (h : RoundInv g ids k nodes doms)
    (hsame : Outcome.Settles (visitNodes g.toGraph ids · (nodes.map some) (doms, false))
      (.done (doms, false))) :
    IsFinal g ids doms := by
  have hnext : ∀ j, RoundInv g ids j nodes doms → RoundInv g ids j [] doms := by
    intro j hj
    obtain ⟨s', hs', hinv, -⟩ := visitNodes_settles hpo (s := (doms, false)) hj ho.pairwise
      ho.reachable
    cases hs'.unique hsame
    exact hinv
  have hall : ∀ m, RoundInv g ids (k + m) nodes doms := by
    intro m
    induction m with
    | zero => exact h
    | succ m ih => exact (hnext _ ih).next ho.complete
  refine ⟨h.tree, fun v hv => ((hnext k h).visited v hv (by simp)).1, ?_⟩
  intro m v hve x hx j hj
  exact (hall m).excludes v hve x hx j (by omega)

lemma computeRounds_settles (hpo : IsPostOrder g.toGraph ids pid) (ho : IsOrder g ids nodes)
    (h : RoundInv g ids k nodes doms) :
    ∃ doms', Outcome.Settles
        (computeRounds g.toGraph ids ((g.commonEntryNode :: nodes).map some) · doms)
        (.done doms') ∧ IsFinal g ids doms' := by
  obtain ⟨K, hK⟩ := exists_isExact g ids
  induction hn : K - k using Nat.strongRecOn generalizing k doms with
  | _ n ih =>
    obtain ⟨⟨doms₁, changed⟩, hs₁, hinv, hsame, hexact⟩ :=
      visitNodes_settles hpo (s := (doms, false)) h ho.pairwise ho.reachable
    cases changed with
    | false =>
      cases hsame rfl
      refine ⟨doms, ?_, h.isFinal hpo ho hs₁⟩
      apply Outcome.Settles.of_succ
      exact hs₁.bind (f := fun s fuel => if s.2 then computeRounds g.toGraph ids
        ((g.commonEntryNode :: nodes).map some) fuel s.1 else .done s.1)
        (Outcome.settles_const (by simp))
    | true =>
      have hlt : k < K := by
        by_contra hge
        have heq := hexact (hK k (by omega))
        cases heq
      obtain ⟨doms₂, hs₂, hfinal⟩ := ih (K - (k + 1)) (by omega) (hinv.next ho.complete) rfl
      refine ⟨doms₂, ?_, hfinal⟩
      apply Outcome.Settles.of_succ
      exact hs₁.bind (f := fun s fuel => if s.2 then computeRounds g.toGraph ids
        ((g.commonEntryNode :: nodes).map some) fuel s.1 else .done s.1) hs₂

end Rounds

lemma roundInv_init (ids : NodeId → Int) {nodes : List NodeId}
    (hnodes : ∀ v, g.Reachable v → v ∉ nodes → v = g.commonEntryNode) :
    RoundInv g ids 0 nodes
      (Function.update (fun _ => none) g.commonEntryNode (some g.commonEntryNode)) := by
  have hdom : ∀ v x, Function.update (fun _ => none) g.commonEntryNode
      (some g.commonEntryNode) v = some x → v = g.commonEntryNode ∧ x = g.commonEntryNode := by
    intro v x hx
    by_cases hv : v = g.commonEntryNode
    · subst hv
      rw [Function.update_self] at hx
      exact ⟨rfl, (Option.some.inj hx).symm⟩
    · rw [Function.update_of_ne hv] at hx
      cases hx
  refine ⟨⟨by simp, ?_, ?_, ?_, ?_, ?_⟩, ?_, ?_, by simp⟩
  · intro v x hx
    simp [(hdom v x hx).2]
  · intro v hv
    obtain ⟨x, hx⟩ := Option.isSome_iff_exists.mp hv
    rw [(hdom v x hx).1]
  · intro v x hx hne
    exact absurd (hdom v x hx).1 hne
  · intro v x hx hne
    exact absurd (hdom v x hx).1 hne
  · intro v x hx hne
    exact absurd (hdom v x hx).1 hne
  · intro v hv hmem
    have hve := hnodes v hv hmem
    exact ⟨by simp [hve], fun hne => absurd hve hne⟩
  · intro v hne x hx
    exact absurd (hdom v x hx).1 hne

lemma computeDominance_settles {t : Walk} (hpo : IsPostOrder g.toGraph t.postOrderIDVec t.pid)
    {nodes : List NodeId}
    (hpair : (g.commonEntryNode :: nodes).Pairwise
      fun v w => t.postOrderIDVec w < t.postOrderIDVec v)
    (hmem : ∀ v, v ∈ g.commonEntryNode :: nodes ↔ g.Reachable v) :
    ∃ doms, Outcome.Settles (computeDominance g.toGraph t.postOrderIDVec
        ((g.commonEntryNode :: nodes).map some)) (.done doms) ∧
      IsFinal g t.postOrderIDVec doms := by
  have ho : IsOrder g t.postOrderIDVec nodes := by
    rw [List.pairwise_cons] at hpair
    refine ⟨hpair.2, ?_, ?_⟩
    · intro v hv
      refine ⟨(hmem v).mp (List.mem_cons_of_mem _ hv), ?_⟩
      rintro rfl
      exact absurd (hpair.1 _ hv) (by omega)
    · intro v hv hnot
      exact (List.mem_cons.mp ((hmem v).mpr hv)).resolve_right hnot
  exact computeRounds_settles hpo ho (roundInv_init t.postOrderIDVec ho.complete)

lemma init_settles (g : FlowGraph) :
    ∃ ids pid doms, Outcome.Settles (init g.toGraph) (.done doms) ∧
      IsPostOrder g.toGraph ids pid ∧ IsFinal g ids doms := by
  obtain ⟨t, hwalk, hpo⟩ := postOrderWalk_settles g
  obtain ⟨nodes, horder, hpair, hmem⟩ := reversePostOrder_eq hpo
  obtain ⟨doms, hsettles, hfinal⟩ := computeDominance_settles hpo hpair hmem
  refine ⟨t.postOrderIDVec, t.pid, doms, ?_, hpo, hfinal⟩
  apply hwalk.bind (f := fun t fuel =>
    computeDominance g.toGraph t.postOrderIDVec (reversePostOrder g.toGraph t) fuel)
  rw [horder]
  exact hsettles

/-! ### Dominate -/

section Dominate

variable {v a b : NodeId}

lemma IsFinal.above_iff (hpo : IsPostOrder g.toGraph ids pid) (h : IsFinal g ids doms)
    (hv : g.Reachable v) :
    Above doms v a ↔ Dominates g.Edge g.commonEntryNode a v := by
  constructor
  · intro hav
    rw [dominates_iff ids]
    intro k
    exact Excludes.above h.tree (fun w _ => h.excludes (k + 1) w) hav (by omega)
  · exact h.tree.above_of_dominates (fun w hw => hpo.le_entry hw) (h.isSome v hv)

lemma dominateFrom_settles (hpo : IsPostOrder g.toGraph ids pid) (ht : IsTree g ids doms)
    (hv : (doms v).isSome) (a : NodeId) :
    ∃ res, Outcome.Settles (dominateFrom g.toGraph doms a · v) (.done res) ∧
      (res = true ↔ v ≠ g.commonEntryNode ∧ ∃ x, doms v = some x ∧ Above doms x a) := by
  induction hn : (ids g.commonEntryNode - ids v).toNat using Nat.strongRecOn generalizing v with
  | _ n ih =>
    by_cases hve : v = g.commonEntryNode
    · refine ⟨false, ?_, by simp [hve]⟩
      apply Outcome.Settles.of_succ
      simp only [dominateFrom, hve, if_true]
      exact Outcome.settles_const (by simp)
    · obtain ⟨x, hx⟩ := Option.isSome_iff_exists.mp hv
      have hxs := ht.isSome v x hx
      by_cases hxa : x = a
      · subst hxa
        refine ⟨true, ?_, by simpa [hve, hx] using .refl⟩
        apply Outcome.Settles.of_succ
        simp only [dominateFrom, hve, if_false, hx, if_true]
        exact Outcome.settles_const (by simp)
      · have hlt := ht.rank_lt v x hx hve
        have hle := hpo.le_entry (ht.reachable x hxs)
        obtain ⟨res, hres, hiff⟩ := ih _ (by omega) hxs rfl
        refine ⟨res, ?_, ?_⟩
        · apply Outcome.Settles.of_succ
          simp only [dominateFrom, hve, if_false, hx, hxa]
          exact hres
        · rw [hiff]
          constructor
          · rintro ⟨-, y, hy, hya⟩
            exact ⟨hve, x, hx, .head hy hya⟩
          · rintro ⟨-, y, hy, hya⟩
            rw [hx] at hy
            cases hy
            obtain ⟨z, hz⟩ := Option.isSome_iff_exists.mp hxs
            refine ⟨?_, z, hz, ((Dominators.above_iff hz).mp hya).resolve_left (Ne.symm hxa)⟩
            rintro rfl
            exact hxa (hya.eq_entry ht).symm

/-- `Init` ends and sets `doms` to the immediate dominators, and `Dominate` then returns whether all
paths from the entry to `b` pass through `a`. -/
theorem init_dominators (g : FlowGraph) :
    ∃ doms, Outcome.Settles (init g.toGraph) (.done doms) ∧
      (∀ n, g.Reachable n → n ≠ g.commonEntryNode →
        ∃ d, doms n = some d ∧ IsImmediateDominator g.Edge g.commonEntryNode d n) ∧
      ∀ a b, g.Reachable b → ∃ res,
        Outcome.Settles (dominate g.toGraph doms a b ·) (.done res) ∧
          (res = true ↔ Dominates g.Edge g.commonEntryNode a b) := by
  obtain ⟨ids, pid, doms, hsettles, hpo, hfinal⟩ := init_settles g
  refine ⟨doms, hsettles, ?_, ?_⟩
  · intro n hn hne
    obtain ⟨d, hd⟩ := Option.isSome_iff_exists.mp (hfinal.isSome n hn)
    exact ⟨d, hd, hfinal.tree.isImmediateDominator (fun k => hfinal.excludes k n) hne hd⟩
  · intro a b hb
    by_cases hab : a = b
    · refine ⟨true, ?_, by simpa [hab] using dominates_self _ _ b⟩
      simp only [dominate, hab, if_true]
      exact Outcome.settles_const (by simp)
    · obtain ⟨res, hres, hiff⟩ := dominateFrom_settles hpo hfinal.tree (hfinal.isSome b hb) a
      refine ⟨res, ?_, ?_⟩
      · simp only [dominate, hab, if_false]
        exact hres
      · obtain ⟨x, hx⟩ := Option.isSome_iff_exists.mp (hfinal.isSome b hb)
        rw [hiff, ← hfinal.above_iff hpo hb, Dominators.above_iff hx]
        constructor
        · rintro ⟨-, y, hy, hya⟩
          rw [hx] at hy
          cases hy
          exact .inr hya
        · rintro (rfl | hxa)
          · exact absurd rfl hab
          · refine ⟨?_, x, hx, hxa⟩
            rintro rfl
            rw [hfinal.tree.entry] at hx
            cases hx
            exact hab (hxa.eq_entry hfinal.tree)

end Dominate
end Dominance
end Maple
