import Maple.Util.Dominance.Basic
import Maple.Lib.DepthFirst
import Mathlib.Data.List.Chain
import Mathlib.Data.List.Nodup
import Mathlib.Tactic.SplitIfs

/-!
# The post order

The walk numbers the reachable nodes from 0 on, and each of them but the entry after it a
predecessor, so that `reversePostOrder` starts with the entry and has each node after a predecessor.
-/

namespace Maple
namespace Dominance

/-- What `postOrderIDVec` is after the walk, with `pid` numbers in use. -/
structure IsPostOrder (g : Graph) (postOrderIDVec : NodeId → Int) (pid : Nat) : Prop where
  numbered_iff : ∀ v, postOrderIDVec v ≠ -1 ↔ g.Reachable v
  exists_id : ∀ v, postOrderIDVec v ≠ -1 → ∃ k < pid, postOrderIDVec v = (k : Nat)
  exists_node : ∀ k < pid, ∃ v, postOrderIDVec v = (k : Nat)
  injective : ∀ v w, postOrderIDVec v ≠ -1 → postOrderIDVec v = postOrderIDVec w → v = w
  parent : ∀ v, postOrderIDVec v ≠ -1 → v ≠ g.commonEntryNode →
    ∃ p, g.Edge p v ∧ postOrderIDVec v < postOrderIDVec p

namespace Walk

/-- What the loop of `PostOrderWalk` keeps. -/
structure Inv (g : Graph) (t : Walk) : Prop where
  chain : t.stack.IsChain fun w v => g.Edge v w
  bottom : ∀ v ∈ t.stack.getLast?, v = g.commonEntryNode
  nodup : t.stack.Nodup
  visited_iff : ∀ v, t.visitedMap v = true ↔ v ∈ t.stack ∨ t.postOrderIDVec v ≠ -1
  of_mem : ∀ v ∈ t.stack, t.postOrderIDVec v = -1
  reachable : ∀ v, t.visitedMap v = true → g.Reachable v
  entry : t.visitedMap g.commonEntryNode = true
  exists_id : ∀ v, t.postOrderIDVec v ≠ -1 → ∃ k < t.pid, t.postOrderIDVec v = (k : Nat)
  exists_node : ∀ k < t.pid, ∃ v, t.postOrderIDVec v = (k : Nat)
  injective : ∀ v w, t.postOrderIDVec v ≠ -1 → t.postOrderIDVec v = t.postOrderIDVec w → v = w
  closed : ∀ v w, t.postOrderIDVec v ≠ -1 → g.Edge v w → t.visitedMap w = true
  parent : ∀ v, t.postOrderIDVec v ≠ -1 → v ≠ g.commonEntryNode →
    ∃ p, g.Edge p v ∧ (p ∈ t.stack ∨ t.postOrderIDVec v < t.postOrderIDVec p)

/-- The nodes to visit and the stack. -/
def bound (g : Graph) (t : Walk) : Nat :=
  2 * (List.range g.nodeVec.length).countP (fun v => !t.visitedMap v) + t.stack.length

variable {g : Graph} {t : Walk} {node succ : NodeId} {rest : List NodeId}

lemma Inv.push (h : t.Inv g) (hstack : t.stack = node :: rest) (hedge : g.Edge node succ)
    (hvisited : t.visitedMap succ = false) :
    Inv g { t with
      stack := succ :: t.stack
      visitedMap := Function.update t.visitedMap succ true } := by
  have hnew : ¬(succ ∈ t.stack ∨ t.postOrderIDVec succ ≠ -1) := by
    rw [← h.visited_iff, hvisited]
    simp
  rw [not_or, not_not] at hnew
  have hnode : t.visitedMap node = true := by
    rw [h.visited_iff, hstack]
    exact .inl List.mem_cons_self
  have hmono : ∀ v, t.visitedMap v = true → Function.update t.visitedMap succ true v = true := by
    intro v hv
    by_cases hvs : v = succ
    · simp [hvs]
    · rwa [Function.update_of_ne hvs]
  constructor
  case chain =>
    have hchain := h.chain
    rw [hstack] at hchain ⊢
    exact hchain.cons_cons hedge
  case bottom =>
    intro v hv
    apply h.bottom v
    rwa [hstack, List.getLast?_cons_cons, ← hstack] at hv
  case nodup => exact List.nodup_cons.mpr ⟨hnew.1, h.nodup⟩
  case visited_iff =>
    intro v
    by_cases hvs : v = succ
    · simp [hvs]
    · simp only [Function.update_of_ne hvs, h.visited_iff v, List.mem_cons, hvs, false_or]
  case of_mem =>
    intro v hv
    rcases List.mem_cons.mp hv with rfl | hv
    · exact hnew.2
    · exact h.of_mem v hv
  case reachable =>
    intro v hv
    by_cases hvs : v = succ
    · rw [hvs]
      exact (h.reachable node hnode).tail hedge
    · simp only [Function.update_of_ne hvs] at hv
      exact h.reachable v hv
  case entry => exact hmono _ h.entry
  case exists_id => exact h.exists_id
  case exists_node => exact h.exists_node
  case injective => exact h.injective
  case closed =>
    intro v w hv hvw
    exact hmono w (h.closed v w hv hvw)
  case parent =>
    intro v hv hne
    obtain ⟨p, hp, hpar⟩ := h.parent v hv hne
    exact ⟨p, hp, hpar.imp_left fun hmem => List.mem_cons_of_mem _ hmem⟩

lemma Inv.pop (h : t.Inv g) (hstack : t.stack = node :: rest)
    (hsucc : ∀ w, g.Edge node w → t.visitedMap w = true) :
    Inv g { t with
      stack := rest
      postOrderIDVec := Function.update t.postOrderIDVec node t.pid
      pid := t.pid + 1 } := by
  have hnode : t.postOrderIDVec node = -1 := h.of_mem node (by rw [hstack]; exact List.mem_cons_self)
  have hnodup := h.nodup
  rw [hstack, List.nodup_cons] at hnodup
  have hpid : (t.pid : Int) ≠ -1 := by omega
  have hlt : ∀ v, t.postOrderIDVec v ≠ -1 → t.postOrderIDVec v < t.pid := by
    intro v hv
    obtain ⟨k, hk, hid⟩ := h.exists_id v hv
    omega
  have hold : ∀ v, v ≠ node → Function.update t.postOrderIDVec node (t.pid : Int) v =
      t.postOrderIDVec v := fun v hv => Function.update_of_ne hv _ _
  have hnumbered : ∀ v, t.postOrderIDVec v ≠ -1 → v ≠ node := by
    rintro v hv rfl
    exact hv hnode
  constructor
  case chain =>
    have hchain := h.chain
    rw [hstack, List.isChain_cons] at hchain
    exact hchain.2
  case bottom =>
    intro v hv
    apply h.bottom v
    rw [hstack]
    cases rest with
    | nil => exact absurd hv (by simp)
    | cons w rest => exact hv
  case nodup => exact hnodup.2
  case visited_iff =>
    intro v
    simp only [h.visited_iff v, hstack, List.mem_cons]
    by_cases hvn : v = node
    · subst hvn
      simp [hpid]
    · simp only [hvn, false_or, hold v hvn]
  case of_mem =>
    intro v hv
    have hvn : v ≠ node := by
      rintro rfl
      exact hnodup.1 hv
    simp only [hold v hvn]
    apply h.of_mem v
    rw [hstack]
    exact List.mem_cons_of_mem _ hv
  case reachable => exact h.reachable
  case entry => exact h.entry
  case exists_id =>
    intro v hv
    by_cases hvn : v = node
    · subst hvn
      exact ⟨t.pid, Nat.lt_succ_self _, Function.update_self ..⟩
    · simp only [hold v hvn] at hv ⊢
      obtain ⟨k, hk, hid⟩ := h.exists_id v hv
      exact ⟨k, by omega, hid⟩
  case exists_node =>
    intro k hk
    rcases Nat.lt_succ_iff_lt_or_eq.mp hk with hk | rfl
    · obtain ⟨v, hv⟩ := h.exists_node k hk
      exact ⟨v, by simp only [hold v (hnumbered v (by omega)), hv]⟩
    · exact ⟨node, Function.update_self ..⟩
  case injective =>
    intro v w hv hvw
    by_cases hvn : v = node <;> by_cases hwn : w = node
    · rw [hvn, hwn]
    · subst hvn
      simp only [Function.update_self, hold w hwn] at hvw
      exact absurd (hlt w (by omega)) (by omega)
    · subst hwn
      simp only [Function.update_self, hold v hvn] at hv hvw
      exact absurd (hlt v hv) (by omega)
    · simp only [hold v hvn, hold w hwn] at hv hvw
      exact h.injective v w hv hvw
  case closed =>
    intro v w hv hvw
    by_cases hvn : v = node
    · exact hsucc w (hvn ▸ hvw)
    · simp only [hold v hvn] at hv
      exact h.closed v w hv hvw
  case parent =>
    intro v hv hne
    by_cases hvn : v = node
    · subst hvn
      cases rest with
      | nil => exact absurd (h.bottom v (by rw [hstack]; rfl)) hne
      | cons p rest =>
        have hchain := h.chain
        rw [hstack, List.isChain_cons_cons] at hchain
        exact ⟨p, hchain.1, .inl List.mem_cons_self⟩
    · simp only [hold v hvn] at hv
      obtain ⟨p, hp, hpar⟩ := h.parent v hv hne
      refine ⟨p, hp, ?_⟩
      by_cases hpn : p = node
      · subst hpn
        right
        simp only [Function.update_self, hold v hvn]
        exact hlt v hv
      · rw [hstack, List.mem_cons, or_iff_right hpn] at hpar
        simp only [hold v hvn, hold p hpn]
        exact hpar

lemma Inv.walkStep (h : t.Inv g) (hnodes : ∀ v, g.Reachable v → g.nodeVec[v]? = some (some v))
    (hne : (!t.stack.isEmpty) = true) :
    ∃ t', Dominance.walkStep g t = some t' ∧ t'.Inv g ∧ t'.bound g < t.bound g := by
  cases hstack : t.stack with
  | nil => simp [hstack] at hne
  | cons node rest =>
    have hvisited : t.visitedMap node = true := by
      rw [h.visited_iff, hstack]
      exact .inl List.mem_cons_self
    have hslot := hnodes node (h.reachable node hvisited)
    simp only [Dominance.walkStep, hstack, hslot]
    cases hfind : (g.getNextNodesToVisit node).find? fun succ => !t.visitedMap succ with
    | some succ =>
      have hnew : t.visitedMap succ = false := by simpa using List.find?_some hfind
      have hedge : g.Edge node succ := List.mem_of_find?_eq_some hfind
      have hrange : succ ∈ List.range g.nodeVec.length := by
        have hsucc := hnodes succ ((h.reachable node hvisited).tail hedge)
        rw [List.mem_range]
        exact (List.getElem?_eq_some_iff.mp hsucc).1
      have hlt := DepthFirst.countP_lt_countP (q := fun v => !t.visitedMap v)
        (p := fun v => !Function.update t.visitedMap succ true v) (by
          intro v hv
          by_cases hvs : v = succ
          · simp [hvs] at hv
          · rwa [Function.update_of_ne hvs] at hv) hrange (by simp [hnew]) (by simp)
      refine ⟨_, rfl, hstack ▸ h.push hstack hedge hnew, ?_⟩
      simp only [bound, hstack, List.length_cons]
      omega
    | none =>
      have hsucc : ∀ w, g.Edge node w → t.visitedMap w = true := by
        intro w hw
        simpa using List.find?_eq_none.mp hfind w hw
      refine ⟨_, rfl, h.pop hstack hsucc, ?_⟩
      simp only [bound, hstack, List.length_cons]
      omega

end Walk

lemma FlowGraph.slot (g : FlowGraph) {v : NodeId} (h : g.Reachable v) :
    g.nodeVec[v]? = some (some v) := by
  rcases Relation.ReflTransGen.cases_tail h with heq | ⟨p, _, hp⟩
  · rw [heq]
    exact g.entry_mem
  · exact g.next_mem p v hp

lemma postOrderWalk_settles (g : FlowGraph) :
    ∃ t, Outcome.Settles (postOrderWalk g.toGraph) (.done t) ∧
      IsPostOrder g.toGraph t.postOrderIDVec t.pid := by
  have hinit : Walk.Inv g.toGraph
      { stack := [g.commonEntryNode]
        visitedMap := Function.update (fun _ => false) g.commonEntryNode true
        postOrderIDVec := fun _ => -1
        pid := 0 } := by
    have hvisited : ∀ v, Function.update (fun _ => false) g.commonEntryNode true v = true ↔
        v = g.commonEntryNode := by
      intro v
      by_cases hv : v = g.commonEntryNode <;> simp [hv]
    refine ⟨List.isChain_singleton _, by simp, List.nodup_singleton _, ?_, by simp, ?_, by simp,
      by simp, by simp, by simp, by simp, by simp⟩
    · intro v
      simp [hvisited]
    · intro v hv
      rw [(hvisited v).mp hv]
      exact .refl
  obtain ⟨t, hsettles, h, hend⟩ := whileLoop_settles_of_step (Walk.Inv g.toGraph)
    (Walk.bound g.toGraph)
    (fun _ hinv hcond => hinv.walkStep (fun v hv => g.slot hv) hcond) hinit
  have hstack : t.stack = [] := by simpa using hend
  have hvisited : ∀ v, t.visitedMap v = true ↔ t.postOrderIDVec v ≠ -1 := by
    intro v
    simp [h.visited_iff, hstack]
  refine ⟨t, hsettles, ?_, h.exists_id, h.exists_node, h.injective, ?_⟩
  · intro v
    rw [← hvisited]
    refine ⟨h.reachable v, ?_⟩
    intro hv
    induction hv with
    | refl => exact h.entry
    | tail _ hedge ih => exact h.closed _ _ ((hvisited _).mp ih) hedge
  · intro v hv hne
    obtain ⟨p, hp, hpar⟩ := h.parent v hv hne
    rw [hstack] at hpar
    exact ⟨p, hp, hpar.resolve_left (by simp)⟩

/-! ### The order of the nodes -/

namespace IsPostOrder

variable {g : Graph} {ids : NodeId → Int} {pid : Nat}

lemma le_entry (h : IsPostOrder g ids pid) {v : NodeId} (hv : g.Reachable v) :
    ids v ≤ ids g.commonEntryNode := by
  rw [← h.numbered_iff] at hv
  induction hn : (pid - ids v).toNat using Nat.strongRecOn generalizing v with
  | _ n ih =>
    by_cases hve : v = g.commonEntryNode
    · exact Int.le_of_eq (congrArg ids hve)
    · obtain ⟨p, -, hlt⟩ := h.parent v hv hve
      obtain ⟨k, hk, hid⟩ := h.exists_id v hv
      have hp : ids p ≠ -1 := by omega
      have hle := ih _ (by omega) hp rfl
      omega

end IsPostOrder

section ReversePostOrder

variable {g : FlowGraph} {t : Walk}

lemma reversePostOrder_range (h : IsPostOrder g.toGraph t.postOrderIDVec t.pid) (n : Nat) :
    ∃ order, (List.range n).foldl (fun order i =>
        if t.postOrderIDVec i = -1 then order
        else order.set (t.pid - 1 - (t.postOrderIDVec i).toNat) g.nodeVec[i]?.join)
        (List.replicate t.pid none) = order ∧ order.length = t.pid ∧
      ∀ v < n, ∀ k : Nat, t.postOrderIDVec v = k → order[t.pid - 1 - k]? = some (some v) := by
  induction n with
  | zero => exact ⟨_, rfl, List.length_replicate, by simp⟩
  | succ n ih =>
    obtain ⟨order, hfold, hlength, hslots⟩ := ih
    rw [List.range_succ, List.foldl_append, hfold]
    simp only [List.foldl_cons, List.foldl_nil]
    split_ifs with hid
    · refine ⟨order, rfl, hlength, ?_⟩
      intro v hv k hk
      rcases Nat.lt_succ_iff_lt_or_eq.mp hv with hv | rfl
      · exact hslots v hv k hk
      · omega
    · have hslot := g.slot ((h.numbered_iff n).mp hid)
      refine ⟨_, rfl, by rw [List.length_set, hlength], ?_⟩
      intro v hv k hk
      obtain ⟨i, hi, hni⟩ := h.exists_id n hid
      rw [hslot, hni, Int.toNat_natCast, Option.join_some]
      by_cases hvn : v = n
      · subst hvn
        have hki : k = i := by omega
        subst hki
        rw [List.getElem?_set_self (by omega)]
      · obtain ⟨j, hj, hvj⟩ := h.exists_id v (by omega)
        -- two nodes have two numbers, and these lie in the range of the order
        have hne : k ≠ i := by
          rintro rfl
          exact hvn (h.injective v n (by omega) (by omega))
        rw [List.getElem?_set_ne (by omega)]
        exact hslots v (by omega) k hk

lemma reversePostOrder_eq (h : IsPostOrder g.toGraph t.postOrderIDVec t.pid) :
    ∃ nodes, reversePostOrder g.toGraph t = (g.commonEntryNode :: nodes).map some ∧
      (g.commonEntryNode :: nodes).Pairwise
        (fun v w => t.postOrderIDVec w < t.postOrderIDVec v) ∧
      ∀ v, v ∈ g.commonEntryNode :: nodes ↔ g.Reachable v := by
  obtain ⟨order, hfold, hlength, hslots⟩ := reversePostOrder_range h g.nodeVec.length
  have hrange : ∀ v, g.Reachable v → v < g.nodeVec.length := by
    intro v hv
    exact (List.getElem?_eq_some_iff.mp (g.slot hv)).1
  have hnode : ∀ k < t.pid, ∃ v, order[k]? = some (some v) ∧
      t.postOrderIDVec v = ((t.pid - 1 - k : Nat) : Int) := by
    intro k hk
    obtain ⟨v, hv⟩ := h.exists_node (t.pid - 1 - k) (by omega)
    have hreach := (h.numbered_iff v).mp (by omega)
    have hslot := hslots v (hrange v hreach) _ hv
    rw [show t.pid - 1 - (t.pid - 1 - k) = k by omega] at hslot
    exact ⟨v, hslot, hv⟩
  let nodes := order.map fun o => o.getD 0
  have hget : ∀ k < t.pid, ∃ v, nodes[k]? = some v ∧ order[k]? = some (some v) ∧
      t.postOrderIDVec v = ((t.pid - 1 - k : Nat) : Int) := by
    intro k hk
    obtain ⟨v, hv, hid⟩ := hnode k hk
    exact ⟨v, by simp [nodes, hv], hv, hid⟩
  have hnodes : nodes.length = t.pid := by simp [nodes, hlength]
  have horder : order = nodes.map some := by
    apply List.ext_getElem?
    intro k
    by_cases hk : k < t.pid
    · obtain ⟨v, hv, hv', -⟩ := hget k hk
      rw [List.getElem?_map, hv, hv']
      rfl
    · rw [List.getElem?_eq_none (by omega), List.getElem?_eq_none (by simp; omega)]
  have hpairwise : nodes.Pairwise fun v w => t.postOrderIDVec w < t.postOrderIDVec v := by
    rw [List.pairwise_iff_getElem]
    intro i j hi hj hij
    obtain ⟨v, hv, -, hidv⟩ := hget i (by omega)
    obtain ⟨w, hw, -, hidw⟩ := hget j (by omega)
    rw [List.getElem?_eq_getElem hi] at hv
    rw [List.getElem?_eq_getElem hj] at hw
    cases hv
    cases hw
    omega
  have hmem : ∀ v, v ∈ nodes ↔ g.Reachable v := by
    intro v
    rw [← h.numbered_iff v]
    constructor
    · intro hv
      obtain ⟨k, hk⟩ := List.mem_iff_getElem?.mp hv
      have hlt := (List.getElem?_eq_some_iff.mp hk).1
      obtain ⟨w, hw, -, hid⟩ := hget k (by omega)
      rw [hk] at hw
      cases hw
      omega
    · intro hv
      obtain ⟨i, hi, hid⟩ := h.exists_id v hv
      obtain ⟨w, hw, -, hidw⟩ := hget (t.pid - 1 - i) (by omega)
      have heq : v = w := h.injective v w hv (by omega)
      rw [heq]
      exact List.mem_of_getElem? hw
  have hentry := (hmem g.commonEntryNode).mpr .refl
  cases hcons : nodes with
  | nil => simp [hcons] at hentry
  | cons v rest =>
    rw [hcons] at hpairwise hmem hentry
    have hv : v = g.commonEntryNode := by
      rcases List.mem_cons.mp hentry with heq | hrest
      · exact heq.symm
      · have hlt := List.rel_of_pairwise_cons hpairwise hrest
        have hle := h.le_entry ((hmem v).mp List.mem_cons_self)
        omega
    subst hv
    exact ⟨rest, by rw [reversePostOrder, hfold, horder, hcons], hpairwise, hmem⟩

end ReversePostOrder
end Dominance
end Maple
