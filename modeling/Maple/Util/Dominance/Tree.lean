import Maple.Util.Dominance.Correct

/-!
# The dominator tree and its preorder

`ComputeDomChildren`, `ComputeDtPreorder` and `ComputeDtDfn` of `dominance.h`, which read `doms` and
`reversePostOrder` only. In the preorder the nodes that a node dominates take an interval of positions.
-/

namespace Maple
namespace Dominance

open Dominators

/-! ### The functions -/

abbrev DomChildren := NodeId → List NodeId

/-- One round of the loop of `ComputeDomChildren`. -/
def addDomChild (doms : Doms) (domChildren : DomChildren) : Option NodeId → DomChildren
  | none => domChildren
  | some node =>
    match doms node with
    | none => domChildren
    | some parent =>
      if parent = node then domChildren
      else Function.update domChildren parent (domChildren parent ++ [node])

def computeDomChildren (doms : Doms) (reversePostOrder : List (Option NodeId)) : DomChildren :=
  reversePostOrder.foldl (addDomChild doms) fun _ => []

/-- The loop of the recursive `ComputeDtPreorder`, with the recursive call as `visit`. -/
def visitDomChildren (g : Graph) (visit : NodeId → List NodeId → Outcome (List NodeId)) :
    List NodeId → List NodeId → Outcome (List NodeId)
  | [], dtPreOrder => .done dtPreOrder
  | k :: domChildren, dtPreOrder =>
    match g.nodeVec[k]? with
    | some (some child) => (visit child dtPreOrder).bind (visitDomChildren g visit domChildren)
    | _ => .assertionFailed

/-- The recursive `ComputeDtPreorder`. The first `num` elements of `dtPreOrder` are those that have
been written. -/
def dtPreorderFrom (g : Graph) (domChildren : DomChildren) :
    Nat → NodeId → List NodeId → Outcome (List NodeId)
  | 0, _, _ => .outOfFuel
  | fuel + 1, node, dtPreOrder =>
    if dtPreOrder.length < g.nodeVec.length then
      visitDomChildren g (dtPreorderFrom g domChildren fuel) (domChildren node)
        (dtPreOrder ++ [node])
    else .assertionFailed

/-- `dtDfn` starts with `-1` converted to `uint32`. -/
def computeDtDfn (dtPreOrder : List NodeId) : NodeId → Nat :=
  dtPreOrder.zipIdx.foldl (fun dtDfn p => Function.update dtDfn p.1 p.2) fun _ => 0xffffffff

/-- `Init` without the frontiers, with `doms` and `dtPreOrder` after it. -/
def initTree (g : Graph) (fuel : Nat) : Outcome (Doms × List NodeId) :=
  (postOrderWalk g fuel).bind fun t =>
    let order := reversePostOrder g t
    (computeDominance g t.postOrderIDVec order fuel).bind fun doms =>
      (dtPreorderFrom g (computeDomChildren doms order) fuel g.commonEntryNode []).bind
        fun dtPreOrder => .done (doms, dtPreOrder)

/-! ### The children -/

lemma foldl_addDomChild (doms : Doms) (nodes : List NodeId) (domChildren : DomChildren)
    (p : NodeId) :
    (nodes.map some).foldl (addDomChild doms) domChildren p =
      domChildren p ++ nodes.filter fun v => doms v = some p ∧ p ≠ v := by
  induction nodes generalizing domChildren with
  | nil => simp
  | cons node nodes ih =>
    rw [List.map_cons, List.foldl_cons, ih]
    cases hdom : doms node with
    | none => simp [addDomChild, hdom]
    | some parent =>
      by_cases hself : parent = node
      · subst hself
        rw [List.filter_cons_of_neg (by simpa [hdom] using Eq.symm)]
        simp [addDomChild, hdom]
      · by_cases hp : parent = p
        · subst hp
          simp [addDomChild, hdom, hself]
        · simp [addDomChild, hdom, hself, hp, Function.update_of_ne (Ne.symm hp)]

section Preorder

variable {g : FlowGraph} {ids : NodeId → Int} {pid : Nat} {doms : Doms} {a v : NodeId}
  {domChildren : DomChildren}

/-- The children of each node in the tree, each of them once. -/
structure IsDomChildren (g : FlowGraph) (doms : Doms) (domChildren : DomChildren) : Prop where
  nodup : ∀ p, (domChildren p).Nodup
  mem_iff : ∀ p v, v ∈ domChildren p ↔ v ≠ g.commonEntryNode ∧ doms v = some p

lemma isDomChildren_computeDomChildren {nodes : List NodeId} (ht : IsTree g ids doms)
    (hnodup : nodes.Nodup) (hnodes : ∀ v, v ∈ nodes ↔ g.Reachable v) :
    IsDomChildren g doms (computeDomChildren doms (nodes.map some)) where
  nodup := by
    intro p
    rw [computeDomChildren, foldl_addDomChild]
    exact hnodup.filter _
  mem_iff := by
    intro p v
    rw [computeDomChildren, foldl_addDomChild]
    simp only [List.nil_append, List.mem_filter, decide_eq_true_eq, hnodes]
    constructor
    · rintro ⟨-, hp, hne⟩
      refine ⟨?_, hp⟩
      rintro rfl
      rw [ht.entry] at hp
      exact hne (Option.some.inj hp).symm
    · rintro ⟨hve, hp⟩
      refine ⟨ht.reachable v (by simp [hp]), hp, ?_⟩
      rintro rfl
      exact absurd (ht.rank_lt p p hp hve) (lt_irrefl _)

/-! ### The walk -/

/-- The elements written so far are different nodes outside of `S`. -/
structure Fits (doms : Doms) (S : NodeId → Prop) (dtPreOrder : List NodeId) : Prop where
  nodup : dtPreOrder.Nodup
  mem : ∀ v ∈ dtPreOrder, (doms v).isSome ∧ ¬S v

lemma Fits.append {S T : NodeId → Prop} {l l' : List NodeId} (h : Fits doms T l)
    (hl : IsPreorder doms S l') (hsome : ∀ v, S v → (doms v).isSome) (hS : ∀ v, S v → ¬T v)
    (hmem : ∀ v ∈ l, ¬S v) : Fits doms T (l ++ l') where
  nodup := by
    refine h.nodup.append hl.nodup ?_
    intro v hv hv'
    exact hmem v hv ((hl.mem_iff v).mp hv')
  mem := by
    intro v hv
    obtain hv | hv := List.mem_append.mp hv
    · exact h.mem v hv
    · have hv := (hl.mem_iff v).mp hv
      exact ⟨hsome v hv, hS v hv⟩

lemma Fits.length_lt {l : List NodeId} (ht : IsTree g ids doms) (ha : (doms a).isSome)
    (h : Fits doms (Below doms a) l) : l.length < g.nodeVec.length := by
  have hnodup : (a :: l).Nodup := List.nodup_cons.mpr ⟨fun hl => (h.mem a hl).2 ⟨ha, .refl⟩, h.nodup⟩
  have hsub : a :: l ⊆ List.range g.nodeVec.length := by
    intro v hv
    have hsome : (doms v).isSome := by
      obtain rfl | hv := List.mem_cons.mp hv
      · exact ha
      · exact (h.mem v hv).1
    exact List.mem_range.mpr (List.getElem?_eq_some_iff.mp (g.slot (ht.reachable v hsome))).1
  exact Nat.lt_of_succ_le (by simpa using (hnodup.subperm hsub).length_le)

/-- The nodes below one of `ks`. -/
def BelowOne (doms : Doms) (ks : List NodeId) (v : NodeId) : Prop := ∃ k ∈ ks, Below doms k v

lemma visitDomChildren_settles (ht : IsTree g ids doms)
    {visit : Nat → NodeId → List NodeId → Outcome (List NodeId)} {ks : List NodeId}
    (hks : ∀ k ∈ ks, k ≠ g.commonEntryNode ∧ doms k = some a) (hnodup : ks.Nodup)
    (hvisit : ∀ k ∈ ks, ∀ l, Fits doms (Below doms k) l → ∃ l',
      Outcome.Settles (visit · k l) (.done (l ++ l')) ∧ IsPreorder doms (Below doms k) l')
    {l : List NodeId} (hl : Fits doms (BelowOne doms ks) l) :
    ∃ l', Outcome.Settles (fun fuel => visitDomChildren g.toGraph (visit fuel) ks l)
        (.done (l ++ l')) ∧ IsPreorder doms (BelowOne doms ks) l' := by
  induction ks generalizing l with
  | nil =>
    refine ⟨[], ?_, List.nodup_nil, by simp [BelowOne], by simp⟩
    simpa [visitDomChildren] using Outcome.settles_const (by simp)
  | cons k ks ih =>
    obtain ⟨hke, hka⟩ := hks k (by simp)
    have hnot : k ∉ ks := (List.nodup_cons.mp hnodup).1
    -- no node is below two of the children
    have hdisj : ∀ v, Below doms k v → ¬BelowOne doms ks v := by
      rintro v hkv ⟨k', hk', hv⟩
      obtain ⟨hke', hka'⟩ := hks k' (List.mem_cons_of_mem _ hk')
      exact hnot (eq_of_below ht hke hka hke' hka' hkv hv ▸ hk')
    have hk : Fits doms (Below doms k) l :=
      ⟨hl.nodup, fun v hv => ⟨(hl.mem v hv).1, fun h => (hl.mem v hv).2 ⟨k, by simp, h⟩⟩⟩
    have hks' : Fits doms (BelowOne doms ks) l :=
      ⟨hl.nodup, fun v hv => ⟨(hl.mem v hv).1, fun ⟨k', hk', h⟩ =>
        (hl.mem v hv).2 ⟨k', List.mem_cons_of_mem _ hk', h⟩⟩⟩
    obtain ⟨l₁, hsettles₁, hl₁⟩ := hvisit k (by simp) l hk
    obtain ⟨l₂, hsettles₂, hl₂⟩ := ih (fun k hk => hks k (List.mem_cons_of_mem _ hk))
      (List.nodup_cons.mp hnodup).2 (fun k hk => hvisit k (List.mem_cons_of_mem _ hk))
      (hks'.append hl₁ (fun v hv => hv.1) hdisj fun v hv => (hk.mem v hv).2)
    refine ⟨l₁ ++ l₂, ?_, ?_⟩
    · simp only [visitDomChildren, g.slot (ht.reachable k (by simp [hka])), ← List.append_assoc]
      exact hsettles₁.bind hsettles₂
    · have heq : BelowOne doms (k :: ks) = fun v => Below doms k v ∨ BelowOne doms ks v := by
        funext v
        simp [BelowOne]
      rw [heq]
      exact hl₁.append hl₂ hdisj

lemma dtPreorderFrom_settles (hpo : IsPostOrder g.toGraph ids pid) (ht : IsTree g ids doms)
    (hch : IsDomChildren g doms domChildren) (ha : (doms a).isSome) {l : List NodeId}
    (hl : Fits doms (Below doms a) l) :
    ∃ l', Outcome.Settles (dtPreorderFrom g.toGraph domChildren · a l) (.done (l ++ l')) ∧
      IsPreorder doms (Below doms a) l' := by
  induction hn : (ids a + 1).toNat using Nat.strongRecOn generalizing a l with
  | _ n ih =>
    have hks : ∀ k ∈ domChildren a, k ≠ g.commonEntryNode ∧ doms k = some a :=
      fun k => (hch.mem_iff a k).mp
    have hbelow : ∀ v, Below doms a v ↔ v = a ∨ BelowOne doms (domChildren a) v := by
      intro v
      rw [below_iff ht ha]
      simp [BelowOne, hch.mem_iff, and_assoc]
    have hself : ¬BelowOne doms (domChildren a) a := by
      rintro ⟨k, hk, h⟩
      exact not_below_child ht (hks k hk).1 (hks k hk).2 h
    have hnext : Fits doms (BelowOne doms (domChildren a)) (l ++ [a]) := by
      refine ⟨List.nodup_append.mpr ⟨hl.nodup, by simp, ?_⟩, ?_⟩
      · rintro v hv _ (_ | ⟨_, ⟨⟩⟩) rfl
        exact (hl.mem v hv).2 ⟨ha, .refl⟩
      · intro v hv
        obtain hv | hv := List.mem_append.mp hv
        · exact ⟨(hl.mem v hv).1, fun h => (hl.mem v hv).2 ((hbelow v).mpr (.inr h))⟩
        · obtain rfl := List.mem_singleton.mp hv
          exact ⟨ha, hself⟩
    have hvisit : ∀ k ∈ domChildren a, ∀ l, Fits doms (Below doms k) l → ∃ l',
        Outcome.Settles (dtPreorderFrom g.toGraph domChildren · k l) (.done (l ++ l')) ∧
          IsPreorder doms (Below doms k) l' := by
      intro k hk l hl
      obtain ⟨hke, hka⟩ := hks k hk
      have hlt := ht.rank_lt k a hka hke
      have hreach := ht.reachable k (by simp [hka])
      obtain ⟨i, -, hi⟩ := hpo.exists_id k ((hpo.numbered_iff k).mpr hreach)
      exact ih _ (by omega) (by simp [hka]) hl rfl
    obtain ⟨l', hsettles, hl'⟩ := visitDomChildren_settles ht hks (hch.nodup a) hvisit hnext
    refine ⟨a :: l', ?_, hl'.cons hself hbelow⟩
    apply Outcome.Settles.of_succ
    simp only [dtPreorderFrom, if_pos (hl.length_lt ht ha)]
    simpa using hsettles

/-! ### The positions -/

lemma computeDtDfn_eq {dtPreOrder : List NodeId} (hnodup : dtPreOrder.Nodup) (hv : v ∈ dtPreOrder) :
    computeDtDfn dtPreOrder v = dtPreOrder.idxOf v := by
  induction dtPreOrder using List.reverseRecOn with
  | nil => cases hv
  | append_singleton l w ih =>
    obtain ⟨hl, -, hnot⟩ := List.nodup_append.mp hnodup
    rw [computeDtDfn, List.zipIdx_append, List.foldl_append]
    by_cases hvw : v = w
    · subst hvw
      rw [List.idxOf_append_of_notMem fun hmem => hnot v hmem v (by simp) rfl]
      simp
    · have hmem : v ∈ l := by simpa [hvw] using hv
      rw [List.idxOf_append_of_mem hmem, ← ih hl hmem]
      simp [Function.update_of_ne hvw, computeDtDfn]

end Preorder
end Dominance
end Maple
