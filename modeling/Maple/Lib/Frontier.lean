import Maple.Lib.Dominators
import Mathlib.Order.Bounds.Basic

/-!
# Dominance frontiers

The frontier of a node is where its dominance ends. It is read off a dominator tree by walking up from
the predecessors of a node, and the iterated frontier is the closure of the frontiers.
-/

namespace Dominators

variable {V : Type*} {r : V → V → Prop} {rank : V → Int} {e d p v w x y : V} {dom : V → Option V}

/-- `x` dominates a predecessor of `y`, but `y` itself at most as `y`. -/
def Frontier (r : V → V → Prop) (e x y : V) : Prop :=
  (∃ p, Relation.ReflTransGen r e p ∧ r p y ∧ Dominates r e x p) ∧ ¬(Dominates r e x y ∧ x ≠ y)

lemma Frontier.reachable (h : Frontier r e x y) : Relation.ReflTransGen r e y := by
  obtain ⟨⟨p, hp, hpy, -⟩, -⟩ := h
  exact hp.tail hpy

lemma dominates_entry_iff : Dominates r e x e ↔ x = e := by
  constructor
  · intro h
    exact List.mem_singleton.mp (h [e] ⟨rfl, rfl, List.isChain_singleton e⟩)
  · rintro rfl
    exact dominates_self r x x

lemma dominates_of_only_pred (rank : V → Int) (hye : y ≠ e)
    (honly : ∀ q, Relation.ReflTransGen r e q → r q y → q = p) : Dominates r e p y := by
  rw [dominates_iff rank]
  intro k hk
  cases hk with
  | entry => exact hye rfl
  | forward hq hr => exact hq.ne (honly _ hq.reachable hr)
  | retreating hq hr => exact hq.ne (honly _ hq.reachable hr)

lemma exists_pred_ne (hye : y ≠ e) (hy : Relation.ReflTransGen r e y) :
    ∃ q, Relation.ReflTransGen r e q ∧ r q y ∧ q ≠ y := by
  by_contra hnone
  have hall : ∀ v, Relation.ReflTransGen r e v → v ≠ y := by
    intro v hv
    induction hv with
    | refl => exact Ne.symm hye
    | tail hq hr ih =>
      rintro rfl
      exact hnone ⟨_, hq, hr, ih⟩
  exact hall y hy rfl

/-! ### Walking up the tree -/

lemma Above.antisymm (ht : IsPartialTree r rank e dom) (h : Above dom v x) (h' : Above dom x v) :
    v = x := by
  by_contra hne
  rcases Relation.ReflTransGen.cases_head h with heq | ⟨y, hy, hyx⟩
  · exact hne heq
  · by_cases hve : v = e
    · subst hve
      exact hne (h.eq_entry ht).symm
    · have hlt := ht.rank_lt v y hy hve
      have hle := Above.rank_le ht hyx
      have hback := h'.rank_le ht
      omega

lemma not_above_of_dom (ht : IsPartialTree r rank e dom) (hx : dom v = some x) (hve : v ≠ e) :
    ¬ Above dom x v := by
  intro h
  have hlt := ht.rank_lt v x hx hve
  have hle := h.rank_le ht
  omega

/-- Of the nodes above a predecessor of `y`, those that are not above the node that the tree gives `y`
have `y` in their frontiers. -/
lemma above_and_not_above_iff (ht : IsPartialTree r rank e dom)
    (habove : ∀ v, Relation.ReflTransGen r e v → ∀ a, Above dom v a ↔ Dominates r e a v)
    (hp : Relation.ReflTransGen r e p) (hpy : r p y) (hye : y ≠ e) (hd : dom y = some d) :
    Above dom p x ∧ ¬ Above dom d x ↔ Dominates r e x p ∧ ¬(Dominates r e x y ∧ x ≠ y) := by
  rw [habove p hp, ← habove y (hp.tail hpy), above_iff hd]
  apply and_congr Iff.rfl
  constructor
  · rintro hnot ⟨rfl | hx, hne⟩
    · exact hne rfl
    · exact hnot hx
  · intro hnot hx
    apply hnot
    refine ⟨Or.inr hx, ?_⟩
    rintro rfl
    exact not_above_of_dom ht hd hye hx

lemma above_pred (ht : IsPartialTree r rank e dom)
    (habove : ∀ v, Relation.ReflTransGen r e v → ∀ a, Above dom v a ↔ Dominates r e a v)
    (hp : Relation.ReflTransGen r e p) (hpy : r p y) (hye : y ≠ e) (hd : dom y = some d) :
    Above dom p d := by
  rw [habove p hp]
  have hdy : Dominates r e d y := by
    rw [← habove y (hp.tail hpy), above_iff hd]
    exact Or.inr .refl
  refine hdy.of_edge ?_ hpy
  rintro rfl
  exact not_above_of_dom ht hd hye .refl

/-! ### The closure of frontiers -/

lemma isLeast_transGen (df : V → V → Prop) (x : V) :
    IsLeast {S : Set V | (∀ y, df x y → y ∈ S) ∧ ∀ y ∈ S, ∀ z, df y z → z ∈ S}
      {y | Relation.TransGen df x y} := by
  constructor
  · constructor
    · intro y hy
      exact .single hy
    · intro y hy z hz
      exact hy.tail hz
  · rintro S ⟨hfirst, hclosed⟩ y hy
    induction hy with
    | single hstep => exact hfirst _ hstep
    | tail _ hstep ih => exact hclosed _ ih _ hstep

end Dominators
