import Mathlib.Algebra.BigOperators.Group.Finset.Basic
import Mathlib.Algebra.BigOperators.Ring.Finset
import Mathlib.Algebra.Order.BigOperators.Group.Finset
import Mathlib.Algebra.Ring.Int.Defs
import Mathlib.Logic.Relation
import Mathlib.Tactic.Linarith
import Mathlib.Tactic.Ring

/-!
# Flows

Flows in a network with a source and a sink, sums of flows along routes, and the bound of each flow by
the capacity of a set of edges that blocks all routes.
-/

namespace Maple

/-- A network; several edges may have the same ends. -/
structure Network (V E : Type*) where
  edges : Finset E
  tail : E → V
  head : E → V
  cap : E → Int
  source : V
  sink : V

namespace Network

variable {V E : Type*} [DecidableEq V] (N : Network V E)

/-- What flows into `v` and not out of it. -/
def excess (f : E → Int) (v : V) : Int :=
  ∑ e ∈ N.edges with N.head e = v, f e - ∑ e ∈ N.edges with N.tail e = v, f e

/-- The flow is within the capacities, and what flows into an inner node flows out of it. -/
structure IsFlow (f : E → Int) : Prop where
  nonneg : ∀ e ∈ N.edges, 0 ≤ f e
  le_cap : ∀ e ∈ N.edges, f e ≤ N.cap e
  conserve : ∀ v, v ≠ N.source → v ≠ N.sink → N.excess f v = 0

/-- The edges of a path from the source to `v`, the last one first. -/
inductive IsRoute : V → List E → Prop
  | nil : IsRoute N.source []
  | cons {e : E} {l : List E} : e ∈ N.edges → IsRoute (N.tail e) l → IsRoute (N.head e) (e :: l)

/-- Every path from the source to the sink has an edge of `C`. -/
def Blocks (C : E → Prop) : Prop := ∀ l, N.IsRoute N.sink l → ∃ e ∈ l, C e

variable {N} {f g : E → Int} {v : V} {l : List E}

lemma excess_add (f g : E → Int) (v : V) :
    N.excess (fun e => f e + g e) v = N.excess f v + N.excess g v := by
  simp only [excess, Finset.sum_add_distrib]
  ring

lemma excess_mul (c : Int) (f : E → Int) (v : V) :
    N.excess (fun e => c * f e) v = c * N.excess f v := by
  simp only [excess, ← Finset.mul_sum]
  ring

lemma excess_sum {ι : Type*} (c : ι → Int) (f : ι → E → Int) (rs : List ι) (v : V) :
    N.excess (fun e => (rs.map fun r => c r * f r e).sum) v =
      (rs.map fun r => c r * N.excess (f r) v).sum := by
  induction rs with
  | nil => simp [excess]
  | cons r rs ih =>
    simp only [List.map_cons, List.sum_cons]
    rw [excess_add, excess_mul, ih]

lemma isFlow_zero (h : ∀ e ∈ N.edges, 0 ≤ N.cap e) : N.IsFlow fun _ => 0 := by
  refine ⟨fun _ _ => le_rfl, h, ?_⟩
  intro v _ _
  simp [excess]

/-! ### Routes -/

omit [DecidableEq V] in
lemma isRoute_nil_iff : N.IsRoute v [] ↔ v = N.source := by
  constructor
  · rintro ⟨⟩
    rfl
  · rintro rfl
    exact .nil

omit [DecidableEq V] in
lemma isRoute_cons_iff {e : E} :
    N.IsRoute v (e :: l) ↔ e ∈ N.edges ∧ N.head e = v ∧ N.IsRoute (N.tail e) l := by
  constructor
  · rintro (_ | ⟨he, hl⟩)
    exact ⟨he, rfl, hl⟩
  · rintro ⟨he, rfl, hl⟩
    exact .cons he hl

omit [DecidableEq V] in
lemma IsRoute.mem_edges (h : N.IsRoute v l) : ∀ e ∈ l, e ∈ N.edges := by
  induction h with
  | nil => simp
  | cons he _ ih =>
    intro e he'
    rcases List.mem_cons.mp he' with rfl | he'
    · exact he
    · exact ih e he'

omit [DecidableEq V] in
lemma IsRoute.head_eq (h : N.IsRoute v l) :
    ∀ e ∈ l, N.head e = v ∨ ∃ e' ∈ l, N.tail e' = N.head e := by
  induction h with
  | nil => simp
  | @cons e l he _ ih =>
    intro e' he'
    rcases List.mem_cons.mp he' with rfl | he'
    · exact .inl rfl
    · rcases ih e' he' with heq | ⟨e'', he'', heq⟩
      · exact .inr ⟨e, List.mem_cons_self, heq.symm⟩
      · exact .inr ⟨e'', List.mem_cons_of_mem _ he'', heq⟩

section Routes

variable [DecidableEq E]

/-- The flow of one unit along a route. -/
def unit (l : List E) (e : E) : Int := l.count e

lemma excess_single {e : E} (he : e ∈ N.edges) (v : V) :
    N.excess (fun e' => if e' = e then 1 else 0) v =
      (if v = N.head e then 1 else 0) - (if v = N.tail e then 1 else 0) := by
  have hsum : ∀ p : E → Prop, [DecidablePred p] → ∑ e' ∈ N.edges with p e',
      (if e' = e then (1 : Int) else 0) = if p e then 1 else 0 := by
    intro p _
    rw [Finset.sum_filter, Finset.sum_eq_single e]
    · simp
    · intro e' _ hne
      simp [hne]
    · intro hnot
      exact absurd he hnot
  rw [excess, hsum fun e' => N.head e' = v, hsum fun e' => N.tail e' = v]
  simp only [eq_comm]

lemma IsRoute.excess_unit (h : N.IsRoute v l) (w : V) :
    N.excess (unit l) w = (if w = v then 1 else 0) - (if w = N.source then 1 else 0) := by
  induction h with
  | nil => simp [excess, unit]
  | @cons e l he _ ih =>
    have hunit : unit (e :: l) = fun e' => unit l e' + if e' = e then 1 else 0 := by
      funext e'
      by_cases heq : e' = e
      · simp [unit, heq]
      · simp [unit, heq, List.count_cons_of_ne (Ne.symm heq)]
    rw [hunit, excess_add, ih, excess_single he]
    ring

lemma IsFlow.add_route (h : N.IsFlow f) (hl : N.IsRoute N.sink l) (hnodup : l.Nodup) {c : Int}
    (hc : 0 ≤ c) (hcap : ∀ e ∈ l, c ≤ N.cap e - f e) :
    N.IsFlow fun e => f e + c * unit l e := by
  have hcount : ∀ e, unit l e = if e ∈ l then 1 else 0 := by
    intro e
    rw [unit, List.Nodup.count hnodup]
    split_ifs <;> rfl
  refine ⟨?_, ?_, ?_⟩
  · intro e he
    have hf := h.nonneg e he
    rw [hcount]
    split_ifs <;> linarith
  · intro e he
    have hf := h.le_cap e he
    rw [hcount]
    split_ifs with hmem
    · have hle := hcap e hmem
      linarith
    · linarith
  · intro v hsource hsink
    rw [excess_add, excess_mul, h.conserve v hsource hsink, hl.excess_unit, if_neg hsink,
      if_neg hsource]
    simp

end Routes

/-! ### Sets of edges that block all routes -/

lemma IsFlow.excess_le (h : N.IsFlow f) {C : Finset E} (hC : C ⊆ N.edges)
    (hblocks : N.Blocks (· ∈ C)) : N.excess f N.sink ≤ ∑ e ∈ C, N.cap e := by
  classical
  -- the nodes that paths without edges of `C` reach
  let A : V → Prop := Relation.ReflTransGen (fun v w => ∃ e ∈ N.edges, e ∉ C ∧ N.tail e = v ∧
    N.head e = w) N.source
  have hroute : ∀ v, A v → ∃ l, N.IsRoute v l ∧ ∀ e ∈ l, e ∉ C := by
    intro v hv
    induction hv with
    | refl => exact ⟨[], .nil, by simp⟩
    | tail _ hstep ih =>
      obtain ⟨l, hl, hlC⟩ := ih
      obtain ⟨e, he, heC, rfl, rfl⟩ := hstep
      exact ⟨e :: l, .cons he hl, by simpa using ⟨heC, hlC⟩⟩
  have hsink : ¬A N.sink := by
    intro hA
    obtain ⟨l, hl, hlC⟩ := hroute N.sink hA
    obtain ⟨e, he, heC⟩ := hblocks l hl
    exact hlC e he heC
  have hsource : A N.source := .refl
  let B : Finset V := (insert N.sink (N.edges.image N.head ∪ N.edges.image N.tail)).filter
    fun v => ¬A v
  have hBsum : ∑ v ∈ B, N.excess f v = N.excess f N.sink := by
    apply Finset.sum_eq_single_of_mem
    · exact Finset.mem_filter.mpr ⟨Finset.mem_insert_self _ _, hsink⟩
    · intro v hv hne
      apply h.conserve v ?_ hne
      rintro rfl
      exact (Finset.mem_filter.mp hv).2 hsource
  have hhead : ∀ e ∈ N.edges, N.head e ∈ B ↔ ¬A (N.head e) := by
    intro e he
    simp only [B, Finset.mem_filter, and_iff_right_iff_imp]
    intro _
    exact Finset.mem_insert_of_mem
      (Finset.mem_union_left _ (Finset.mem_image_of_mem N.head he))
  have htail : ∀ e ∈ N.edges, N.tail e ∈ B ↔ ¬A (N.tail e) := by
    intro e he
    simp only [B, Finset.mem_filter, and_iff_right_iff_imp]
    intro _
    exact Finset.mem_insert_of_mem
      (Finset.mem_union_right _ (Finset.mem_image_of_mem N.tail he))
  calc N.excess f N.sink
      = ∑ e ∈ N.edges, ((if N.head e ∈ B then f e else 0) - if N.tail e ∈ B then f e else 0) := by
        rw [← hBsum]
        simp only [excess]
        rw [Finset.sum_sub_distrib, Finset.sum_fiberwise_eq_sum_filter,
          Finset.sum_fiberwise_eq_sum_filter, Finset.sum_sub_distrib, Finset.sum_filter,
          Finset.sum_filter]
    _ ≤ ∑ e ∈ N.edges, if e ∈ C then N.cap e else 0 := by
        apply Finset.sum_le_sum
        intro e he
        have h0 := h.nonneg e he
        have hcap := h.le_cap e he
        simp only [hhead e he, htail e he]
        by_cases heC : e ∈ C
        · simp only [heC, if_true]
          split_ifs <;> linarith
        · have hedge : A (N.tail e) → A (N.head e) := fun hA => hA.tail ⟨e, he, heC, rfl, rfl⟩
          by_cases htA : A (N.tail e)
          · simp [heC, htA, hedge htA]
          · by_cases hhA : A (N.head e)
            · simp [heC, htA, hhA, h0]
            · simp [heC, htA, hhA]
    _ = ∑ e ∈ C, N.cap e := by
        rw [← Finset.sum_filter, Finset.filter_mem_eq_inter, Finset.inter_eq_right.mpr hC]

end Network
end Maple
