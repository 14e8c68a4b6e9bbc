import Maple.Lib.While
import Mathlib.Data.Finset.Max
import Mathlib.Logic.Relation
import Mathlib.Algebra.GroupWithZero.Nat

/-!
# Worklists over acyclic relations

A worklist takes its first element, visits it, and appends what the visit finds. Over an acyclic
relation on finitely many elements such a loop ends although it may visit an element many times.
-/

namespace Maple

/-! ### Acyclic relations -/

section Acyclic

variable {α : Type*} {r : α → α → Prop}

def Acyclic (r : α → α → Prop) : Prop := ∀ x, ¬Relation.TransGen r x x

lemma Acyclic.swap (h : Acyclic r) : Acyclic (Function.swap r) := by
  intro x hx
  rw [Relation.transGen_swap] at hx
  exact h x hx

open Classical in
/-- The elements below `x`. -/
noncomputable def descendants (r : α → α → Prop) (nodes : Finset α) (x : α) : Finset α :=
  nodes.filter fun y => Relation.TransGen r x y

lemma mem_descendants {nodes : Finset α} {x y : α} :
    y ∈ descendants r nodes x ↔ y ∈ nodes ∧ Relation.TransGen r x y := by
  simp [descendants]

lemma Acyclic.card_descendants_lt (h : Acyclic r) {nodes : Finset α} {x y : α} (hr : r x y)
    (hy : y ∈ nodes) : (descendants r nodes y).card < (descendants r nodes x).card := by
  have hsub : descendants r nodes y ⊆ descendants r nodes x := by
    intro z hz
    rw [mem_descendants] at hz ⊢
    exact ⟨hz.1, Relation.TransGen.head hr hz.2⟩
  apply Finset.card_lt_card
  rw [Finset.ssubset_iff_of_subset hsub]
  refine ⟨y, mem_descendants.mpr ⟨hy, Relation.TransGen.single hr⟩, ?_⟩
  rw [mem_descendants, not_and]
  exact fun _ => h y

lemma Acyclic.card_descendants_lt_card (h : Acyclic r) {nodes : Finset α} {x : α}
    (hx : x ∈ nodes) : (descendants r nodes x).card < nodes.card := by
  have hsub : descendants r nodes x ⊆ nodes := by
    intro y hy
    exact (mem_descendants.mp hy).1
  apply Finset.card_lt_card
  rw [Finset.ssubset_iff_of_subset hsub]
  refine ⟨x, hx, ?_⟩
  rw [mem_descendants, not_and]
  exact fun _ => h x

lemma Acyclic.exists_minimal (h : Acyclic r) {nodes : Finset α} (hne : nodes.Nonempty) :
    ∃ x ∈ nodes, ∀ y ∈ nodes, ¬r y x := by
  obtain ⟨x, hx, hmin⟩ := Finset.exists_min_image nodes
    (fun x => (descendants (Function.swap r) nodes x).card) hne
  refine ⟨x, hx, ?_⟩
  intro y hy hr
  have hlt := h.swap.card_descendants_lt (show Function.swap r x y from hr) hy
  exact absurd (hmin y hy) (by omega)

end Acyclic

/-! ### The loop -/

section Worklist

variable {α σ : Type*}

/-- Visit the first element until the list is empty. A visit sees the rest of the list. -/
def worklist (visit : α → List α × σ → List α × σ) : Nat → List α × σ → Outcome σ
  | 0, _ => .outOfFuel
  | _ + 1, ([], s) => .done s
  | fuel + 1, (x :: rest, s) => worklist visit fuel (visit x (rest, s))

/-- A bound for the visits that are still to come, if a visit appends at most `width` elements
and all of smaller rank. -/
def pending (rank : α → Nat) (width : Nat) (todo : List α) : Nat :=
  (todo.map fun x => (width + 1) ^ rank x).sum

lemma pending_append (rank : α → Nat) (width : Nat) (todo todo' : List α) :
    pending rank width (todo ++ todo') = pending rank width todo + pending rank width todo' := by
  simp [pending]

lemma pending_le {rank : α → Nat} {width k : Nat} {todo : List α} (h : ∀ y ∈ todo, rank y ≤ k) :
    pending rank width todo ≤ todo.length * (width + 1) ^ k := by
  induction todo with
  | nil => simp [pending]
  | cons y todo ih =>
    have hy : (width + 1) ^ rank y ≤ (width + 1) ^ k :=
      Nat.pow_le_pow_right (by omega) (h y (by simp))
    have htodo := ih fun z hz => h z (by simp [hz])
    calc pending rank width (y :: todo)
        = (width + 1) ^ rank y + pending rank width todo := by simp [pending]
      _ ≤ (width + 1) ^ k + todo.length * (width + 1) ^ k := Nat.add_le_add hy htodo
      _ = (y :: todo).length * (width + 1) ^ k := by rw [List.length_cons, Nat.succ_mul, Nat.add_comm]

lemma pending_lt {rank : α → Nat} {width : Nat} {x : α} {pushed : List α}
    (hlen : pushed.length ≤ width) (hrank : ∀ y ∈ pushed, rank y < rank x) :
    pending rank width pushed < (width + 1) ^ rank x := by
  cases hx : rank x with
  | zero =>
    have hnil : pushed = [] := by
      rw [List.eq_nil_iff_forall_not_mem]
      intro y hy
      have := hrank y hy
      omega
    simp [hnil, pending]
  | succ k =>
    have hle : pending rank width pushed ≤ pushed.length * (width + 1) ^ k :=
      pending_le fun y hy => by have := hrank y hy; omega
    have hpos : 0 < (width + 1) ^ k := Nat.pow_pos (by omega)
    calc pending rank width pushed ≤ pushed.length * (width + 1) ^ k := hle
      _ ≤ width * (width + 1) ^ k := Nat.mul_le_mul_right _ hlen
      _ < (width + 1) ^ k * (width + 1) := by
        rw [Nat.mul_comm ((width + 1) ^ k), Nat.succ_mul]
        omega
      _ = (width + 1) ^ (k + 1) := (Nat.pow_succ ..).symm

/-- The loop ends, and keeps what the visits keep. -/
theorem worklist_settles {visit : α → List α × σ → List α × σ} (Inv : List α × σ → Prop)
    (rank : α → Nat) (width : Nat)
    (step : ∀ x rest s, Inv (x :: rest, s) → ∃ pushed, (visit x (rest, s)).1 = rest ++ pushed ∧
      pushed.length ≤ width ∧ (∀ y ∈ pushed, rank y < rank x) ∧ Inv (visit x (rest, s)))
    {t : List α × σ} (h : Inv t) :
    ∃ s, Outcome.Settles (fun fuel => worklist visit fuel t) (.done s) ∧ Inv ([], s) := by
  induction hn : pending rank width t.1 using Nat.strong_induction_on generalizing t with
  | _ n ih =>
    obtain ⟨todo, s⟩ := t
    cases todo with
    | nil => exact ⟨s, Outcome.Settles.of_succ (Outcome.settles_const (by simp)), h⟩
    | cons x rest =>
      obtain ⟨pushed, hpushed, hlen, hrank, hinv⟩ := step x rest s h
      have hlt : pending rank width (visit x (rest, s)).1 < n := by
        have hcons : pending rank width (x :: rest) =
            (width + 1) ^ rank x + pending rank width rest := by simp [pending]
        have := pending_lt hlen hrank
        rw [hpushed, pending_append, ← hn, hcons]
        omega
      obtain ⟨s', hsettles, hinv'⟩ := ih _ hlt hinv rfl
      exact ⟨s', Outcome.Settles.of_succ hsettles, hinv'⟩

end Worklist
end Maple
