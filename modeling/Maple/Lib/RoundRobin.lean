import Maple.Lib.While
import Mathlib.Data.List.Perm.Basic
import Mathlib.Data.List.Nodup
import Mathlib.Order.Nat
import Mathlib.Algebra.Order.Group.Nat

/-!
# Sweeps until nothing changes

The nodes of a list are visited one after the other, again and again, until a sweep changes
nothing. The visits to come are a queue, of which an invariant can speak.
-/

namespace Maple
namespace RoundRobin

variable {α σ : Type*}

/-- One sweep, with whether some visit changed something. -/
def sweep (visit : σ → α → σ × Bool) : List α → σ × Bool → σ × Bool
  | [], s => s
  | a :: as, s => sweep visit as ((visit s.1 a).1, s.2 || (visit s.1 a).2)

/-- Less than `fuel` sweeps. -/
def sweeps (visit : σ → α → σ × Bool) (order : List α) : Nat → σ → Outcome σ
  | 0, _ => .outOfFuel
  | fuel + 1, st =>
    let s := sweep visit order (st, false)
    if s.2 then sweeps visit order fuel s.1 else .done s.1

/-! ### Waiting -/

section Waiting

variable [DecidableEq α] {a : α} {queue : List α}

/-- Where a node does not have what its neighbour has, the neighbour has changed and is not visited
again before the node. -/
def Waits (edge seen : α → α → Prop) (changed : α → Prop) (queue : List α) : Prop :=
  ∀ p ∈ queue, ∀ s, edge p s → seen p s ∨ changed s ∧ queue.idxOf p ≤ queue.idxOf s

lemma idxOf_rotate {p s : α} (hp : p ∈ queue) (hpa : p ≠ a) (ha : a ∉ queue)
    (hs : s = a ∨ (a :: queue).idxOf p ≤ (a :: queue).idxOf s) :
    (queue ++ [a]).idxOf p ≤ (queue ++ [a]).idxOf s := by
  have hlt : queue.idxOf p < queue.length := List.idxOf_lt_length_iff.mpr hp
  rw [List.idxOf_append_of_mem hp]
  by_cases hsq : s ∈ queue
  · rw [List.idxOf_append_of_mem hsq]
    rcases hs with rfl | hle
    · exact absurd hsq ha
    · by_cases hsa : s = a
      · rw [hsa, List.idxOf_cons_self, List.idxOf_cons_ne _ (Ne.symm hpa)] at hle
        omega
      · rw [List.idxOf_cons_ne _ (Ne.symm hpa), List.idxOf_cons_ne _ (Ne.symm hsa)] at hle
        omega
  · rw [List.idxOf_append_of_notMem hsq]
    omega

variable {edge seen seen' : α → α → Prop} {changed changed' : α → Prop}

/-- A visit of the head, after which it has what its neighbours have. If it changes itself, the others
wait for it, and otherwise they have what they had of it. -/
lemma Waits.visit (h : Waits edge seen changed (a :: queue)) (ha : a ∉ queue)
    (hseen : ∀ p s, p ≠ a → s ≠ a → seen p s → seen' p s)
    (hchanged : ∀ s, s ≠ a → changed s → changed' s)
    (hvisit : ∀ s, s ≠ a → edge a s → seen' a s)
    (hself : changed' a ∨ (edge a a → seen' a a) ∧ ∀ p, p ≠ a → seen p a → seen' p a) :
    Waits edge seen' changed' (queue ++ [a]) := by
  intro p hp s hedge
  by_cases hpa : p = a
  · subst hpa
    by_cases hsp : s = p
    · subst hsp
      obtain hchange | ⟨hsame, -⟩ := hself
      · exact .inr ⟨hchange, le_rfl⟩
      · exact .inl (hsame hedge)
    · exact .inl (hvisit s hsp hedge)
  · have hpq : p ∈ queue := by simpa [hpa] using hp
    have hwait := h p (List.mem_cons_of_mem _ hpq) s hedge
    by_cases hsa : s = a
    · subst hsa
      obtain hchange | ⟨-, hsame⟩ := hself
      · exact .inr ⟨hchange, idxOf_rotate hpq hpa ha (.inl rfl)⟩
      · obtain hsees | ⟨-, hle⟩ := hwait
        · exact .inl (hsame p hpa hsees)
        · -- the head is visited before `p`
          rw [List.idxOf_cons_self, List.idxOf_cons_ne _ (Ne.symm hpa)] at hle
          omega
    · obtain hsees | ⟨hchange, hle⟩ := hwait
      · exact .inl (hseen p s hpa hsa hsees)
      · exact .inr ⟨hchanged s hsa hchange, idxOf_rotate hpq hpa ha (.inr hle)⟩

lemma Waits.head (h : Waits edge seen changed (a :: queue)) {s : α} (hedge : edge a s) :
    seen a s ∨ changed s :=
  (h a List.mem_cons_self s hedge).imp_right And.left

end Waiting

/-! ### Termination -/

/-- The rules for visits of the nodes of `order`: a visit keeps the invariant and rotates the queue;
one that changes something makes `size` smaller, and one that does not is `Quiet` and settles its
node. -/
structure Rules (visit : σ → α → σ × Bool) (order : List α) (Inv : List α → σ → Prop)
    (size : σ → Nat) (Quiet : σ → σ → Prop) (Settled : σ → α → Prop) : Prop where
  inv : ∀ {a queue st}, a ∈ order → a ∉ queue → Inv (a :: queue) st →
    Inv (queue ++ [a]) (visit st a).1
  change : ∀ {a queue st}, a ∈ order → a ∉ queue → Inv (a :: queue) st → (visit st a).2 = true →
    size (visit st a).1 < size st
  quiet : ∀ {a queue st}, a ∈ order → Inv (a :: queue) st → (visit st a).2 = false →
    Quiet st (visit st a).1 ∧ Settled (visit st a).1 a
  refl : ∀ st, Quiet st st
  trans : ∀ {st st' st''}, Quiet st st' → Quiet st' st'' → Quiet st st''
  size_le : ∀ {st st'}, Quiet st st' → size st' ≤ size st
  settled : ∀ {st st' a}, Quiet st st' → Settled st a → Settled st' a

variable {visit : σ → α → σ × Bool} {order : List α} {Inv : List α → σ → Prop} {size : σ → Nat}
  {Quiet : σ → σ → Prop} {Settled : σ → α → Prop}

/-- What a sweep over the first nodes of the queue does. -/
structure SweepSpec (Inv : List α → σ → Prop) (size : σ → Nat) (Quiet : σ → σ → Prop)
    (Settled : σ → α → Prop) (todo visited : List α) (st : σ) (change : Bool) (s : σ × Bool) :
    Prop where
  inv : Inv (visited ++ todo) s.1
  size_le : size s.1 ≤ size st
  size_lt : s.2 = true → change = true ∨ size s.1 < size st
  quiet : s.2 = false → change = false ∧ Quiet st s.1 ∧ ∀ a ∈ todo, Settled s.1 a

lemma Rules.sweep (h : Rules visit order Inv size Quiet Settled) (todo visited : List α) (st : σ)
    (change : Bool) (hnodup : (todo ++ visited).Nodup) (hmem : ∀ a ∈ todo, a ∈ order)
    (hinv : Inv (todo ++ visited) st) :
    SweepSpec Inv size Quiet Settled todo visited st change
      (RoundRobin.sweep visit todo (st, change)) := by
  induction todo generalizing visited st change with
  | nil =>
    have hinv' : Inv (visited ++ []) st := by simpa using hinv
    exact ⟨hinv', le_rfl, .inl, fun hc => ⟨hc, h.refl st, by simp⟩⟩
  | cons a todo ih =>
    have ha : a ∉ todo ++ visited := (List.nodup_cons.mp hnodup).1
    have hamem := hmem a List.mem_cons_self
    have hvisited : Inv (todo ++ (visited ++ [a])) (visit st a).1 := by
      rw [← List.append_assoc]
      exact h.inv hamem ha hinv
    have hnodup' : (todo ++ (visited ++ [a])).Nodup := by
      rw [← List.append_assoc]
      exact (show ([a] ++ (todo ++ visited)).Nodup from hnodup) |> List.nodup_append_comm.mp
    have hspec := ih (visited ++ [a]) (visit st a).1 (change || (visit st a).2) hnodup'
      (fun x hx => hmem x (List.mem_cons_of_mem _ hx)) hvisited
    have hle : size (visit st a).1 ≤ size st := by
      cases hchange : (visit st a).2 with
      | true => exact (h.change hamem ha hinv hchange).le
      | false => exact h.size_le (h.quiet hamem hinv hchange).1
    refine ⟨?_, hspec.size_le.trans hle, ?_, ?_⟩
    · have hrest := hspec.inv
      rwa [List.append_assoc] at hrest
    · intro hs
      rcases hspec.size_lt hs with hor | hlt
      · rcases Bool.or_eq_true_iff.mp hor with hc | hc
        · exact .inl hc
        · exact .inr (hspec.size_le.trans_lt (h.change hamem ha hinv hc))
      · exact .inr (hlt.trans_le hle)
    · intro hs
      obtain ⟨hor, hquiet, hall⟩ := hspec.quiet hs
      obtain ⟨hc, hchange⟩ := Bool.or_eq_false_iff.mp hor
      obtain ⟨hquiet', hhead⟩ := h.quiet hamem hinv hchange
      refine ⟨hc, h.trans hquiet' hquiet, fun x hx => ?_⟩
      rcases List.mem_cons.mp hx with rfl | hx
      · exact h.settled hquiet hhead
      · exact hall x hx

lemma Rules.settles (h : Rules visit order Inv size Quiet Settled) (hnodup : order.Nodup) {st : σ}
    (hinv : Inv order st) :
    ∃ st', Outcome.Settles (fun fuel => sweeps visit order fuel st) (.done st') ∧ Inv order st' ∧
      ∀ a ∈ order, Settled st' a := by
  induction hn : size st using Nat.strong_induction_on generalizing st with
  | _ n ih =>
    have hspec := h.sweep order [] st false (by simpa using hnodup) (fun _ => id)
      (by simpa using hinv)
    have hinv' : Inv order (RoundRobin.sweep visit order (st, false)).1 := by
      simpa using hspec.inv
    cases hs : (RoundRobin.sweep visit order (st, false)).2 with
    | true =>
      rcases hspec.size_lt hs with hfalse | hlt
      · cases hfalse
      · obtain ⟨st', hsettles, hrest⟩ := ih _ (hn ▸ hlt) hinv' rfl
        refine ⟨st', Outcome.Settles.of_succ ?_, hrest⟩
        simp only [sweeps, hs, if_true]
        exact hsettles
    | false =>
      obtain ⟨-, -, hall⟩ := hspec.quiet hs
      refine ⟨_, Outcome.Settles.of_succ ?_, hinv', hall⟩
      simp only [sweeps, hs]
      exact Outcome.settles_const (by simp)

end RoundRobin
end Maple
