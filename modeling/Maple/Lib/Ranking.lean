import Mathlib.Data.Set.Basic
import Mathlib.Data.Int.Order.Basic

/-!
# Rankings by comparators

A comparator gives a positive number if its first argument has the higher priority. A chain of
comparators decides by the first one that is not zero.
-/

namespace Ranking

variable {α : Type*}

/-- The first comparator that is not zero decides. -/
def byFirst (default : Bool) : List (α → α → Int) → α → α → Bool
  | [], _, _ => default
  | f :: fs, a, b => if f a b ≠ 0 then decide (0 < f a b) else byFirst default fs a b

/-- What a sort by a relation asks for. -/
structure StrictWeakOrderOn (r : α → α → Prop) (S : Set α) : Prop where
  irrefl : ∀ a ∈ S, ¬ r a a
  asymm : ∀ a ∈ S, ∀ b ∈ S, r a b → ¬ r b a
  trans : ∀ a ∈ S, ∀ b ∈ S, ∀ c ∈ S, r a b → r b c → r a c
  incomp_trans : ∀ a ∈ S, ∀ b ∈ S, ∀ c ∈ S, ¬ r a b ∧ ¬ r b a → ¬ r b c ∧ ¬ r c b →
    ¬ r a c ∧ ¬ r c a

lemma strictWeakOrderOn_iff_of_refl {r : α → α → Prop} {S : Set α} (h : ∀ a ∈ S, r a a) :
    StrictWeakOrderOn r S ↔ S = ∅ := by
  constructor
  · intro hr
    exact Set.eq_empty_of_forall_notMem fun a ha => hr.irrefl a ha (h a ha)
  · rintro rfl
    constructor <;> intro a ha <;> exact absurd ha (Set.notMem_empty a)

section

variable {default : Bool} {f : α → α → Int} {fs : List (α → α → Int)} {a b c : α}
  {key : α → Int} {S : Set α}

lemma byFirst_of_ne_zero (h : f a b ≠ 0) :
    byFirst default (f :: fs) a b = decide (0 < f a b) := if_pos h

lemma byFirst_of_eq_zero (h : f a b = 0) :
    byFirst default (f :: fs) a b = byFirst default fs a b := if_neg (not_not.mpr h)

lemma byFirst_self (h : ∀ f ∈ fs, f a a = 0) : byFirst default fs a a = default := by
  induction fs with
  | nil => rfl
  | cons f fs ih =>
    rw [byFirst_of_eq_zero (h f List.mem_cons_self)]
    exact ih fun g hg => h g (List.mem_cons_of_mem f hg)

end

end Ranking
