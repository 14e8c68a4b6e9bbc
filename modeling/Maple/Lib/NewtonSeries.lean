import Mathlib.Data.Nat.Choose.Basic
import Mathlib.Algebra.BigOperators.Group.List.Basic
import Mathlib.Tactic.Ring

/-!
# Newton series

The recurrence `{c₀, +, c₁, +, ..., +, cₖ}` has at iteration `i` the value `∑ cⱼ * (i choose j)`.
-/

namespace Maple

/-- The terms of a series from position `j` on. -/
def newtonFrom (i : Nat) : Nat → List Int → Int
  | _, [] => 0
  | j, c :: cs => i.choose j * c + newtonFrom i (j + 1) cs

/-- The value of a series at `i`. -/
def newtonSeries (i : Nat) (cs : List Int) : Int := newtonFrom i 0 cs

lemma newtonFrom_append (i j : Nat) (cs ds : List Int) :
    newtonFrom i j (cs ++ ds) = newtonFrom i j cs + newtonFrom i (j + cs.length) ds := by
  induction cs generalizing j with
  | nil => simp [newtonFrom]
  | cons c cs ih =>
    simp only [List.cons_append, newtonFrom, ih, List.length_cons]
    rw [show j + 1 + cs.length = j + (cs.length + 1) by omega]
    ring

lemma newtonFrom_zeros (i j : Nat) {cs : List Int} (h : ∀ c ∈ cs, c = 0) :
    newtonFrom i j cs = 0 := by
  induction cs generalizing j with
  | nil => rfl
  | cons c cs ih =>
    rw [newtonFrom, h c List.mem_cons_self, ih _ fun d hd => h d (List.mem_cons_of_mem c hd)]
    ring

lemma newtonFrom_zipWith_add (i j : Nat) (cs ds : List Int) :
    newtonFrom i j
      (List.zipWith (· + ·) cs ds ++ (cs.drop ds.length ++ ds.drop cs.length)) =
      newtonFrom i j cs + newtonFrom i j ds := by
  induction cs generalizing j ds with
  | nil => simp [newtonFrom]
  | cons c cs ih =>
    cases ds with
    | nil => simp [newtonFrom]
    | cons d ds =>
      simp only [List.zipWith_cons_cons, List.cons_append, List.length_cons, List.drop_succ_cons,
        newtonFrom, ih (j + 1) ds]
      ring

lemma newtonFrom_map_mul (i j : Nat) (a : Int) (cs : List Int) :
    newtonFrom i j (cs.map (a * ·)) = a * newtonFrom i j cs := by
  induction cs generalizing j with
  | nil => simp [newtonFrom]
  | cons c cs ih =>
    simp only [List.map_cons, newtonFrom, ih]
    ring

lemma newtonSeries_cons (i : Nat) (c : Int) (cs : List Int) :
    newtonSeries i (c :: cs) = c + newtonFrom i 1 cs := by
  simp [newtonSeries, newtonFrom]

/-! ### Steps of a recurrence -/

/-- One step of a recurrence: `x_j := x_j + x_{j+1}` for all numbers but the last one. -/
def recurrenceStep {α : Type*} [Add α] : List α → List α
  | x :: y :: xs => (x + y) :: recurrenceStep (y :: xs)
  | xs => xs

/-- The recurrence after `i` steps. -/
def recurrenceRun {α : Type*} [Add α] : Nat → List α → List α
  | 0, xs => xs
  | i + 1, xs => recurrenceRun i (recurrenceStep xs)

section Homomorphism

variable {α β : Type*} [Add α] [Add β] {f : α → β}

lemma recurrenceStep_map (hf : ∀ x y, f (x + y) = f x + f y) (xs : List α) :
    recurrenceStep (xs.map f) = (recurrenceStep xs).map f := by
  induction xs with
  | nil => rfl
  | cons x xs ih =>
    cases xs with
    | nil => rfl
    | cons y xs =>
      rw [List.map_cons] at ih
      simp only [List.map_cons, recurrenceStep, hf, ih]

lemma recurrenceRun_map (hf : ∀ x y, f (x + y) = f x + f y) (i : Nat) (xs : List α) :
    recurrenceRun i (xs.map f) = (recurrenceRun i xs).map f := by
  induction i generalizing xs with
  | zero => rfl
  | succ i ih => rw [recurrenceRun, recurrenceStep_map hf, ih, recurrenceRun]

end Homomorphism

lemma newtonFrom_recurrenceStep (i j : Nat) (c : Int) (cs : List Int) :
    newtonFrom i j (recurrenceStep (c :: cs)) = newtonFrom i j (c :: cs) + newtonFrom i j cs := by
  induction cs generalizing c j with
  | nil => simp [recurrenceStep, newtonFrom]
  | cons d cs ih =>
    rw [recurrenceStep, newtonFrom, ih (j + 1) d]
    simp only [newtonFrom]
    ring

lemma newtonFrom_succ (i j : Nat) (cs : List Int) :
    newtonFrom (i + 1) (j + 1) cs = newtonFrom i (j + 1) cs + newtonFrom i j cs := by
  induction cs generalizing j with
  | nil => rfl
  | cons c cs ih =>
    simp only [newtonFrom, ih (j + 1), Nat.choose_succ_succ']
    push_cast
    ring

lemma newtonSeries_recurrenceStep (i : Nat) (cs : List Int) :
    newtonSeries i (recurrenceStep cs) = newtonSeries (i + 1) cs := by
  cases cs with
  | nil => rfl
  | cons c cs =>
    rw [newtonSeries, newtonFrom_recurrenceStep, newtonSeries_cons (i + 1), newtonFrom_succ,
      ← newtonSeries, newtonSeries_cons, add_assoc]

lemma newtonFrom_at_zero {j : Nat} (hj : 0 < j) (cs : List Int) : newtonFrom 0 j cs = 0 := by
  induction cs generalizing j with
  | nil => rfl
  | cons c cs ih =>
    rw [newtonFrom, ih (by omega), Nat.choose_eq_zero_of_lt hj]
    simp

lemma head?_recurrenceRun (i : Nat) (c : Int) (cs : List Int) :
    (recurrenceRun i (c :: cs)).head? = some (newtonSeries i (c :: cs)) := by
  induction i generalizing c cs with
  | zero =>
    rw [newtonSeries_cons, newtonFrom_at_zero (by decide), add_zero, recurrenceRun, List.head?]
  | succ i ih =>
    rw [recurrenceRun, ← newtonSeries_recurrenceStep]
    cases cs with
    | nil => exact ih c []
    | cons d cs => exact ih (c + d) (recurrenceStep (d :: cs))

end Maple
