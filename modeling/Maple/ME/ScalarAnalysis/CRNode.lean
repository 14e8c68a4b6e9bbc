import Maple.Lib.NewtonSeries
import Maple.Lib.While
import Mathlib.Data.List.Sort

/-!
# Chains of recurrences

The nodes that `LoopScalarAnalysisResult` computes for the expressions of a loop.
-/

namespace Maple

/-- `CRNode` and its subclasses. Constants are integers, without the bounds of `int64`. -/
inductive CRNode (Var : Type) where
  | const (value : Int)
  | var (x : Var)
  | add (opnds : List (CRNode Var))
  | mul (opnds : List (CRNode Var))
  | div (lhs rhs : CRNode Var)
  | cr (opnds : List (CRNode Var))

namespace CRNode

variable {Var : Type}

/-- `CRNodeType`, in the order of its values. -/
def typeRank : CRNode Var → Nat
  | const _ => 0
  | var _ => 1
  | add _ => 2
  | mul _ => 3
  | div _ _ => 4
  | cr _ => 5

def isAdd : CRNode Var → Bool
  | add _ => true
  | _ => false

def isMul : CRNode Var → Bool
  | mul _ => true
  | _ => false

def isDiv : CRNode Var → Bool
  | div _ _ => true
  | _ => false

def isCR : CRNode Var → Bool
  | cr _ => true
  | _ => false

/-- The constant zero. -/
def isZero : CRNode Var → Bool
  | const c => c == 0
  | _ => false

/-! ### Meaning -/

mutual

/-- The value of a node at iteration `i`. -/
def value (env : Var → Int) (i : Nat) : CRNode Var → Int
  | const c => c
  | var x => env x
  | add opnds => (values env i opnds).sum
  | mul opnds => (values env i opnds).prod
  | div lhs rhs => (value env i lhs).tdiv (value env i rhs)
  | cr opnds => newtonSeries i (values env i opnds)

def values (env : Var → Int) (i : Nat) : List (CRNode Var) → List Int
  | [] => []
  | n :: ns => value env i n :: values env i ns

end

section

attribute [local simp] value values

lemma values_eq_map (env : Var → Int) (i : Nat) (ns : List (CRNode Var)) :
    values env i ns = ns.map (value env i) := by
  induction ns with
  | nil => simp
  | cons n ns ih => simp [ih]

end

/-- The value of a sum. -/
def sumOf (env : Var → Int) (i : Nat) (ns : List (CRNode Var)) : Int :=
  (ns.map (value env i)).sum

/-- The value of a product. -/
def prodOf (env : Var → Int) (i : Nat) (ns : List (CRNode Var)) : Int :=
  (ns.map (value env i)).prod

section Values

variable (env : Var → Int) (i : Nat)

@[simp] lemma value_const (c : Int) : value env i (const c : CRNode Var) = c := by
  rw [value]

@[simp] lemma value_add (ns : List (CRNode Var)) : value env i (add ns) = sumOf env i ns := by
  rw [value, values_eq_map, sumOf]

@[simp] lemma value_mul (ns : List (CRNode Var)) : value env i (mul ns) = prodOf env i ns := by
  rw [value, values_eq_map, prodOf]

@[simp] lemma value_div (l r : CRNode Var) :
    value env i (div l r) = (value env i l).tdiv (value env i r) := by
  rw [value]

@[simp] lemma value_cr (ns : List (CRNode Var)) :
    value env i (cr ns) = newtonSeries i (ns.map (value env i)) := by
  rw [value, values_eq_map]

@[simp] lemma sumOf_nil : sumOf env i ([] : List (CRNode Var)) = 0 := rfl

@[simp] lemma sumOf_cons (n : CRNode Var) (ns : List (CRNode Var)) :
    sumOf env i (n :: ns) = value env i n + sumOf env i ns := by
  simp [sumOf]

@[simp] lemma sumOf_append (ns ms : List (CRNode Var)) :
    sumOf env i (ns ++ ms) = sumOf env i ns + sumOf env i ms := by
  simp [sumOf]

@[simp] lemma prodOf_nil : prodOf env i ([] : List (CRNode Var)) = 1 := rfl

@[simp] lemma prodOf_cons (n : CRNode Var) (ns : List (CRNode Var)) :
    prodOf env i (n :: ns) = value env i n * prodOf env i ns := by
  simp [prodOf]

@[simp] lemma prodOf_append (ns ms : List (CRNode Var)) :
    prodOf env i (ns ++ ms) = prodOf env i ns * prodOf env i ms := by
  simp [prodOf]

lemma sumOf_perm {ns ms : List (CRNode Var)} (h : ns.Perm ms) : sumOf env i ns = sumOf env i ms :=
  (h.map _).sum_eq

lemma prodOf_perm {ns ms : List (CRNode Var)} (h : ns.Perm ms) :
    prodOf env i ns = prodOf env i ms :=
  (h.map _).prod_eq

end Values

/-- `std::sort` with `CompareCRNodeWithCRType`, which leaves the order of nodes of one type
open. -/
structure TypeSort (Var : Type) where
  sort : List (CRNode Var) → List (CRNode Var)
  perm : ∀ ns, (sort ns).Perm ns
  sorted : ∀ ns, (sort ns).Pairwise fun a b => a.typeRank ≤ b.typeRank

/-- A stable order. -/
def stableSort (Var : Type) : TypeSort Var where
  sort := List.insertionSort fun a b => a.typeRank ≤ b.typeRank
  perm := List.perm_insertionSort _
  sorted := by
    intro ns
    have : Std.Total fun a b : CRNode Var => a.typeRank ≤ b.typeRank := ⟨fun a b => Nat.le_total _ _⟩
    have : IsTrans (CRNode Var) fun a b => a.typeRank ≤ b.typeRank := ⟨fun _ _ _ => Nat.le_trans⟩
    exact List.pairwise_insertionSort _ ns

/-- The constants in front of the list, merged into one, and the other nodes. -/
def mergeConsts (op : Int → Int → Int) (c : Int) : List (CRNode Var) → Int × List (CRNode Var)
  | const d :: ns => mergeConsts op (op c d) ns
  | ns => (c, ns)

/-- The operands of a sum. -/
def addOpnds : CRNode Var → Option (List (CRNode Var))
  | add opnds => some opnds
  | _ => none

/-- The operands of a product. -/
def mulOpnds : CRNode Var → Option (List (CRNode Var))
  | mul opnds => some opnds
  | _ => none

/-- The loop that unfolds nested sums or products: the parts of the first node are moved to the end
while it has any. Behind the end of the vector the access is undefined. -/
def unfoldParts (part : CRNode Var → Option (List (CRNode Var))) :
    Nat → List (CRNode Var) → Outcome (List (CRNode Var))
  | 0, _ => .outOfFuel
  | _ + 1, [] => .assertionFailed
  | fuel + 1, n :: ns =>
    match part n with
    | some opnds => unfoldParts part fuel (ns ++ opnds)
    | none => .done (n :: ns)

/-! ### Merged operands -/

/-- The operands `ms` are the operands `ns` in some order, with constants merged by `op` and without
its neutral constant `unit`. -/
inductive Merges (op : Int → Int → Int) (unit : Int) : List (CRNode Var) → List (CRNode Var) → Prop
  | perm {ns ms} (h : ms.Perm ns) : Merges op unit ns ms
  | const (c d : Int) (ns) : Merges op unit (const c :: const d :: ns) (const (op c d) :: ns)
  | unit (ns) : Merges op unit (const unit :: ns) ns
  | trans {ns ms ls} (h₁ : Merges op unit ns ms) (h₂ : Merges op unit ms ls) : Merges op unit ns ls

namespace Merges

variable {op : Int → Int → Int} {unit : Int} {ns ms : List (CRNode Var)}

lemma refl (ns : List (CRNode Var)) : Merges op unit ns ns := .perm (List.Perm.refl ns)

lemma sumOf_eq (h : Merges (· + ·) 0 ns ms) (env : Var → Int) (i : Nat) :
    sumOf env i ms = sumOf env i ns := by
  induction h with
  | perm h => exact sumOf_perm env i h
  | const c d ns =>
    simp only [sumOf_cons, value_const]
    omega
  | unit ns => simp
  | trans _ _ ih₁ ih₂ => rw [ih₂, ih₁]

lemma prodOf_eq (h : Merges (· * ·) 1 ns ms) (env : Var → Int) (i : Nat) :
    prodOf env i ms = prodOf env i ns := by
  induction h with
  | perm h => exact prodOf_perm env i h
  | const c d ns =>
    simp only [prodOf_cons, value_const]
    ring
  | unit ns => simp
  | trans _ _ ih₁ ih₂ => rw [ih₂, ih₁]

lemma sum_map_le {count : CRNode Var → Nat} {k : Nat} (hconst : ∀ c, count (.const c) = k)
    (h : Merges op unit ns ms) : (ms.map count).sum ≤ (ns.map count).sum := by
  induction h with
  | perm h => exact (h.map count).sum_eq.le
  | const c d ns =>
    simp only [List.map_cons, List.sum_cons, hconst]
    omega
  | unit ns => simp
  | trans _ _ ih₁ ih₂ => exact ih₂.trans ih₁

lemma forall_mem {P : CRNode Var → Prop} (hconst : ∀ c, P (.const c)) (h : Merges op unit ns ms)
    (hns : ∀ n ∈ ns, P n) : ∀ n ∈ ms, P n := by
  induction h with
  | perm h => exact fun n hn => hns n (h.mem_iff.mp hn)
  | const c d ns =>
    intro n hn
    rcases List.mem_cons.mp hn with rfl | hn
    · exact hconst _
    · exact hns n (by simp [hn])
  | unit ns => exact fun n hn => hns n (List.mem_cons_of_mem _ hn)
  | trans _ _ ih₁ ih₂ => exact ih₂ (ih₁ hns)

end Merges

lemma mergeConsts_merges (op : Int → Int → Int) (unit c : Int) (ns : List (CRNode Var)) :
    Merges op unit (const c :: ns) (const (mergeConsts op c ns).1 :: (mergeConsts op c ns).2) := by
  fun_induction mergeConsts op c ns with
  | case1 c d ns ih => exact .trans (.const c d ns) ih
  | case2 c ns => exact .refl _

/-! ### Unfolded operands -/

section Unfold

variable {part : CRNode Var → Option (List (CRNode Var))} {fuel : Nat} {ns ms : List (CRNode Var)}

lemma unfoldParts_invariant (Inv : List (CRNode Var) → Prop)
    (step : ∀ n opnds ns, part n = some opnds → Inv (n :: ns) → Inv (ns ++ opnds))
    (hns : Inv ns) (h : unfoldParts part fuel ns = .done ms) : Inv ms := by
  fun_induction unfoldParts part fuel ns with
  | case1 => cases h
  | case2 => cases h
  | case3 fuel n ns opnds hpart ih => exact ih (step n opnds ns hpart hns) h
  | case4 fuel n ns hpart =>
    cases h
    exact hns

lemma unfoldParts_settles (part : CRNode Var → Option (List (CRNode Var))) (count : CRNode Var → Nat)
    (hcount : ∀ n opnds, part n = some opnds → (opnds.map count).sum < count n)
    (ns : List (CRNode Var)) :
    ∃ o, Outcome.Settles (unfoldParts part · ns) o ∧
      ∀ ms, o = .done ms → (ms.map count).sum ≤ (ns.map count).sum ∧
        ∀ n ns', ns = n :: ns' → part n ≠ none → (ms.map count).sum < (ns.map count).sum := by
  induction hk : (ns.map count).sum using Nat.strong_induction_on generalizing ns with
  | _ k ih =>
  subst hk
  cases ns with
  | nil => exact ⟨.assertionFailed, .of_succ (Outcome.settles_const (by simp)), by simp⟩
  | cons n ns =>
    cases hpart : part n with
    | none =>
      refine ⟨.done (n :: ns), .of_succ ?_, ?_⟩
      · simp only [unfoldParts, hpart]
        exact Outcome.settles_const (by simp)
      · rintro _ ⟨⟩
        refine ⟨le_refl _, ?_⟩
        rintro _ _ ⟨⟩ h
        exact absurd hpart h
    | some opnds =>
      have hlt : ((ns ++ opnds).map count).sum < ((n :: ns).map count).sum := by
        have := hcount n opnds hpart
        simp only [List.map_append, List.sum_append, List.map_cons, List.sum_cons]
        omega
      obtain ⟨o, ho, hms⟩ := ih _ hlt (ns ++ opnds) rfl
      refine ⟨o, .of_succ ?_, ?_⟩
      · simp only [unfoldParts, hpart]
        exact ho
      · intro ms h
        have := (hms ms h).1
        exact ⟨by omega, fun _ _ _ _ => by omega⟩

end Unfold

end CRNode
end Maple
