import Mathlib.Data.Nat.Notation
import Mathlib.Tactic.SplitIfs
import Mathlib.Tactic.TypeStar

/-!
# Computations with a record of their shifts

A shift of a 64-bit word is defined for the amounts below 64 only. A computation that records the
amounts can be asked for them; the record changes nothing of its value.
-/

/-- A value with the amounts of the shifts that have led to it. -/
structure Logged (α : Type*) where
  val : α
  amounts : List ℕ

namespace Logged

variable {α β : Type}

instance : Monad Logged where
  pure a := ⟨a, []⟩
  bind x f := ⟨(f x.val).val, x.amounts ++ (f x.val).amounts⟩

/-- A shift to the left. -/
def shl (w : UInt64) (amount : ℕ) : Logged UInt64 := ⟨w <<< UInt64.ofNat amount, [amount]⟩

/-- A shift to the right. -/
def shr (w : UInt64) (amount : ℕ) : Logged UInt64 := ⟨w >>> UInt64.ofNat amount, [amount]⟩

/-- A shift of a signed word to the right. -/
def sar (w : Int64) (amount : ℕ) : Logged Int64 := ⟨w >>> Int64.ofNat amount, [amount]⟩

/-- All amounts are below the size of a word. -/
def InRange (x : Logged α) : Prop := ∀ k ∈ x.amounts, k < 64

instance (x : Logged α) : Decidable x.InRange := inferInstanceAs (Decidable (∀ _ ∈ _, _))

@[simp] lemma val_pure (a : α) : (pure a : Logged α).val = a := rfl

@[simp] lemma val_bind (x : Logged α) (f : α → Logged β) : (x >>= f).val = (f x.val).val := rfl

@[simp] lemma val_shl (w : UInt64) (k : ℕ) : (shl w k).val = w <<< UInt64.ofNat k := rfl

@[simp] lemma val_shr (w : UInt64) (k : ℕ) : (shr w k).val = w >>> UInt64.ofNat k := rfl

@[simp] lemma val_sar (w : Int64) (k : ℕ) : (sar w k).val = w >>> Int64.ofNat k := rfl

@[simp] lemma val_ite (p : Prop) [Decidable p] (x y : Logged α) :
    (if p then x else y).val = if p then x.val else y.val := apply_ite val p x y

@[simp] lemma inRange_pure (a : α) : (pure a : Logged α).InRange := nofun

@[simp] lemma inRange_bind (x : Logged α) (f : α → Logged β) :
    (x >>= f).InRange ↔ x.InRange ∧ (f x.val).InRange := by
  change (∀ k ∈ x.amounts ++ (f x.val).amounts, k < 64) ↔ _
  simp only [List.mem_append, or_imp, forall_and]
  rfl

@[simp] lemma inRange_shl (w : UInt64) (k : ℕ) : (shl w k).InRange ↔ k < 64 := by
  simp [InRange, shl]

@[simp] lemma inRange_shr (w : UInt64) (k : ℕ) : (shr w k).InRange ↔ k < 64 := by
  simp [InRange, shr]

@[simp] lemma inRange_sar (w : Int64) (k : ℕ) : (sar w k).InRange ↔ k < 64 := by
  simp [InRange, sar]

lemma inRange_ite {p : Prop} [Decidable p] {x y : Logged α} :
    (if p then x else y).InRange ↔ (p → x.InRange) ∧ (¬p → y.InRange) := by
  split_ifs with h
  · simp [h]
  · simp [h]

/-! ### Loops -/

lemma val_foldlM {f : β → α → Logged β} {g : β → α → β} {l : List α}
    (h : ∀ s, ∀ x ∈ l, (f s x).val = g s x) (s : β) : (l.foldlM f s).val = l.foldl g s := by
  induction l generalizing s with
  | nil => rfl
  | cons x l ih =>
    rw [List.foldlM_cons, val_bind, List.foldl_cons, h s x List.mem_cons_self,
      ih fun s y hy => h s y (List.mem_cons_of_mem x hy)]

lemma inRange_foldlM {f : β → α → Logged β} {l : List α} (h : ∀ s, ∀ x ∈ l, (f s x).InRange)
    (s : β) : (l.foldlM f s).InRange := by
  induction l generalizing s with
  | nil => exact inRange_pure s
  | cons x l ih =>
    rw [List.foldlM_cons, inRange_bind]
    exact ⟨h s x List.mem_cons_self, ih (fun s y hy => h s y (List.mem_cons_of_mem x hy)) _⟩

end Logged
