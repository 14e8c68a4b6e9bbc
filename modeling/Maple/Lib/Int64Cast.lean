import Maple.Lib.IntFormat
import Mathlib.Data.List.Sort
import Mathlib.Order.Interval.Finset.Nat
import Mathlib.Data.Int.Interval

/-!
# 64-bit integers

The casts of `Int64` that a C program writes, as integer arithmetic, and the ends of sorted lists.
-/

namespace List

lemma covers_interval_iff {lower upper : Int} {l : List Int}
    (hmem : ∀ m ∈ l, lower ≤ m ∧ m ≤ upper) (hlen : (l.length : Int) = upper - lower + 1) :
    (∀ m, lower ≤ m → m ≤ upper → m ∈ l) ↔ l.Nodup := by
  have hsub : l.toFinset ⊆ Finset.Icc lower upper := by
    intro m hm
    exact Finset.mem_Icc.mpr (hmem m (List.mem_toFinset.mp hm))
  have hcard : (Finset.Icc lower upper).card = l.length := by
    rw [Int.card_Icc]
    omega
  constructor
  · intro hcover
    have heq : l.toFinset = Finset.Icc lower upper := by
      apply Finset.Subset.antisymm hsub
      intro m hm
      rw [Finset.mem_Icc] at hm
      exact List.mem_toFinset.mpr (hcover m hm.1 hm.2)
    rw [← heq] at hcard
    exact Multiset.toFinset_card_eq_card_iff_nodup.mp hcard
  · intro hnodup m hlo hhi
    have heq : l.toFinset = Finset.Icc lower upper := by
      apply Finset.eq_of_subset_of_card_le hsub
      rw [hcard, List.toFinset_card_of_nodup hnodup]
    rw [← List.mem_toFinset, heq]
    exact Finset.mem_Icc.mpr ⟨hlo, hhi⟩

lemma head_eq_some_iff_of_pairwise {α : Type} {r : α → α → Prop} (hrefl : ∀ a, r a a)
    (hantisymm : ∀ a b, r a b → r b a → a = b) {l : List α} (hl : l.Pairwise r) (c : α) :
    l.head? = some c ↔ c ∈ l ∧ ∀ x ∈ l, r c x := by
  cases l with
  | nil => simp
  | cons x xs =>
    rw [List.pairwise_cons] at hl
    constructor
    · intro h
      cases h
      refine ⟨List.mem_cons_self, ?_⟩
      intro y hy
      rcases List.mem_cons.mp hy with rfl | hy
      · exact hrefl y
      · exact hl.1 y hy
    · rintro ⟨hmem, hall⟩
      rcases List.mem_cons.mp hmem with rfl | hmem
      · rfl
      · rw [List.head?_cons, hantisymm x c (hl.1 c hmem) (hall x List.mem_cons_self)]

lemma getLast_eq_some_iff_of_pairwise {α : Type} {r : α → α → Prop} (hrefl : ∀ a, r a a)
    (hantisymm : ∀ a b, r a b → r b a → a = b) {l : List α} (hl : l.Pairwise r) (c : α) :
    l.getLast? = some c ↔ c ∈ l ∧ ∀ x ∈ l, r x c := by
  rw [List.getLast?_eq_head?_reverse, head_eq_some_iff_of_pairwise (r := fun a b => r b a) hrefl
    (fun a b hab hba => hantisymm a b hba hab) (List.pairwise_reverse.mpr hl)]
  simp only [List.mem_reverse]

end List

namespace Int64

/-- The number that the bits of `c` are as an unsigned integer. -/
def asUInt64 (c : Int64) : Nat := c.toUInt64.toNat

lemma asUInt64_eq (c : Int64) : (asUInt64 c : Int) = c.toInt % 2 ^ 64 := by
  have hnat : asUInt64 c = c.toBitVec.toNat := rfl
  have hint : c.toInt = c.toBitVec.toInt := rfl
  have hlt := c.toBitVec.isLt
  rw [hnat, hint, BitVec.toInt_eq_toNat_cond]
  split <;> omega

lemma asUInt64_add (a b : Int64) : ((a + b).asUInt64 : Int) = (a.toInt + b.toInt) % 2 ^ 64 := by
  rw [asUInt64_eq, Int64.toInt_add]
  exact Int.bmod_emod

lemma asUInt64_sub (a b : Int64) : ((a - b).asUInt64 : Int) = (a.toInt - b.toInt) % 2 ^ 64 := by
  rw [asUInt64_eq, Int64.toInt_sub]
  exact Int.bmod_emod

lemma toInt_add_eq {a b : Int64} (hlo : -2 ^ 63 ≤ a.toInt + b.toInt)
    (hhi : a.toInt + b.toInt < 2 ^ 63) : (a + b).toInt = a.toInt + b.toInt := by
  rw [Int64.toInt_add, Int.bmod_eq_of_le] <;> omega

lemma toInt_sub_eq {a b : Int64} (hlo : -2 ^ 63 ≤ a.toInt - b.toInt)
    (hhi : a.toInt - b.toInt < 2 ^ 63) : (a - b).toInt = a.toInt - b.toInt := by
  rw [Int64.toInt_sub, Int.bmod_eq_of_le] <;> omega

/-- Conversion to a signed type of `n` bits and back. -/
def castSigned (c : Int64) (n : Nat) : Int64 := Int64.ofInt (c.toInt.bmod (2 ^ n))

/-- Conversion to an unsigned type of `n` bits and back. -/
def castUnsigned (c : Int64) (n : Nat) : Int64 := Int64.ofInt (c.toInt % 2 ^ n)

lemma toInt_castSigned {n : Nat} (hn : n ≤ 64) (c : Int64) :
    (castSigned c n).toInt = c.toInt.bmod (2 ^ n) := by
  have hpow : (2 : Nat) ^ n ≤ 2 ^ 64 := Nat.pow_le_pow_right (by decide) hn
  have hpos : 0 < (2 : Nat) ^ n := Nat.two_pow_pos n
  have hle := @Int.le_bmod c.toInt _ hpos
  have hlt := @Int.bmod_lt c.toInt _ hpos
  exact Int64.toInt_ofInt_of_le (by omega) (by omega)

lemma toInt_castUnsigned {n : Nat} (hn : n < 64) (c : Int64) :
    (castUnsigned c n).toInt = c.toInt % 2 ^ n := by
  have hpow : (2 : Int) ^ n ≤ 2 ^ 63 := pow_le_pow_right₀ (by decide) (by omega)
  have hpos : (0 : Int) < 2 ^ n := by positivity
  have hle := Int.emod_nonneg c.toInt (Int.ne_of_gt hpos)
  have hlt := Int.emod_lt_of_pos c.toInt hpos
  exact Int64.toInt_ofInt_of_le (by omega) (by omega)

lemma castUnsigned_64 (c : Int64) : castUnsigned c 64 = c := by
  rw [← Int64.toInt_inj, castUnsigned, Int64.toInt_ofInt]
  exact (@Int.emod_bmod c.toInt Int64.size).trans (Int64.toInt_bmod c)

/-! ### Sorted lists -/

lemma head_insertionSort_iff (tags : List Int64) (c : Int64) :
    (tags.insertionSort (· ≤ ·)).head? = some c ↔ c ∈ tags ∧ ∀ tag ∈ tags, c ≤ tag := by
  have hsorted := List.pairwise_insertionSort (fun a b : Int64 => a ≤ b) tags
  have hperm := List.perm_insertionSort (fun a b : Int64 => a ≤ b) tags
  rw [List.head_eq_some_iff_of_pairwise (fun a => Int64.le_refl a) (fun a b => Int64.le_antisymm) hsorted]
  simp only [hperm.mem_iff]

lemma getLast_insertionSort_iff (tags : List Int64) (c : Int64) :
    (tags.insertionSort (· ≤ ·)).getLast? = some c ↔ c ∈ tags ∧ ∀ tag ∈ tags, tag ≤ c := by
  have hsorted := List.pairwise_insertionSort (fun a b : Int64 => a ≤ b) tags
  have hperm := List.perm_insertionSort (fun a b : Int64 => a ≤ b) tags
  rw [List.getLast_eq_some_iff_of_pairwise (fun a => Int64.le_refl a)
    (fun a b => Int64.le_antisymm) hsorted]
  simp only [hperm.mem_iff]

end Int64

namespace IntFormat

lemma wrap_unsigned (n : Nat) (v : Int) : (IntFormat.mk n false).wrap v = v % 2 ^ n := by
  simp [IntFormat.wrap, IntFormat.modulus]

lemma wrap_signed (n : Nat) (v : Int) : (IntFormat.mk n true).wrap v = v.bmod (2 ^ n) := by
  simp [IntFormat.wrap, IntFormat.modulus]

end IntFormat
