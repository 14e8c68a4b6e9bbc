import Mathlib.Algebra.Order.Ring.Nat
import Mathlib.Tactic.Ring
import Mathlib.Tactic.Linarith

/-!
# Rounding up to a power of two

Rounding as alignment computations do it, and the start of the aligned block that a position is in.
-/

namespace Maple

/-- The least multiple of `u` that is not below `n`. -/
def up (n u : Nat) : Nat := (n + u - 1) / u * u

section Up

variable {n u : Nat}

lemma le_up (hu : 0 < u) : n ≤ up n u := by
  have := Nat.div_add_mod (n + u - 1) u
  have := Nat.mod_lt (n + u - 1) hu
  rw [up, Nat.mul_comm]
  omega

lemma up_lt (hu : 0 < u) : up n u < n + u := by
  have := Nat.div_mul_le_self (n + u - 1) u
  rw [up]
  omega

lemma dvd_up (n u : Nat) : u ∣ up n u := Nat.dvd_mul_left u _

@[simp] lemma up_one (n : Nat) : up n 1 = n := by simp [up]

lemma up_mul (n : Nat) {u k : Nat} (hk : 0 < k) : up (k * n) (k * u) = k * up n u := by
  unfold up
  rcases Nat.eq_zero_or_pos u with rfl | hu
  · simp
  · have hdiv : (k * n + k * u - 1) / (k * u) = (n + u - 1) / u := by
      rw [← Nat.div_div_eq_div_mul]
      congr 1
      have hsum : k * n + k * u - 1 = k * (n + u - 1) + (k - 1) := by
        have hpos : 0 < n + u := by omega
        obtain ⟨m, hm⟩ : ∃ m, n + u = m + 1 := ⟨n + u - 1, by omega⟩
        rw [← Nat.mul_add, hm, Nat.mul_add]
        simp
        omega
      rw [hsum, Nat.mul_add_div hk, Nat.div_eq_of_lt (by omega), Nat.add_zero]
    rw [hdiv]
    ring

lemma up_of_dvd (hu : 0 < u) (h : u ∣ n) : up n u = n := by
  obtain ⟨c, rfl⟩ := h
  have hlt : (u * c + u - 1) / u = c := by
    rw [Nat.add_sub_assoc hu, Nat.mul_add_div hu, Nat.div_eq_of_lt (by omega), Nat.add_zero]
  rw [up, hlt, Nat.mul_comm]

lemma up_eq_self_iff (hu : 0 < u) : up n u = n ↔ u ∣ n :=
  ⟨fun h => h ▸ dvd_up n u, up_of_dvd hu⟩

lemma up_le {m : Nat} (hu : 0 < u) (hle : n ≤ m) (h : u ∣ m) : up n u ≤ m := by
  calc up n u ≤ up m u := Nat.mul_le_mul_right _ (Nat.div_le_div_right (by omega))
    _ = m := up_of_dvd hu h

lemma up_up {v : Nat} (hu : 0 < u) (hv : 0 < v) (h : u ∣ v) : up (up n u) v = up n v := by
  apply le_antisymm
  · exact up_le hv (up_le hu (le_up hv) (h.trans (dvd_up n v))) (dvd_up n v)
  · exact up_le hv ((le_up hu).trans (le_up hv)) (dvd_up _ v)

lemma up_add_of_dvd (m : Nat) (hu : 0 < u) (h : u ∣ n) : up (n + m) u = n + up m u := by
  obtain ⟨c, rfl⟩ := h
  have hsum : u * c + m + u - 1 = u * c + (m + u - 1) := by omega
  rw [up, up, hsum, Nat.mul_add_div hu, Nat.add_mul, Nat.mul_comm c u]

end Up

/-! ### Blocks -/

/-- The start of the block of size `2 ^ k` that `n` is in. -/
def blockStart (n k : Nat) : Nat := n - n % 2 ^ k

lemma dvd_blockStart (n k : Nat) : 2 ^ k ∣ blockStart n k := Nat.dvd_sub_mod n

lemma blockStart_lt {n k : Nat} (h : n % 2 ^ k ≠ 0) : blockStart n k < n := by
  have := Nat.mod_le n (2 ^ k)
  unfold blockStart
  omega

lemma lt_blockStart_add (n k : Nat) : n < blockStart n k + 2 ^ k := by
  have := Nat.mod_lt n (Nat.two_pow_pos k)
  unfold blockStart
  omega

lemma blockStart_eq {n k s : Nat} (hs : 2 ^ k ∣ s) (hle : s ≤ n) (hlt : n < s + 2 ^ k) :
    blockStart n k = s := by
  obtain ⟨c, rfl⟩ := hs
  have hmod : n % 2 ^ k = n - 2 ^ k * c := by
    have hn : n = n - 2 ^ k * c + 2 ^ k * c := by omega
    rw [hn, Nat.add_mul_mod_self_left, Nat.mod_eq_of_lt (by omega)]
    omega
  unfold blockStart
  omega

/-- The starts of the unfinished blocks below `n` are in `occupied`. -/
def BlocksBegun (occupied : Nat → Prop) (n : Nat) : Prop :=
  ∀ k, n % 2 ^ k ≠ 0 → occupied (blockStart n k)

lemma blocksBegun_zero (occupied : Nat → Prop) : BlocksBegun occupied 0 := by
  intro k hk
  simp at hk

lemma BlocksBegun.up {occupied : Nat → Prop} {n : Nat} (h : BlocksBegun occupied n) (j : Nat) :
    BlocksBegun occupied (up n (2 ^ j)) := by
  intro k hk
  have hpos := Nat.two_pow_pos j
  have hjk : j ≤ k := by
    by_contra hlt
    have hdvd : (2 : Nat) ^ k ∣ 2 ^ j := Nat.pow_dvd_pow 2 (by omega)
    exact hk (Nat.mod_eq_zero_of_dvd (hdvd.trans (dvd_up n _)))
  have hdvd : (2 : Nat) ^ j ∣ blockStart (Maple.up n (2 ^ j)) k :=
    (Nat.pow_dvd_pow 2 hjk).trans (dvd_blockStart _ _)
  -- the block starts at least one unit below, hence below `n`
  have hstep : blockStart (Maple.up n (2 ^ j)) k + 2 ^ j ≤ Maple.up n (2 ^ j) := by
    obtain ⟨a, ha⟩ := hdvd
    obtain ⟨b, hb⟩ := dvd_up n (2 ^ j)
    have hlt := blockStart_lt hk
    rw [ha, hb] at hlt
    rw [ha, hb]
    have hab : a < b := Nat.lt_of_mul_lt_mul_left hlt
    calc 2 ^ j * a + 2 ^ j = 2 ^ j * (a + 1) := by ring
      _ ≤ 2 ^ j * b := Nat.mul_le_mul_left _ hab
  have hup := up_lt (n := n) hpos
  have hle := le_up (n := n) hpos
  have hblock := lt_blockStart_add (Maple.up n (2 ^ j)) k
  have heq : blockStart n k = blockStart (Maple.up n (2 ^ j)) k :=
    blockStart_eq (dvd_blockStart _ _) (by omega) (by omega)
  rw [← heq]
  apply h
  intro hzero
  rw [blockStart, hzero] at heq
  omega

lemma BlocksBegun.add {occupied : Nat → Prop} {n : Nat} (h : BlocksBegun occupied n) (len : Nat) :
    BlocksBegun (fun b => occupied b ∨ n ≤ b ∧ b < n + len) (n + len) := by
  intro k hk
  have hlt := blockStart_lt hk
  have hblock := lt_blockStart_add (n + len) k
  rcases Nat.lt_or_ge (blockStart (n + len) k) n with hbelow | hge
  · left
    have heq : blockStart n k = blockStart (n + len) k :=
      blockStart_eq (dvd_blockStart _ _) (by omega) (by omega)
    rw [← heq]
    apply h
    intro hzero
    rw [blockStart, hzero] at heq
    omega
  · exact Or.inr ⟨hge, hlt⟩

end Maple
