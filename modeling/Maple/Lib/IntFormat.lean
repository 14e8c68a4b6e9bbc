import Mathlib.Algebra.Order.Ring.Int
import Mathlib.Tactic.Ring
import Mathlib.Tactic.Linarith

/-!
# Fixed-width integer formats

A format is a number of bits with a signedness. `wrap` cuts an integer down to the format (two's
complement).
-/

structure IntFormat where
  width : Nat
  signed : Bool
  deriving DecidableEq, Repr

namespace IntFormat

variable (f : IntFormat)

def modulus : Nat := 2 ^ f.width

def minValue : Int := if f.signed then -(f.modulus / 2) else 0

def maxValue : Int := if f.signed then (f.modulus + 1) / 2 - 1 else f.modulus - 1

/-- The integers that the format represents. -/
def Mem (v : Int) : Prop := f.minValue ≤ v ∧ v ≤ f.maxValue

instance (v : Int) : Decidable (f.Mem v) := inferInstanceAs (Decidable (_ ∧ _))

def wrap (v : Int) : Int := if f.signed then v.bmod f.modulus else v % f.modulus

lemma modulus_pos : 0 < f.modulus := Nat.two_pow_pos _

lemma modulus_pos' : (0 : Int) < f.modulus := by
  exact_mod_cast f.modulus_pos

lemma two_mul_half_modulus (h : 0 < f.width) : (2 : Int) * (f.modulus / 2) = f.modulus := by
  obtain ⟨n, hn⟩ : ∃ n, f.width = n + 1 := ⟨f.width - 1, by omega⟩
  simp only [modulus, hn, pow_succ]
  push_cast
  omega

lemma maxValue_sub_minValue : f.maxValue - f.minValue = f.modulus - 1 := by
  unfold maxValue minValue
  split <;> omega

lemma minValue_le_maxValue : f.minValue ≤ f.maxValue := by
  have := f.maxValue_sub_minValue
  have := f.modulus_pos'
  omega

lemma minValue_nonpos : f.minValue ≤ 0 := by
  have := f.modulus_pos'
  unfold minValue
  split <;> omega

lemma maxValue_nonneg : 0 ≤ f.maxValue := by
  have := f.modulus_pos'
  unfold maxValue
  split <;> omega

lemma wrap_mem (v : Int) : f.Mem (f.wrap v) := by
  have hm := f.modulus_pos
  unfold Mem minValue maxValue wrap
  split
  · have h₁ := Int.le_bmod (x := v) hm
    have h₂ := Int.bmod_lt (x := v) hm
    omega
  · have h₁ := Int.emod_nonneg v (Int.ne_of_gt f.modulus_pos')
    have h₂ := Int.emod_lt_of_pos v f.modulus_pos'
    omega

lemma wrap_emod (v : Int) : f.wrap v % f.modulus = v % f.modulus := by
  unfold wrap
  split
  · exact Int.bmod_emod
  · exact Int.emod_emod_of_dvd v (dvd_refl _)

lemma wrap_eq_wrap_iff (a b : Int) : f.wrap a = f.wrap b ↔ a % f.modulus = b % f.modulus := by
  constructor
  · intro h
    rw [← f.wrap_emod a, h, f.wrap_emod]
  · intro h
    unfold wrap
    split
    · rw [← Int.emod_bmod a, h, Int.emod_bmod]
    · exact h

lemma wrap_add_wrap (a b : Int) : f.wrap (a + f.wrap b) = f.wrap (a + b) := by
  rw [f.wrap_eq_wrap_iff, Int.add_emod, f.wrap_emod, ← Int.add_emod]

lemma wrap_wrap_add (a b : Int) : f.wrap (f.wrap a + b) = f.wrap (a + b) := by
  rw [f.wrap_eq_wrap_iff, Int.add_emod, f.wrap_emod, ← Int.add_emod]

lemma wrap_sub_wrap (a b : Int) : f.wrap (a - f.wrap b) = f.wrap (a - b) := by
  rw [f.wrap_eq_wrap_iff, Int.sub_emod, f.wrap_emod, ← Int.sub_emod]

lemma wrap_wrap_sub (a b : Int) : f.wrap (f.wrap a - b) = f.wrap (a - b) := by
  rw [f.wrap_eq_wrap_iff, Int.sub_emod, f.wrap_emod, ← Int.sub_emod]

lemma wrap_wrap_sub_wrap (a b : Int) : f.wrap (f.wrap a - f.wrap b) = f.wrap (a - b) := by
  rw [f.wrap_sub_wrap, f.wrap_eq_wrap_iff, Int.sub_emod, f.wrap_emod, ← Int.sub_emod]

lemma eq_of_mem_of_emod_eq {a b : Int} (ha : f.Mem a) (hb : f.Mem b)
    (h : a % f.modulus = b % f.modulus) : a = b := by
  have hspan := f.maxValue_sub_minValue
  obtain ⟨k, hk⟩ : (f.modulus : Int) ∣ a - b :=
    Int.dvd_of_emod_eq_zero (Int.emod_eq_emod_iff_emod_sub_eq_zero.mp h)
  have hm := f.modulus_pos'
  unfold Mem at ha hb
  have hk0 : k = 0 := by
    rcases lt_trichotomy k 0 with hneg | hzero | hpos
    · have := mul_le_mul_of_nonneg_left (show k ≤ -1 by omega) hm.le
      omega
    · exact hzero
    · have := mul_le_mul_of_nonneg_left (show 1 ≤ k by omega) hm.le
      omega
  subst hk0
  omega

lemma wrap_eq_self_iff (v : Int) : f.wrap v = v ↔ f.Mem v := by
  constructor
  · intro h
    exact h ▸ f.wrap_mem v
  · intro h
    exact f.eq_of_mem_of_emod_eq (f.wrap_mem v) h (f.wrap_emod v)

lemma wrap_of_mem {v : Int} (h : f.Mem v) : f.wrap v = v := (f.wrap_eq_self_iff v).mpr h

@[simp] lemma wrap_zero : f.wrap 0 = 0 := f.wrap_of_mem ⟨f.minValue_nonpos, f.maxValue_nonneg⟩

lemma wrap_eq_of_mem {a b : Int} (hb : f.Mem b) (h : a % f.modulus = b % f.modulus) :
    f.wrap a = b := by
  rw [(f.wrap_eq_wrap_iff a b).mpr h, f.wrap_of_mem hb]

lemma wrap_of_lt {f : IntFormat} {v : Int} (h : v < f.minValue)
    (h' : f.minValue ≤ v + f.modulus) : f.wrap v = v + f.modulus := by
  have := f.maxValue_sub_minValue
  apply f.wrap_eq_of_mem ⟨h', by omega⟩
  rw [Int.add_emod_right]

lemma wrap_of_gt {f : IntFormat} {v : Int} (h : f.maxValue < v)
    (h' : v - f.modulus ≤ f.maxValue) : f.wrap v = v - f.modulus := by
  have := f.maxValue_sub_minValue
  apply f.wrap_eq_of_mem ⟨by omega, h'⟩
  rw [Int.sub_emod_right]

@[simp] lemma wrap_wrap (v : Int) : f.wrap (f.wrap v) = f.wrap v := f.wrap_of_mem (f.wrap_mem v)

lemma wrap_wrap_of_width_le {f g : IntFormat} (h : f.width ≤ g.width) (v : Int) :
    f.wrap (g.wrap v) = f.wrap v := by
  have hdvd : (f.modulus : Int) ∣ g.modulus := by
    exact_mod_cast pow_dvd_pow 2 h
  rw [f.wrap_eq_wrap_iff, ← Int.emod_emod_of_dvd _ hdvd, g.wrap_emod, Int.emod_emod_of_dvd _ hdvd]

lemma Mem.of_width_le {f g : IntFormat} {v : Int} (hv : f.Mem v) (h : f.width ≤ g.width)
    (hsigned : f.signed = g.signed) : g.Mem v := by
  have hpow : f.modulus ≤ g.modulus := Nat.pow_le_pow_right (by decide) h
  unfold Mem minValue maxValue at hv ⊢
  rw [hsigned] at hv
  split_ifs at hv ⊢ <;> omega

lemma wrap_inj_of_width_le {f g : IntFormat} (h : f.width ≤ g.width) {a b : Int} (ha : f.Mem a)
    (hb : f.Mem b) (heq : g.wrap a = g.wrap b) : a = b := by
  have hdvd : (f.modulus : Int) ∣ g.modulus := by
    exact_mod_cast pow_dvd_pow 2 h
  apply f.eq_of_mem_of_emod_eq ha hb
  rw [← Int.emod_emod_of_dvd a hdvd, (g.wrap_eq_wrap_iff a b).mp heq, Int.emod_emod_of_dvd b hdvd]

lemma exists_wrap_eq_of_width_lt {f g : IntFormat} (h : g.width < f.width) {a : Int}
    (ha : f.Mem a) : ∃ b, f.Mem b ∧ b ≠ a ∧ g.wrap b = g.wrap a := by
  have hspan := f.maxValue_sub_minValue
  have hpos := g.modulus_pos'
  have htwice : 2 * (g.modulus : Int) ≤ f.modulus := by
    have hpow : 2 ^ (g.width + 1) ≤ 2 ^ f.width := Nat.pow_le_pow_right (by decide) h
    rw [pow_succ] at hpow
    unfold modulus
    omega
  unfold Mem at ha ⊢
  by_cases hup : a + g.modulus ≤ f.maxValue
  · refine ⟨a + g.modulus, ⟨by omega, hup⟩, by omega, ?_⟩
    rw [wrap_eq_wrap_iff, Int.add_emod_right]
  · refine ⟨a - g.modulus, ⟨by omega, by omega⟩, by omega, ?_⟩
    rw [wrap_eq_wrap_iff, Int.sub_emod_right]

end IntFormat
