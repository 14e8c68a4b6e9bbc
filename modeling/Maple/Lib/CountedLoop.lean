import Maple.Lib.IntFormat

/-!
# Counted loops

The variable of a loop starts at a value of a format and a stride is added to it, where the sums
wrap around.
-/

/-- The condition of a loop holds in the first `n` tests and not in the next one. -/
def LeavesAfter (cond : Nat → Prop) (n : Nat) : Prop := (∀ k < n, cond k) ∧ ¬ cond n

lemma leavesAfter_zero_iff {cond : Nat → Prop} : LeavesAfter cond 0 ↔ ¬ cond 0 := by
  simp [LeavesAfter]

lemma leavesAfter_congr {cond cond' : Nat → Prop} (h : ∀ k, cond k ↔ cond' k) (n : Nat) :
    LeavesAfter cond n ↔ LeavesAfter cond' n := by
  simp only [LeavesAfter, h]

namespace IntFormat

variable {f : IntFormat} {start stride bound : Int}

/-- The loop variable after `k` additions. -/
def stepped (f : IntFormat) (start stride : Int) : Nat → Int
  | 0 => start
  | k + 1 => f.wrap (stepped f start stride k + stride)

lemma stepped_eq (hstart : f.Mem start) (k : Nat) :
    f.stepped start stride k = f.wrap (start + k * stride) := by
  induction k with
  | zero => simp [stepped, f.wrap_of_mem hstart]
  | succ k ih =>
    rw [stepped, ih, wrap_wrap_add]
    push_cast
    ring_nf

/-! ### Loops that count up

`x` counts up from `start` and comes back to `start + k * stride - modulus` behind `hi`. -/

section Up

variable {x : Nat → Int} {lo hi modulus : Int} {n : Nat}

lemma lt_bound_of_lt (hx : ∀ k : Nat, lo ≤ start + k * stride → start + k * stride ≤ hi →
      x k = start + k * stride)
    (hlo : lo ≤ start) (hhi : bound ≤ hi + 1) (hstride : 0 < stride)
    (hlast : start + (n - 1) * stride < bound) {k : Nat} (hk : k < n) : x k < bound := by
  have hle : (k : Int) * stride ≤ (n - 1) * stride :=
    mul_le_mul_of_nonneg_right (by omega) hstride.le
  have hnonneg : 0 ≤ (k : Int) * stride := mul_nonneg (by omega) hstride.le
  rw [hx k (by omega) (by omega)]
  omega

lemma leavesAfter_lt_iff (hx : ∀ k : Nat, lo ≤ start + k * stride → start + k * stride ≤ hi →
      x k = start + k * stride)
    (hover : ∀ k : Nat, hi < start + k * stride → start + k * stride ≤ hi + modulus →
      x k = start + k * stride - modulus)
    (hlo : lo ≤ start) (hhi : bound ≤ hi + 1) (hstride : 0 < stride) (hlt : stride < modulus)
    (hlast : start + (n - 1) * stride < bound) (hend : bound ≤ start + n * stride) :
    LeavesAfter (fun k => x k < bound) n ↔ start + n * stride ≤ hi := by
  have hstep : ((n : Int) - 1) * stride = n * stride - stride := by ring
  have hnonneg : 0 ≤ (n : Int) * stride := mul_nonneg (by omega) hstride.le
  constructor
  · rintro ⟨-, hfail⟩
    by_contra hgt
    have hwrap := hover n (by omega) (by omega)
    simp only [hwrap, not_lt] at hfail
    omega
  · intro hle
    refine ⟨fun k hk => lt_bound_of_lt hx hlo hhi hstride hlast hk, ?_⟩
    simp only [hx n (by omega) hle]
    omega

lemma leavesAfter_gt_iff (hx : ∀ k : Nat, lo ≤ start + k * stride → start + k * stride ≤ hi →
      x k = start + k * stride)
    (hover : ∀ k : Nat, hi < start + k * stride → start + k * stride ≤ hi + modulus →
      x k = start + k * stride - modulus)
    (hlo : lo ≤ start) (hbound : bound < start) (hstride : 0 < stride) (hlt : stride < modulus)
    (hlast : start + (n - 1) * stride ≤ hi) (hend : hi < start + n * stride) :
    LeavesAfter (fun k => bound < x k) n ↔ start + n * stride - modulus ≤ bound := by
  have hstep : ((n : Int) - 1) * stride = n * stride - stride := by ring
  have hholds : ∀ k < n, bound < x k := by
    intro k hk
    have hle : (k : Int) * stride ≤ (n - 1) * stride :=
      mul_le_mul_of_nonneg_right (by omega) hstride.le
    have hnonneg : 0 ≤ (k : Int) * stride := mul_nonneg (by omega) hstride.le
    rw [hx k (by omega) (by omega)]
    omega
  have hn : x n = start + n * stride - modulus := hover n hend (by omega)
  simp only [LeavesAfter, hn, not_lt]
  exact ⟨fun h => h.2, fun h => ⟨hholds, h⟩⟩

end Up

/-! ### The variable of a format -/

lemma stepped_of_mem (hstart : f.Mem start) {k : Nat} (h : f.Mem (start + k * stride)) :
    f.stepped start stride k = start + k * stride := by
  rw [stepped_eq hstart, f.wrap_of_mem h]

lemma stepped_of_gt (hstart : f.Mem start) {k : Nat} (h : f.maxValue < start + k * stride)
    (h' : start + k * stride ≤ f.maxValue + f.modulus) :
    f.stepped start stride k = start + k * stride - f.modulus := by
  rw [stepped_eq hstart, wrap_of_gt h (by omega)]

lemma stepped_of_lt (hstart : f.Mem start) {k : Nat} (h : start + k * stride < f.minValue)
    (h' : f.minValue ≤ start + k * stride + f.modulus) :
    f.stepped start stride k = start + k * stride + f.modulus := by
  rw [stepped_eq hstart, wrap_of_lt h h']

section Format

variable {n : Nat} (hstart : f.Mem start)

include hstart

lemma neg_stepped_of_mem {k : Nat} (h : -f.maxValue ≤ -start + k * -stride)
    (h' : -start + k * -stride ≤ -f.minValue) :
    -f.stepped start stride k = -start + k * -stride := by
  have hneg : (k : Int) * -stride = -(k * stride) := mul_neg _ _
  rw [stepped_of_mem hstart ⟨by omega, by omega⟩]
  omega

lemma neg_stepped_of_gt {k : Nat} (h : -f.minValue < -start + k * -stride)
    (h' : -start + k * -stride ≤ -f.minValue + f.modulus) :
    -f.stepped start stride k = -start + k * -stride - f.modulus := by
  have hneg : (k : Int) * -stride = -(k * stride) := mul_neg _ _
  rw [stepped_of_lt hstart (by omega) (by omega)]
  omega

lemma stepped_lt_of_lt (hbound : bound ≤ f.maxValue + 1) (hstride : 0 < stride)
    (hlast : start + (n - 1) * stride < bound) {k : Nat} (hk : k < n) :
    f.stepped start stride k < bound :=
  lt_bound_of_lt (fun _ h h' => stepped_of_mem hstart ⟨h, h'⟩) hstart.1 hbound hstride hlast hk

lemma lt_stepped_of_lt (hbound : f.minValue ≤ bound + 1) (hstride : stride < 0)
    (hlast : bound < start + (n - 1) * stride) {k : Nat} (hk : k < n) :
    bound < f.stepped start stride k := by
  have hneg : ((n : Int) - 1) * -stride = -((n - 1) * stride) := mul_neg _ _
  have hmax := hstart.2
  have hlt := @lt_bound_of_lt (-start) (-stride) (-bound) (fun k => -f.stepped start stride k)
    (-f.maxValue) (-f.minValue) n (fun _ h h' => neg_stepped_of_mem hstart h h') (by omega)
    (by omega) (by omega) (by omega) k hk
  omega

lemma leavesAfter_up_iff (hbound : bound ≤ f.maxValue + 1) (hstride : 0 < stride)
    (hlt : stride < f.modulus) (hlast : start + (n - 1) * stride < bound)
    (hend : bound ≤ start + n * stride) :
    LeavesAfter (fun k => f.stepped start stride k < bound) n ↔
      start + n * stride ≤ f.maxValue :=
  leavesAfter_lt_iff (fun _ h h' => stepped_of_mem hstart ⟨h, h'⟩)
    (fun _ h h' => stepped_of_gt hstart h h') hstart.1 hbound hstride hlt hlast hend

lemma leavesAfter_down_iff (hbound : f.minValue ≤ bound + 1) (hstride : stride < 0)
    (hlt : -stride < f.modulus) (hlast : bound < start + (n - 1) * stride)
    (hend : start + n * stride ≤ bound) :
    LeavesAfter (fun k => bound < f.stepped start stride k) n ↔
      f.minValue ≤ start + n * stride := by
  have hneg : ((n : Int) - 1) * -stride = -((n - 1) * stride) := mul_neg _ _
  have hneg' : (n : Int) * -stride = -(n * stride) := mul_neg _ _
  have hmax := hstart.2
  have h := @leavesAfter_lt_iff (-start) (-stride) (-bound) (fun k => -f.stepped start stride k)
    (-f.maxValue) (-f.minValue) f.modulus n (fun _ h h' => neg_stepped_of_mem hstart h h')
    (fun _ h h' => neg_stepped_of_gt hstart h h') (by omega) (by omega) (by omega) hlt (by omega)
    (by omega)
  rw [leavesAfter_congr fun k => (neg_lt_neg_iff (a := f.stepped start stride k)).symm, h]
  omega

lemma leavesAfter_upAround_iff (hbound : bound < start) (hstride : 0 < stride)
    (hlt : stride < f.modulus) (hlast : start + (n - 1) * stride ≤ f.maxValue)
    (hend : f.maxValue < start + n * stride) :
    LeavesAfter (fun k => bound < f.stepped start stride k) n ↔
      start + n * stride - f.modulus ≤ bound :=
  leavesAfter_gt_iff (fun _ h h' => stepped_of_mem hstart ⟨h, h'⟩)
    (fun _ h h' => stepped_of_gt hstart h h') hstart.1 hbound hstride hlt hlast hend

lemma leavesAfter_downAround_iff (hbound : start < bound) (hstride : stride < 0)
    (hlt : -stride < f.modulus) (hlast : f.minValue ≤ start + (n - 1) * stride)
    (hend : start + n * stride < f.minValue) :
    LeavesAfter (fun k => f.stepped start stride k < bound) n ↔
      bound ≤ start + n * stride + f.modulus := by
  have hneg : ((n : Int) - 1) * -stride = -((n - 1) * stride) := mul_neg _ _
  have hneg' : (n : Int) * -stride = -(n * stride) := mul_neg _ _
  have hmax := hstart.2
  have h := @leavesAfter_gt_iff (-start) (-stride) (-bound) (fun k => -f.stepped start stride k)
    (-f.maxValue) (-f.minValue) f.modulus n (fun _ h h' => neg_stepped_of_mem hstart h h')
    (fun _ h h' => neg_stepped_of_gt hstart h h') (by omega) (by omega) (by omega) hlt (by omega)
    (by omega)
  rw [leavesAfter_congr fun k => (neg_lt_neg_iff (a := bound)).symm, h]
  omega

end Format

end IntFormat
