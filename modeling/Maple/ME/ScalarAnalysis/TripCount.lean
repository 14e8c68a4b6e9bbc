import Maple.IR.Opcode
import Maple.Lib.CountedLoop
import Maple.Lib.Int64Cast

/-!
# Constant trip counts

`ComputeTripCountWithSimpleConstCR` computes with `int64` how often a loop runs whose 64-bit
variable starts at a constant, goes by a constant stride and is compared with a constant.
-/

namespace Maple
namespace TripCount

/-- The largest `uint64`. -/
def kInvalidTripCount : Nat := 2 ^ 64 - 1

/-- The weight of the calls: those of the other weight are not made again. -/
def callsAgain (op : CmpOp) (stride : Int64) : Nat :=
  match op with
  | .ge | .gt => if 0 < stride then 1 else 0
  | .le | .lt => if stride < 0 then 1 else 0
  | _ => 0

/-- `ComputeTripCountWithSimpleConstCR` for a stride other than zero. -/
def tripCount (op : CmpOp) (isSigned : Bool) (value start stride : Int64) : Nat :=
  let times := (value - start) / stride
  if times < 0 then kInvalidTripCount
  else
    let remainder := (value - start) % stride
    match op with
    | .ge =>
      if isSigned ∧ start < value then 0
      else if ¬ isSigned ∧ start.asUInt64 < value.asUInt64 then 0
      else if 0 < stride then
        if isSigned ∨ value = 0 ∨ value < stride ∨ remainder ≠ 0 then kInvalidTripCount
        -- change to "i <= umax" to compute
        else tripCount .le false (-1) start stride
      else (times + 1).asUInt64
    | .gt =>
      if isSigned ∧ start ≤ value then 0
      else if ¬ isSigned ∧ start.asUInt64 ≤ value.asUInt64 then 0
      else if 0 < stride then
        if isSigned ∨ remainder ≠ 0 then kInvalidTripCount
        else tripCount .le false (-1) start stride
      else (times + if remainder ≠ 0 then 1 else 0).asUInt64
    | .le =>
      if isSigned ∧ value < start then 0
      else if ¬ isSigned ∧ value.asUInt64 < start.asUInt64 then 0
      else if stride < 0 then
        if isSigned ∨ value = -1 ∨ stride.asUInt64 ≤ value.asUInt64 ∨ remainder ≠ 0 then
          kInvalidTripCount
        -- change to "i >= 0" to compute
        else tripCount .ge false 0 start stride
      else (times + 1).asUInt64
    | .lt =>
      if isSigned ∧ value ≤ start then 0
      else if ¬ isSigned ∧ value.asUInt64 ≤ start.asUInt64 then 0
      else if stride < 0 then
        if isSigned ∨ remainder ≠ 0 then kInvalidTripCount
        else tripCount .ge false 0 start stride
      else (times + if remainder ≠ 0 then 1 else 0).asUInt64
    | .eq => if start ≠ value then 0 else 1
    | .ne =>
      if start = value then 0
      else if remainder ≠ 0 then kInvalidTripCount
      else if stride < 0 then
        if isSigned ∧ start < value then kInvalidTripCount else times.asUInt64
      else if isSigned ∧ value < start then kInvalidTripCount else times.asUInt64
termination_by callsAgain op stride
decreasing_by
  all_goals
    rename_i h _
    simp only [callsAgain, Int64.lt_iff_toInt_lt] at h ⊢
    rw [if_pos h, if_neg (by omega)]
    decide

/-- `ComputeTripCountWithSimpleConstCR`, which checks that the stride is not zero. -/
def computeTripCountWithSimpleConstCR (op : CmpOp) (isSigned : Bool)
    (value start stride : Int64) : Option Nat :=
  if stride = 0 then none else some (tripCount op isSigned value start stride)

/-! ### The loop -/

/-- The 64-bit integers. -/
def format (isSigned : Bool) : IntFormat := ⟨64, isSigned⟩

/-- The number that a constant is in the loop. -/
def number (isSigned : Bool) (c : Int64) : Int := (format isSigned).wrap c.toInt

/-- The condition of the loop before the iteration `k`. -/
def Continues (op : CmpOp) (isSigned : Bool) (value start stride : Int64) (k : Nat) : Prop :=
  op.eval ((format isSigned).stepped (number isSigned start) stride.toInt k)
    (number isSigned value) = true

/-- The additions that the loop executes do not overflow. -/
def NoOverflow (op : CmpOp) (isSigned : Bool) (value start stride : Int64) : Prop :=
  ∀ k, (∀ j ≤ k, Continues op isSigned value start stride j) →
    (format isSigned).Mem
      ((format isSigned).stepped (number isSigned start) stride.toInt k + stride.toInt)

/-- The stride goes into the direction in which the condition becomes false. -/
def Approaches (op : CmpOp) (stride : Int) : Prop :=
  match op with
  | .lt | .le => 0 < stride
  | .gt | .ge => stride < 0
  | .eq | .ne => False

/-- How many strides lead from 0 to the distance `d`, or behind it unless `strict`. -/
def strides (strict : Bool) (d stride : Int) : Int :=
  d.tdiv stride + if strict = true ∧ d.tmod stride = 0 then 0 else 1

/-- How many strides lead to the first integer for which the condition is false. -/
def additions (op : CmpOp) (d stride : Int) : Int :=
  strides (decide (op = .lt ∨ op = .gt)) d stride

/-- The difference of the constants does not overflow, and the last addition of an unsigned loop
does not wrap around. -/
def CountsExactly (op : CmpOp) (isSigned : Bool) (value start stride : Int64) : Prop :=
  Approaches op stride.toInt →
  op.eval (number isSigned start) (number isSigned value) = true →
    (format true).Mem (number isSigned value - number isSigned start) ∧
    (isSigned = false → (format false).Mem (number isSigned start +
      additions op (number isSigned value - number isSigned start) stride.toInt * stride.toInt))

/-! ### Numbers of strides -/

lemma strides_neg (strict : Bool) (d stride : Int) :
    strides strict (-d) (-stride) = strides strict d stride := by
  simp only [strides, Int.neg_tdiv_neg, Int.tmod_neg, Int.neg_tmod, neg_eq_zero]

lemma strides_bounds (strict : Bool) {d stride : Int} (hd : 0 ≤ d) (hstride : 0 < stride) :
    0 ≤ strides strict d stride ∧
      (strides strict d stride - 1) * stride < d + (if strict then 0 else 1) ∧
      d + (if strict then 0 else 1) ≤ strides strict d stride * stride := by
  have hsum := Int.mul_tdiv_add_tmod d stride
  have hmod := Int.tmod_nonneg stride hd
  have hlt := Int.tmod_lt_of_pos d hstride
  have hdiv : 0 ≤ d.tdiv stride := Int.tdiv_nonneg hd hstride.le
  have hcomm : stride * d.tdiv stride = d.tdiv stride * stride := mul_comm _ _
  unfold strides
  split_ifs with h <;> simp_all [add_mul, sub_mul] <;> omega

/-! ### Constants and their differences -/

variable {isSigned : Bool} {value start stride : Int64}

lemma number_true (c : Int64) : number true c = c.toInt := by
  have hlo := c.le_toInt
  have hhi := c.toInt_lt
  exact (format true).wrap_of_mem ⟨by simpa [format, IntFormat.minValue, IntFormat.modulus] using hlo,
    by simp [format, IntFormat.maxValue, IntFormat.modulus]; omega⟩

lemma number_false (c : Int64) : number false c = c.asUInt64 := by
  rw [Int64.asUInt64_eq]
  rfl

lemma number_bounds (isSigned : Bool) (c : Int64) :
    (format isSigned).minValue ≤ number isSigned c ∧ number isSigned c ≤ (format isSigned).maxValue :=
  (format isSigned).wrap_mem c.toInt

lemma modulus_format (isSigned : Bool) : ((format isSigned).modulus : Int) = 2 ^ 64 := by
  simp [format, IntFormat.modulus]

lemma format_true : (format true).minValue = -2 ^ 63 ∧ (format true).maxValue = 2 ^ 63 - 1 := by
  decide

lemma format_false : (format false).minValue = 0 ∧ (format false).maxValue = 2 ^ 64 - 1 := by
  decide

lemma lt_number_iff (isSigned : Bool) (a b : Int64) :
    (isSigned = true ∧ a < b ∨ ¬ isSigned = true ∧ a.asUInt64 < b.asUInt64) ↔
      number isSigned a < number isSigned b := by
  cases isSigned
  · simp [number_false]
  · simp [number_true, Int64.lt_iff_toInt_lt]

lemma le_number_iff (isSigned : Bool) (a b : Int64) :
    (isSigned = true ∧ a ≤ b ∨ ¬ isSigned = true ∧ a.asUInt64 ≤ b.asUInt64) ↔
      number isSigned a ≤ number isSigned b := by
  cases isSigned
  · simp [number_false]
  · simp [number_true, Int64.le_iff_toInt_le]

lemma sub_cases (isSigned : Bool) (value start : Int64) :
    ((value - start).toInt = number isSigned value - number isSigned start ∧
      (format true).Mem (number isSigned value - number isSigned start)) ∨
    ((value - start).toInt = number isSigned value - number isSigned start - 2 ^ 64 ∧
      2 ^ 63 ≤ number isSigned value - number isSigned start) ∨
    ((value - start).toInt = number isSigned value - number isSigned start + 2 ^ 64 ∧
      number isSigned value - number isSigned start < -2 ^ 63) := by
  have hmod : (value - start).toInt % 2 ^ 64 = (value.toInt - start.toInt) % 2 ^ 64 := by
    rw [Int64.toInt_sub]
    exact Int.bmod_emod
  have hlo := (value - start).le_toInt
  have hhi := (value - start).toInt_lt
  have hvlo := value.le_toInt
  have hvhi := value.toInt_lt
  have halo := start.le_toInt
  have hahi := start.toInt_lt
  unfold IntFormat.Mem
  rw [format_true.1, format_true.2]
  cases isSigned
  · rw [number_false, number_false, Int64.asUInt64_eq, Int64.asUInt64_eq]
    omega
  · rw [number_true, number_true]
    omega

lemma times_eq {d stride : Int64} (h : ¬ d / stride < 0) :
    (d / stride).toInt = d.toInt.tdiv stride.toInt ∧ 0 ≤ d.toInt.tdiv stride.toInt := by
  rw [Int64.lt_iff_toInt_lt, Int64.toInt_div, Int64.toInt_zero] at h
  rw [Int64.toInt_div]
  have hle := Int.natAbs_tdiv_le_natAbs d.toInt stride.toInt
  have hlo := d.le_toInt
  have hhi := d.toInt_lt
  have hmod := @Int.bmod_emod (d.toInt.tdiv stride.toInt) (2 ^ 64)
  have hblo := @Int.le_bmod (d.toInt.tdiv stride.toInt) (2 ^ 64) (by decide)
  have hbhi := @Int.bmod_lt (d.toInt.tdiv stride.toInt) (2 ^ 64) (by decide)
  omega

lemma asUInt64_times (strict : Bool) {d stride : Int64} (h : ¬ d / stride < 0) :
    ((d / stride + if strict = true ∧ d % stride = 0 then 0 else 1).asUInt64 : Int) =
      strides strict d.toInt stride.toInt := by
  obtain ⟨htimes, hnonneg⟩ := times_eq h
  have hrem : d % stride = 0 ↔ d.toInt.tmod stride.toInt = 0 := by
    rw [← Int64.toInt_inj, Int64.toInt_mod, Int64.toInt_zero]
  have hhi := (d / stride).toInt_lt
  rw [Int64.asUInt64_add, htimes, strides]
  by_cases hexact : strict = true ∧ d.toInt.tmod stride.toInt = 0
  · rw [if_pos hexact, if_pos ⟨hexact.1, hrem.mpr hexact.2⟩, Int64.toInt_zero]
    omega
  · rw [if_neg hexact, if_neg fun hr => hexact ⟨hr.1, hrem.mp hr.2⟩]
    have hone : (1 : Int64).toInt = 1 := by decide
    omega

lemma strides_of_neg {strict : Bool} {d stride : Int} (hd : d < 0) (hstride : 0 < stride)
    (h : 0 ≤ d.tdiv stride) : strides strict d stride = 1 := by
  have hsum := Int.mul_tdiv_add_tmod d stride
  have hmod := Int.lt_tmod_of_pos d hstride
  have hzero : d.tdiv stride = 0 := by
    by_contra hne
    have hle : stride * 1 ≤ stride * d.tdiv stride :=
      mul_le_mul_of_nonneg_left (by omega) hstride.le
    omega
  rw [hzero, mul_zero, zero_add] at hsum
  rw [strides, hzero, if_neg fun hr => by omega, zero_add]

lemma number_injective (isSigned : Bool) {a b : Int64} (h : number isSigned a = number isSigned b) :
    a = b := by
  have hmod : a.toInt % 2 ^ 64 = b.toInt % 2 ^ 64 := by
    rw [← modulus_format isSigned]
    exact ((format isSigned).wrap_eq_wrap_iff _ _).mp h
  have ha := a.le_toInt
  have ha' := a.toInt_lt
  have hb := b.le_toInt
  have hb' := b.toInt_lt
  exact Int64.toInt_inj.mp (by omega)

end TripCount
end Maple
