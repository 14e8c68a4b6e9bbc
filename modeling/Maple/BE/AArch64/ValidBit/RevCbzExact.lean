import Maple.BE.AArch64.ValidBit.RevCbz
import Mathlib.Data.List.Basic

/-!
# When a byte reversal may be dropped

Two chains agree on the bits where the immediates are reversed as the register is. The other bits
decide whether the branches agree.
-/

namespace Maple
namespace AArch64
namespace RevCbz

open ValidBit

/-! ### Bits of reversed values -/

/-- The bit of the source that a reversal of the lowest `m` bits puts at the bit `k`. -/
def revIndex (m k : Nat) : Nat := 8 * (m / 8 - 1 - k / 8) + k % 8

/-- How many bits a reversal and `SetRevValue` both reverse. -/
def RevOp.width : RevOp → Nat
  | wrevrr16 => 16
  | wrevrr => 32
  | xrevrr => 64

lemma revIndex_lt (rev : RevOp) {k : Nat} (hk : k < rev.width) :
    revIndex rev.width k < rev.width := by
  cases rev <;> simp only [RevOp.width, revIndex] at hk ⊢ <;> omega

lemma revIndex_revIndex (rev : RevOp) {k : Nat} (hk : k < rev.width) :
    revIndex rev.width (revIndex rev.width k) = k := by
  cases rev <;> simp only [RevOp.width, revIndex] at hk ⊢ <;> omega

lemma getLsbD_byte (v : BitVec 64) (i k : Nat) :
    (byte v i).getLsbD k = (decide (k < 8) && v.getLsbD (8 * i + k)) :=
  BitVec.getLsbD_extractLsb' ..

lemma exists_byte (k : Nat) : ∃ j r, r < 8 ∧ k = 8 * j + r :=
  ⟨k / 8, k % 8, by omega, by omega⟩

lemma getLsbD_append_byte_zero {n : Nat} (x : BitVec n) (b : BitVec 8) {r : Nat} (hr : r < 8) :
    (x ++ b).getLsbD (8 * 0 + r) = b.getLsbD r := by
  rw [BitVec.getLsbD_append, if_pos (by omega), Nat.mul_zero, Nat.zero_add]

lemma getLsbD_append_byte_succ {n : Nat} (x : BitVec n) (b : BitVec 8) (j r : Nat) :
    (x ++ b).getLsbD (8 * (j + 1) + r) = x.getLsbD (8 * j + r) := by
  rw [BitVec.getLsbD_append, if_neg (by omega), show 8 * (j + 1) + r - 8 = 8 * j + r by omega]

lemma getLsbD_byte_of_lt (v : BitVec 64) (i : Nat) {r : Nat} (hr : r < 8) :
    (byte v i).getLsbD r = v.getLsbD (8 * i + r) := by
  rw [getLsbD_byte, decide_eq_true hr, Bool.true_and]

lemma getLsbD_byte_zero_add (v : BitVec 64) (i : Nat) {r : Nat} (hr : r < 8) :
    (byte v i).getLsbD (8 * 0 + r) = v.getLsbD (8 * i + r) := by
  rw [Nat.mul_zero, Nat.zero_add, getLsbD_byte_of_lt v i hr]

lemma getLsbD_run (rev : RevOp) (v : BitVec 64) {k : Nat} (hk : k < rev.width) :
    (rev.run v).getLsbD k = v.getLsbD (revIndex rev.width k) := by
  obtain ⟨j, r, hr, rfl⟩ := exists_byte k
  cases rev with
  | wrevrr16 =>
    have hk : 8 * j + r < 16 := hk
    have hidx : revIndex 16 (8 * j + r) = 8 * (1 - j) + r := by
      unfold revIndex
      omega
    rw [show RevOp.wrevrr16.width = 16 from rfl, hidx, RevOp.run, BitVec.getLsbD_setWidth,
      decide_eq_true (by omega), Bool.true_and]
    rcases (by omega : j = 0 ∨ j = 1) with rfl | rfl
    · rw [getLsbD_append_byte_zero _ _ hr, getLsbD_byte_of_lt v _ hr]
    · rw [getLsbD_append_byte_succ, getLsbD_append_byte_zero _ _ hr, getLsbD_byte_of_lt v _ hr]
  | wrevrr =>
    have hk : 8 * j + r < 32 := hk
    have hidx : revIndex 32 (8 * j + r) = 8 * (3 - j) + r := by
      unfold revIndex
      omega
    rw [show RevOp.wrevrr.width = 32 from rfl, hidx, RevOp.run, BitVec.getLsbD_setWidth,
      decide_eq_true (by omega), Bool.true_and]
    rcases (by omega : j = 0 ∨ j = 1 ∨ j = 2 ∨ j = 3) with rfl | rfl | rfl | rfl <;>
      simp only [getLsbD_append_byte_succ, getLsbD_append_byte_zero _ _ hr,
        getLsbD_byte_of_lt v _ hr, getLsbD_byte_zero_add v _ hr, Nat.reduceSub]
  | xrevrr =>
    have hk : 8 * j + r < 64 := hk
    have hidx : revIndex 64 (8 * j + r) = 8 * (7 - j) + r := by
      unfold revIndex
      omega
    rw [show RevOp.xrevrr.width = 64 from rfl, hidx, RevOp.run, BitVec.getLsbD_setWidth,
      decide_eq_true (by omega), Bool.true_and]
    rcases (by omega : j = 0 ∨ j = 1 ∨ j = 2 ∨ j = 3 ∨ j = 4 ∨ j = 5 ∨ j = 6 ∨ j = 7) with
      rfl | rfl | rfl | rfl | rfl | rfl | rfl | rfl <;>
      simp only [getLsbD_append_byte_succ, getLsbD_append_byte_zero _ _ hr,
        getLsbD_byte_of_lt v _ hr, getLsbD_byte_zero_add v _ hr, Nat.reduceSub]

lemma getLsbD_byte_shiftLeft (v : BitVec 64) {i s j r : Nat} (hr : r < 8) (hj : j < 8)
    (hs : s % 8 = 0) :
    ((v &&& field (8 * i) 8) <<< s).getLsbD (8 * j + r) =
      (decide (j = i + s / 8) && v.getLsbD (8 * i + r)) := by
  rw [BitVec.getLsbD_shiftLeft, BitVec.getLsbD_and, getLsbD_field,
    decide_eq_true (show 8 * j + r < 64 by omega), Bool.true_and]
  by_cases h : j = i + s / 8
  · rw [show 8 * j + r - s = 8 * i + r by omega, decide_eq_true h,
      decide_eq_false (show ¬ 8 * j + r < s by omega), decide_eq_true (by omega), Bool.and_true,
      Bool.not_false]
  · have hout : 8 * j + r < s ∨ ¬ (8 * j + r - s < 64 ∧ 8 * i ≤ 8 * j + r - s ∧
        8 * j + r - s - 8 * i + (64 - 8) < 64) := by omega
    rw [decide_eq_false h, Bool.false_and]
    rcases hout with hout | hout
    · rw [decide_eq_true hout, Bool.not_true, Bool.false_and]
    · rw [decide_eq_false hout, Bool.and_false, Bool.and_false]

lemma getLsbD_byte_ushiftRight (v : BitVec 64) {i s j r : Nat} (hr : r < 8) (hi : i < 8)
    (hs : s % 8 = 0) :
    ((v &&& field (8 * i) 8) >>> s).getLsbD (8 * j + r) =
      (decide (j + s / 8 = i) && v.getLsbD (8 * i + r)) := by
  rw [BitVec.getLsbD_ushiftRight, BitVec.getLsbD_and, getLsbD_field]
  by_cases h : j + s / 8 = i
  · rw [show s + (8 * j + r) = 8 * i + r by omega, decide_eq_true h, decide_eq_true (by omega),
      Bool.and_true, Bool.true_and]
  · rw [decide_eq_false h, decide_eq_false (by omega), Bool.false_and, Bool.and_false]

lemma masks_eq : 0xff#64 = field (8 * 0) 8 ∧ 0xff00#64 = field (8 * 1) 8 ∧
    0xff0000#64 = field (8 * 2) 8 ∧ 0xff000000#64 = field (8 * 3) 8 ∧
    0xff00000000#64 = field (8 * 4) 8 ∧ 0xff0000000000#64 = field (8 * 5) 8 ∧
    0xff000000000000#64 = field (8 * 6) 8 ∧ 0xff00000000000000#64 = field (8 * 7) 8 := by
  decide

/-- The bits of an immediate behind the reversal: those that the reversal of 16 or 32 bits does not
reach are dropped, or for `isLogicalImm16` those of the low half are repeated. -/
def RevOp.immBit (rev : RevOp) (isLogicalImm16 : Bool) (imm : BitVec 64) (k : Nat) : Bool :=
  match rev with
  | wrevrr16 =>
    decide (k < if isLogicalImm16 then 32 else 16) && imm.getLsbD (revIndex 16 (k % 16))
  | wrevrr => decide (k < 32) && imm.getLsbD (revIndex 32 k)
  | xrevrr => imm.getLsbD (revIndex 64 k)

lemma getLsbD_setRevValue_half (v : BitVec 64) {k : Nat} (hk : k < 64) :
    (setRevValue .wrevrr16 v false).getLsbD k =
      (decide (k < 16) && v.getLsbD (revIndex 16 (k % 16))) := by
  obtain ⟨h0, h1, -⟩ := masks_eq
  obtain ⟨j, r, hr, rfl⟩ := exists_byte k
  have hj : j < 8 := by omega
  simp only [setRevValue, Bool.false_eq_true, if_false, BitVec.getLsbD_or, h0, h1]
  simp (disch := omega) only [getLsbD_byte_shiftLeft, getLsbD_byte_ushiftRight, Nat.reduceDiv]
  rcases (by omega : j = 0 ∨ j = 1 ∨ 2 ≤ j) with rfl | rfl | hout
  · rw [show revIndex 16 ((8 * 0 + r) % 16) = 8 * 1 + r by unfold revIndex; omega]
    simp [show r < 16 by omega]
  · rw [show revIndex 16 ((8 * 1 + r) % 16) = 8 * 0 + r by unfold revIndex; omega]
    simp [show 8 + r < 16 by omega]
  · simp [show ¬ j = 1 by omega, show ¬ j = 0 by omega, show ¬ 8 * j + r < 16 by omega]

lemma getLsbD_setRevValue (rev : RevOp) (v : BitVec 64) (isLogicalImm16 : Bool) {k : Nat}
    (hk : k < 64) :
    (setRevValue rev v isLogicalImm16).getLsbD k = rev.immBit isLogicalImm16 v k := by
  obtain ⟨h0, h1, h2, h3, h4, h5, h6, h7⟩ := masks_eq
  cases rev with
  | wrevrr16 =>
    unfold RevOp.immBit
    cases isLogicalImm16 with
    | false => exact getLsbD_setRevValue_half v hk
    | true =>
      have htwice : setRevValue .wrevrr16 v true =
          setRevValue .wrevrr16 v false ||| (setRevValue .wrevrr16 v false <<< 16) := by
        simp [setRevValue]
      rw [htwice, BitVec.getLsbD_or, BitVec.getLsbD_shiftLeft, getLsbD_setRevValue_half v hk,
        getLsbD_setRevValue_half v (show k - 16 < 64 by omega), if_pos rfl]
      rcases (by omega : k < 16 ∨ (16 ≤ k ∧ k < 32) ∨ 32 ≤ k) with hlow | hhigh | hout
      · simp [hlow, show k < 32 by omega]
      · have hmod : (k - 16) % 16 = k % 16 := by omega
        simp [hmod, show ¬ k < 16 by omega, show k - 16 < 16 by omega, show k < 32 by omega, hk]
      · simp [show ¬ k < 16 by omega, show ¬ k - 16 < 16 by omega, show ¬ k < 32 by omega]
  | wrevrr =>
    obtain ⟨j, r, hr, rfl⟩ := exists_byte k
    have hj : j < 8 := by omega
    simp only [RevOp.immBit, setRevValue, BitVec.getLsbD_or, h0, h1, h2, h3]
    simp (disch := omega) only [getLsbD_byte_shiftLeft, getLsbD_byte_ushiftRight, Nat.reduceDiv]
    by_cases h4 : j < 4
    · have hidx : revIndex 32 (8 * j + r) = 8 * (3 - j) + r := by
        unfold revIndex
        omega
      rw [hidx, decide_eq_true (show 8 * j + r < 32 by omega)]
      rcases (by omega : j = 0 ∨ j = 1 ∨ j = 2 ∨ j = 3) with rfl | rfl | rfl | rfl <;> simp
    · simp [show ¬ j = 3 by omega, show ¬ j = 2 by omega, show ¬ j + 1 = 2 by omega,
        show ¬ j = 0 by omega, show ¬ 8 * j + r < 32 by omega]
  | xrevrr =>
    obtain ⟨j, r, hr, rfl⟩ := exists_byte k
    have hj : j < 8 := by omega
    have hidx : revIndex 64 (8 * j + r) = 8 * (7 - j) + r := by
      unfold revIndex
      omega
    rw [RevOp.immBit, hidx]
    simp only [setRevValue, BitVec.getLsbD_or]
    rw [h0, h1, h2, h3, h4, h5, h6, h7]
    simp (disch := omega) only [getLsbD_byte_shiftLeft, getLsbD_byte_ushiftRight, Nat.reduceDiv]
    rcases (by omega : j = 0 ∨ j = 1 ∨ j = 2 ∨ j = 3 ∨ j = 4 ∨ j = 5 ∨ j = 6 ∨ j = 7) with
      rfl | rfl | rfl | rfl | rfl | rfl | rfl | rfl <;> simp

lemma immBit_of_lt (rev : RevOp) (isLogicalImm16 : Bool) (imm : BitVec 64) {k : Nat}
    (hk : k < rev.width) : rev.immBit isLogicalImm16 imm k = imm.getLsbD (revIndex rev.width k) := by
  cases rev with
  | wrevrr16 =>
    have hlt : k < if isLogicalImm16 then 32 else 16 := by
      cases isLogicalImm16 <;> simp only [RevOp.width] at hk <;> simp <;> omega
    have hmod : k % 16 = k := Nat.mod_eq_of_lt hk
    rw [RevOp.immBit, decide_eq_true hlt, Bool.true_and, hmod]
    rfl
  | wrevrr =>
    have hlt : k < 32 := hk
    rw [RevOp.immBit, decide_eq_true hlt, Bool.true_and]
    rfl
  | xrevrr => rfl

lemma width_le (rev : RevOp) : rev.width ≤ 64 := by
  cases rev <;> decide

/-! ### Bits of chains -/

def LogicalOp.bit : LogicalOp → Bool → Bool → Bool
  | and, x, y => x && y
  | orr, x, y => x || y
  | eor, x, y => x ^^ y

/-- What a chain makes of a bit at the position `k`. -/
def runBit (k : Nat) (logical : List LogicalInsn) (b : Bool) : Bool :=
  logical.foldl (fun b l => (l.is64 || decide (k < 32)) && l.op.bit b (l.imm.getLsbD k)) b

lemma getLsbD_eval (op : LogicalOp) (x y : BitVec 64) (k : Nat) :
    (op.eval x y).getLsbD k = op.bit (x.getLsbD k) (y.getLsbD k) := by
  cases op <;> simp [LogicalOp.eval, LogicalOp.bit]

lemma getLsbD_foldl_run (logical : List LogicalInsn) (v : BitVec 64) (k : Nat) :
    (logical.foldl (fun v l => l.run v) v).getLsbD k = runBit k logical (v.getLsbD k) := by
  induction logical generalizing v with
  | nil => rfl
  | cons l logical ih =>
    rw [List.foldl_cons, ih, LogicalInsn.run, getLsbD_low, getLsbD_eval]
    rfl

lemma low_beq_iff (is64 : Bool) (v w : BitVec 64) : (low is64 v == low is64 w) = true ↔
    ∀ k < if is64 then 64 else 32, v.getLsbD k = w.getLsbD k := by
  rw [beq_iff_eq]
  constructor
  · intro h k hk
    have hbit := congrArg (fun x => x.getLsbD k) h
    simp only [getLsbD_low] at hbit
    cases is64
    · simp only [Bool.false_eq_true, if_false] at hk
      simpa [hk] using hbit
    · simpa using hbit
  · intro h
    apply BitVec.eq_of_getLsbD_eq
    intro k hk
    rw [getLsbD_low, getLsbD_low]
    cases is64
    · by_cases hk32 : k < 32
      · rw [h k hk32]
      · simp [hk32]
    · rw [h k hk]

/-! ### What the pattern does -/

/-- The bits from `lo` to `hi` are the same. -/
def Agree (lo hi : Nat) (v w : BitVec 64) : Prop :=
  ∀ k, lo ≤ k → k < hi → v.getLsbD k = w.getLsbD k

namespace Chain

variable (c : Chain)

/-- All instructions have 64 bits. -/
def IsWide : Prop := c.test.is64 = true ∧ ∀ l ∈ c.logical, l.is64 = true

instance : Decidable c.IsWide := inferInstanceAs (Decidable (_ ∧ _))

/-- The bits of the test. -/
def testWidth : Nat := if c.test.is64 then 64 else 32

/-- The chain works on all bits that the register reverses. -/
def Fits (rev : RevOp) : Prop := rev = .xrevrr → c.IsWide

instance (rev : RevOp) : Decidable (c.Fits rev) := inferInstanceAs (Decidable (_ → _))

/-- How many bits the register and the immediates have reversed. -/
def reversed (rev : RevOp) : Nat := if c.Fits rev then rev.width else 0

/-- The bits that are not reversed in both the register and the immediates pass the test if they
come from the register as it is and meet the immediates as `SetRevValue` leaves them. -/
def PassesUnreversed (rev : RevOp) (isValidBits16 : Bool) (v : BitVec 64) : Prop :=
  ∀ k, c.reversed rev ≤ k → k < c.testWidth →
    c.logical.foldl (fun b l => (l.is64 || decide (k < 32)) &&
        l.op.bit b (rev.immBit isValidBits16 l.imm k)) (v.getLsbD k) =
      rev.immBit false c.test.value k

/-- The chain with the immediates that `Run` computes. -/
def withRevValues (rev : RevOp) (isValidBits16 : Bool) : Chain where
  logical := c.logical.map fun l => { l with imm := setRevValue rev l.imm isValidBits16 }
  test :=
    match c.test with
    | .cbz is64 onZero => .cbz is64 onZero
    | .cmpri is64 imm onEq => .cmpri is64 (setRevValue rev imm false) onEq

end Chain

section

variable {validBitmaskImmSet : BitVec 64 → Bool} {rev : RevOp} {isValidBits16 : Bool}
  {validBitsNum : Nat} {useInsns : List UseInsn} {c c' : Chain}

lemma mapM_newLogical {logical logical' : List LogicalInsn}
    (h : logical.mapM (newLogical validBitmaskImmSet rev isValidBits16) = some logical') :
    logical' = logical.map fun l => { l with imm := setRevValue rev l.imm isValidBits16 } := by
  induction logical generalizing logical' with
  | nil => simpa using h.symm
  | cons l logical ih =>
    rw [List.mapM_cons] at h
    obtain ⟨l', hl, h⟩ := Option.bind_eq_some_iff.mp h
    obtain ⟨rest, hrest, h⟩ := Option.bind_eq_some_iff.mp h
    obtain rfl := Option.some.inj h
    simp only [newLogical, Option.ite_none_right_eq_some, Option.some.injEq] at hl
    rw [List.map_cons, ← ih hrest, hl.2]

lemma run_eq_some (h : run validBitmaskImmSet rev validBitsNum useInsns = some c') :
    ∃ c, checkCondition useInsns = some c ∧
      c' = c.withRevValues rev (rev == .wrevrr16 && decide (validBitsNum ≤ 16)) := by
  unfold run at h
  obtain ⟨c, hc, h⟩ := Option.bind_eq_some_iff.mp h
  obtain ⟨logical, hlogical, h⟩ := Option.bind_eq_some_iff.mp h
  obtain ⟨test, htest, h⟩ := Option.bind_eq_some_iff.mp h
  obtain rfl := Option.some.inj h
  refine ⟨c, hc, ?_⟩
  rw [Chain.withRevValues, mapM_newLogical hlogical]
  cases hold : c.test with
  | cbz is64 onZero =>
    rw [hold] at htest
    rw [← Option.some.inj htest]
  | cmpri is64 imm onEq =>
    rw [hold] at htest
    simp only [newTest, Option.ite_none_right_eq_some, Option.some.injEq] at htest
    rw [← htest.2]

end

namespace Chain

variable (c : Chain) (rev : RevOp) (isValidBits16 : Bool)

lemma withRevValues_is64 : (c.withRevValues rev isValidBits16).test.is64 = c.test.is64 := by
  unfold withRevValues
  cases c.test <;> rfl

lemma withRevValues_onEq : (c.withRevValues rev isValidBits16).test.onEq = c.test.onEq := by
  unfold withRevValues
  cases c.test <;> rfl

lemma getLsbD_withRevValues_value {k : Nat} (hk : k < rev.width) :
    (c.withRevValues rev isValidBits16).test.value.getLsbD k =
      c.test.value.getLsbD (revIndex rev.width k) := by
  unfold withRevValues
  cases c.test with
  | cbz => simp [Test.value]
  | cmpri is64 imm onEq =>
    have h64 := width_le rev
    exact (getLsbD_setRevValue rev imm false (by omega)).trans (immBit_of_lt rev false imm hk)

variable {rev}

lemma getLsbD_withRevValues_run (hfits : c.Fits rev) (v : BitVec 64) {k : Nat}
    (hk : k < rev.width) :
    ((c.withRevValues rev isValidBits16).run v).getLsbD k =
      (c.run (rev.run v)).getLsbD (revIndex rev.width k) := by
  have hidx := revIndex_lt rev hk
  rw [run, run, getLsbD_foldl_run, getLsbD_foldl_run, getLsbD_run rev v hidx,
    revIndex_revIndex rev hk, withRevValues, runBit, runBit, List.foldl_map]
  apply List.foldl_ext
  intro b l hl
  have hwidth : (l.is64 || decide (k < 32)) =
      (l.is64 || decide (revIndex rev.width k < 32)) := by
    by_cases hwide : rev = .xrevrr
    · rw [(hfits hwide).2 l hl, Bool.true_or, Bool.true_or]
    · have hle : rev.width ≤ 32 := by
        cases rev <;> simp_all [RevOp.width]
      rw [decide_eq_true (show k < 32 by omega),
        decide_eq_true (show revIndex rev.width k < 32 by omega)]
  have h64 := width_le rev
  rw [hwidth, getLsbD_setRevValue rev l.imm isValidBits16 (by omega),
    immBit_of_lt rev isValidBits16 l.imm hk]

lemma reversed_le_testWidth : c.reversed rev ≤ c.testWidth := by
  unfold reversed testWidth
  by_cases hfits : c.Fits rev
  · rw [if_pos hfits]
    cases rev with
    | xrevrr => rw [if_pos (hfits rfl).1]; rfl
    | wrevrr => split <;> decide
    | wrevrr16 => split <;> decide
  · rw [if_neg hfits]
    exact Nat.zero_le _

lemma agree_reversed_iff (v : BitVec 64) :
    Agree 0 (c.reversed rev) ((c.withRevValues rev isValidBits16).run v)
        (c.withRevValues rev isValidBits16).test.value ↔
      Agree 0 (c.reversed rev) (c.run (rev.run v)) c.test.value := by
  unfold reversed
  by_cases hfits : c.Fits rev
  · rw [if_pos hfits]
    constructor
    · intro h k _ hk
      have hidx := revIndex_lt rev hk
      have hbit := h (revIndex rev.width k) (Nat.zero_le _) hidx
      rwa [c.getLsbD_withRevValues_run isValidBits16 hfits v hidx,
        c.getLsbD_withRevValues_value rev isValidBits16 hidx, revIndex_revIndex rev hk] at hbit
    · intro h k _ hk
      rw [c.getLsbD_withRevValues_run isValidBits16 hfits v hk,
        c.getLsbD_withRevValues_value rev isValidBits16 hk]
      exact h _ (Nat.zero_le _) (revIndex_lt rev hk)
  · rw [if_neg hfits]
    exact iff_of_true (fun k _ hk => absurd hk (Nat.not_lt_zero k))
      fun k _ hk => absurd hk (Nat.not_lt_zero k)

lemma agree_unreversed_iff (v : BitVec 64) :
    Agree (c.reversed rev) c.testWidth ((c.withRevValues rev isValidBits16).run v)
        (c.withRevValues rev isValidBits16).test.value ↔
      c.PassesUnreversed rev isValidBits16 v := by
  have hwidth : c.testWidth ≤ 64 := by
    unfold testWidth
    split <;> decide
  have hrun (k : Nat) (hk : k < 64) : ((c.withRevValues rev isValidBits16).run v).getLsbD k =
      c.logical.foldl (fun b l => (l.is64 || decide (k < 32)) &&
        l.op.bit b (rev.immBit isValidBits16 l.imm k)) (v.getLsbD k) := by
    rw [run, getLsbD_foldl_run, withRevValues, runBit, List.foldl_map]
    apply List.foldl_ext
    intro b l _
    rw [getLsbD_setRevValue rev l.imm isValidBits16 hk]
  have hvalue (k : Nat) (hk : k < 64) : (c.withRevValues rev isValidBits16).test.value.getLsbD k =
      rev.immBit false c.test.value k := by
    unfold withRevValues
    cases c.test with
    | cbz => cases rev <;> simp [Test.value, RevOp.immBit]
    | cmpri is64 imm onEq => exact getLsbD_setRevValue rev imm false hk
  constructor
  · intro h k hlo hhi
    rw [← hrun k (by omega), ← hvalue k (by omega)]
    exact h k hlo hhi
  · intro h k hlo hhi
    rw [hrun k (by omega), hvalue k (by omega)]
    exact h k hlo hhi

lemma low_run_iff {n : Nat} (hn : n ≤ c.testWidth) (w : BitVec 64) :
    (low c.test.is64 w == low c.test.is64 c.test.value) = true ↔
      Agree 0 n w c.test.value ∧ Agree n c.testWidth w c.test.value := by
  rw [low_beq_iff]
  change (∀ k < c.testWidth, _) ↔ _
  constructor
  · intro h
    exact ⟨fun k _ hk => h k (by omega), fun k _ hk => h k hk⟩
  · rintro ⟨hlow, hhigh⟩ k hk
    by_cases hkn : k < n
    · exact hlow k (Nat.zero_le _) hkn
    · exact hhigh k (not_lt.mp hkn) hk

end Chain

section

variable {validBitmaskImmSet : BitVec 64 → Bool} {rev : RevOp} {validBitsNum : Nat}
  {useInsns : List UseInsn} {c c' : Chain}

lemma branches_eq_iff (hcheck : checkCondition useInsns = some c)
    (hrun : run validBitmaskImmSet rev validBitsNum useInsns = some c') (v : BitVec 64) :
    c'.branches v = c.branches (rev.run v) ↔
      (Agree 0 (c.reversed rev) (c.run (rev.run v)) c.test.value →
        (Agree (c.reversed rev) c.testWidth (c.run (rev.run v)) c.test.value ↔
          c.PassesUnreversed rev (rev == .wrevrr16 && decide (validBitsNum ≤ 16)) v)) := by
  obtain ⟨c₀, hc₀, rfl⟩ := run_eq_some hrun
  obtain rfl := Option.some.inj (hc₀.symm.trans hcheck)
  set isValidBits16 := rev == .wrevrr16 && decide (validBitsNum ≤ 16)
  have hle : c₀.reversed rev ≤ c₀.testWidth := c₀.reversed_le_testWidth
  have hwidth : (c₀.withRevValues rev isValidBits16).testWidth = c₀.testWidth := by
    rw [Chain.testWidth, Chain.withRevValues_is64]
    rfl
  have hold := c₀.low_run_iff hle (c₀.run (rev.run v))
  have hnew := (c₀.withRevValues rev isValidBits16).low_run_iff (hle.trans hwidth.ge)
    ((c₀.withRevValues rev isValidBits16).run v)
  rw [hwidth, c₀.agree_reversed_iff isValidBits16 v, c₀.agree_unreversed_iff isValidBits16 v] at hnew
  rw [Chain.branches, Chain.branches, Test.branches, Test.branches, Chain.withRevValues_onEq]
  have hbeq (a b e : Bool) : (a == e) = (b == e) ↔ (b = true ↔ a = true) := by
    cases a <;> cases b <;> cases e <;> decide
  rw [hbeq, hold, hnew, and_congr_right_iff]

end

/-- `eor` with 0xff and `cbz`, and what becomes of them behind `rev16` of a register with 16 valid
bits. -/
def eorChain : Chain := ⟨[⟨false, .eor, 0xff#64⟩], .cbz false true⟩

def newEorChain : Chain := ⟨[⟨false, .eor, 0xff00ff00#64⟩], .cbz false true⟩

def eorInsns : List UseInsn := [.logical ⟨false, .eor, 0xff#64⟩, .cbz false true]

/-- The table holds the 64-bit form of the new immediate. -/
def exampleTable (val : BitVec 64) : Bool := val == 0xff00ff00ff00ff00#64

section Halfword

variable {c : Chain} {v : BitVec 64} (hv : ∀ k, 16 ≤ k → v.getLsbD k = false)

include hv

end Halfword

end RevCbz
end AArch64
end Maple
