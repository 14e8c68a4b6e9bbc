import Maple.Lib.Words
import Mathlib.Data.Set.SymmDiff

/-!
# Bit sets

`SimpleBitSet` (`simple_bit_set.h`) keeps a set of positions in words of 64 bits. An operator takes
another bit set or a 64-bit integer, and it returns a new set or assigns to its receiver.
-/

namespace Maple

abbrev kSimpleBitSetAligned : Nat := 64

abbrev kSimpleBitSetSize (NB : Nat) : Nat := (NB - 1) / kSimpleBitSetAligned + 1

structure SimpleBitSet (NB : Nat) where
  bitSet : Vector UInt64 (kSimpleBitSetSize NB)
deriving DecidableEq

namespace SimpleBitSet

variable {NB : Nat} {a b c : SimpleBitSet NB} {p q : Nat}

/-! ### The functions -/

/-- The constructor from a 64-bit integer. -/
def ofInteger (input : UInt64) : SimpleBitSet NB := ⟨(Vector.replicate _ 0).set 0 input⟩

/-- `operator==` on bit sets. -/
def eq (a input : SimpleBitSet NB) : Bool :=
  (List.finRange (kSimpleBitSetSize NB)).all fun i => a.bitSet[i] == input.bitSet[i]

/-- `operator==` with an integer. -/
def eqInteger (a : SimpleBitSet NB) (input : UInt64) : Bool := a.eq (ofInteger input)

/-- The loop of `operator<`, from word `k - 1` down. -/
def lessFrom (a input : SimpleBitSet NB) : (k : Nat) → k ≤ kSimpleBitSetSize NB → Bool
  | 0, _ => false
  | k + 1, h =>
    if a.bitSet[k] > input.bitSet[k] then false
    else if a.bitSet[k] < input.bitSet[k] then true
    else lessFrom a input k (Nat.le_of_succ_le h)

def less (a input : SimpleBitSet NB) : Bool := a.lessFrom input (kSimpleBitSetSize NB) le_rfl

/-- `CheckAndSet` for an integer of the size of a word: only the first word is set. -/
def checkAndSet (a : SimpleBitSet NB) (input : UInt64) (set : UInt64 → UInt64 → UInt64) :
    SimpleBitSet NB :=
  ⟨a.bitSet.set 0 (set a.bitSet[0] input)⟩

/-- `Set` with another bit set. It has as many words, so that none is left to `overflowSet`. -/
def setWords (a input : SimpleBitSet NB) (normalSet : UInt64 → UInt64 → UInt64) : SimpleBitSet NB :=
  ⟨Vector.zipWith normalSet a.bitSet input.bitSet⟩

/-- `operator&=` with an integer. -/
def andAssignInteger (a : SimpleBitSet NB) (input : UInt64) : SimpleBitSet NB :=
  a.checkAndSet input fun dst src => dst &&& src

/-- `operator&` with an integer. -/
def andInteger (a : SimpleBitSet NB) (input : UInt64) : SimpleBitSet NB := a.andAssignInteger input

/-- `operator|=` with an integer. -/
def orAssignInteger (a : SimpleBitSet NB) (input : UInt64) : SimpleBitSet NB :=
  a.checkAndSet input fun dst src => dst ||| src

/-- `operator|` with an integer. -/
def orInteger (a : SimpleBitSet NB) (input : UInt64) : SimpleBitSet NB := a.orAssignInteger input

/-- `operator^=` with an integer. -/
def xorAssignInteger (a : SimpleBitSet NB) (input : UInt64) : SimpleBitSet NB :=
  a.checkAndSet input fun dst src => dst ^^^ src

/-- `operator^` with an integer. -/
def xorInteger (a : SimpleBitSet NB) (input : UInt64) : SimpleBitSet NB := a.xorAssignInteger input

/-- `operator~`. It flips the receiver and returns it. -/
def flip (a : SimpleBitSet NB) : SimpleBitSet NB := ⟨a.bitSet.map fun w => ~~~w⟩

/-- `operator&=` with a bit set. -/
def andAssign (a input : SimpleBitSet NB) : SimpleBitSet NB :=
  a.setWords input fun dst src => dst &&& src

/-- `operator&` with a bit set. -/
def and (a input : SimpleBitSet NB) : SimpleBitSet NB := a.andAssign input

/-- `operator|=` with a bit set. -/
def orAssign (a input : SimpleBitSet NB) : SimpleBitSet NB :=
  a.setWords input fun dst src => dst ||| src

/-- `operator|` with a bit set. -/
def or (a input : SimpleBitSet NB) : SimpleBitSet NB := a.orAssign input

/-- `operator^=` with a bit set. -/
def xorAssign (a input : SimpleBitSet NB) : SimpleBitSet NB :=
  a.setWords input fun dst src => dst ^^^ src

/-- `operator^` with a bit set, which applies `&=`. -/
def xor (a input : SimpleBitSet NB) : SimpleBitSet NB := a.andAssign input

/-- `Reset` of a position, with the value that it returns. -/
def reset (a : SimpleBitSet NB) (pos : Nat) : SimpleBitSet NB × Bool :=
  if h : pos / kSimpleBitSetAligned < kSimpleBitSetSize NB then
    (⟨a.bitSet.set (pos / kSimpleBitSetAligned) (a.bitSet[pos / kSimpleBitSetAligned] &&&
      ~~~(1 <<< UInt64.ofNat (pos % kSimpleBitSetAligned)))⟩, true)
  else (a, false)

/-- `Reset` of all positions. -/
def resetAll (_ : SimpleBitSet NB) : SimpleBitSet NB := ⟨Vector.replicate _ 0⟩

/-- `Set` of a position, with the value that it returns. -/
def set (a : SimpleBitSet NB) (pos : Nat) : SimpleBitSet NB × Bool :=
  if h : pos / kSimpleBitSetAligned < kSimpleBitSetSize NB then
    (⟨a.bitSet.set (pos / kSimpleBitSetAligned) (a.bitSet[pos / kSimpleBitSetAligned] |||
      1 <<< UInt64.ofNat (pos % kSimpleBitSetAligned))⟩, true)
  else (a, false)

def get (a : SimpleBitSet NB) (pos : Nat) : Int :=
  if h : pos / kSimpleBitSetAligned < kSimpleBitSetSize NB then
    if (a.bitSet[pos / kSimpleBitSetAligned] &&&
      (1 <<< UInt64.ofNat (pos % kSimpleBitSetAligned))) != 0 then 1 else 0
  else -1

/-! ### The positions of a set -/

/-- The set that the words stand for. -/
def positions (a : SimpleBitSet NB) : Set Nat :=
  {p | (a.bitSet.toList.getD (p / kSimpleBitSetAligned) 0).toNat.testBit (p % kSimpleBitSetAligned)}

lemma mod_lt (p : Nat) : p % kSimpleBitSetAligned < 64 := Nat.mod_lt _ (by decide)

lemma zero_eq_div_iff : 0 = p / kSimpleBitSetAligned ↔ p < 64 := by
  rw [eq_comm, Nat.div_eq_zero_iff_lt (by decide)]

lemma mod_eq_mod_iff (h : p / kSimpleBitSetAligned = q / kSimpleBitSetAligned) :
    p % kSimpleBitSetAligned = q % kSimpleBitSetAligned ↔ q = p := by
  simp only [kSimpleBitSetAligned] at *
  omega

lemma mem_positions_iff (h : p / kSimpleBitSetAligned < kSimpleBitSetSize NB) :
    p ∈ a.positions ↔
      a.bitSet[p / kSimpleBitSetAligned].toNat.testBit (p % kSimpleBitSetAligned) := by
  simp only [positions, Set.mem_ofPred_eq, List.getD_eq_getElem?_getD, Vector.getElem?_toList,
    Vector.getElem?_eq_getElem h, Option.getD_some]

lemma not_mem_positions (h : ¬p / kSimpleBitSetAligned < kSimpleBitSetSize NB) :
    p ∉ a.positions := by
  simp only [positions, Set.mem_ofPred_eq, List.getD_eq_getElem?_getD, Vector.getElem?_toList,
    Vector.getElem?_eq_none (not_lt.mp h), Option.getD_none, UInt64.toNat_zero, Nat.zero_testBit]
  exact Bool.false_ne_true

lemma div_lt_iff (hNB : NB % kSimpleBitSetAligned = 0) (hpos : 0 < NB) :
    p / kSimpleBitSetAligned < kSimpleBitSetSize NB ↔ p < NB := by
  simp only [kSimpleBitSetSize, kSimpleBitSetAligned] at *
  omega

lemma positions_eq {s : Set Nat}
    (hin : ∀ p (h : p / kSimpleBitSetAligned < kSimpleBitSetSize NB),
      a.bitSet[p / kSimpleBitSetAligned].toNat.testBit (p % kSimpleBitSetAligned) ↔ p ∈ s)
    (hout : ∀ p, ¬p / kSimpleBitSetAligned < kSimpleBitSetSize NB → p ∉ s) :
    a.positions = s := by
  ext p
  by_cases h : p / kSimpleBitSetAligned < kSimpleBitSetSize NB
  · rw [mem_positions_iff h, hin p h]
  · exact iff_of_false (not_mem_positions h) (hout p h)

@[simp] lemma positions_resetAll : a.resetAll.positions = ∅ := by
  apply positions_eq
  · intro p h
    simp [resetAll]
  · intro p _
    exact Set.notMem_empty p

lemma mem_positions_ofInteger_iff (x : UInt64) :
    p ∈ (ofInteger x : SimpleBitSet NB).positions ↔ p < 64 ∧ x.toNat.testBit p := by
  by_cases h : p / kSimpleBitSetAligned < kSimpleBitSetSize NB
  · rw [mem_positions_iff h]
    simp only [ofInteger, Vector.getElem_set, Vector.getElem_replicate]
    split_ifs with h0
    · have hp : p < 64 := zero_eq_div_iff.mp h0
      simp [hp, Nat.mod_eq_of_lt hp]
    · have hp : ¬p < 64 := fun hlt => h0 (zero_eq_div_iff.mpr hlt)
      simp [hp]
  · apply iff_of_false (not_mem_positions h)
    rintro ⟨hp, _⟩
    exact h (by rw [Nat.div_eq_of_lt hp]; exact Nat.succ_pos _)

/-! ### Words by words -/

section Words

variable {f : UInt64 → UInt64 → UInt64} {op : Prop → Prop → Prop}

/-- A function of two words that acts on each bit by itself. -/
def Bitwise (f : UInt64 → UInt64 → UInt64) (op : Prop → Prop → Prop) : Prop :=
  ∀ v w : UInt64, ∀ i : Nat,
    (f v w).toNat.testBit i = true ↔ op (v.toNat.testBit i = true) (w.toNat.testBit i = true)

lemma bitwise_and : Bitwise (fun dst src => dst &&& src) (· ∧ ·) := by
  intro v w i
  rw [UInt64.toNat_and, Nat.testBit_and, Bool.and_eq_true]

lemma bitwise_or : Bitwise (fun dst src => dst ||| src) (· ∨ ·) := by
  intro v w i
  rw [UInt64.toNat_or, Nat.testBit_or, Bool.or_eq_true]

lemma bitwise_xor : Bitwise (fun dst src => dst ^^^ src) (fun x y => x ∧ ¬y ∨ y ∧ ¬x) := by
  intro v w i
  rw [UInt64.toNat_xor, Nat.testBit_xor]
  cases v.toNat.testBit i <;> cases w.toNat.testBit i <;> simp

lemma mem_positions_setWords_iff (hf : Bitwise f op) (h0 : ¬op False False) :
    p ∈ (a.setWords b f).positions ↔ op (p ∈ a.positions) (p ∈ b.positions) := by
  by_cases h : p / kSimpleBitSetAligned < kSimpleBitSetSize NB
  · rw [mem_positions_iff h, mem_positions_iff h, mem_positions_iff h]
    simp only [setWords, Vector.getElem_zipWith]
    exact hf _ _ _
  · apply iff_of_false (not_mem_positions h)
    rw [eq_false (not_mem_positions (a := a) h), eq_false (not_mem_positions (a := b) h)]
    exact h0

lemma mem_positions_checkAndSet_iff (hf : Bitwise f op) (x : UInt64) :
    p ∈ (a.checkAndSet x f).positions ↔
      if p < 64 then op (p ∈ a.positions) (p ∈ (ofInteger x : SimpleBitSet NB).positions)
      else p ∈ a.positions := by
  by_cases hp : p < 64
  · have hdiv : p / kSimpleBitSetAligned = 0 := Nat.div_eq_of_lt hp
    have h : p / kSimpleBitSetAligned < kSimpleBitSetSize NB := hdiv ▸ Nat.succ_pos _
    rw [if_pos hp, mem_positions_ofInteger_iff, mem_positions_iff h, mem_positions_iff h]
    simp only [checkAndSet, hdiv, Vector.getElem_set_self, hp, true_and, Nat.mod_eq_of_lt hp]
    exact hf _ _ _
  · rw [if_neg hp]
    by_cases h : p / kSimpleBitSetAligned < kSimpleBitSetSize NB
    · have hne : 0 ≠ p / kSimpleBitSetAligned := fun h0 => hp (zero_eq_div_iff.mp h0)
      rw [mem_positions_iff h, mem_positions_iff h]
      simp only [checkAndSet, Vector.getElem_set_ne _ _ hne]
    · exact iff_of_false (not_mem_positions h) (not_mem_positions h)

end Words

@[simp] lemma positions_andAssign : (a.andAssign b).positions = a.positions ∩ b.positions := by
  ext p
  exact mem_positions_setWords_iff bitwise_and (by simp)

@[simp] lemma positions_orAssign : (a.orAssign b).positions = a.positions ∪ b.positions := by
  ext p
  exact mem_positions_setWords_iff bitwise_or (by simp)

@[simp] lemma positions_xorAssign :
    (a.xorAssign b).positions = symmDiff a.positions b.positions := by
  ext p
  rw [Set.mem_symmDiff]
  exact mem_positions_setWords_iff bitwise_xor (by simp)

lemma positions_orAssignInteger (x : UInt64) :
    (a.orAssignInteger x).positions = a.positions ∪ (ofInteger x : SimpleBitSet NB).positions := by
  ext p
  rw [orAssignInteger, mem_positions_checkAndSet_iff bitwise_or, Set.mem_union]
  split_ifs with hp
  · exact Iff.rfl
  · simp [mem_positions_ofInteger_iff, hp]

lemma positions_xorAssignInteger (x : UInt64) :
    (a.xorAssignInteger x).positions =
      symmDiff a.positions (ofInteger x : SimpleBitSet NB).positions := by
  ext p
  rw [xorAssignInteger, mem_positions_checkAndSet_iff bitwise_xor, Set.mem_symmDiff]
  split_ifs with hp
  · exact Iff.rfl
  · simp [mem_positions_ofInteger_iff, hp]

lemma positions_andAssignInteger_eq_iff (x : UInt64) :
    (a.andAssignInteger x).positions = a.positions ∩ (ofInteger x : SimpleBitSet NB).positions ↔
      ∀ p ∈ a.positions, p < 64 := by
  constructor
  · intro h p hp
    by_contra hlt
    have hmem : p ∈ (a.andAssignInteger x).positions := by
      rw [andAssignInteger, mem_positions_checkAndSet_iff bitwise_and, if_neg hlt]
      exact hp
    rw [h] at hmem
    exact hlt ((mem_positions_ofInteger_iff x).mp hmem.2).1
  · intro h
    ext p
    rw [andAssignInteger, mem_positions_checkAndSet_iff bitwise_and, Set.mem_inter_iff]
    split_ifs with hp
    · exact Iff.rfl
    · exact iff_of_false (fun hmem => hp (h p hmem)) (fun hmem => hp (h p hmem.1))

lemma positions_xor_eq_iff :
    (a.xor b).positions = symmDiff a.positions b.positions ↔
      a.positions = ∅ ∧ b.positions = ∅ := by
  rw [xor, positions_andAssign]
  constructor
  · intro h
    have hp : ∀ p, (p ∈ a.positions ∧ p ∈ b.positions) ↔
        (p ∈ a.positions ∧ p ∉ b.positions ∨ p ∈ b.positions ∧ p ∉ a.positions) := by
      intro p
      rw [← Set.mem_symmDiff, ← h, Set.mem_inter_iff]
    constructor
    · exact Set.eq_empty_of_forall_notMem fun p => by grind
    · exact Set.eq_empty_of_forall_notMem fun p => by grind
  · rintro ⟨ha, hb⟩
    rw [ha, hb, symmDiff_self]
    exact Set.inter_self _

/-! ### One position -/

lemma testBit_mask {k i : Nat} (h : k < 64) :
    (1 <<< UInt64.ofNat k : UInt64).toNat.testBit i = decide (k = i) := by
  rw [Words.toNat_one_shiftLeft h, Nat.testBit_two_pow]

lemma positions_set (h : p / kSimpleBitSetAligned < kSimpleBitSetSize NB) :
    (a.set p).1.positions = insert p a.positions := by
  apply positions_eq
  · intro q hq
    rw [Set.mem_insert_iff, mem_positions_iff hq]
    simp only [set, dif_pos h, Vector.getElem_set]
    split_ifs with hdiv
    · simp only [UInt64.toNat_or, Nat.testBit_or, Bool.or_eq_true, testBit_mask (mod_lt p),
        decide_eq_true_eq, hdiv, mod_eq_mod_iff hdiv]
      exact Or.comm
    · have hne : q ≠ p := fun heq => hdiv (heq ▸ rfl)
      simp [hne]
  · intro q hq
    rw [Set.mem_insert_iff]
    rintro (rfl | hmem)
    · exact hq h
    · exact not_mem_positions hq hmem

lemma positions_reset (h : p / kSimpleBitSetAligned < kSimpleBitSetSize NB) :
    (a.reset p).1.positions = a.positions \ {p} := by
  apply positions_eq
  · intro q hq
    rw [Set.mem_sdiff, Set.mem_singleton_iff, mem_positions_iff hq]
    simp only [reset, dif_pos h, Vector.getElem_set]
    split_ifs with hdiv
    · simp only [UInt64.toNat_and, Nat.testBit_and, Bool.and_eq_true,
        Words.testBit_complement _ (mod_lt q), testBit_mask (mod_lt p), Bool.not_eq_true',
        decide_eq_false_iff_not, hdiv, mod_eq_mod_iff hdiv]
    · have hne : q ≠ p := fun heq => hdiv (heq ▸ rfl)
      simp [hne]
  · intro q hq hmem
    exact not_mem_positions hq hmem.1

lemma get_eq (h : p / kSimpleBitSetAligned < kSimpleBitSetSize NB) [Decidable (p ∈ a.positions)] :
    a.get p = if p ∈ a.positions then 1 else 0 := by
  simp only [get, dif_pos h, Words.and_one_shiftLeft_ne_zero (mod_lt p), mem_positions_iff h]

lemma mem_positions_flip_iff (hNB : NB % kSimpleBitSetAligned = 0) (hpos : 0 < NB) :
    p ∈ a.flip.positions ↔ p < NB ∧ p ∉ a.positions := by
  by_cases h : p / kSimpleBitSetAligned < kSimpleBitSetSize NB
  · rw [mem_positions_iff h, mem_positions_iff h, ← div_lt_iff hNB hpos]
    simp only [flip, Vector.getElem_map, Words.testBit_complement _ (mod_lt p), h, true_and,
      Bool.not_eq_true', Bool.not_eq_true]
  · apply iff_of_false (not_mem_positions h)
    rintro ⟨hlt, _⟩
    exact h ((div_lt_iff hNB hpos).mpr hlt)

/-! ### The order -/

/-- The number that the words stand for. -/
def value (a : SimpleBitSet NB) : Nat := Words.value a.bitSet.toList

lemma value_inj : a.value = b.value ↔ a = b := by
  rw [value, value, Words.value_inj (by simp), Vector.toList_inj]
  cases a
  cases b
  simp

lemma eq_iff : a.eq b = true ↔ a = b := by
  cases a
  cases b
  simp only [eq, List.all_eq_true, List.mem_finRange, true_imp_iff, beq_iff_eq, mk.injEq]
  constructor
  · intro h
    ext i hi
    exact congrArg UInt64.toNat (h ⟨i, hi⟩)
  · rintro rfl i
    rfl

lemma eq_iff_positions_eq : a.eq b = true ↔ a.positions = b.positions := by
  rw [eq_iff]
  constructor
  · rintro rfl
    rfl
  · intro h
    rw [← value_inj]
    apply Nat.eq_of_testBit_eq
    intro p
    rw [value, value, Words.testBit_value, Words.testBit_value, Bool.eq_iff_iff]
    exact Set.ext_iff.mp h p

lemma add_mul_lt_iff {B x y r s : Nat} (hr : r < B) (hs : s < B) :
    r + B * x < s + B * y ↔ x < y ∨ x = y ∧ r < s := by
  rcases lt_trichotomy x y with h | rfl | h
  · have hle : B * (x + 1) ≤ B * y := Nat.mul_le_mul_left B h
    rw [Nat.mul_succ] at hle
    simp only [h, true_or, iff_true]
    omega
  · simp
  · have hle : B * (y + 1) ≤ B * x := Nat.mul_le_mul_left B h
    rw [Nat.mul_succ] at hle
    simp only [not_lt_of_gt h, h.ne', false_and, or_self, iff_false]
    omega

lemma lessFrom_iff {k : Nat} (h : k ≤ kSimpleBitSetSize NB) :
    a.lessFrom b k h = true ↔
      Words.value (a.bitSet.toList.take k) < Words.value (b.bitSet.toList.take k) := by
  induction k with
  | zero => simp [lessFrom]
  | succ k ih =>
    have hlen (c : SimpleBitSet NB) : (c.bitSet.toList.take k).length = k := by
      rw [List.length_take, Vector.length_toList]
      exact Nat.min_eq_left (Nat.le_of_succ_le h)
    have htake (c : SimpleBitSet NB) : Words.value (c.bitSet.toList.take (k + 1)) =
        Words.value (c.bitSet.toList.take k) + 2 ^ (64 * k) * (c.bitSet[k]).toNat := by
      rw [List.take_succ_eq_append_getElem (by rw [Vector.length_toList]; exact h),
        Words.value_append, hlen, Words.value_singleton, Vector.getElem_toList]
    have hlt (c : SimpleBitSet NB) : Words.value (c.bitSet.toList.take k) < 2 ^ (64 * k) := by
      have := Words.value_lt (c.bitSet.toList.take k)
      rwa [hlen] at this
    rw [lessFrom, htake, htake, add_mul_lt_iff (hlt a) (hlt b), ← ih (Nat.le_of_succ_le h)]
    simp only [gt_iff_lt, UInt64.lt_iff_toNat_lt]
    split_ifs with hgt hlt'
    · simp only [false_iff]
      omega
    · simp only [true_iff]
      exact Or.inl hlt'
    · have heq : a.bitSet[k].toNat = b.bitSet[k].toNat := by omega
      simp [heq]

lemma less_iff : a.less b = true ↔ a.value < b.value := by
  rw [less, lessFrom_iff, List.take_of_length_le (by simp), List.take_of_length_le (by simp)]
  exact Iff.rfl

/-! ### All operations -/

/-- The operators with two operands. -/
inductive Operator
  | band
  | bior
  | bxor

namespace Operator

/-- What an operator does to the sets of positions. -/
def meaning (op : Operator) (s t : Set Nat) : Set Nat :=
  match op with
  | .band => s ∩ t
  | .bior => s ∪ t
  | .bxor => symmDiff s t

/-- The result with a bit set. -/
def apply (op : Operator) (a b : SimpleBitSet NB) : SimpleBitSet NB :=
  match op with
  | .band => a.and b
  | .bior => a.or b
  | .bxor => a.xor b

/-- The assignment with a bit set. -/
def assign (op : Operator) (a b : SimpleBitSet NB) : SimpleBitSet NB :=
  match op with
  | .band => a.andAssign b
  | .bior => a.orAssign b
  | .bxor => a.xorAssign b

/-- The result with an integer. -/
def applyInteger (op : Operator) (a : SimpleBitSet NB) (x : UInt64) : SimpleBitSet NB :=
  match op with
  | .band => a.andInteger x
  | .bior => a.orInteger x
  | .bxor => a.xorInteger x

/-- The assignment with an integer. -/
def assignInteger (op : Operator) (a : SimpleBitSet NB) (x : UInt64) : SimpleBitSet NB :=
  match op with
  | .band => a.andAssignInteger x
  | .bior => a.orAssignInteger x
  | .bxor => a.xorAssignInteger x

end Operator

/-- An operation with its operands. -/
inductive Operation (NB : Nat)
  | apply (op : Operator) (a b : SimpleBitSet NB)
  | assign (op : Operator) (a b : SimpleBitSet NB)
  | applyInteger (op : Operator) (a : SimpleBitSet NB) (x : UInt64)
  | assignInteger (op : Operator) (a : SimpleBitSet NB) (x : UInt64)
  | flip (a : SimpleBitSet NB)
  | set (a : SimpleBitSet NB) (pos : Nat)
  | reset (a : SimpleBitSet NB) (pos : Nat)
  | resetAll (a : SimpleBitSet NB)
  | get (a : SimpleBitSet NB) (pos : Nat)
  | eq (a b : SimpleBitSet NB)
  | eqInteger (a : SimpleBitSet NB) (x : UInt64)
  | less (a b c : SimpleBitSet NB)

namespace Operation

/-- The operation does to the set of positions what its operator means. -/
def Faithful : Operation NB → Prop
  | apply op a b => (op.apply a b).positions = op.meaning a.positions b.positions
  | assign op a b => (op.assign a b).positions = op.meaning a.positions b.positions
  | applyInteger op a x =>
    (op.applyInteger a x).positions =
      op.meaning a.positions (ofInteger x : SimpleBitSet NB).positions
  | assignInteger op a x =>
    (op.assignInteger a x).positions =
      op.meaning a.positions (ofInteger x : SimpleBitSet NB).positions
  | flip a => a.flip.positions = {p | p < NB ∧ p ∉ a.positions}
  | set a pos =>
    if pos < NB then (a.set pos).1.positions = insert pos a.positions ∧ (a.set pos).2 = true
    else a.set pos = (a, false)
  | reset a pos =>
    if pos < NB then (a.reset pos).1.positions = a.positions \ {pos} ∧ (a.reset pos).2 = true
    else a.reset pos = (a, false)
  | resetAll a => a.resetAll.positions = ∅
  | get a pos =>
    (a.get pos = 1 ↔ pos ∈ a.positions) ∧ (a.get pos = 0 ↔ pos < NB ∧ pos ∉ a.positions) ∧
      (a.get pos = -1 ↔ NB ≤ pos)
  | eq a b => a.eq b = true ↔ a.positions = b.positions
  | eqInteger a x =>
    a.eqInteger x = true ↔ a.positions = (ofInteger x : SimpleBitSet NB).positions
  | less a b c =>
    a.less a = false ∧ (a.less b = true → b.less c = true → a.less c = true) ∧
      (a.less b = true ∨ a.eq b = true ∨ b.less a = true) ∧
      (a.eq b = true → a.less b = false ∧ b.less a = false)

/-- `^` is right for empty sets, and `&` with an integer for sets of positions below 64. -/
def Condition : Operation NB → Prop
  | apply .bxor a b => a.positions = ∅ ∧ b.positions = ∅
  | applyInteger .band a _ => ∀ p ∈ a.positions, p < 64
  | assignInteger .band a _ => ∀ p ∈ a.positions, p < 64
  | _ => True

end Operation

lemma set_faithful (hNB : NB % kSimpleBitSetAligned = 0) (hpos : 0 < NB) (a : SimpleBitSet NB)
    (pos : Nat) : (Operation.set a pos).Faithful := by
  rw [Operation.Faithful]
  split_ifs with h
  · have hlt := (div_lt_iff hNB hpos).mpr h
    refine ⟨positions_set hlt, ?_⟩
    rw [set, dif_pos hlt]
  · have hge : ¬pos / kSimpleBitSetAligned < kSimpleBitSetSize NB :=
      fun hlt => h ((div_lt_iff hNB hpos).mp hlt)
    rw [set, dif_neg hge]

lemma reset_faithful (hNB : NB % kSimpleBitSetAligned = 0) (hpos : 0 < NB) (a : SimpleBitSet NB)
    (pos : Nat) : (Operation.reset a pos).Faithful := by
  rw [Operation.Faithful]
  split_ifs with h
  · have hlt := (div_lt_iff hNB hpos).mpr h
    refine ⟨positions_reset hlt, ?_⟩
    rw [reset, dif_pos hlt]
  · have hge : ¬pos / kSimpleBitSetAligned < kSimpleBitSetSize NB :=
      fun hlt => h ((div_lt_iff hNB hpos).mp hlt)
    rw [reset, dif_neg hge]

lemma get_faithful (hNB : NB % kSimpleBitSetAligned = 0) (hpos : 0 < NB) (a : SimpleBitSet NB)
    (pos : Nat) : (Operation.get a pos).Faithful := by
  classical
  rw [Operation.Faithful]
  by_cases h : pos < NB
  · rw [get_eq ((div_lt_iff hNB hpos).mpr h)]
    by_cases hmem : pos ∈ a.positions
    · simp [hmem, h]
    · simp [hmem, h]
  · have hge : ¬pos / kSimpleBitSetAligned < kSimpleBitSetSize NB :=
      fun hlt => h ((div_lt_iff hNB hpos).mp hlt)
    rw [get, dif_neg hge]
    simp [not_mem_positions hge, h, not_lt.mp h]

lemma less_faithful (a b c : SimpleBitSet NB) : (Operation.less a b c).Faithful := by
  simp only [Operation.Faithful, ← Bool.not_eq_true, less_iff, eq_iff, ← value_inj]
  refine ⟨lt_irrefl _, lt_trans, lt_trichotomy _ _, ?_⟩
  intro h
  rw [h]
  exact ⟨lt_irrefl _, lt_irrefl _⟩

/-- The operations that are right, with their operands. -/
theorem operation_faithful_iff (hNB : NB % kSimpleBitSetAligned = 0) (hpos : 0 < NB)
    (o : Operation NB) : o.Faithful ↔ o.Condition := by
  cases o with
  | apply op a b =>
    cases op with
    | band => exact iff_of_true positions_andAssign trivial
    | bior => exact iff_of_true positions_orAssign trivial
    | bxor => exact positions_xor_eq_iff
  | assign op a b =>
    cases op with
    | band => exact iff_of_true positions_andAssign trivial
    | bior => exact iff_of_true positions_orAssign trivial
    | bxor => exact iff_of_true positions_xorAssign trivial
  | applyInteger op a x =>
    cases op with
    | band => exact positions_andAssignInteger_eq_iff x
    | bior => exact iff_of_true (positions_orAssignInteger x) trivial
    | bxor => exact iff_of_true (positions_xorAssignInteger x) trivial
  | assignInteger op a x =>
    cases op with
    | band => exact positions_andAssignInteger_eq_iff x
    | bior => exact iff_of_true (positions_orAssignInteger x) trivial
    | bxor => exact iff_of_true (positions_xorAssignInteger x) trivial
  | flip a => exact iff_of_true (Set.ext fun _ => mem_positions_flip_iff hNB hpos) trivial
  | set a pos => exact iff_of_true (set_faithful hNB hpos a pos) trivial
  | reset a pos => exact iff_of_true (reset_faithful hNB hpos a pos) trivial
  | resetAll a => exact iff_of_true positions_resetAll trivial
  | get a pos => exact iff_of_true (get_faithful hNB hpos a pos) trivial
  | eq a b => exact iff_of_true eq_iff_positions_eq trivial
  | eqInteger a x => exact iff_of_true eq_iff_positions_eq trivial
  | less a b c => exact iff_of_true (less_faithful a b c) trivial

/-- `operator<` on sets of 128 positions. -/
theorem operation_faithful_iff_less :
    (Operation.less (ofInteger 1) (ofInteger 2) (ofInteger 3) : Operation 128).Faithful :=
  (operation_faithful_iff (by decide) (by decide) _).mpr trivial

/-- `s ^ s` is `s` for the set of the position 0. -/
theorem not_operation_faithful_xor : ¬∀ NB, NB % kSimpleBitSetAligned = 0 → 0 < NB →
    ∀ o : Operation NB, o.Faithful := by
  intro h
  have hxor := h 128 (by decide) (by decide) (Operation.apply .bxor (ofInteger 1) (ofInteger 1))
  have hmem : 0 ∈ (ofInteger 1 : SimpleBitSet 128).positions := by
    rw [mem_positions_ofInteger_iff]
    decide
  rw [(positions_xor_eq_iff.mp hxor).1] at hmem
  exact hmem

end SimpleBitSet

end Maple
