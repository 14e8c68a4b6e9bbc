import Maple.Util.IntVal.Typed
import Maple.Util.IntVal.Extremal
import Mathlib.Data.BitVec

/-!
# Known bits of expressions

`BitValue` (`bit_value.h`, `bit_value.cpp`) records which bits of an expression are zero and which
are one. `ComputeBitValueOfExpr` computes them for constants and bitwise operators.
-/

namespace Maple

open IntVal

/-! ### Values without bits above the width -/

/-- A value of a shape. -/
structure Bits (s : Shape) where
  val : IntVal
  represents : val.Represents s val.value

namespace Bits

variable {s : Shape} {a b : Bits s}

/-- The value for a number that it represents. -/
def of {r : IntVal} {x : Int} (h : r.Represents s x) : Bits s where
  val := r
  represents := h.of_emod_eq (by rw [h.value_eq, Int.emod_emod])

/-- The bits. -/
def bits (a : Bits s) : BitVec s.width := BitVec.ofNat s.width a.val.value

lemma bits_of {r : IntVal} {x : Int} (h : r.Represents s x) :
    (of h).bits = BitVec.ofInt s.width x := by
  rw [bits, ← BitVec.ofInt_natCast]
  apply BitVec.eq_of_toNat_eq
  rw [BitVec.toNat_ofInt, BitVec.toNat_ofInt]
  have hvalue : ((of h).val.value : Int) = x % 2 ^ s.width := h.value_eq
  push_cast
  rw [hvalue, Int.emod_emod]

lemma toNat_bits (a : Bits s) : a.bits.toNat = a.val.value := by
  rw [bits, BitVec.toNat_ofNat]
  exact_mod_cast a.represents.value_eq.symm

lemma width_eq (a b : Bits s) : a.val.width = b.val.width := a.represents.width_eq b.represents

variable (hs : s.IsOneWord)

/-- `IntVal(0, bitwidth, false)`. -/
def zero : Bits s := of (ofNumber_represents (Or.inl hs) 0)

def and (a b : Bits s) : Bits s :=
  of (a.represents.bitwise (Or.inl hs) b.represents UInt64.toNat_and Nat.testBit_and
    (fun _ hn => Nat.and_lt_two_pow _ hn) (a.width_eq b))

def or (a b : Bits s) : Bits s :=
  of (a.represents.bitwise (Or.inl hs) b.represents UInt64.toNat_or Nat.testBit_or
    Nat.or_lt_two_pow (a.width_eq b))

def not (a : Bits s) : Bits s := of (a.represents.not (Or.inl hs))

@[simp] lemma bits_zero : (zero hs).bits = 0#s.width := by
  rw [zero, bits_of]
  have h : (⟨64, s.sign⟩ : IntFormat).wrap ((0 : UInt64).toNat : Int) = 0 := IntFormat.wrap_zero _
  rw [h]
  rfl

@[simp] lemma bits_and : (a.and hs b).bits = a.bits &&& b.bits := by
  rw [Bits.and, bits_of, BitVec.ofInt_natCast, BitVec.ofNat_and, bits, bits]

@[simp] lemma bits_or : (a.or hs b).bits = a.bits ||| b.bits := by
  rw [Bits.or, bits_of, BitVec.ofInt_natCast, BitVec.ofNat_or, bits, bits]

@[simp] lemma bits_not : (a.not hs).bits = ~~~a.bits := by
  have h : -1 - (a.val.value : Int) = Int.negSucc a.val.value := by omega
  rw [Bits.not, bits_of, h, BitVec.ofInt_negSucc_eq_not_ofNat, bits]

include hs

lemma isOneWord_val : a.val.IsOneWord := by
  rw [← isOneWord_shape, a.represents.shape_eq]
  exact hs

lemma toNat_word : a.val.word.toNat = a.bits.toNat := by
  rw [toNat_bits, (isOneWord_val hs).word_eq]

lemma areAllBitsOne_iff : a.val.areAllBitsOne = true ↔ a.bits = BitVec.allOnes s.width := by
  have hwidth : a.val.width = s.width := congrArg Shape.width a.represents.shape_eq
  have hones : (kAllOnes >>> UInt64.ofNat (kWordBitSize - s.width)).toNat = 2 ^ s.width - 1 :=
    Words.toNat_ones_shiftRight s.width_pos hs
  rw [areAllBitsOne, if_pos (isOneWord_val hs), beq_iff_eq, ← UInt64.toNat_inj, hwidth, hones,
    toNat_word hs, ← BitVec.toNat_inj, BitVec.toNat_allOnes]

lemma areAllBitsZeros_iff : a.val.areAllBitsZeros = true ↔ a.bits = 0#s.width := by
  rw [areAllBitsZeros, if_pos (isOneWord_val hs), beq_iff_eq, ← UInt64.toNat_inj, toNat_word hs,
    ← BitVec.toNat_inj]
  rfl

end Bits

/-! ### The functions -/

/-- `BitValue`: the bits known to be zero and the bits known to be one. -/
structure BitValue (s : Shape) where
  zeroBits : Bits s
  oneBits : Bits s

namespace BitValue

variable {s : Shape} (hs : s.IsOneWord)

/-- The constructor from a width: no bit is known. -/
def unknown : BitValue s := ⟨.zero hs, .zero hs⟩

@[simp] lemma zeroBits_unknown : (unknown hs).zeroBits.bits = 0#s.width := Bits.bits_zero hs

@[simp] lemma oneBits_unknown : (unknown hs).oneBits.bits = 0#s.width := Bits.bits_zero hs

def isConstant (k : BitValue s) : Bool := (k.zeroBits.or hs k.oneBits).val.areAllBitsOne

def hasConflict (k : BitValue s) : Bool := !(k.zeroBits.and hs k.oneBits).val.areAllBitsZeros

def and (k rhs : BitValue s) : BitValue s :=
  ⟨k.zeroBits.or hs rhs.zeroBits, k.oneBits.and hs rhs.oneBits⟩

def or (k rhs : BitValue s) : BitValue s :=
  ⟨k.zeroBits.and hs rhs.zeroBits, k.oneBits.or hs rhs.oneBits⟩

def xor (k rhs : BitValue s) : BitValue s :=
  ⟨(k.zeroBits.and hs rhs.zeroBits).or hs (k.oneBits.and hs rhs.oneBits),
    (k.zeroBits.and hs rhs.oneBits).or hs (k.oneBits.and hs rhs.zeroBits)⟩

def createFromConst (c : Bits s) : BitValue s := ⟨c.not hs, c⟩

/-- The bitwise operators of expressions. -/
inductive Operator
  | band
  | bior
  | bxor

/-- An integer constant. -/
structure IntConst where
  value : IntVal
  canonical : value.Canonical
  width_le : value.width ≤ value.storageBits

namespace IntConst

include hs in
lemma isSome_truncOrExtend (c : IntConst) : (c.value.truncOrExtend s).isSome := by
  obtain ⟨r, hr, -⟩ := truncOrExtend_represents c.canonical c.width_le (Or.inl hs : s.IsPrim)
  rw [hr]
  rfl

include hs in
lemma represents_truncOrExtend (c : IntConst) :
    ((c.value.truncOrExtend s).get (isSome_truncOrExtend hs c)).Represents s c.value.toInt := by
  obtain ⟨r, hr, hrep⟩ := truncOrExtend_represents c.canonical c.width_le (Or.inl hs : s.IsPrim)
  simpa only [hr, Option.get_some] using hrep

/-- `IntVal::TruncOrExtend` to a shape. -/
def truncOrExtend (c : IntConst) : Bits s := .of (represents_truncOrExtend hs c)

@[simp] lemma bits_truncOrExtend (c : IntConst) :
    (truncOrExtend hs c).bits = BitVec.ofInt s.width c.value.toInt :=
  Bits.bits_of _

end IntConst

/-- An expression of constants, bitwise operators and other nodes. -/
inductive MeExpr (ω : Type)
  | intConst (c : IntConst)
  | other (x : ω)
  | binary (op : Operator) (opnd0 opnd1 : MeExpr ω)

def getBitValueOfAndOrXorExpr (op : Operator) (lhsKnown rhsKnown : BitValue s) : BitValue s :=
  match op with
  | .band => lhsKnown.and hs rhsKnown
  | .bior => lhsKnown.or hs rhsKnown
  | .bxor => lhsKnown.xor hs rhsKnown

/-- `ComputeBitValueOfExpr`: the value that the call leaves in `known`. -/
def computeBitValueOfExpr {ω : Type} : MeExpr ω → BitValue s → BitValue s
  | .intConst c, _ => createFromConst hs (IntConst.truncOrExtend hs c)
  | .other _, known => known
  | .binary op opnd0 opnd1, _ =>
    let lhsKnown := computeBitValueOfExpr opnd0 (unknown hs)
    -- both calls are given `lhsKnown`
    let lhsKnown := computeBitValueOfExpr opnd1 lhsKnown
    getBitValueOfAndOrXorExpr hs op lhsKnown (unknown hs)

/-! ### The meaning of known bits -/

/-- The value of a bitwise operator. -/
def Operator.eval {w : Nat} (op : Operator) (x y : BitVec w) : BitVec w :=
  match op with
  | .band => x &&& y
  | .bior => x ||| y
  | .bxor => x ^^^ y

namespace MeExpr

variable {ω : Type}

/-- The value of an expression in an environment, at a width. -/
def eval {w : Nat} (env : ω → BitVec w) : MeExpr ω → BitVec w
  | intConst c => BitVec.ofInt w c.value.toInt
  | other x => env x
  | binary op opnd0 opnd1 => op.eval (opnd0.eval env) (opnd1.eval env)

/-- The expression is built from constants. -/
def OfConstants : MeExpr ω → Prop
  | intConst _ => True
  | other _ => False
  | binary _ opnd0 opnd1 => opnd0.OfConstants ∧ opnd1.OfConstants

/-- The last operand is a constant whose lowest `w` bits are zero, under `band` only. -/
def AllZero (w : Nat) : MeExpr ω → Prop
  | intConst c => (2 : Int) ^ w ∣ c.value.toInt
  | binary .band _ opnd1 => opnd1.AllZero w
  | _ => False

/-- The last operand is a constant whose lowest `w` bits are one, under `bior` only. -/
def AllOne (w : Nat) : MeExpr ω → Prop
  | intConst c => (2 : Int) ^ w ∣ c.value.toInt + 1
  | binary .bior _ opnd1 => opnd1.AllOne w
  | _ => False

/-- The expressions of constants that the analysis finds to be constant. -/
def Condition (w : Nat) : MeExpr ω → Prop
  | intConst _ => True
  | binary .band _ opnd1 => opnd1.AllZero w
  | binary .bior _ opnd1 => opnd1.AllOne w
  | _ => False

end MeExpr

/-- The recorded bits are those of the value. -/
def Contains (k : BitValue s) (v : BitVec s.width) : Prop :=
  ∀ i, (k.zeroBits.bits.getLsbD i = true → v.getLsbD i = false) ∧
    (k.oneBits.bits.getLsbD i = true → v.getLsbD i = true)

/-- The bits found for an expression are right in every environment, they do not contradict each
other, and an expression of constants is found to be constant. -/
structure Sound {ω : Type} (e : MeExpr ω) : Prop where
  contains : ∀ env, (computeBitValueOfExpr hs e (unknown hs)).Contains (e.eval env)
  no_conflict : (computeBitValueOfExpr hs e (unknown hs)).hasConflict hs = false
  constant : e.OfConstants → (computeBitValueOfExpr hs e (unknown hs)).isConstant hs = true

/-! ### Soundness -/

section Contains

variable {k k' : BitValue s} {v v' : BitVec s.width} {op : Operator}

lemma contains_unknown (v : BitVec s.width) : (unknown hs).Contains v := by
  intro i
  simp

lemma contains_createFromConst (c : Bits s) : (createFromConst hs c).Contains c.bits := by
  intro i
  simp [createFromConst]

lemma Contains.binary (h : k.Contains v) (h' : k'.Contains v') :
    (getBitValueOfAndOrXorExpr hs op k k').Contains (op.eval v v') := by
  intro i
  obtain ⟨hz, ho⟩ := h i
  obtain ⟨hz', ho'⟩ := h' i
  cases op <;>
    simp only [getBitValueOfAndOrXorExpr, and, or, xor, Operator.eval, Bits.bits_or, Bits.bits_and,
      BitVec.getLsbD_or, BitVec.getLsbD_and, BitVec.getLsbD_xor] <;> grind

lemma Operator.eval_comm (op : Operator) (x y : BitVec s.width) : op.eval x y = op.eval y x := by
  cases op with
  | band => exact BitVec.and_comm x y
  | bior => exact BitVec.or_comm x y
  | bxor => exact BitVec.xor_comm x y

lemma Contains.unknown_right (h : k.Contains v ∨ k.Contains v') :
    (getBitValueOfAndOrXorExpr hs op k (unknown hs)).Contains (op.eval v v') := by
  rcases h with h | h
  · exact h.binary hs (contains_unknown hs v')
  · rw [op.eval_comm]
    exact h.binary hs (contains_unknown hs v)

end Contains

variable {ω : Type}

lemma computeBitValueOfExpr_eq_or (e : MeExpr ω) (known known' : BitValue s) :
    computeBitValueOfExpr hs e known = computeBitValueOfExpr hs e known' ∨
      ∀ k, computeBitValueOfExpr hs e k = k := by
  cases e with
  | intConst c => exact Or.inl rfl
  | other x => exact Or.inr fun _ => rfl
  | binary op l r => exact Or.inl rfl

lemma contains_computeBitValueOfExpr (env : ω → BitVec s.width) (e : MeExpr ω) :
    (computeBitValueOfExpr hs e (unknown hs)).Contains (e.eval env) := by
  induction e with
  | intConst c =>
    rw [computeBitValueOfExpr, MeExpr.eval, ← IntConst.bits_truncOrExtend hs]
    exact contains_createFromConst hs _
  | other x => exact contains_unknown hs _
  | binary op l r ihl ihr =>
    rw [computeBitValueOfExpr, MeExpr.eval]
    apply Contains.unknown_right
    -- the bits of the second operand, or those of the first one when the second is not computed
    rcases computeBitValueOfExpr_eq_or hs r (computeBitValueOfExpr hs l (unknown hs)) (unknown hs)
      with h | h
    · rw [h]
      exact Or.inr ihr
    · rw [h]
      exact Or.inl ihl

lemma Contains.not_hasConflict {k : BitValue s} {v : BitVec s.width} (h : k.Contains v) :
    k.hasConflict hs = false := by
  rw [hasConflict, Bool.not_eq_false', Bits.areAllBitsZeros_iff hs, Bits.bits_and]
  apply BitVec.eq_of_getLsbD_eq
  intro i _
  obtain ⟨hz, ho⟩ := h i
  rw [BitVec.getLsbD_and]
  cases hzero : k.zeroBits.bits.getLsbD i <;> cases hone : k.oneBits.bits.getLsbD i <;> simp_all

/-! ### Precision -/

lemma isConstant_iff (k : BitValue s) :
    k.isConstant hs = true ↔ k.zeroBits.bits ||| k.oneBits.bits = BitVec.allOnes s.width := by
  rw [isConstant, Bits.areAllBitsOne_iff hs, Bits.bits_or]

lemma zero_ne_allOnes (s : Shape) : 0#s.width ≠ BitVec.allOnes s.width := by
  have hpow : 2 ≤ 2 ^ s.width := Nat.le_self_pow s.width_pos.ne' 2
  rw [ne_eq, ← BitVec.toNat_inj, BitVec.toNat_allOnes, BitVec.toNat_zero]
  omega

lemma ofInt_eq_zero_iff {w : Nat} (x : Int) : BitVec.ofInt w x = 0#w ↔ (2 : Int) ^ w ∣ x := by
  have hpos : (0 : Int) < 2 ^ w := by positivity
  have hnonneg := Int.emod_nonneg x hpos.ne'
  rw [← BitVec.toNat_inj, BitVec.toNat_ofInt, BitVec.toNat_zero, Int.dvd_iff_emod_eq_zero]
  push_cast
  omega

lemma ofInt_eq_allOnes_iff {w : Nat} (x : Int) :
    BitVec.ofInt w x = BitVec.allOnes w ↔ (2 : Int) ^ w ∣ x + 1 := by
  rw [← ofInt_eq_zero_iff, BitVec.ofInt_add, ← BitVec.neg_one_eq_allOnes]
  exact eq_neg_iff_add_eq_zero

lemma bits_computeBitValueOfExpr {e : MeExpr ω} (h : e.OfConstants) (known : BitValue s) :
    ((computeBitValueOfExpr hs e known).zeroBits.bits = BitVec.allOnes s.width ↔
        e.AllZero s.width) ∧
      ((computeBitValueOfExpr hs e known).oneBits.bits = BitVec.allOnes s.width ↔
        e.AllOne s.width) := by
  induction e generalizing known with
  | intConst c =>
    constructor
    · rw [computeBitValueOfExpr, createFromConst, Bits.bits_not, IntConst.bits_truncOrExtend,
        MeExpr.AllZero, ← ofInt_eq_zero_iff, BitVec.not_eq_comm, BitVec.not_allOnes]
    · rw [computeBitValueOfExpr, createFromConst, IntConst.bits_truncOrExtend, MeExpr.AllOne,
        ofInt_eq_allOnes_iff]
  | other x => exact h.elim
  | binary op l r _ ih =>
    obtain ⟨hz, ho⟩ := ih h.2 (computeBitValueOfExpr hs l (unknown hs))
    have hne := zero_ne_allOnes s
    cases op with
    | band => simp [computeBitValueOfExpr, getBitValueOfAndOrXorExpr, and, MeExpr.AllZero,
        MeExpr.AllOne, hz, hne]
    | bior => simp [computeBitValueOfExpr, getBitValueOfAndOrXorExpr, or, MeExpr.AllZero,
        MeExpr.AllOne, ho, hne]
    | bxor => simp [computeBitValueOfExpr, getBitValueOfAndOrXorExpr, xor, MeExpr.AllZero,
        MeExpr.AllOne, hne]

lemma isConstant_computeBitValueOfExpr {e : MeExpr ω} (h : e.OfConstants) (known : BitValue s) :
    (computeBitValueOfExpr hs e known).isConstant hs = true ↔ e.Condition s.width := by
  rw [isConstant_iff]
  cases e with
  | intConst c => simp [computeBitValueOfExpr, createFromConst, MeExpr.Condition]
  | other x => exact h.elim
  | binary op l r =>
    obtain ⟨hz, ho⟩ :=
      bits_computeBitValueOfExpr hs h.2 (computeBitValueOfExpr hs l (unknown hs))
    have hne := zero_ne_allOnes s
    cases op with
    | band => simp [computeBitValueOfExpr, getBitValueOfAndOrXorExpr, and,
        MeExpr.Condition, hz]
    | bior => simp [computeBitValueOfExpr, getBitValueOfAndOrXorExpr, or,
        MeExpr.Condition, ho]
    | bxor => simp [computeBitValueOfExpr, getBitValueOfAndOrXorExpr, xor,
        MeExpr.Condition, hne]

/-- The bits found are always right, and an expression of constants is found to be constant when it
has no operator or its last constant alone decides the value. -/
theorem sound_iff (e : MeExpr ω) : Sound hs e ↔ (e.OfConstants → e.Condition s.width) := by
  constructor
  · intro h hconst
    exact (isConstant_computeBitValueOfExpr hs hconst _).mp (h.constant hconst)
  · intro h
    refine ⟨fun env => contains_computeBitValueOfExpr hs env e, ?_, ?_⟩
    · exact (contains_computeBitValueOfExpr hs (fun _ => 0) e).not_hasConflict hs
    · intro hconst
      exact (isConstant_computeBitValueOfExpr hs hconst _).mpr (h hconst)

/-- The shape of a byte. -/
def u8 : Shape := ⟨8, false, by decide, by decide⟩

/-- A byte as a constant. -/
def byteConst (b : UInt64) : IntConst where
  value := ofNumber u8 b
  canonical := (ofNumber_represents (Or.inl (by decide)) b).canonical
  width_le := (ofNumber_represents (Or.inl (by decide)) b).width_le_storageBits

/-- A mask of an unknown byte. -/
theorem sound_iff_u8 : Sound (s := u8) (by decide)
    (.binary .band (.other ()) (.intConst (byteConst 15))) :=
  (sound_iff (by decide) _).mpr fun h => h.1.elim

/-- The value of `1 ^ 1` is not found. -/
theorem not_sound_bxor : ¬∀ (s : Shape) (hs : s.IsOneWord) (e : MeExpr Unit), Sound hs e := by
  intro h
  have hone : u8.IsOneWord := by decide
  have hsound := h u8 hone (.binary .bxor (.intConst (byteConst 1)) (.intConst (byteConst 1)))
  have hconst : (MeExpr.binary .bxor (.intConst (byteConst 1)) (.intConst (byteConst 1)) :
      MeExpr Unit).OfConstants := ⟨trivial, trivial⟩
  exact (isConstant_computeBitValueOfExpr hone hconst _).mp (hsound.constant hconst)

end BitValue

end Maple
