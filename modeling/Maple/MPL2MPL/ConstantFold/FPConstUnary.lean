import Maple.IR.FPConstTable

/-!
# Unary folding of quad-precision constants
-/

namespace Maple

open MIRFloat128Const FPConstTable

/-- The opcodes that `FoldFPConstUnary` tells apart. -/
inductive FPUnaryOp where
  | recip | neg | abs | sqrt | bnot | lnot | sext | zext | extractbits
  deriving DecidableEq, Repr

namespace ConstantFold

/-- `FoldFPConstUnary<MIRFloat128Const>` for a result of type `PTY_f128`: the constant of the new
node. No assertion lets the other opcodes through. -/
def foldFPConstUnary (opcode : FPUnaryOp) (fpCst : MIRFloat128Const) (t : FPConstTable) :
    Option (MIRFloat128Const × FPConstTable) := do
  let constValue := fpCst
  let _newValue ← match opcode with
    | .neg => some ⟨constValue.val0 ^^^ 0x8000000000000000, constValue.val1⟩
    | .abs => some ⟨constValue.val0 &&& 0x7fffffffffffffff, constValue.val1⟩
    | _ => (none : Option MIRFloat128Const)
  -- the table is asked for the value of the operand, not for the new one
  return t.getOrCreateFloat128Const constValue

/-- The pattern with the other sign. -/
def flipSign (c : MIRFloat128Const) : MIRFloat128Const := ⟨c.val0 ^^^ (1 <<< kDoubleSignPos), c.val1⟩

/-- The pattern without a sign. -/
def clearSign (c : MIRFloat128Const) : MIRFloat128Const :=
  ⟨c.val0 &&& ~~~(1 <<< kDoubleSignPos), c.val1⟩

/-- The folding changes the sign bit alone, and a second `neg` brings the pattern back. -/
def ActsOnSignBit (opcode : FPUnaryOp) (fpCst : MIRFloat128Const) (t : FPConstTable) : Prop :=
  match opcode with
  | .neg => ∃ r, foldFPConstUnary .neg fpCst t = some r ∧ r.1 = flipSign fpCst ∧
      ∃ r', foldFPConstUnary .neg r.1 r.2 = some r' ∧ r'.1 = fpCst
  | .abs => ∃ r, foldFPConstUnary .abs fpCst t = some r ∧ r.1 = clearSign fpCst
  | _ => False

lemma foldFPConstUnary_eq_some {opcode : FPUnaryOp} (h : opcode = .neg ∨ opcode = .abs)
    (c : MIRFloat128Const) (t : FPConstTable) :
    foldFPConstUnary opcode c t = some (t.getOrCreateFloat128Const c) := by
  rcases h with rfl | rfl
  · rfl
  · rfl

/-! ### Sign bits -/

lemma testBit_flipSign (c : MIRFloat128Const) :
    (flipSign c).val0.toNat.testBit 63 = !c.val0.toNat.testBit 63 := by
  have hmask : ((1 : UInt64) <<< kDoubleSignPos).toNat.testBit 63 = true := by decide
  rw [flipSign, UInt64.toNat_xor, Nat.testBit_xor, hmask, Bool.xor_true]

lemma flipSign_ne (c : MIRFloat128Const) : flipSign c ≠ c := by
  intro h
  have hbit := testBit_flipSign c
  rw [h] at hbit
  simp at hbit

lemma testBit_of_isNan {c : MIRFloat128Const} (h : c.isNan = true) :
    c.val0.toNat.testBit 63 = false := by
  have hexp : c.val0 >>> kDoubleExpShiftBits = 0x7fff := by
    simp only [isNan, Bool.and_eq_true, beq_iff_eq] at h
    exact h.1
  have hnat := congrArg UInt64.toNat hexp
  rw [UInt64.toNat_shiftRight, Nat.shiftRight_eq_div_pow] at hnat
  change c.val0.toNat / 2 ^ 48 = 0x7fff at hnat
  rw [Nat.testBit_eq_decide_div_mod_eq]
  apply decide_eq_false
  omega

lemma clearSign_eq_iff (c : MIRFloat128Const) :
    clearSign c = c ↔ c.val0.toNat.testBit 63 = false := by
  constructor
  · intro h
    have hmask : (~~~((1 : UInt64) <<< kDoubleSignPos)).toNat.testBit 63 = false := by decide
    rw [← h, clearSign, UInt64.toNat_and, Nat.testBit_and, hmask, Bool.and_false]
  · intro h
    have hlt : c.val0.toNat < 2 ^ 63 := by
      have := c.val0.toNat_lt
      rw [Nat.testBit_eq_decide_div_mod_eq, decide_eq_false_iff_not] at h
      omega
    have hmask : (~~~((1 : UInt64) <<< kDoubleSignPos)).toNat = 2 ^ 63 - 1 := by decide
    have hval : c.val0 &&& ~~~(1 <<< kDoubleSignPos) = c.val0 := by
      apply UInt64.toNat_inj.mp
      rw [UInt64.toNat_and, hmask, Nat.and_two_pow_sub_one_eq_mod, Nat.mod_eq_of_lt hlt]
    exact congrArg (MIRFloat128Const.mk · c.val1) hval

lemma getSign_eq_zero_iff (c : MIRFloat128Const) :
    c.getSign = 0 ↔ c.val0.toNat.testBit 63 = false := by
  have hmask : ((1 : UInt64) <<< kDoubleSignPos).toNat = 2 ^ 63 := by decide
  have hsign : c.getSign.toNat = (c.val0.toNat &&& 2 ^ 63) / 2 ^ 63 := by
    rw [getSign, UInt64.toNat_shiftRight, UInt64.toNat_and, hmask, Nat.shiftRight_eq_div_pow]
    rfl
  rw [← UInt64.toNat_inj, hsign, UInt64.toNat_zero, Nat.and_two_pow]
  cases c.val0.toNat.testBit 63 <;> simp

/-! ### When the folding is right -/

/-- A `neg` is never folded right, and an `abs` only where there is nothing to do. -/
theorem actsOnSignBit_iff (opcode : FPUnaryOp) (c : MIRFloat128Const) (t : FPConstTable) :
    ActsOnSignBit opcode c t ↔
      opcode = .abs ∧ c.getSign = 0 ∧ (c.isNan = true → c = nanFloat128Const) := by
  cases opcode with
  | neg =>
    refine iff_of_false ?_ (fun h => nomatch h.1)
    rintro ⟨r, hr, hflip, -⟩
    rw [foldFPConstUnary_eq_some (Or.inl rfl)] at hr
    obtain rfl := Option.some.inj hr
    rw [getOrCreateFloat128Const_eq] at hflip
    split_ifs at hflip with hnan
    · have hbit := testBit_flipSign c
      rw [← hflip, testBit_of_isNan hnan] at hbit
      exact absurd hbit (by decide)
    · exact flipSign_ne c hflip.symm
  | abs =>
    rw [ActsOnSignBit, foldFPConstUnary_eq_some (Or.inr rfl), getSign_eq_zero_iff]
    simp only [Option.some.injEq, exists_eq_left', getOrCreateFloat128Const_eq, true_and]
    split_ifs with hnan
    · have hbit := testBit_of_isNan hnan
      rw [(clearSign_eq_iff c).mpr hbit, and_iff_right hbit, forall_prop_of_true hnan, eq_comm]
    · rw [eq_comm, clearSign_eq_iff]
      exact (and_iff_left fun h => absurd h hnan).symm
  | recip => exact iff_of_false id (fun h => nomatch h.1)
  | sqrt => exact iff_of_false id (fun h => nomatch h.1)
  | bnot => exact iff_of_false id (fun h => nomatch h.1)
  | lnot => exact iff_of_false id (fun h => nomatch h.1)
  | sext => exact iff_of_false id (fun h => nomatch h.1)
  | zext => exact iff_of_false id (fun h => nomatch h.1)
  | extractbits => exact iff_of_false id (fun h => nomatch h.1)

/-- The negation of one is folded to one. -/
theorem not_actsOnSignBit_one :
    ¬ActsOnSignBit .neg ⟨0x3fff000000000000, 0⟩ ⟨[], by simp⟩ := by
  rintro ⟨r, hr, hflip, -⟩
  obtain rfl : (⟨0x3fff000000000000, 0⟩, _) = r := Option.some.inj hr
  exact absurd hflip (by decide)

end ConstantFold
end Maple
