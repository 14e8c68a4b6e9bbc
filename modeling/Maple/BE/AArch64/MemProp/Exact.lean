import Maple.BE.AArch64.MemProp.Basic
import Mathlib.Tactic.LinearCombination
import Mathlib.Data.BitVec

/-!
# Where propagation keeps the address

The cases of `SelectReplaceMem` are compared one by one with the addresses. The 32-bit forms clear
the high word of the register, and an index can be the same register as the base.
-/

namespace Maple
namespace AArch64
namespace MemProp

/-! ### Words -/

@[simp] lemma lowWord_lowWord (x : BitVec 64) : lowWord (lowWord x) = lowWord x := by
  simp [lowWord]

lemma setWidth_signExtend (y : BitVec 32) : (y.signExtend 64).setWidth 32 = y := by
  ext i hi
  simp [BitVec.getLsbD_signExtend, hi]
  omega

/-- The least number that is not in a word. -/
def highBit : BitVec 64 := 0x100000000#64

@[simp] lemma highBit_ne_zero : highBit ≠ 0#64 := by decide

@[simp] lemma zero_ne_highBit : 0#64 ≠ highBit := by decide

@[simp] lemma highBit_add_highBit_ne_zero : highBit + highBit ≠ 0#64 := by decide

@[simp] lemma lowWord_highBit : lowWord highBit = 0#64 := by decide

@[simp] lemma lowWord_zero : lowWord 0#64 = 0#64 := by decide

@[simp] lemma RegOperand.index_zero (regOpnd : RegOperand) : regOpnd.index 0#64 = 0#64 := by
  simp [index]

lemma RegOperand.index_highBit (regOpnd : RegOperand) :
    regOpnd.index highBit = if regOpnd.size = 32 then 0#64 else highBit := by
  simp [index]

lemma lowWord_add_one {x : BitVec 64} (h : lowWord x = x) : lowWord (x + 1) ≠ x := by
  intro hone
  have h := congrArg BitVec.toNat h
  have hone := congrArg BitVec.toNat hone
  simp only [lowWord, BitVec.toNat_setWidth, BitVec.toNat_add] at h hone
  simp at h hone
  omega

/-! ### The condition -/

section

variable (isSPOrFP : RegNO → Bool)

/-- The base is the register that the instruction reads and writes. -/
def ReadsAndWritesBase (base dest src : RegOperand) : Prop :=
  base.regNo = dest.regNo ∧ dest.regNo = src.regNo

/-- The cases in which the new operand has the address of the old one. In all cases that are left
out there is no new operand. -/
def KeepsAddress : Address → DefInsn → Prop
  | .kBOI _ offset, .subrri12 is64Bit _ _ _ | .kBOI _ offset, .addrri12 is64Bit _ _ _ =>
    is64Bit ∧ offset.vary ≠ .kUnAdjustVary
  | .kBOI _ offset, .addrrr is64Bit _ _ src' =>
    is64Bit ∧ src'.size ≠ 32 ∧ offset.vary ≠ .kUnAdjustVary
  | .kBOI _ _, .movrr is64Bit _ _ => is64Bit
  | .kBOR base index, .movrr is64Bit dest src =>
    if isSPOrFP src.regNo then
      if is64Bit then
        (base.size = 32 ↔ index.size = 32) ∧
          (index.size = 32 → base.regNo = src.regNo ∨ base.regNo = dest.regNo)
      else base.size = 32 ∧ base.regNo = src.regNo ∧ base.regNo ≠ dest.regNo
    else if is64Bit then (index.size = 32 ↔ src.size = 32)
    else src.size = 32 ∧ ¬ReadsAndWritesBase base dest src
  | .kBOR _ index, .movri is64Bit _ imm =>
    imm.vary ≠ .kUnAdjustVary ∧ (lowWord imm.value = imm.value ∨ is64Bit ∧ index.size ≠ 32)
  | .kBOR base index, .lslrri is64Bit dest src shift =>
    if is64Bit then
      if src.size = 32 then index.size = 32 ∧ shift = 0
      else index.size ≠ 32 ∧ (ReadsAndWritesBase base dest src → shift = 0)
    else src.size = 32 ∧ shift = 0 ∧ ¬ReadsAndWritesBase base dest src
  | .kBOR base index, .xsxtw64 dest src | .kBOL base index _, .xsxtw64 dest src =>
    index.size ≠ 32 ∧ ¬ReadsAndWritesBase base dest src
  | .kBOR base _, .xuxtw64 dest src | .kBOL base _ _, .xuxtw64 dest src =>
    ¬ReadsAndWritesBase base dest src
  | .kBOE base _ extendOp _, .xsxtw64 dest src =>
    (extendOp = .kSXTW ∨ extendOp = .kSXTX) ∧ ¬ReadsAndWritesBase base dest src
  | .kBOE base _ extendOp _, .xuxtw64 dest src =>
    (extendOp = .kUXTW ∨ extendOp = .kUXTX) ∧ ¬ReadsAndWritesBase base dest src
  | .kBOL base _ _, .lslrri is64Bit dest src _ =>
    is64Bit ∨ src.size = 32 ∧ ¬ReadsAndWritesBase base dest src
  | _, _ => False

end

/-! ### Bases and indices -/

lemma forall_regs_iff (base dest src : RegNO) (v f g : BitVec 64 → BitVec 64) :
    (∀ regs : Regs,
      (if base = src then regs base else Function.update regs dest (v (regs src)) base) +
          g (regs src) =
        Function.update regs dest (v (regs src)) base + f (v (regs src))) ↔
      if base = dest ∧ dest = src then ∀ x, x + g x = v x + f (v x) else ∀ x, g x = f (v x) := by
  by_cases hdest : base = dest
  · subst hdest
    by_cases hsrc : base = src
    · subst hsrc
      simp only [if_true, Function.update_self, and_self]
      exact ⟨fun h x => h fun _ => x, fun h regs => h _⟩
    · simp only [hsrc, and_false, if_false, Function.update_self, add_right_inj]
      exact ⟨fun h x => h fun _ => x, fun h regs => h _⟩
  · simp only [hdest, false_and, if_false, Function.update_of_ne hdest, ite_self, add_right_inj]
    exact ⟨fun h x => h fun _ => x, fun h regs => h _⟩

lemma le_three_of_checkNewAmount {size amount : Nat} (h : checkNewAmount size amount = true) :
    amount ≤ 3 := by
  simp only [checkNewAmount, Bool.or_eq_true, Bool.and_eq_true, decide_eq_true_eq] at h
  omega

lemma forall_index_eq_iff (regOpnd regOpnd' : RegOperand) :
    (∀ x, regOpnd.index x = regOpnd'.index x) ↔ (regOpnd.size = 32 ↔ regOpnd'.size = 32) := by
  by_cases h : regOpnd.size = 32 <;> by_cases h' : regOpnd'.size = 32 <;>
    simp [RegOperand.index, h, h']
  all_goals exact ⟨highBit, by decide⟩

section

variable {n : Nat} (hn : n ≤ 3)

include hn

lemma forall_eq_shiftLeft_iff : (∀ x : BitVec 64, x = x <<< n) ↔ n = 0 := by
  constructor
  · intro h
    specialize h 1#64
    revert n
    decide
  · rintro rfl
    simp

lemma forall_lowWord_shiftLeft_iff :
    (∀ x : BitVec 64, lowWord x <<< n = lowWord (x <<< n)) ↔ n = 0 := by
  constructor
  · intro h
    specialize h 0x80000000#64
    revert n
    decide
  · rintro rfl
    simp

lemma forall_add_lowWord_shiftLeft_iff :
    (∀ x : BitVec 64, x + lowWord x <<< n = x <<< n + lowWord (x <<< n)) ↔ n = 0 := by
  constructor
  · intro h
    specialize h 1#64
    revert n
    decide
  · rintro rfl
    simp

end

/-! ### A new index -/

lemma sameAddress_movrr_iff {base index dest src : RegOperand} (is64Bit : Bool)
    (hindex : index.regNo = dest.regNo) :
    SameAddress (.movrr is64Bit dest src) (.kBOR base index) (.kBOR base src) ↔
      if is64Bit then (index.size = 32 ↔ src.size = 32)
      else src.size = 32 ∧ ¬ReadsAndWritesBase base dest src := by
  simp only [SameAddress, Address.effectiveAddress, DefInsn.execKeepingSources, DefInsn.exec,
    DefInsn.value, DefInsn.dest, DefInsn.sources, List.mem_singleton, if_true, hindex,
    Function.update_self, forall_const, forall_regs_iff base.regNo dest.regNo src.regNo]
  by_cases hbase : base.regNo = dest.regNo ∧ dest.regNo = src.regNo <;>
    by_cases hsrc : src.size = 32 <;> by_cases hsize : index.size = 32 <;> cases is64Bit <;>
      simp [ReadsAndWritesBase, hbase, hsrc, hsize, written, RegOperand.index]
  all_goals exact ⟨highBit, by decide⟩

lemma sameAddress_movrr_swap_iff {base index dest src : RegOperand} (is64Bit : Bool)
    (hindex : index.regNo = dest.regNo) :
    SameAddress (.movrr is64Bit dest src) (.kBOR base index) (.kBOR src base) ↔
      if is64Bit then
        (base.size = 32 ↔ index.size = 32) ∧
          (index.size = 32 → base.regNo = src.regNo ∨ base.regNo = dest.regNo)
      else base.size = 32 ∧ base.regNo = src.regNo ∧ base.regNo ≠ dest.regNo := by
  simp only [SameAddress, Address.effectiveAddress, DefInsn.execKeepingSources, DefInsn.exec,
    DefInsn.value, DefInsn.dest, DefInsn.sources, List.mem_singleton, if_true, hindex,
    Function.update_self, forall_const]
  cases is64Bit with
  | true =>
    by_cases hbase : base.regNo = src.regNo ∨ base.regNo = dest.regNo
    · -- the base holds the stack pointer before and after
      have hread : ∀ regs : Regs,
          Function.update regs dest.regNo (regs src.regNo) base.regNo = regs src.regNo := by
        intro regs
        by_cases hdest : base.regNo = dest.regNo
        · rw [hdest, Function.update_self]
        · rw [Function.update_of_ne hdest, hbase.resolve_right hdest]
      have hkeep : ∀ regs : Regs,
          (if base.regNo = src.regNo then regs base.regNo else regs src.regNo) = regs src.regNo := by
        intro regs
        split_ifs with hsrc
        · rw [hsrc]
        · rfl
      simp only [written, if_true, hread, hkeep, add_right_inj, hbase, implies_true, and_true]
      rw [← forall_index_eq_iff base index]
      exact ⟨fun h x => h fun _ => x, fun h regs => h _⟩
    · -- the stack pointer and the base change their places
      obtain ⟨hsrc, hdest⟩ := not_or.mp hbase
      simp only [written, if_true, if_neg hsrc, Function.update_of_ne hdest, hbase, imp_false]
      constructor
      · intro h
        have hhigh := h (Function.update (fun _ => 0) src.regNo highBit)
        have hlow := h (Function.update (fun _ => highBit) src.regNo 0)
        simp only [Function.update_self, Function.update_of_ne hsrc] at hhigh hlow
        have hindex : index.size ≠ 32 := by
          intro hsize
          simp [RegOperand.index_highBit, hsize] at hhigh
        have hbase : base.size ≠ 32 := by
          intro hsize
          simp [RegOperand.index_highBit, hsize] at hlow
        simp [hbase, hindex]
      · rintro ⟨hiff, hindex⟩ regs
        simp only [RegOperand.index, if_neg hindex, if_neg (mt hiff.mp hindex)]
        exact add_comm _ _
  | false =>
    simp only [written, Bool.false_eq_true, if_false]
    constructor
    · intro h
      have hhigh := h (Function.update (fun _ => 0) src.regNo highBit)
      have hall := h fun _ => highBit
      simp only [Function.update_self, lowWord_highBit, RegOperand.index_zero] at hhigh hall
      have hsrc : base.regNo = src.regNo := by
        by_contra hsrc
        have hread : Function.update (Function.update (fun _ => 0#64) src.regNo highBit) dest.regNo
            0#64 base.regNo = 0#64 := by
          by_cases hdest : base.regNo = dest.regNo
          · rw [hdest, Function.update_self]
          · rw [Function.update_of_ne hdest, Function.update_of_ne hsrc]
        simp [hsrc, hread] at hhigh
      rw [if_pos hsrc] at hall
      have hdest : base.regNo ≠ dest.regNo := by
        intro hdest
        rw [hdest, Function.update_self, RegOperand.index_highBit] at hall
        split_ifs at hall <;> simp at hall
      rw [Function.update_of_ne hdest, RegOperand.index_highBit] at hall
      refine ⟨?_, hsrc, hdest⟩
      by_contra hsize
      simp [hsize] at hall
    · rintro ⟨hsize, hsrc, hdest⟩ regs
      rw [if_pos hsrc, Function.update_of_ne hdest, hsrc]
      simp [RegOperand.index, hsize]

lemma sameAddress_movri_iff {base index dest : RegOperand} {imm : OfstOperand} (is64Bit : Bool)
    (hindex : index.regNo = dest.regNo) :
    SameAddress (.movri is64Bit dest imm) (.kBOR base index)
        (.kBOI base ⟨imm.value, .kNotVary⟩) ↔
      imm.vary ≠ .kUnAdjustVary ∧
        (lowWord imm.value = imm.value ∨ is64Bit ∧ index.size ≠ 32) := by
  simp only [SameAddress, Address.effectiveAddress, DefInsn.execKeepingSources, DefInsn.exec,
    DefInsn.value, DefInsn.dest, DefInsn.sources, List.not_mem_nil, if_false, hindex,
    Function.update_self, forall_const, add_right_inj]
  simp only [OfstOperand.read]
  by_cases hvary : imm.vary = .kUnAdjustVary
  · simp only [hvary, if_true]
    refine iff_of_false (fun h => ?_) fun h => h.1 rfl
    have hzero := h 0
    have hone := h 1
    simp only [reduceCtorEq, if_false] at hzero hone
    have hword : (∀ x, index.index (written is64Bit x) = x) ∨
        ∀ x, index.index (written is64Bit x) = lowWord x := by
      cases is64Bit <;> by_cases hsize : index.size = 32 <;>
        simp [RegOperand.index, hsize, written]
    obtain hword | hword := hword
    · rw [hword] at hone
      exact absurd (left_eq_add.mp hone) (by decide)
    · rw [hword] at hzero hone
      exact lowWord_add_one ((add_zero imm.value ▸ hzero).symm) hone.symm
  · by_cases hsize : index.size = 32 <;> cases is64Bit <;>
      simp [hvary, hsize, written, RegOperand.index, eq_comm]

lemma sameAddress_lsl_extend_iff {base index dest src : RegOperand} {shift : Nat}
    (hindex : index.regNo = dest.regNo) (hshift : shift ≤ 3) :
    SameAddress (.lslrri true dest src shift) (.kBOR base index) (.kBOE base src .kUXTW shift) ↔
      index.size = 32 ∧ shift = 0 := by
  simp only [SameAddress, Address.effectiveAddress, DefInsn.execKeepingSources, DefInsn.exec,
    DefInsn.value, DefInsn.dest, DefInsn.sources, List.mem_singleton, if_true, hindex,
    Function.update_self, forall_const, written]
  rw [forall_regs_iff base.regNo dest.regNo src.regNo (· <<< shift) index.index
    fun x => ExtendOp.kUXTW.extend x <<< shift]
  by_cases hbase : base.regNo = dest.regNo ∧ dest.regNo = src.regNo <;>
    by_cases hsize : index.size = 32 <;>
      simp [hbase, hsize, RegOperand.index, ExtendOp.extend, forall_lowWord_shiftLeft_iff hshift,
        forall_add_lowWord_shiftLeft_iff hshift]
  all_goals exact ⟨highBit, by revert shift; decide⟩

lemma sameAddress_lsl_iff {base index dest src : RegOperand} {is64Bit : Bool} {shift : Nat}
    (hindex : index.regNo = dest.regNo) (hshift : shift ≤ 3) (hsrc : is64Bit → src.size ≠ 32) :
    SameAddress (.lslrri is64Bit dest src shift) (.kBOR base index) (.kBOL base src shift) ↔
      if is64Bit then index.size ≠ 32 ∧ (ReadsAndWritesBase base dest src → shift = 0)
      else src.size = 32 ∧ shift = 0 ∧ ¬ReadsAndWritesBase base dest src := by
  simp only [SameAddress, Address.effectiveAddress, DefInsn.execKeepingSources, DefInsn.exec,
    DefInsn.value, DefInsn.dest, DefInsn.sources, List.mem_singleton, if_true, hindex,
    Function.update_self, forall_const]
  rw [forall_regs_iff base.regNo dest.regNo src.regNo (fun x => written is64Bit (x <<< shift))
    index.index fun x => src.index x <<< shift]
  by_cases hbase : base.regNo = dest.regNo ∧ dest.regNo = src.regNo <;>
    by_cases hsize : index.size = 32 <;> by_cases hsize' : src.size = 32 <;> cases is64Bit <;>
      simp [ReadsAndWritesBase, hbase, hsize, hsize', written, RegOperand.index,
        forall_eq_shiftLeft_iff hshift, forall_lowWord_shiftLeft_iff hshift] at hsrc ⊢
  all_goals exact ⟨highBit, by revert shift; decide⟩

lemma sameAddress_lsl_shift_iff {base index dest src : RegOperand} {is64Bit : Bool} {amount : Nat}
    (hindex : index.regNo = dest.regNo) (hamount : amount ≤ 3)
    (hsize : index.size = 32 ↔ src.size = 32) :
    SameAddress (.lslrri is64Bit dest src 0) (.kBOL base index amount) (.kBOL base src amount) ↔
      is64Bit ∨ src.size = 32 ∧ ¬ReadsAndWritesBase base dest src := by
  simp only [SameAddress, Address.effectiveAddress, DefInsn.execKeepingSources, DefInsn.exec,
    DefInsn.value, DefInsn.dest, DefInsn.sources, List.mem_singleton, if_true, hindex,
    Function.update_self, forall_const]
  rw [forall_regs_iff base.regNo dest.regNo src.regNo (fun x => written is64Bit (x <<< 0))
    (fun x => index.index x <<< amount) fun x => src.index x <<< amount]
  by_cases hbase : base.regNo = dest.regNo ∧ dest.regNo = src.regNo <;>
    by_cases hsrc : src.size = 32 <;> cases is64Bit <;>
      simp [ReadsAndWritesBase, hbase, hsrc, hsize, written, RegOperand.index]
  all_goals exact ⟨highBit, by revert amount; decide⟩

lemma sameAddress_extend_iff {base dest src : RegOperand} {defInsn : DefInsn} {old : Address}
    {extendOp : ExtendOp} {amount : Nat} (f : BitVec 64 → BitVec 64)
    (hdest : defInsn.dest = dest) (hsources : defInsn.sources = [src.regNo])
    (hvalue : ∀ frame regs, defInsn.value frame regs = extendOp.extend (regs src.regNo))
    (hold : ∀ frame regs, old.effectiveAddress frame regs = regs base.regNo + f (regs dest.regNo))
    (hzero : f 0#64 = 0#64) (hhigh : extendOp.extend highBit = 0#64) :
    SameAddress defInsn old (.kBOE base src extendOp amount) ↔
      (∀ x, extendOp.extend x <<< amount = f (extendOp.extend x)) ∧
        ¬ReadsAndWritesBase base dest src := by
  simp only [SameAddress, hold]
  simp only [Address.effectiveAddress, DefInsn.execKeepingSources, DefInsn.exec, hvalue, hdest,
    hsources, List.mem_singleton, if_true, Function.update_self, forall_const]
  rw [forall_regs_iff base.regNo dest.regNo src.regNo extendOp.extend f
    fun x => extendOp.extend x <<< amount]
  by_cases hbase : base.regNo = dest.regNo ∧ dest.regNo = src.regNo
  · -- the base changes from a multiple of the word size to zero, the indices are zero
    simp only [ReadsAndWritesBase, hbase, and_self, if_true, not_true, and_false, iff_false]
    intro h
    specialize h highBit
    simp [hhigh, hzero] at h
  · simp [ReadsAndWritesBase, hbase]

lemma forall_sxtw_index_iff (index : RegOperand) {amount : Nat} (hamount : amount ≤ 3) :
    (∀ x, ExtendOp.kSXTW.extend x <<< amount =
      index.index (ExtendOp.kSXTW.extend x) <<< amount) ↔ index.size ≠ 32 := by
  by_cases hsize : index.size = 32 <;> simp [hsize, RegOperand.index]
  exact ⟨0x80000000#64, by revert amount; decide⟩

lemma forall_uxtw_index (index : RegOperand) (amount : Nat) (x : BitVec 64) :
    ExtendOp.kUXTW.extend x <<< amount = index.index (ExtendOp.kUXTW.extend x) <<< amount := by
  by_cases hsize : index.size = 32 <;> simp [hsize, RegOperand.index, ExtendOp.extend]

lemma ExtendOp.extend_zero (extendOp : ExtendOp) : extendOp.extend 0#64 = 0#64 := by
  cases extendOp <;> decide

lemma forall_sxtw_extend_iff {extendOp : ExtendOp} {amount : Nat} (hsigned : extendOp.isSigned)
    (hamount : amount ≤ 3) :
    (∀ x, ExtendOp.kSXTW.extend x <<< amount =
      extendOp.extend (ExtendOp.kSXTW.extend x) <<< amount) ↔
      extendOp = .kSXTW ∨ extendOp = .kSXTX := by
  cases extendOp with
  | kUXTB | kUXTH | kUXTW | kUXTX => simp [ExtendOp.isSigned] at hsigned
  | kSXTW | kSXTX => simp [ExtendOp.extend, setWidth_signExtend]
  | kSXTB | kSXTH =>
    simp only [reduceCtorEq, or_self, iff_false]
    intro h
    specialize h 0x8080#64
    revert amount
    decide

lemma forall_uxtw_extend_iff {extendOp : ExtendOp} {amount : Nat}
    (hsigned : extendOp.isSigned = false) (hamount : amount ≤ 3) :
    (∀ x, ExtendOp.kUXTW.extend x <<< amount =
      extendOp.extend (ExtendOp.kUXTW.extend x) <<< amount) ↔
      extendOp = .kUXTW ∨ extendOp = .kUXTX := by
  cases extendOp with
  | kSXTB | kSXTH | kSXTW | kSXTX => simp [ExtendOp.isSigned] at hsigned
  | kUXTW | kUXTX => simp [ExtendOp.extend]
  | kUXTB | kUXTH =>
    simp only [reduceCtorEq, or_self, iff_false]
    intro h
    specialize h 0x10000#64
    revert amount
    decide

section

variable {base dest src : RegOperand} {old : Address} {amount : Nat}

lemma sameAddress_xsxtw64_extend_iff {extendOp : ExtendOp} (hsigned : extendOp.isSigned)
    (hamount : amount ≤ 3)
    (hold : ∀ frame regs, old.effectiveAddress frame regs =
      regs base.regNo + extendOp.extend (regs dest.regNo) <<< amount) :
    SameAddress (.xsxtw64 dest src) old (.kBOE base src .kSXTW amount) ↔
      (extendOp = .kSXTW ∨ extendOp = .kSXTX) ∧ ¬ReadsAndWritesBase base dest src := by
  rw [← forall_sxtw_extend_iff hsigned hamount]
  exact sameAddress_extend_iff (fun x => extendOp.extend x <<< amount) rfl rfl (fun _ _ => rfl) hold
    (by simp [extendOp.extend_zero]) (by decide)

lemma sameAddress_xuxtw64_extend_iff {extendOp : ExtendOp} (hsigned : extendOp.isSigned = false)
    (hamount : amount ≤ 3)
    (hold : ∀ frame regs, old.effectiveAddress frame regs =
      regs base.regNo + extendOp.extend (regs dest.regNo) <<< amount) :
    SameAddress (.xuxtw64 dest src) old (.kBOE base src .kUXTW amount) ↔
      (extendOp = .kUXTW ∨ extendOp = .kUXTX) ∧ ¬ReadsAndWritesBase base dest src := by
  rw [← forall_uxtw_extend_iff hsigned hamount]
  exact sameAddress_extend_iff (fun x => extendOp.extend x <<< amount) rfl rfl (fun _ _ => rfl) hold
    (by simp [extendOp.extend_zero]) (by decide)

lemma sameAddress_xsxtw64_index_iff {index : RegOperand} (hamount : amount ≤ 3)
    (hold : ∀ frame regs, old.effectiveAddress frame regs =
      regs base.regNo + index.index (regs dest.regNo) <<< amount) :
    SameAddress (.xsxtw64 dest src) old (.kBOE base src .kSXTW amount) ↔
      index.size ≠ 32 ∧ ¬ReadsAndWritesBase base dest src := by
  rw [← forall_sxtw_index_iff index hamount]
  exact sameAddress_extend_iff (fun x => index.index x <<< amount) rfl rfl (fun _ _ => rfl) hold
    (by simp) (by decide)

lemma sameAddress_xuxtw64_index_iff {index : RegOperand}
    (hold : ∀ frame regs, old.effectiveAddress frame regs =
      regs base.regNo + index.index (regs dest.regNo) <<< amount) :
    SameAddress (.xuxtw64 dest src) old (.kBOE base src .kUXTW amount) ↔
      ¬ReadsAndWritesBase base dest src := by
  refine Iff.trans ?_ (and_iff_right (forall_uxtw_index index amount))
  exact sameAddress_extend_iff (fun x => index.index x <<< amount) rfl rfl (fun _ _ => rfl) hold
    (by simp) (by decide)

end

/-! ### A new base -/

lemma sameAddress_addImm_iff {base dest src : RegOperand} {defInsn : DefInsn}
    {offset : OfstOperand} (imm : OfstOperand) (is64Bit : Bool) (hbase : base.regNo = dest.regNo)
    (hdest : defInsn.dest = dest) (hsources : defInsn.sources = [src.regNo])
    (hvalue : ∀ frame regs,
      defInsn.value frame regs = written is64Bit (regs src.regNo + imm.read frame)) :
    SameAddress defInsn (.kBOI base offset) (.kBOI src ⟨imm.value + offset.value, imm.vary⟩) ↔
      is64Bit ∧ offset.vary ≠ .kUnAdjustVary := by
  simp only [SameAddress, Address.effectiveAddress, DefInsn.execKeepingSources, DefInsn.exec,
    hvalue, hdest, hsources, List.mem_singleton, if_true, hbase, Function.update_self]
  constructor
  · intro h
    cases is64Bit with
    | false =>
      -- the sum has no low word, and the high word is lost
      have hhigh := h 0 fun _ => highBit - imm.value
      have hvary (imm : OfstOperand) : imm.read 0 = imm.value := by simp [OfstOperand.read]
      simp only [hvary, written, Bool.false_eq_true, if_false, sub_add_cancel, lowWord_highBit,
        ← add_assoc] at hhigh
      simp at hhigh
    | true =>
      refine ⟨rfl, fun hvary => ?_⟩
      have hone := h 1 fun _ => 0
      simp only [written, if_true, OfstOperand.read, hvary] at hone
      have hframe : (1 : BitVec 64) = 0 := by
        split_ifs at hone
        · linear_combination -hone
        · linear_combination -hone
      exact absurd hframe (by decide)
  · rintro ⟨rfl, hvary⟩ frame regs
    simp only [written, if_true, OfstOperand.read, if_neg hvary]
    split_ifs <;> ring

lemma sameAddress_addrrr_iff {base dest src src' : RegOperand} {offset : OfstOperand}
    (is64Bit : Bool) (hbase : base.regNo = dest.regNo) (hoffset : offset.value = 0) :
    SameAddress (.addrrr is64Bit dest src src') (.kBOI base offset) (.kBOR src src') ↔
      is64Bit ∧ src'.size ≠ 32 ∧ offset.vary ≠ .kUnAdjustVary := by
  simp only [SameAddress, Address.effectiveAddress, DefInsn.execKeepingSources, DefInsn.exec,
    DefInsn.value, DefInsn.dest, DefInsn.sources, List.mem_cons, true_or, or_true, if_true, hbase,
    Function.update_self]
  constructor
  · intro h
    have hvary : offset.vary ≠ .kUnAdjustVary := by
      intro hvary
      have hone := h 1 fun _ => 0
      cases is64Bit <;> simp [OfstOperand.read, hvary, hoffset, written] at hone
    have hhigh := h 0 fun _ => highBit
    simp only [OfstOperand.read, if_neg hvary, hoffset, RegOperand.index_highBit] at hhigh
    refine ⟨?_, ?_, hvary⟩
    · by_contra hword
      rw [Bool.not_eq_true] at hword
      subst hword
      split_ifs at hhigh <;> exact absurd hhigh (by decide)
    · intro hsize
      rw [if_pos hsize] at hhigh
      cases is64Bit <;> exact absurd hhigh (by decide)
  · rintro ⟨rfl, hsize, hvary⟩ frame regs
    simp [OfstOperand.read, if_neg hvary, hoffset, RegOperand.index, hsize, written]

lemma sameAddress_movrr_base_iff {base dest src : RegOperand} {offset : OfstOperand}
    (is64Bit : Bool) (hbase : base.regNo = dest.regNo) :
    SameAddress (.movrr is64Bit dest src) (.kBOI base offset) (.kBOI src offset) ↔ is64Bit := by
  simp only [SameAddress, Address.effectiveAddress, DefInsn.execKeepingSources, DefInsn.exec,
    DefInsn.value, DefInsn.dest, DefInsn.sources, List.mem_singleton, if_true, hbase,
    Function.update_self, add_left_inj]
  cases is64Bit with
  | false =>
    refine iff_of_false (fun h => ?_) (by simp)
    exact absurd (h 0 fun _ => highBit) (by decide)
  | true => simp [written]

/-! ### All cases -/

lemma createMemOperand_map {size : Nat} {address : Address} {memOpnd : MemOperand}
    (h : (createMemOperand size address).map some = some (some memOpnd)) :
    memOpnd.address = address ∧ address.check size = true := by
  unfold createMemOperand at h
  split_ifs at h with hcheck
  · obtain rfl : (⟨size, address, hcheck⟩ : MemOperand) = memOpnd := by simpa using h
    exact ⟨rfl, hcheck⟩
  · simp at h

lemma selectReplaceExt_signed {size amount : Nat} {src base : RegOperand} {memOpnd : MemOperand}
    (h : selectReplaceExt size .kPropSignedExtend amount src base true = some (some memOpnd)) :
    memOpnd.address = .kBOE base src .kSXTW amount ∧ amount ≤ 3 := by
  simp only [selectReplaceExt, reduceCtorEq, if_false, decide_true, Bool.true_and, decide_false,
    Bool.not_true, Bool.false_and] at h
  split_ifs at h with hamount
  · exact ⟨(createMemOperand_map h).1, le_three_of_checkNewAmount hamount⟩
  · simp at h

lemma selectReplaceExt_unsigned {size amount : Nat} {src base : RegOperand} {memOpnd : MemOperand}
    (h : selectReplaceExt size .kPropUnsignedExtend amount src base false = some (some memOpnd)) :
    memOpnd.address = .kBOE base src .kUXTW amount ∧ amount ≤ 3 := by
  simp only [selectReplaceExt, reduceCtorEq, if_false, decide_true, Bool.true_and, decide_false,
    Bool.not_false, Bool.false_and] at h
  split_ifs at h with hamount
  · exact ⟨(createMemOperand_map h).1, le_three_of_checkNewAmount hamount⟩
  · simp at h

lemma shift_eq_zero_of_check {size shift amount : Nat} (hcheck : checkAmount size amount = true)
    (hamount : amount ≠ 0) (hnew : checkNewAmount size (shift + amount) = true) : shift = 0 := by
  simp only [checkAmount, checkNewAmount, Bool.or_eq_true, Bool.and_eq_true,
    decide_eq_true_eq] at hcheck hnew
  omega

lemma selectReplaceMem_arith {isAdjacentBB : Bool} {isSPOrFP : RegNO → Bool} {defInsn : DefInsn}
    {size amount : Nat} {propMode : PropMode} {base : RegOperand} {offset : Option OfstOperand}
    {memOpnd : MemOperand} (hmode : propMode ≠ .kPropBase)
    (harith : (∃ is64Bit dest src imm, defInsn = .subrri12 is64Bit dest src imm) ∨
      (∃ is64Bit dest src imm, defInsn = .addrri12 is64Bit dest src imm) ∨
      ∃ is64Bit dest src src', defInsn = .addrrr is64Bit dest src src') :
    selectReplaceMemIn size propMode amount isAdjacentBB isSPOrFP base offset defInsn ≠
      some (some memOpnd) := by
  rintro h
  obtain ⟨_, _, _, _, rfl⟩ | ⟨_, _, _, _, rfl⟩ | ⟨_, _, _, _, rfl⟩ := harith
  · simp only [selectReplaceMemIn, handleArithImmDef, hmode, ne_eq, not_false_eq_true,
      if_true] at h
    split_ifs at h <;> simp at h
  · simp [selectReplaceMemIn, handleArithImmDef, hmode] at h
  · simp [selectReplaceMemIn, hmode] at h

section

variable {isAdjacentBB : Bool} {isSPOrFP : RegNO → Bool} {defInsn : DefInsn} {size : Nat}
  {newMemOpnd : MemOperand}

lemma selectReplaceMem_base {base : RegOperand} {offset : OfstOperand}
    (hbase : base.regNo = defInsn.dest.regNo)
    (h : selectReplaceMemIn size .kPropBase 0 isAdjacentBB isSPOrFP base (some offset) defInsn =
      some (some newMemOpnd)) :
    SameAddress defInsn (.kBOI base offset) newMemOpnd.address ↔
      KeepsAddress isSPOrFP (.kBOI base offset) defInsn := by
  cases defInsn with
  | subrri12 is64Bit dest src imm =>
    simp only [selectReplaceMemIn, handleArithImmDef, ne_eq, not_true, if_false] at h
    split_ifs at h with hadjacent hvary
    · simp at h
    · obtain ⟨hnew, -⟩ := createMemOperand_map h
      rw [hnew]
      have hvalue (frame : BitVec 64) (regs : Regs) :
          DefInsn.value frame regs (.subrri12 is64Bit dest src imm) =
            written is64Bit (regs src.regNo + OfstOperand.read frame ⟨-imm.value, .kNotVary⟩) := by
        simp [DefInsn.value, OfstOperand.read, hvary, sub_eq_add_neg]
      exact sameAddress_addImm_iff ⟨-imm.value, .kNotVary⟩ is64Bit hbase rfl rfl hvalue
  | addrri12 is64Bit dest src imm =>
    simp only [selectReplaceMemIn, handleArithImmDef, ne_eq, not_true, if_false] at h
    obtain ⟨hnew, -⟩ := createMemOperand_map h
    rw [hnew]
    exact sameAddress_addImm_iff imm is64Bit hbase rfl rfl fun _ _ => rfl
  | addrrr is64Bit dest src src' =>
    simp only [selectReplaceMemIn, if_true] at h
    split_ifs at h with hoffset hsize
    · simp at h
    · simp at h
    · obtain ⟨hnew, -⟩ := createMemOperand_map h
      rw [hnew]
      exact sameAddress_addrrr_iff is64Bit hbase (of_not_not hoffset)
  | movrr is64Bit dest src =>
    simp only [selectReplaceMemIn, if_true] at h
    obtain ⟨hnew, -⟩ := createMemOperand_map h
    rw [hnew]
    exact sameAddress_movrr_base_iff is64Bit hbase
  | movri | lslrri | xsxtw64 | xuxtw64 => simp [selectReplaceMemIn] at h

lemma selectReplaceMem_offset {base index : RegOperand}
    (hindex : index.regNo = defInsn.dest.regNo)
    (h : selectReplaceMemIn size .kPropOffset 0 isAdjacentBB isSPOrFP base none defInsn =
      some (some newMemOpnd)) :
    SameAddress defInsn (.kBOR base index) newMemOpnd.address ↔
      KeepsAddress isSPOrFP (.kBOR base index) defInsn := by
  cases defInsn with
  | movrr is64Bit dest src =>
    simp only [DefInsn.dest] at hindex
    simp only [selectReplaceMemIn, reduceCtorEq, if_false, if_true] at h
    cases hsp : isSPOrFP src.regNo with
    | true =>
      rw [if_pos hsp] at h
      obtain ⟨hnew, -⟩ := createMemOperand_map h
      simpa only [hnew, KeepsAddress, hsp, if_true] using
        sameAddress_movrr_swap_iff is64Bit hindex
    | false =>
      rw [if_neg (by simp [hsp])] at h
      obtain ⟨hnew, -⟩ := createMemOperand_map h
      simpa only [hnew, KeepsAddress, hsp, Bool.false_eq_true, if_false] using
        sameAddress_movrr_iff is64Bit hindex
  | movri is64Bit dest imm =>
    simp only [selectReplaceMemIn, if_true] at h
    obtain ⟨hnew, -⟩ := createMemOperand_map h
    rw [hnew]
    exact sameAddress_movri_iff is64Bit hindex
  | lslrri is64Bit dest src shift =>
    simp only [DefInsn.dest] at hindex
    simp only [selectReplaceMemIn, decide_true, Bool.and_true, if_true] at h
    split_ifs at h with hextend hamount
    · -- the word is extended by the memory operand
      simp only [Bool.and_eq_true, decide_eq_true_eq] at hextend
      obtain ⟨⟨rfl, hsrc⟩, hamount⟩ := hextend
      obtain ⟨hnew, -⟩ := createMemOperand_map h
      simpa only [hnew, KeepsAddress, hsrc, if_true] using
        sameAddress_lsl_extend_iff hindex (le_three_of_checkNewAmount hamount)
    · have hsrc : is64Bit → src.size ≠ 32 := by
        rintro rfl hsize
        simp [hsize, hamount] at hextend
      obtain ⟨hnew, -⟩ := createMemOperand_map h
      rw [hnew, sameAddress_lsl_iff hindex (le_three_of_checkNewAmount hamount) hsrc]
      cases is64Bit with
      | true => simp [KeepsAddress, hsrc rfl]
      | false => simp [KeepsAddress]
    · simp at h
  | xsxtw64 dest src =>
    obtain ⟨hnew, -⟩ := selectReplaceExt_signed (by simpa [selectReplaceMemIn] using h)
    have hold (frame : BitVec 64) (regs : Regs) :
        Address.effectiveAddress frame regs (.kBOR base index) =
          regs base.regNo + index.index (regs dest.regNo) <<< 0 := by
      simp [Address.effectiveAddress, hindex, DefInsn.dest]
    rw [hnew]
    exact sameAddress_xsxtw64_index_iff (Nat.zero_le 3) hold
  | xuxtw64 dest src =>
    obtain ⟨hnew, -⟩ := selectReplaceExt_unsigned (by simpa [selectReplaceMemIn] using h)
    have hold (frame : BitVec 64) (regs : Regs) :
        Address.effectiveAddress frame regs (.kBOR base index) =
          regs base.regNo + index.index (regs dest.regNo) <<< 0 := by
      simp [Address.effectiveAddress, hindex, DefInsn.dest]
    rw [hnew]
    exact sameAddress_xuxtw64_index_iff hold
  | subrri12 => exact absurd h (selectReplaceMem_arith (by decide) (by simp))
  | addrri12 => exact absurd h (selectReplaceMem_arith (by decide) (by simp))
  | addrrr => exact absurd h (selectReplaceMem_arith (by decide) (by simp))

lemma selectReplaceMem_extend {base index : RegOperand} {extendOp : ExtendOp} {amount : Nat}
    (hindex : index.regNo = defInsn.dest.regNo)
    (h : selectReplaceMemIn size
        (if extendOp.isSigned then .kPropSignedExtend else .kPropUnsignedExtend) amount
        isAdjacentBB isSPOrFP base none defInsn = some (some newMemOpnd)) :
    SameAddress defInsn (.kBOE base index extendOp amount) newMemOpnd.address ↔
      KeepsAddress isSPOrFP (.kBOE base index extendOp amount) defInsn := by
  have hmode : (if extendOp.isSigned then PropMode.kPropSignedExtend else .kPropUnsignedExtend) ≠
      .kPropBase := by
    split_ifs <;> decide
  cases defInsn with
  | xsxtw64 dest src =>
    cases hsigned : extendOp.isSigned with
    | false => simp [selectReplaceMemIn, hsigned] at h
    | true =>
      obtain ⟨hnew, hamount⟩ :=
        selectReplaceExt_signed (by simpa [selectReplaceMemIn, hsigned] using h)
      have hold (frame : BitVec 64) (regs : Regs) :
          Address.effectiveAddress frame regs (.kBOE base index extendOp amount) =
            regs base.regNo + extendOp.extend (regs dest.regNo) <<< amount := by
        simp [Address.effectiveAddress, hindex, DefInsn.dest]
      rw [hnew]
      exact sameAddress_xsxtw64_extend_iff hsigned hamount hold
  | xuxtw64 dest src =>
    cases hsigned : extendOp.isSigned with
    | true => simp [selectReplaceMemIn, hsigned] at h
    | false =>
      obtain ⟨hnew, hamount⟩ :=
        selectReplaceExt_unsigned (by simpa [selectReplaceMemIn, hsigned] using h)
      have hold (frame : BitVec 64) (regs : Regs) :
          Address.effectiveAddress frame regs (.kBOE base index extendOp amount) =
            regs base.regNo + extendOp.extend (regs dest.regNo) <<< amount := by
        simp [Address.effectiveAddress, hindex, DefInsn.dest]
      rw [hnew]
      exact sameAddress_xuxtw64_extend_iff hsigned hamount hold
  | movrr is64Bit dest src =>
    cases hsigned : extendOp.isSigned <;> simp [selectReplaceMemIn, hsigned] at h
  | movri is64Bit dest imm =>
    cases hsigned : extendOp.isSigned <;> simp [selectReplaceMemIn, hsigned] at h
  | lslrri is64Bit dest src shift =>
    cases hsigned : extendOp.isSigned <;> simp [selectReplaceMemIn, hsigned] at h
  | subrri12 => exact absurd h (selectReplaceMem_arith hmode (by simp))
  | addrri12 => exact absurd h (selectReplaceMem_arith hmode (by simp))
  | addrrr => exact absurd h (selectReplaceMem_arith hmode (by simp))

lemma selectReplaceMem_shift {base index : RegOperand} {amount : Nat}
    (hindex : index.regNo = defInsn.dest.regNo) (hcheck : (Address.kBOL base index amount).check size)
    (hamount : amount ≠ 0)
    (h : selectReplaceMemIn size .kPropShift amount isAdjacentBB isSPOrFP base none defInsn =
      some (some newMemOpnd)) :
    SameAddress defInsn (.kBOL base index amount) newMemOpnd.address ↔
      KeepsAddress isSPOrFP (.kBOL base index amount) defInsn := by
  simp only [Address.check, Bool.and_eq_true, decide_eq_true_eq] at hcheck
  cases defInsn with
  | lslrri is64Bit dest src shift =>
    simp only [selectReplaceMemIn, reduceCtorEq, decide_false, Bool.and_false, Bool.false_and,
      Bool.false_eq_true, if_false, if_true] at h
    split_ifs at h with hnewAmount
    · obtain rfl := shift_eq_zero_of_check hcheck.2 hamount hnewAmount
      rw [zero_add] at h hnewAmount
      obtain ⟨hnew, hsizes⟩ := createMemOperand_map h
      simp only [Address.check, Bool.and_eq_true, decide_eq_true_eq] at hsizes
      have hsize : index.size = 32 ↔ src.size = 32 := by rw [hcheck.1, hsizes.1]
      rw [hnew]
      exact sameAddress_lsl_shift_iff hindex (le_three_of_checkNewAmount hnewAmount) hsize
    · simp at h
  | xsxtw64 dest src =>
    obtain ⟨hnew, hle⟩ := selectReplaceExt_signed (by simpa [selectReplaceMemIn] using h)
    have hold (frame : BitVec 64) (regs : Regs) :
        Address.effectiveAddress frame regs (.kBOL base index amount) =
          regs base.regNo + index.index (regs dest.regNo) <<< amount := by
      simp [Address.effectiveAddress, hindex, DefInsn.dest]
    rw [hnew]
    exact sameAddress_xsxtw64_index_iff hle hold
  | xuxtw64 dest src =>
    obtain ⟨hnew, -⟩ := selectReplaceExt_unsigned (by simpa [selectReplaceMemIn] using h)
    have hold (frame : BitVec 64) (regs : Regs) :
        Address.effectiveAddress frame regs (.kBOL base index amount) =
          regs base.regNo + index.index (regs dest.regNo) <<< amount := by
      simp [Address.effectiveAddress, hindex, DefInsn.dest]
    rw [hnew]
    exact sameAddress_xuxtw64_index_iff hold
  | movrr | movri => simp [selectReplaceMemIn] at h
  | subrri12 => exact absurd h (selectReplaceMem_arith (by decide) (by simp))
  | addrri12 => exact absurd h (selectReplaceMem_arith (by decide) (by simp))
  | addrrr => exact absurd h (selectReplaceMem_arith (by decide) (by simp))

/-- Where `SelectReplaceMem` gives a new operand, its address is that of the old one for all contents
of the registers and all sizes of the frame in the cases of `KeepsAddress`, and in no others. -/
theorem selectReplaceMem_exact_iff {currMemOpnd : MemOperand}
    (hreg : currMemOpnd.address.replacedReg.regNo = defInsn.dest.regNo)
    (h : selectReplaceMem isAdjacentBB isSPOrFP defInsn currMemOpnd = some (some newMemOpnd)) :
    SameAddress defInsn currMemOpnd.address newMemOpnd.address ↔
      KeepsAddress isSPOrFP currMemOpnd.address defInsn := by
  obtain ⟨size, address, hcheck⟩ := currMemOpnd
  cases address with
  | kBOI base offset => exact selectReplaceMem_base hreg h
  | kBOR base index => exact selectReplaceMem_offset hreg h
  | kBOE base index extendOp amount => exact selectReplaceMem_extend hreg h
  | kBOL base index amount =>
    simp only [selectReplaceMem, selectPropMode] at h
    by_cases hamount : amount = 0
    · simp [hamount] at h
    · rw [if_neg hamount] at h
      exact selectReplaceMem_shift hreg hcheck hamount h

end

/-- The register with a size of 64 bits. -/
def xReg (regNo : RegNO) : RegOperand := ⟨regNo, 64⟩

/-- `add x1, x2, #8` before `[x1, #16]`, and `mov w1, #-1` before `[x2, x1]`. -/
theorem selectReplaceMem_exact_iff_examples :
    SameAddress (.addrri12 true (xReg 1) (xReg 2) ⟨8, .kNotVary⟩)
        (.kBOI (xReg 1) ⟨16, .kNotVary⟩) (.kBOI (xReg 2) ⟨24, .kNotVary⟩) ∧
      ¬SameAddress (.movri false ⟨1, 32⟩ ⟨-1, .kNotVary⟩) (.kBOR (xReg 2) (xReg 1))
        (.kBOI (xReg 2) ⟨-1, .kNotVary⟩) := by
  have hadd := @selectReplaceMem_exact_iff true (fun _ => false)
    (.addrri12 true (xReg 1) (xReg 2) ⟨8, .kNotVary⟩)
    ⟨64, .kBOI (xReg 2) ⟨24, .kNotVary⟩, rfl⟩ ⟨64, .kBOI (xReg 1) ⟨16, .kNotVary⟩, rfl⟩ rfl rfl
  have hmov := @selectReplaceMem_exact_iff true (fun _ => false)
    (.movri false ⟨1, 32⟩ ⟨-1, .kNotVary⟩)
    ⟨64, .kBOI (xReg 2) ⟨-1, .kNotVary⟩, rfl⟩ ⟨64, .kBOR (xReg 2) (xReg 1), rfl⟩ rfl rfl
  refine ⟨hadd.mpr ?_, mt hmov.mp ?_⟩
  · simp [KeepsAddress]
  · simp [KeepsAddress]
    decide

/-- After `mov w1, #-1` the index of `[x2, x1]` is `2 ^ 32 - 1`, but the new operand is
`[x2, #-1]`. -/
theorem selectReplaceMem_negative_word :
    selectReplaceMem true (fun _ => false) (.movri false ⟨1, 32⟩ ⟨-1, .kNotVary⟩)
        ⟨64, .kBOR (xReg 2) (xReg 1), rfl⟩ =
      some (some ⟨64, .kBOI (xReg 2) ⟨-1, .kNotVary⟩, rfl⟩) ∧
      ¬SameAddress (.movri false ⟨1, 32⟩ ⟨-1, .kNotVary⟩) (.kBOR (xReg 2) (xReg 1))
        (.kBOI (xReg 2) ⟨-1, .kNotVary⟩) := by
  refine ⟨rfl, fun h => ?_⟩
  exact absurd (h 0 fun _ => 0) (by decide)

end MemProp
end AArch64
end Maple
