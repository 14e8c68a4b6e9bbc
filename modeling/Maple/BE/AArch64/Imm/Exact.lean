import Maple.BE.AArch64.Imm.Basic
import Mathlib.Tactic.Common

/-!
# The selected instructions leave the immediate

The chunk loop writes one chunk after the other over a fill of zeros (`movz`) or ones (`movn`).
-/

namespace Maple
namespace AArch64

/-! ### Bits -/

@[simp] lemma getLsbD_field (lsb width : Nat) (j : Nat) :
    (field lsb width).getLsbD j = decide (j < 64 ∧ lsb ≤ j ∧ j - lsb + (64 - width) < 64) := by
  simp only [field, BitVec.getLsbD_shiftLeft, BitVec.getLsbD_ushiftRight, BitVec.getLsbD_allOnes]
  rw [Bool.eq_iff_iff]
  simp only [Bool.and_eq_true, decide_eq_true_eq, Bool.not_eq_true', decide_eq_false_iff_not]
  omega

lemma getLsbD_insertField (x y : BitVec 64) (lsb width : Nat) (hw : width ≤ 64) (j : Nat) :
    (insertField x y lsb width).getLsbD j =
      if lsb ≤ j ∧ j < lsb + width ∧ j < 64 then y.getLsbD (j - lsb) else x.getLsbD j := by
  rw [insertField, BitVec.getLsbD_or, BitVec.getLsbD_and, BitVec.getLsbD_and, BitVec.getLsbD_not,
    getLsbD_field, BitVec.getLsbD_shiftLeft]
  by_cases hmem : lsb ≤ j ∧ j < lsb + width ∧ j < 64
  · have hfield : j < 64 ∧ lsb ≤ j ∧ j - lsb + (64 - width) < 64 := by omega
    rw [if_pos hmem, decide_eq_true hfield, decide_eq_true hmem.2.2,
      decide_eq_false (show ¬j < lsb by omega)]
    simp
  · have hfield : ¬(j < 64 ∧ lsb ≤ j ∧ j - lsb + (64 - width) < 64) := by omega
    rw [if_neg hmem, decide_eq_false hfield]
    by_cases hj : j < 64
    · simp [hj]
    · simp [BitVec.getLsbD_of_ge x j (by omega)]

lemma getLsbD_ffff (j : Nat) : (0xffff#64).getLsbD j = decide (j < 16) := by
  have h : (0xffff#64) = (BitVec.allOnes 16).setWidth 64 := by decide
  rw [h, BitVec.getLsbD_setWidth, BitVec.getLsbD_allOnes]
  by_cases hj : j < 16
  · simp [hj, show j < 64 by omega]
  · simp [hj]

lemma getLsbD_ffffffff (j : Nat) : (0xffffffff#64).getLsbD j = decide (j < 32) := by
  have h : (0xffffffff#64) = (BitVec.allOnes 32).setWidth 64 := by decide
  rw [h, BitVec.getLsbD_setWidth, BitVec.getLsbD_allOnes]
  by_cases hj : j < 32
  · simp [hj, show j < 64 by omega]
  · simp [hj]

lemma getLsbD_chunkVal (val : BitVec 64) (sa j : Nat) :
    (chunkVal val sa).getLsbD j = (decide (j < 16) && val.getLsbD (sa + j)) := by
  rw [chunkVal, BitVec.getLsbD_and, BitVec.getLsbD_ushiftRight, getLsbD_ffff, Bool.and_comm]

lemma chunkVal_eq_fill {val : BitVec 64} {sa : Nat} {fill : Bool}
    (h : chunkVal val sa = if fill then 0xffff#64 else 0#64) {j : Nat} (hj : j < 16) :
    val.getLsbD (sa + j) = fill := by
  have hbit := congrArg (fun x => x.getLsbD j) h
  simp only [getLsbD_chunkVal, hj, decide_true, Bool.true_and] at hbit
  rw [hbit]
  cases fill
  · simp
  · simp [getLsbD_ffff, hj]

/-! ### The loop over the chunks -/

/-- The register while the loop is at the bit `sa`: before the first instruction all bits of the
immediate so far are fill, afterwards the register holds them and fill above. -/
def Filled (val reg : BitVec 64) (fill : Bool) (sa : Nat) (useMovk : Bool) : Prop :=
  if useMovk then ∀ j < 64, reg.getLsbD j = if j < sa then val.getLsbD j else fill
  else ∀ j < sa, val.getLsbD j = fill

lemma Filled.skip {val reg : BitVec 64} {fill : Bool} {sa : Nat} {useMovk : Bool}
    (h : Filled val reg fill sa useMovk)
    (hchunk : chunkVal val sa = if fill then 0xffff#64 else 0#64) :
    Filled val reg fill (sa + 16) useMovk := by
  have hnext : ∀ j, sa ≤ j → j < sa + 16 → val.getLsbD j = fill := by
    intro j hle hlt
    have hbit := chunkVal_eq_fill hchunk (show j - sa < 16 by omega)
    rwa [Nat.add_sub_cancel' hle] at hbit
  cases useMovk with
  | true =>
    intro j hj
    rw [h j hj]
    by_cases hlt : j < sa
    · rw [if_pos hlt, if_pos (by omega)]
    · rw [if_neg hlt]
      split_ifs with hlt'
      · exact (hnext j (by omega) hlt').symm
      · rfl
  | false =>
    intro j hj
    by_cases hlt : j < sa
    · exact h j hlt
    · exact hnext j (by omega) hj

/-- The instruction for a chunk that is not skipped. -/
def movChunk (val : BitVec 64) (dest : RegNO) (useMovz : Bool) (sa : Nat) (useMovk : Bool) : Insn :=
  if useMovk then .xmovkri16 dest ⟨chunkVal val sa, 16⟩ sa
  else if useMovz then .xmovzri16 dest ⟨chunkVal val sa, 16⟩ sa
  else .xmovnri16 dest (ImmOperand.bitwiseNegate ⟨chunkVal val sa, 16⟩) sa

lemma movChunks_succ (val : BitVec 64) (dest : RegNO) (useMovz : Bool) (loopTime sa : Nat)
    (useMovk : Bool) :
    movChunks val dest useMovz (loopTime + 1) sa useMovk =
      if chunkVal val sa = (if useMovz then 0#64 else 0xffff#64) then
        movChunks val dest useMovz loopTime (sa + 16) useMovk
      else
        movChunk val dest useMovz sa useMovk ::
          movChunks val dest useMovz loopTime (sa + 16) true := rfl

lemma getLsbD_not_negated_chunk (val : BitVec 64) (sa : Nat) (j : Nat) (hj : j < 16) :
    (ImmOperand.bitwiseNegate ⟨chunkVal val sa, 16⟩).value.getLsbD j = !val.getLsbD (sa + j) := by
  have hmask : (1#64 <<< 16) - 1#64 = 0xffff#64 := by decide
  simp only [ImmOperand.bitwiseNegate, hmask, BitVec.getLsbD_and, BitVec.getLsbD_not,
    getLsbD_chunkVal, getLsbD_ffff, hj]
  simp [show j < 64 by omega]

lemma Filled.write {val : BitVec 64} {regs : Regs} {dest : RegNO} {useMovz : Bool} {sa : Nat}
    {useMovk : Bool} (h : Filled val (regs dest) (!useMovz) sa useMovk) :
    Filled val ((movChunk val dest useMovz sa useMovk).run regs dest) (!useMovz) (sa + 16) true := by
  intro j hj
  have hsub : sa ≤ j → sa + (j - sa) = j := by omega
  cases useMovk with
  | true =>
    simp only [movChunk, if_true, Insn.run, Function.update_self]
    rw [getLsbD_insertField _ _ _ _ (by omega)]
    by_cases hmem : sa ≤ j ∧ j < sa + 16 ∧ j < 64
    · rw [if_pos hmem, if_pos (by omega), getLsbD_chunkVal, hsub hmem.1,
        decide_eq_true (show j - sa < 16 by omega), Bool.true_and]
    · rw [if_neg hmem, h j hj]
      by_cases hlt : j < sa
      · rw [if_pos hlt, if_pos (by omega)]
      · rw [if_neg hlt, if_neg (by omega)]
  | false =>
    have hlow : ∀ j < sa, val.getLsbD j = !useMovz := h
    cases useMovz with
    | true =>
      simp only [movChunk, Bool.false_eq_true, if_false, if_true, Insn.run, Function.update_self,
        BitVec.getLsbD_shiftLeft, BitVec.getLsbD_setWidth, getLsbD_chunkVal, Bool.not_true]
      by_cases hlt : j < sa
      · simp [hlt, show j < sa + 16 by omega, hlow j hlt]
      · by_cases hmem : j < sa + 16
        · simp [hj, hlt, hmem, show j - sa < 64 by omega, show j - sa < 16 by omega,
            hsub (by omega)]
        · simp [hmem, show ¬j - sa < 16 by omega]
    | false =>
      simp only [movChunk, Bool.false_eq_true, if_false, Insn.run, Function.update_self,
        BitVec.getLsbD_not, BitVec.getLsbD_shiftLeft, BitVec.getLsbD_setWidth, Bool.not_false]
      by_cases hlt : j < sa
      · simp [hj, hlt, show j < sa + 16 by omega, hlow j hlt]
      · by_cases hmem : j < sa + 16
        · rw [getLsbD_not_negated_chunk val sa (j - sa) (by omega)]
          simp [hj, hlt, hmem, show j - sa < 64 by omega, show j - sa < 16 by omega,
            hsub (by omega)]
        · simp [hj, hmem, show ¬j - sa < 16 by omega]

lemma runAll_cons (insn : Insn) (insns : List Insn) (regs : Regs) :
    Insn.runAll (insn :: insns) regs = Insn.runAll insns (insn.run regs) := rfl

lemma runAll_append (insns insns' : List Insn) (regs : Regs) :
    Insn.runAll (insns ++ insns') regs = Insn.runAll insns' (Insn.runAll insns regs) :=
  List.foldl_append

lemma exists_filled_movChunks (val : BitVec 64) (dest : RegNO) (useMovz : Bool) (loopTime : Nat) :
    ∀ (sa : Nat) (useMovk : Bool) (regs : Regs),
      Filled val (regs dest) (!useMovz) sa useMovk →
      ∃ useMovk', Filled val
        (Insn.runAll (movChunks val dest useMovz loopTime sa useMovk) regs dest) (!useMovz)
        (sa + 16 * loopTime) useMovk' := by
  induction loopTime with
  | zero =>
    intro sa useMovk regs h
    exact ⟨useMovk, h⟩
  | succ loopTime ih =>
    intro sa useMovk regs h
    rw [movChunks_succ, show sa + 16 * (loopTime + 1) = sa + 16 + 16 * loopTime by omega]
    by_cases hchunk : chunkVal val sa = if useMovz then 0#64 else 0xffff#64
    · rw [if_pos hchunk]
      apply ih
      apply h.skip
      rw [hchunk]
      cases useMovz <;> rfl
    · rw [if_neg hchunk, runAll_cons]
      apply ih
      exact h.write

/-! ### Immediates that need several instructions -/

lemma isMoveWidable_of_fill {val : BitVec 64} {fill : Bool} (h : ∀ j < 64, val.getLsbD j = fill) :
    val = 0#64 ∨ ~~~val = 0#64 := by
  cases fill with
  | true =>
    right
    apply BitVec.eq_of_getLsbD_eq
    intro j hj
    simp [h j hj]
  | false =>
    left
    apply BitVec.eq_of_getLsbD_eq
    intro j hj
    simp [h j hj]

/-- Neither all chunks are zero nor all chunks are ones. -/
def Mixed (val : BitVec 64) : Prop := val ≠ 0#64 ∧ ~~~val ≠ 0#64

lemma eq_of_filled {val reg : BitVec 64} {fill useMovk : Bool} (hval : Mixed val)
    (h : Filled val reg fill 64 useMovk) : reg = val := by
  cases useMovk with
  | true =>
    apply BitVec.eq_of_getLsbD_eq
    intro j hj
    rw [h j hj, if_pos hj]
  | false =>
    rcases isMoveWidable_of_fill h with hzero | hones
    · exact absurd hzero hval.1
    · exact absurd hones hval.2

lemma getLsbD_low_eq_high {val : BitVec 64}
    (h : val &&& 0xffffffff#64 = (val >>> 32) &&& 0xffffffff#64) {j : Nat} (hj : j < 32) :
    val.getLsbD (32 + j) = val.getLsbD j := by
  have hbit := congrArg (fun x => x.getLsbD j) h
  simp only [BitVec.getLsbD_and, BitVec.getLsbD_ushiftRight, getLsbD_ffffffff, hj, decide_true,
    Bool.and_true] at hbit
  exact hbit.symm

lemma filled_bfi {val reg : BitVec 64} {fill useMovk : Bool}
    (hhalves : val &&& 0xffffffff#64 = (val >>> 32) &&& 0xffffffff#64)
    (h : Filled val reg fill 32 useMovk) :
    Filled val (insertField reg reg 32 32) fill 64 useMovk := by
  have hhigh : ∀ j, 32 ≤ j → j < 64 → val.getLsbD j = val.getLsbD (j - 32) := by
    intro j hle hlt
    have hbit := getLsbD_low_eq_high hhalves (show j - 32 < 32 by omega)
    rwa [Nat.add_sub_cancel' hle] at hbit
  cases useMovk with
  | true =>
    intro j hj
    rw [getLsbD_insertField _ _ _ _ (by omega), if_pos hj]
    split_ifs with hmem
    · rw [h _ (by omega), if_pos (by omega), hhigh j hmem.1 hj]
    · rw [h j hj, if_pos (by omega)]
  | false =>
    have hlow : ∀ j < 32, val.getLsbD j = fill := h
    intro j hj
    by_cases hlt : j < 32
    · exact hlow j hlt
    · rw [hhigh j (by omega) hj, hlow _ (by omega)]

lemma runAll_splitMovImm {val : BitVec 64} (hval : Mixed val) (dest : RegNO) (regs : Regs) :
    Insn.runAll (splitMovImmOpndInstruction val dest) regs dest = val := by
  have hstart : Filled val (regs dest) (!betterUseMOVZ val) 0 false := by
    intro j hj
    omega
  unfold splitMovImmOpndInstruction
  dsimp only
  split_ifs with hhalves
  · obtain ⟨useMovk, hfilled⟩ := exists_filled_movChunks val dest (betterUseMOVZ val) 2 0 false
      regs hstart
    have hbfi : Insn.runAll (movChunks val dest (betterUseMOVZ val) 2 0 false ++
        [.xbfirri6i6 dest dest ⟨32, 8⟩ ⟨32, 8⟩]) regs dest = insertField
          (Insn.runAll (movChunks val dest (betterUseMOVZ val) 2 0 false) regs dest)
          (Insn.runAll (movChunks val dest (betterUseMOVZ val) 2 0 false) regs dest) 32 32 := by
      rw [runAll_append]
      exact Function.update_self ..
    rw [hbfi]
    exact eq_of_filled hval (filled_bfi hhalves hfilled)
  · obtain ⟨useMovk, hfilled⟩ := exists_filled_movChunks val dest (betterUseMOVZ val) 4 0 false
      regs hstart
    exact eq_of_filled hval hfilled

/-! ### Immediates that one instruction moves -/

lemma isMoveWidableImmediate_zero (bitLen : Nat) : isMoveWidableImmediate 0#64 bitLen = true := by
  unfold isMoveWidableImmediate
  split_ifs
  · decide
  · decide

section

variable {validBitmaskImmSet : BitVec 64 → Bool}

lemma mixed_of_not_movable {imm : ImmOperand}
    (h : imm.isSingleInstructionMovable validBitmaskImmSet = false) : Mixed imm.value := by
  unfold ImmOperand.isSingleInstructionMovable at h
  simp only [Bool.or_eq_false_iff] at h
  constructor
  · intro hzero
    rw [hzero, isMoveWidableImmediate_zero] at h
    exact absurd h.1.1 (by decide)
  · intro hones
    rw [hones, isMoveWidableImmediate_zero] at h
    exact absurd h.1.2 (by decide)

lemma mixed_of_not_movable64 {value : BitVec 64}
    (h : isSingleInstructionMovable64 validBitmaskImmSet value = false) : Mixed value := by
  have hcopy : isMoveWidableImmediateCopy 0#64 64 = true := by decide
  unfold isSingleInstructionMovable64 at h
  simp only [Bool.or_eq_false_iff] at h
  constructor
  · intro hzero
    rw [hzero, hcopy] at h
    exact absurd h.1.1 (by decide)
  · intro hones
    rw [hones, hcopy] at h
    exact absurd h.1.2 (by decide)

lemma movable_of_halfword {imm : ImmOperand} (h : imm.value &&& 0xffff#64 = imm.value) :
    imm.isSingleInstructionMovable validBitmaskImmSet = true := by
  have hword : imm.value &&& 0xffffffff#64 = imm.value := by
    rw [← h, BitVec.and_assoc]
    rfl
  have hwidable : isMoveWidableImmediate imm.value imm.size = true := by
    unfold isMoveWidableImmediate
    split_ifs
    · simp [h]
    · simp [hword, h]
  simp [ImmOperand.isSingleInstructionMovable, hwidable]

/-! ### Truncated immediates -/

lemma getLsbD_mask {dsize : Nat} (h : dsize < 64) (j : Nat) :
    ((1#64 <<< dsize) - 1#64).getLsbD j = decide (j < dsize) := by
  have hpow : 2 ^ dsize < 2 ^ 64 := Nat.pow_lt_pow_right (by decide) h
  have hpos : 0 < 2 ^ dsize := Nat.two_pow_pos dsize
  have hshift : (1#64 <<< dsize).toNat = 2 ^ dsize := by
    rw [BitVec.toNat_shiftLeft, Nat.shiftLeft_eq, show (1#64).toNat = 1 from rfl, one_mul,
      Nat.mod_eq_of_lt hpow]
  have hmask : ((1#64 <<< dsize) - 1#64).toNat = 2 ^ dsize - 1 := by
    rw [BitVec.toNat_sub, hshift]
    change (2 ^ 64 - 1 + 2 ^ dsize) % 2 ^ 64 = 2 ^ dsize - 1
    omega
  rw [← BitVec.testBit_toNat, hmask, Nat.testBit_two_pow_sub_one]

lemma truncateImm_of_le {src : ImmOperand} {dsize : Nat} (h : src.size ≤ dsize) :
    truncateImm src dsize = src :=
  if_neg (by omega)

lemma setWidth_truncateImm (src : ImmOperand) {dsize : Nat} (h : src.size ≤ 64) :
    (truncateImm src dsize).value.setWidth dsize = src.value.setWidth dsize := by
  by_cases hlt : dsize < src.size
  · rw [truncateImm, if_pos hlt]
    apply BitVec.eq_of_getLsbD_eq
    intro j hj
    simp only [BitVec.getLsbD_setWidth, BitVec.getLsbD_and,
      getLsbD_mask (show dsize < 64 by omega), hj, decide_true, Bool.and_true]
  · rw [truncateImm_of_le (by omega)]

lemma truncateImm_halfword {src : ImmOperand} {dsize : Nat} (h : dsize < src.size)
    (hdsize : dsize ≤ 16) :
    (truncateImm src dsize).value &&& 0xffff#64 = (truncateImm src dsize).value := by
  rw [truncateImm, if_pos h]
  apply BitVec.eq_of_getLsbD_eq
  intro j hj
  simp only [BitVec.getLsbD_and, getLsbD_mask (show dsize < 64 by omega), getLsbD_ffff]
  by_cases hlt : j < dsize
  · simp [hlt, show j < 16 by omega]
  · simp [hlt]

/-! ### The low bits of the destination -/

/-- The low bits of the register hold the immediate, whatever the registers held before. -/
def Leaves (insns : List Insn) (dest : RegNO) (bits : Nat) (v : BitVec 64) : Prop :=
  ∀ regs, ((Insn.runAll insns regs dest).toNat : Int) % 2 ^ bits = v.toInt % 2 ^ bits

lemma toInt_emod (v : BitVec 64) {bits : Nat} (h : bits ≤ 64) :
    v.toInt % 2 ^ bits = ((v.setWidth bits).toNat : Int) := by
  have hdvd : ((2 : Int) ^ bits) ∣ ((2 ^ 64 : Nat) : Int) := by
    push_cast
    exact pow_dvd_pow 2 h
  rw [BitVec.toInt_eq_toNat_bmod, ← Int.emod_emod_of_dvd _ hdvd, Int.bmod_emod,
    Int.emod_emod_of_dvd _ hdvd, BitVec.toNat_setWidth]
  norm_cast

lemma leaves_iff {insns : List Insn} {dest : RegNO} {bits : Nat} {v : BitVec 64} (h : bits ≤ 64) :
    Leaves insns dest bits v ↔
      ∀ regs, (Insn.runAll insns regs dest).setWidth bits = v.setWidth bits := by
  apply forall_congr'
  intro regs
  rw [toInt_emod v h, ← BitVec.toNat_inj, BitVec.toNat_setWidth _ (Insn.runAll insns regs dest)]
  norm_cast

lemma setWidth_low {x : BitVec 64} {bits : Nat} (h : bits ≤ 32) :
    ((x.setWidth 32).setWidth 64).setWidth bits = x.setWidth bits := by
  apply BitVec.eq_of_getLsbD_eq
  intro j hj
  simp only [BitVec.getLsbD_setWidth, hj, show j < 64 by omega, show j < 32 by omega, decide_true,
    Bool.true_and]

lemma setWidth_mov_movk (val : BitVec 64) (dest : RegNO) (regs : Regs) :
    (Insn.runAll [.wmovri32 dest ⟨val &&& 0xffff#64, 16⟩,
      .wmovkri16 dest ⟨chunkVal val 16, 16⟩ 16] regs dest).setWidth 32 = val.setWidth 32 := by
  simp only [Insn.runAll, List.foldl_cons, List.foldl_nil, Insn.run, Function.update_self]
  rw [setWidth_low (le_refl 32)]
  apply BitVec.eq_of_getLsbD_eq
  intro j hj
  rw [BitVec.getLsbD_setWidth, BitVec.getLsbD_setWidth, getLsbD_insertField _ _ _ _ (by omega)]
  split_ifs with hmem
  · rw [getLsbD_chunkVal, decide_eq_true (show j - 16 < 16 by omega), Bool.true_and,
      Nat.add_sub_cancel' hmem.1]
  · simp only [BitVec.getLsbD_setWidth, BitVec.getLsbD_and, getLsbD_ffff, hj,
      show j < 64 by omega, show j < 16 by omega, decide_true, Bool.true_and, Bool.and_true]

variable [Target]

/-- The immediate is moved to a 32-bit register, and from there to the 64-bit destination. -/
def CopiesWord (validBitmaskImmSet : BitVec 64 → Bool) (src : ImmOperand) (dtype : PrimType) :
    Prop :=
  src.size = 32 ∧ dtype.bitSize = 64 ∧ src.isSingleInstructionMovable validBitmaskImmSet

lemma runAll_copy_word (src : ImmOperand) (dest tempReg : RegNO) (regs : Regs) :
    Insn.runAll (.wmovri32 tempReg src :: selectCopy dest tempReg .u32) regs dest =
      (src.value.setWidth 32).setWidth 64 := by
  have hsize : PrimType.u32.size ≤ 4 := le_refl 4
  by_cases hdest : dest = tempReg
  · rw [selectCopy, if_pos hdest, hdest]
    exact Function.update_self ..
  · rw [selectCopy, if_neg hdest, pickMovBetweenRegs, if_pos hsize]
    simp only [Insn.runAll, List.foldl_cons, List.foldl_nil, Insn.run, Function.update_self]
    apply BitVec.eq_of_getLsbD_eq
    intro j hj
    simp only [BitVec.getLsbD_setWidth, hj, decide_true, Bool.true_and]
    by_cases hlt : j < 32
    · simp [hlt]
    · simp [hlt]

omit [Target] in
lemma setWidth_word_eq_iff (v : BitVec 64) :
    (v.setWidth 32).setWidth 64 = v ↔ 0 ≤ v.toInt ∧ v.toInt < 2 ^ 32 := by
  have hlt : v.toNat < 2 ^ 64 := v.isLt
  rw [← BitVec.toNat_inj, BitVec.toNat_setWidth, BitVec.toNat_setWidth,
    BitVec.toInt_eq_toNat_cond]
  split_ifs with hsign
  · omega
  · omega

lemma leaves_copy_word_iff {src : ImmOperand} (dest tempReg : RegNO) :
    Leaves (.wmovri32 tempReg src :: selectCopy dest tempReg .u32) dest 64 src.value ↔
      0 ≤ src.value.toInt ∧ src.value.toInt < 2 ^ 32 := by
  rw [leaves_iff (le_refl 64), ← setWidth_word_eq_iff]
  simp only [BitVec.setWidth_eq, runAll_copy_word, forall_const]

lemma setWidth_selectMovMovk {imm : ImmOperand} {dtype : PrimType} (dest : RegNO) (regs : Regs)
    (hmov : imm.isSingleInstructionMovable validBitmaskImmSet = false)
    (hbits : dtype.bitSize = 32 ∨ dtype.bitSize = 64) :
    (Insn.runAll (selectMovMovk imm.value dtype dest) regs dest).setWidth dtype.bitSize =
      imm.value.setWidth dtype.bitSize := by
  rcases hbits with hbits | hbits
  · rw [selectMovMovk, hbits]
    exact setWidth_mov_movk imm.value dest regs
  · rw [selectMovMovk, hbits]
    change (Insn.runAll (splitMovImmOpndInstruction imm.value dest) regs dest).setWidth 64 = _
    rw [runAll_splitMovImm (mixed_of_not_movable hmov)]

omit [Target] in
lemma runAll_single_mov (imm : ImmOperand) (dest : RegNO) (regs : Regs) (dsize : Nat) :
    (Insn.runAll [if dsize ≤ 32 then .wmovri32 dest imm else .xmovri64 dest imm] regs dest).setWidth
      dsize = imm.value.setWidth dsize := by
  split_ifs with h
  · simp only [Insn.runAll, List.foldl_cons, List.foldl_nil, Insn.run, Function.update_self]
    exact setWidth_low h
  · simp only [Insn.runAll, List.foldl_cons, List.foldl_nil, Insn.run, Function.update_self]

lemma leaves_of_not_copiesWord {src : ImmOperand} {dtype : PrimType} (dest tempReg : RegNO)
    (hsize : src.size = 32 ∨ src.size = 64)
    (hbits : dtype.bitSize ∈ [8, 16, 32, 64])
    (hcopy : ¬CopiesWord validBitmaskImmSet src dtype) :
    Leaves (selectCopyImm validBitmaskImmSet dest src dtype tempReg) dest dtype.bitSize
      src.value := by
  have hle : dtype.bitSize ≤ 64 := by
    simp only [List.mem_cons, List.not_mem_nil, or_false] at hbits
    omega
  rw [leaves_iff hle]
  intro regs
  rw [← setWidth_truncateImm src (show src.size ≤ 64 by omega)]
  have hno : ¬((truncateImm src dtype.bitSize).size = 32 ∧ dtype.bitSize = 64 ∧
      (truncateImm src dtype.bitSize).isSingleInstructionMovable validBitmaskImmSet) := by
    rintro ⟨h32, h64, hmov⟩
    rw [truncateImm_of_le (by omega)] at h32 hmov
    exact hcopy ⟨h32, h64, hmov⟩
  unfold selectCopyImm
  dsimp only
  rw [if_neg hno]
  by_cases hmov : (truncateImm src dtype.bitSize).isSingleInstructionMovable validBitmaskImmSet
  · rw [if_pos hmov]
    exact runAll_single_mov _ dest regs _
  · rw [if_neg hmov]
    apply setWidth_selectMovMovk dest regs (Bool.eq_false_iff.mpr hmov)
    -- types of at most 16 bits were truncated, and one instruction moves what is left
    by_contra hsmall
    simp only [List.mem_cons, List.not_mem_nil, or_false] at hbits
    exact hmov (movable_of_halfword (truncateImm_halfword (by omega) (by omega)))

theorem immediates_exact_iff (validBitmaskImmSet : BitVec 64 → Bool) :
    (∀ (dest tempReg : RegNO) (src : ImmOperand) (dtype : PrimType),
      (src.size = 32 ∨ src.size = 64) → dtype.isPrimitiveInteger → dtype.bitSize ∈ [8, 16, 32, 64] →
      (Leaves (selectCopyImm validBitmaskImmSet dest src dtype tempReg) dest dtype.bitSize src.value ↔
        (CopiesWord validBitmaskImmSet src dtype →
          0 ≤ src.value.toInt ∧ src.value.toInt < 2 ^ 32))) ∧
    ∀ (immVal : BitVec 64) (destReg : RegNO) (regs : Regs),
      isSingleInstructionMovable64 validBitmaskImmSet immVal = false →
      Insn.runAll (splitMovImmOpndInstruction immVal destReg) regs destReg = immVal := by
  constructor
  · intro dest tempReg src dtype hsize _ hbits
    by_cases hcopy : CopiesWord validBitmaskImmSet src dtype
    · have htrunc : truncateImm src dtype.bitSize = src :=
        truncateImm_of_le (by rw [hcopy.1, hcopy.2.1]; decide)
      have hselect : selectCopyImm validBitmaskImmSet dest src dtype tempReg =
          .wmovri32 tempReg src :: selectCopy dest tempReg .u32 := by
        unfold selectCopyImm
        dsimp only
        rw [htrunc]
        exact if_pos hcopy
      rw [hselect, hcopy.2.1, leaves_copy_word_iff]
      exact ⟨fun h _ => h, fun h => h hcopy⟩
    · exact ⟨fun _ h => absurd h hcopy,
        fun _ => leaves_of_not_copiesWord dest tempReg hsize hbits hcopy⟩
  · intro immVal destReg regs hmov
    exact runAll_splitMovImm (mixed_of_not_movable64 hmov) destReg regs

omit [Target] in
theorem immediates_exact_iff_chunks :
    letI := Target.lp64
    (Leaves (selectCopyImm (fun _ => false) 0 ⟨0xfffffffe12345678#64, 64⟩ .i64 1) 0 64
      0xfffffffe12345678#64) ∧
    Insn.runAll (splitMovImmOpndInstruction 0x1234567812345678#64 0) (fun _ => 0) 0 =
      0x1234567812345678#64 := by
  let := Target.lp64
  constructor
  · apply ((immediates_exact_iff fun _ => false).1 0 1 ⟨0xfffffffe12345678#64, 64⟩ .i64
      (Or.inr rfl) (by decide) (by decide)).mpr
    intro hcopy
    exact absurd hcopy.1 (by decide)
  · exact (immediates_exact_iff fun _ => false).2 0x1234567812345678#64 0 (fun _ => 0)
      (by decide +kernel)

omit [Target] in
theorem immediates_exact_iff_minus_one :
    letI := Target.lp64
    ¬Leaves (selectCopyImm (fun _ => false) 0 ⟨BitVec.ofInt 64 (-1), 32⟩ .i64 1) 0 64
      (BitVec.ofInt 64 (-1)) := by
  let := Target.lp64
  intro h
  exact absurd (h fun _ => 0) (by decide +kernel)

end

end AArch64
end Maple
