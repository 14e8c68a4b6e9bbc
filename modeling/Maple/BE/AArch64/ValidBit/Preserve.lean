import Maple.BE.AArch64.ValidBit.Patterns

/-!
# The patterns preserve values

For a register with no more bits than were recorded, the new instructions compute what the old ones
computed and take the same branches.
-/

namespace Maple
namespace AArch64
namespace ValidBit

lemma width_le (is64 : Bool) : width is64 ≤ 64 := by
  cases is64 <;> decide

lemma width_false : width false = 32 := rfl

/-! ### Registers with few bits -/

section

variable {r : RegOperand} {v : BitVec 64} (hv : r.Holds v)

include hv

lemma getLsbD_of_holds {j : Nat} (hj : r.validBitsNum ≤ j) : v.getLsbD j = false := by
  rw [← BitVec.testBit_toNat]
  exact Nat.testBit_lt_two_pow (hv.trans_le (Nat.pow_le_pow_right (by decide) hj))

lemma low_of_holds {is64 : Bool} (h : is64 = false → r.validBitsNum ≤ 32) : low is64 v = v := by
  apply BitVec.eq_of_getLsbD_eq
  intro j _
  rw [getLsbD_low]
  cases is64
  · by_cases hj : j < 32
    · simp [hj]
    · have hle := h rfl
      simp [getLsbD_of_holds hv (show r.validBitsNum ≤ j by omega)]
  · simp

lemma setWidth_of_holds {n : Nat} (h : r.validBitsNum ≤ n) :
    (v.setWidth n).setWidth 64 = v := by
  apply BitVec.eq_of_toNat_eq
  have hlt : v.toNat < 2 ^ n := hv.trans_le (Nat.pow_le_pow_right (by decide) h)
  rw [BitVec.toNat_setWidth, BitVec.toNat_setWidth, Nat.mod_eq_of_lt hlt,
    Nat.mod_eq_of_lt v.isLt]

lemma signExtend_of_holds {n : Nat} (h : r.validBitsNum < n) :
    (v.setWidth n).signExtend 64 = v := by
  have hmsb : (v.setWidth n).msb = false := by
    rw [BitVec.msb_setWidth, getLsbD_of_holds hv (by omega), Bool.and_false]
  rw [BitVec.signExtend_eq_setWidth_of_msb_false hmsb, setWidth_of_holds hv h.le]

lemma eq_zero_or_one_of_holds (h : r.validBitsNum ≤ 1) : v = 0#64 ∨ v = 1#64 := by
  have hlt : v.toNat < 2 := hv.trans_le (Nat.pow_le_pow_right (by decide) h)
  rcases (by omega : v.toNat = 0 ∨ v.toNat = 1) with hzero | hone
  · exact .inl (BitVec.eq_of_toNat_eq hzero)
  · exact .inr (BitVec.eq_of_toNat_eq hone)

end

/-! ### Immediates of `and` -/

lemma immValidBitLoop_le {bound : Nat} : ∀ (n i value pos : Nat), value < 2 ^ (bound - i) →
    pos ≤ bound → immValidBitLoop n i value pos ≤ bound := by
  intro n
  induction n with
  | zero => exact fun _ _ _ _ hpos => hpos
  | succ n ih =>
    intro i value pos hvalue hpos
    rw [immValidBitLoop]
    cases hgap : bound - i with
    | zero =>
      rw [hgap] at hvalue
      obtain rfl : value = 0 := by omega
      exact ih _ _ _ (Nat.two_pow_pos _) hpos
    | succ m =>
      rw [hgap, pow_succ] at hvalue
      apply ih
      · rw [show bound - (i + 1) = m by omega]
        omega
      · split <;> omega

lemma getImmValidBit_le {imm : BitVec 64} (h : imm.toInt < 2 ^ 32) :
    getImmValidBit imm 32 ≤ 32 := by
  unfold getImmValidBit
  split_ifs with hneg hzero
  · exact le_refl _
  · decide
  · apply immValidBitLoop_le
    · have htoInt := BitVec.toInt_eq_toNat_cond imm
      split at htoInt
      · have : (imm.toNat : Int) < 2 ^ 32 := htoInt ▸ h
        exact_mod_cast this
      · have := imm.isLt
        omega
    · exact Nat.zero_le _

lemma getLsbD_of_checkImmValidBit {andImm : BitVec 64} {andImmVB shiftImm j : Nat}
    (h : checkImmValidBit andImm andImmVB shiftImm = true) (hshift : shiftImm ≤ j) (hj : j < 64) :
    andImm.getLsbD j = decide (j < andImmVB) := by
  simp only [checkImmValidBit, Bool.and_eq_true, beq_iff_eq] at h
  have hbit := congrArg (fun x => x.getLsbD (j - shiftImm)) h.2
  simp only [BitVec.getLsbD_ushiftRight, show shiftImm + (j - shiftImm) = j by omega] at hbit
  rw [hbit]
  by_cases hbits : andImmVB - shiftImm < 64
  · rw [getLsbD_mask hbits]
    exact decide_eq_decide.mpr (by omega)
  · have hones : (1#64 <<< (andImmVB - shiftImm)) - 1#64 = BitVec.allOnes 64 := by
      have hzero : 1#64 <<< (andImmVB - shiftImm) = 0#64 := by
        apply BitVec.eq_of_getLsbD_eq
        intro k hk
        rw [BitVec.getLsbD_shiftLeft, decide_eq_true (show k < andImmVB - shiftImm by omega)]
        simp
      rw [hzero]
      decide
    rw [hones, BitVec.getLsbD_allOnes]
    exact decide_eq_decide.mpr (by omega)

lemma getLsbD_shift_eval {n : Nat} (op : ShiftOp) (x : BitVec n) (s : Nat) {j : Nat} (hj : j < n) :
    (op.eval x s).getLsbD j =
      if s + j < n then x.getLsbD (s + j) else op == .asr && x.msb := by
  cases op with
  | asr =>
    rw [ShiftOp.eval, BitVec.getLsbD_sshiftRight, decide_eq_false (by omega)]
    simp
  | lsr =>
    rw [ShiftOp.eval, BitVec.getLsbD_ushiftRight]
    split
    · rfl
    · exact BitVec.getLsbD_of_ge x _ (by omega)

lemma ShiftOp.eval_congr {n : Nat} (op : ShiftOp) {x y : BitVec n} {s : Nat} (hs : s < n)
    (h : ∀ j, s ≤ j → j < n → x.getLsbD j = y.getLsbD j) : op.eval x s = op.eval y s := by
  have hmsb : x.msb = y.msb := by
    rw [BitVec.msb_eq_getLsbD_last, BitVec.msb_eq_getLsbD_last]
    exact h (n - 1) (by omega) (by omega)
  apply BitVec.eq_of_getLsbD_eq
  intro j hj
  rw [getLsbD_shift_eval op x s hj, getLsbD_shift_eval op y s hj, hmsb]
  by_cases hin : s + j < n
  · rw [if_pos hin, if_pos hin]
    exact h (s + j) (by omega) hin
  · rw [if_neg hin, if_neg hin]

lemma ShiftInsn.run_congr (i : ShiftInsn) {v w : BitVec 64}
    (h : ∀ j, i.imm ≤ j → j < 64 → v.getLsbD j = w.getLsbD j) : i.run v = i.run w := by
  have hlt := i.imm_lt
  unfold ShiftInsn.run
  cases hwide : i.is64 with
  | true =>
    rw [hwide] at hlt
    exact i.op.eval_congr hlt h
  | false =>
    have hlt32 : i.imm < 32 := by rwa [hwide] at hlt
    have heq : i.op.eval (v.setWidth 32) i.imm = i.op.eval (w.setWidth 32) i.imm := by
      apply i.op.eval_congr hlt32
      intro j hj hj'
      rw [BitVec.getLsbD_setWidth, BitVec.getLsbD_setWidth, h j hj (by omega)]
    simp only [Bool.false_eq_true, if_false, heq]

/-! ### `AndValidBitPattern` -/

lemma and_run_of_ones (i : AndInsn) {v : BitVec 64} (hv : i.src.Holds v) {n : Nat}
    (hn : i.src.validBitsNum ≤ n) (hn' : n ≤ 32)
    (himm : ∀ j < n, i.imm.getLsbD j = true) : i.run v = v := by
  have hand : v &&& i.imm = v := by
    apply BitVec.eq_of_getLsbD_eq
    intro j _
    rw [BitVec.getLsbD_and]
    by_cases hj : j < n
    · rw [himm j hj, Bool.and_true]
    · rw [getLsbD_of_holds hv (by omega), Bool.false_and]
  rw [AndInsn.run, hand, low_of_holds hv fun _ => hn.trans hn']

lemma getLsbD_and_run (i : AndInsn) {v : BitVec 64} (hv : i.src.Holds v) {shiftImm j : Nat}
    (hbits : i.src.validBitsNum = getImmValidBit i.imm (width i.is64))
    (himm : checkImmValidBit i.imm (getImmValidBit i.imm (width i.is64)) shiftImm = true)
    (hshift : shiftImm ≤ j) (hj : j < 64) : (i.run v).getLsbD j = v.getLsbD j := by
  rw [← hbits] at himm
  rw [AndInsn.run, getLsbD_low, BitVec.getLsbD_and, getLsbD_of_checkImmValidBit himm hshift hj]
  by_cases hvalid : j < i.src.validBitsNum
  · rw [decide_eq_true hvalid, Bool.and_true]
    cases hwide : i.is64 with
    | true => simp
    | false =>
      rw [hwide] at hbits
      have hle : getImmValidBit i.imm 32 ≤ 32 := getImmValidBit_le (i.imm_fits hwide).2
      rw [decide_eq_true (show j < 32 from hvalid.trans_le (hbits.le.trans hle)), Bool.or_true,
        Bool.true_and]
  · rw [getLsbD_of_holds hv (not_lt.mp hvalid), Bool.false_and, Bool.and_false]

/-- The uses of an `and` compute the same from its source. -/
theorem andInsn_propagates {i : AndInsn} {useInsns : List AndUse}
    (h : i.propagates useInsns = true) {v : BitVec 64} (hv : i.src.Holds v) :
    ∀ u ∈ useInsns, u.run v = u.run (i.run v) := by
  simp only [AndInsn.propagates, Bool.and_eq_true] at h
  have hcheck := h.1.1
  unfold AndInsn.checkCondition at hcheck
  have hones {n : Nat} (hn : i.src.validBitsNum ≤ n) (hn' : n ≤ 32)
      (himm : ∀ j < n, i.imm.getLsbD j = true) : ∀ u ∈ useInsns, u.run v = u.run (i.run v) := by
    intro u _
    rw [and_run_of_ones i hv hn hn' himm]
  by_cases h8 : i.src.validBitsNum ≤ 8 ∧ i.imm = 0xff#64
  · exact hones h8.1 (by decide) (by rw [h8.2]; decide)
  by_cases h16 : i.src.validBitsNum ≤ 16 ∧ i.imm = 0xffff#64
  · exact hones h16.1 (by decide) (by rw [h16.2]; decide)
  by_cases h32 : i.src.validBitsNum ≤ 32 ∧ i.imm = 0xffffffff#64
  · exact hones h32.1 (by decide) (by rw [h32.2]; decide)
  simp only [if_neg h8, if_neg h16, if_neg h32] at hcheck
  split_ifs at hcheck
  match useInsns, hcheck with
  | [.shift s], hcheck =>
    simp only [Bool.and_eq_true, beq_iff_eq] at hcheck
    intro u hu
    obtain rfl := List.mem_singleton.mp hu
    exact s.run_congr fun j hj hj' =>
      (getLsbD_and_run i hv hcheck.1 hcheck.2 hj hj').symm

/-! ### `ExtValidBitPattern` -/

/-- An extension of a register that holds the recorded bits only. -/
theorem extInsn_run_eq {i : ExtInsn} (hi : i.Encodable) {src : RegOperand} {newMopIs64 : Bool}
    (h : i.checkCondition src false = some newMopIs64) {v : BitVec 64} (hv : src.Holds v)
    (desIsSSAForm : Bool) : movResult newMopIs64 src desIsSSAForm v = i.run v := by
  have hmove (hle : newMopIs64 = false → src.validBitsNum ≤ 32) :
      movResult newMopIs64 src desIsSSAForm v = v := by
    unfold movResult
    split
    · rfl
    · exact low_of_holds hv hle
  cases i with
  | xuxtb32 =>
    simp only [ExtInsn.checkCondition, Bool.false_eq_true, false_or] at h
    split_ifs at h with hbits
    rw [hmove fun _ => by omega, ExtInsn.run, setWidth_of_holds hv hbits.1]
  | xuxth32 =>
    simp only [ExtInsn.checkCondition, Bool.false_eq_true, false_or] at h
    split_ifs at h with hbits
    rw [hmove fun _ => by omega, ExtInsn.run, setWidth_of_holds hv hbits.1]
  | xuxtw64 =>
    simp only [ExtInsn.checkCondition, Bool.false_eq_true, false_or] at h
    split_ifs at h with hbits
    rw [hmove fun _ => by omega, ExtInsn.run, setWidth_of_holds hv hbits.1]
  | xsxtw64 =>
    simp only [ExtInsn.checkCondition] at h
    split_ifs at h with hbits
    rw [hmove fun _ => by omega, ExtInsn.run, signExtend_of_holds hv (by omega)]
  | ubfx is64 lsb fieldWidth =>
    simp only [ExtInsn.checkCondition, Bool.false_eq_true, if_false] at h
    split_ifs at h with hbits
    obtain rfl := Option.some.inj h
    simp only [not_or, not_not, not_lt] at hbits
    obtain ⟨rfl, hbits, -⟩ := hbits
    obtain ⟨-, hwidth⟩ := hi
    have hle := width_le is64
    have hword : is64 = false → src.validBitsNum ≤ 32 := by
      rintro rfl
      rw [width_false] at hwidth
      omega
    rw [hmove hword, ExtInsn.run, ← BitVec.setWidth_eq_extractLsb' (by omega),
      setWidth_of_holds hv hbits]
  | sbfx is64 lsb fieldWidth =>
    simp only [ExtInsn.checkCondition, Bool.false_eq_true, if_false] at h
    split_ifs at h with hbits hsign
    obtain rfl := Option.some.inj h
    simp only [not_or, not_not, not_lt] at hbits
    obtain ⟨rfl, hbits, -⟩ := hbits
    obtain ⟨-, hwidth⟩ := hi
    have hle := width_le is64
    have hword : is64 = false → src.validBitsNum ≤ 32 := by
      rintro rfl
      rw [width_false] at hwidth
      omega
    rw [hmove hword, ExtInsn.run, ← BitVec.setWidth_eq_extractLsb' (by omega),
      signExtend_of_holds hv (by omega), low_of_holds hv hword]

/-! ### `RSPattern` -/

/-- A shift that drops all recorded bits. -/
theorem shiftInsn_run_eq_zero {i : ShiftInsn} {src : RegOperand}
    (h : i.isZeroByValidBits src = true) {v : BitVec 64} (hv : src.Holds v) : i.run v = 0#64 := by
  simp only [ShiftInsn.isZeroByValidBits, Bool.and_eq_true, decide_eq_true_eq] at h
  have hzero : i.run v = i.run 0#64 := by
    apply i.run_congr
    intro j hj _
    rw [getLsbD_of_holds hv (by omega), BitVec.getLsbD_zero]
  rw [hzero, ShiftInsn.run, h.1]
  cases i.is64 <;> simp [ShiftOp.eval]

/-! ### `CmpCsetVBPattern` -/

lemma low_eq_of_zero_or_one (is64 : Bool) {v : BitVec 64} (h : v = 0#64 ∨ v = 1#64) :
    low is64 v = v := by
  rcases h with rfl | rfl <;> cases is64 <;> decide

lemma ushiftRight_zero_or_one (is64 : Bool) (u : BitVec 64) :
    low is64 u >>> (width is64 - 1) = 0#64 ∨ low is64 u >>> (width is64 - 1) = 1#64 := by
  have hlt : (low is64 u).toNat < 2 ^ width is64 := by
    cases is64 with
    | true => exact u.isLt
    | false =>
      rw [low, if_neg Bool.false_ne_true, BitVec.toNat_setWidth]
      exact (Nat.mod_le _ _).trans_lt (u.setWidth 32).isLt
  have hshift : (low is64 u >>> (width is64 - 1)).toNat < 2 := by
    rw [BitVec.toNat_ushiftRight, Nat.shiftRight_eq_div_pow]
    apply Nat.div_lt_of_lt_mul
    rw [← pow_succ]
    exact hlt.trans_eq (by cases is64 <;> rfl)
  rcases (by omega : (low is64 u >>> (width is64 - 1)).toNat = 0 ∨
    (low is64 u >>> (width is64 - 1)).toNat = 1) with hzero | hone
  · exact .inl (BitVec.eq_of_toNat_eq hzero)
  · exact .inr (BitVec.eq_of_toNat_eq hone)

namespace CmpCset

variable (c : CmpCset) {v : BitVec 64}

lemma eq_zero_or_one_of_def {d : DefInsn} (h : c.opndDefByOneValidBit d = true)
    (hv : c.cmpReg.Holds v) (hd : d.Leaves v) : v = 0#64 ∨ v = 1#64 := by
  cases d with
  | phi =>
    simp only [opndDefByOneValidBit, Bool.or_eq_true, beq_iff_eq] at h
    exact eq_zero_or_one_of_holds hv (by omega)
  | csetrc => exact hd
  | movri is64 imm =>
    simp only [opndDefByOneValidBit, Bool.or_eq_true, beq_iff_eq] at h
    rw [DefInsn.Leaves] at hd
    rw [hd, low_eq_of_zero_or_one is64 h]
    exact h
  | movrr is64 srcIsVirtual srcIsZero => exact .inl (hd h)
  | lsrrri is64 shiftBits =>
    simp only [opndDefByOneValidBit, beq_iff_eq] at h
    obtain ⟨u, rfl⟩ := hd
    rw [h]
    exact ushiftRight_zero_or_one is64 u
  | other => exact absurd h Bool.false_ne_true

lemma eq_zero_or_one (h : c.checkCondition = true) (hv : c.cmpReg.Holds v)
    (hdef : ∀ d, c.defInsn = some d → d.Leaves v) :
    (v = 0#64 ∨ v = 1#64) ∧ (c.cmpConst = 0#64 ∨ c.cmpConst = 1#64) := by
  unfold checkCondition at h
  split_ifs at h with hcont huses hconst
  rw [not_and_or, not_not, not_not] at hconst
  refine ⟨?_, hconst⟩
  have hcase (d : DefInsn) (hd : c.defInsn = some d) (hor : (c.cmpReg.validBitsNum == 1 ||
      c.cmpReg.validBitsNum == 0 || c.opndDefByOneValidBit d) = true) : v = 0#64 ∨ v = 1#64 := by
    simp only [Bool.or_eq_true, beq_iff_eq] at hor
    rcases hor with hbits | hone
    · exact eq_zero_or_one_of_holds hv (by omega)
    · exact c.eq_zero_or_one_of_def hone hv (hdef d hd)
  match hd : c.defInsn, h with
  | some .phi, h => exact hcase _ hd h
  | some .csetrc, h => exact hcase _ hd h
  | some (.movri _ _), h => exact hcase _ hd h
  | some (.movrr _ true _), h => exact hcase _ hd h
  | some (.lsrrri _ _), h => exact hcase _ hd h
  | some .other, h => exact hcase _ hd h

/-- The new instruction leaves what `cset` left. -/
theorem newInsn_eq_run {new : BitVec 64 → BitVec 64} (h : c.newInsn = some new)
    (hv : c.cmpReg.Holds v) (hdef : ∀ d, c.defInsn = some d → d.Leaves v) : new v = c.run v := by
  have hcheck : c.checkCondition = true := by
    by_contra hno
    rw [newInsn, if_neg hno] at h
    exact absurd h (by simp)
  rw [newInsn, if_pos hcheck] at h
  obtain ⟨hbit, hconst⟩ := c.eq_zero_or_one hcheck hv hdef
  rw [run, low_eq_of_zero_or_one _ hbit, low_eq_of_zero_or_one _ hconst]
  cases hcond : c.cond with
  | other holds =>
    rw [hcond] at h
    exact absurd h (by simp)
  | ne =>
    simp only [hcond] at h
    rcases hconst with hzero | hone
    · rw [if_pos hzero] at h
      rw [← Option.some.inj h, hzero, low_eq_of_zero_or_one _ hbit]
      rcases hbit with rfl | rfl <;> decide
    · rw [if_neg (by rw [hone]; decide)] at h
      rw [← Option.some.inj h, hone]
      rcases hbit with rfl | rfl <;> cases c.cmpReg.size == 64 <;> decide
  | eq =>
    simp only [hcond] at h
    rcases hconst with hzero | hone
    · rw [if_neg (by rw [hzero]; decide)] at h
      rw [← Option.some.inj h, hzero]
      rcases hbit with rfl | rfl <;> cases c.cmpReg.size == 64 <;> decide
    · rw [if_pos hone] at h
      rw [← Option.some.inj h, hone, low_eq_of_zero_or_one _ hbit]
      rcases hbit with rfl | rfl <;> decide

end CmpCset

/-! ### `CmpBranchesPattern` -/

lemma lt_of_imm12BitValid {imm : BitVec 64} (h : imm12BitValid imm = true) {k : Nat}
    (hk : imm.getLsbD k = true) : k < 24 := by
  have hbits {lsb j : Nat} (hvalid : isBitSizeImmediate imm 12 lsb = true) (hj : 12 ≤ j) :
      imm.getLsbD (lsb + j) = false := by
    simp only [isBitSizeImmediate, Bool.and_eq_true, decide_eq_true_eq] at hvalid
    by_cases hj64 : j < 64
    · have hbit := congrArg (fun x => x.getLsbD j) hvalid.2
      simp only [BitVec.getLsbD_and, BitVec.getLsbD_shiftLeft, BitVec.getLsbD_ushiftRight,
        BitVec.getLsbD_allOnes, BitVec.getLsbD_zero, decide_eq_true hj64,
        decide_eq_false (not_lt.mpr hj), decide_eq_true (show j - 12 < 64 by omega)] at hbit
      simpa using hbit
    · exact BitVec.getLsbD_of_ge imm _ (by omega)
  by_contra hge
  simp only [imm12BitValid, Bool.or_eq_true] at h
  rcases h with hlow | hhigh
  · have := hbits hlow (show 12 ≤ k by omega)
    rw [Nat.zero_add, hk] at this
    exact Bool.noConfusion this
  · have := hbits hhigh (show 12 ≤ k - 12 by omega)
    rw [show 12 + (k - 12) = k by omega, hk] at this
    exact Bool.noConfusion this

lemma eq_twoPow_of_popcountll {x : BitVec 64} (h : popcountll x = 1) :
    ∃ k < 64, ctzll x = k ∧ x = BitVec.twoPow 64 k := by
  rw [popcountll, List.countP_eq_length_filter, List.length_eq_one_iff] at h
  obtain ⟨k, hk⟩ := h
  have hmem : ∀ j, j < 64 ∧ x.getLsbD j = true ↔ j = k := by
    intro j
    have := congrArg (fun l => j ∈ l) hk
    simpa using this
  obtain ⟨hlt, hbit⟩ := (hmem k).mpr rfl
  refine ⟨k, hlt, ?_, ?_⟩
  · have hfind : (List.range 64).find? (fun i => x.getLsbD i) = some k := by
      rw [← List.head?_filter, hk]
      rfl
    rw [ctzll, hfind]
    rfl
  · apply BitVec.eq_of_getLsbD_eq
    intro j hj
    rw [BitVec.getLsbD_twoPow, decide_eq_true hlt, Bool.true_and, Bool.eq_iff_iff,
      decide_eq_true_eq]
    constructor
    · intro hx
      exact ((hmem j).mp ⟨hj, hx⟩).symm
    · rintro rfl
      exact hbit

lemma branch_facts {imm : BitVec 64} (hvalid : imm12BitValid imm = true) {r : RegOperand}
    {v : BitVec 64} (hv : r.Holds v)
    (h : ¬ (getLogValueAtBase2 imm < 0 ∨ (r.validBitsNum : Int) ≠ getLogValueAtBase2 imm + 1)) :
    ∃ k : Nat, k < 24 ∧ getLogValueAtBase2 imm = k ∧ imm.toNat = 2 ^ k ∧ v.toNat < 2 ^ (k + 1) := by
  obtain ⟨hlog, hbits⟩ := not_or.mp h
  rw [not_not] at hbits
  have hcount : popcountll imm = 1 := by
    by_contra hno
    rw [getLogValueAtBase2, if_neg hno] at hlog
    exact hlog (by decide)
  obtain ⟨k, hk, hctz, rfl⟩ := eq_twoPow_of_popcountll hcount
  have hlt : k < 24 := lt_of_imm12BitValid hvalid (by simp [hk])
  have hval : getLogValueAtBase2 (BitVec.twoPow 64 k) = k := by
    rw [getLogValueAtBase2, if_pos hcount, hctz]
  refine ⟨k, hlt, hval, BitVec.toNat_twoPow_of_lt hk, ?_⟩
  rw [hval] at hbits
  rw [show k + 1 = r.validBitsNum by omega]
  exact hv

lemma testBit_iff_le {k n : Nat} (h : n < 2 ^ (k + 1)) : n.testBit k = true ↔ 2 ^ k ≤ n := by
  constructor
  · exact Nat.ge_two_pow_of_testBit
  · intro hle
    rw [Nat.testBit_eq_decide_div_mod_eq, decide_eq_true_eq]
    rw [pow_succ] at h
    have : n / 2 ^ k = 1 := Nat.div_eq_of_lt_le (by omega) (by omega)
    omega

lemma BranchOp.eval_iff_of_small {n : Nat} {x y : BitVec n} (hx : 2 * x.toNat < 2 ^ n)
    (hy : 2 * y.toNat < 2 ^ n) :
    (BranchOp.bge.eval x y = true ↔ y.toNat ≤ x.toNat) ∧
      (BranchOp.blt.eval x y = true ↔ x.toNat < y.toNat) := by
  rw [BranchOp.eval, BranchOp.eval, BitVec.sle_iff_toInt_le, BitVec.slt_iff_toInt_lt,
    BitVec.toInt_eq_toNat_of_lt hx, BitVec.toInt_eq_toNat_of_lt hy]
  omega

namespace CmpBranch

variable (b : CmpBranch) {v : BitVec 64}

lemma taken_iff {k : Nat} (hk : k < 24) (himm : b.imm.toNat = 2 ^ k) (hv : v.toNat < 2 ^ (k + 1)) :
    (b.op = .bge → (b.taken v = true ↔ 2 ^ k ≤ v.toNat)) ∧
      (b.op = .blt → (b.taken v = true ↔ v.toNat < 2 ^ k)) := by
  have hpow : 2 ^ (k + 1) ≤ 2 ^ 24 := Nat.pow_le_pow_right (by decide) hk
  have hpow' : 2 ^ k ≤ 2 ^ 24 := Nat.pow_le_pow_right (by decide) hk.le
  have hwide := @BranchOp.eval_iff_of_small 64 v b.imm (by omega) (by omega)
  have hlow (x : BitVec 64) (hx : x.toNat ≤ 2 ^ 24) : (x.setWidth 32).toNat = x.toNat := by
    rw [BitVec.toNat_setWidth, Nat.mod_eq_of_lt (by omega)]
  have hword := @BranchOp.eval_iff_of_small 32 (v.setWidth 32) (b.imm.setWidth 32)
    (by rw [hlow v (by omega)]; omega) (by rw [hlow b.imm (by omega)]; omega)
  rw [hlow v (by omega), hlow b.imm (by omega)] at hword
  rw [himm] at hwide hword
  constructor
  · intro hop
    rw [taken, hop]
    split
    · exact hwide.1
    · exact hword.1
  · intro hop
    rw [taken, hop]
    split
    · exact hwide.2
    · exact hword.2

lemma getLsbD_low_iff {k : Nat} (hk : k < 24) (is64 : Bool) (hv : v.toNat < 2 ^ (k + 1)) :
    (low is64 v).getLsbD k = true ↔ 2 ^ k ≤ v.toNat := by
  rw [getLsbD_low, decide_eq_true (show k < 32 by omega), Bool.or_true, Bool.true_and,
    ← BitVec.testBit_toNat]
  exact testBit_iff_le hv

lemma taken_of_bit (hbit : v = 0#64 ∨ v = 1#64) (himm : b.imm = 0#64 ∨ b.imm = 1#64) :
    (b.op = .beq → b.taken v = (v == b.imm)) ∧ (b.op = .bne → b.taken v = (v != b.imm)) := by
  constructor <;> intro hop <;> rw [taken, hop] <;> cases b.is64 <;>
    rcases hbit with rfl | rfl <;> rcases himm with himm | himm <;> rw [himm] <;> decide

/-- The new branch is taken if the old one was. -/
theorem newBranch_taken {new : NewBranch} (h : b.newBranch = some new) (hv : b.reg.Holds v) :
    new.taken v = b.taken v := by
  unfold newBranch at h
  have heqne (hacc : ¬ (1 < b.reg.validBitsNum ∨ b.imm ≠ 0#64 ∧ b.imm ≠ 1#64)) :
      (v = 0#64 ∨ v = 1#64) ∧ (b.imm = 0#64 ∨ b.imm = 1#64) := by
    obtain ⟨hbits, himm⟩ := not_or.mp hacc
    rw [not_and_or, not_not, not_not] at himm
    exact ⟨eq_zero_or_one_of_holds hv (by omega), himm⟩
  cases hop : b.op with
  | beq =>
    simp only [hop] at h
    by_cases hacc : 1 < b.reg.validBitsNum ∨ b.imm ≠ 0#64 ∧ b.imm ≠ 1#64
    · rw [if_pos hacc] at h
      exact absurd h (by simp)
    · rw [if_neg hacc] at h
      obtain ⟨hbit, himm⟩ := heqne hacc
      rw [(b.taken_of_bit hbit himm).1 hop]
      rcases himm with hzero | hone
      · rw [if_pos hzero] at h
        rw [← Option.some.inj h, hzero, NewBranch.taken, low_eq_of_zero_or_one _ hbit]
      · rw [if_neg (by rw [hone]; decide)] at h
        rw [← Option.some.inj h, hone, NewBranch.taken, low_eq_of_zero_or_one _ hbit]
        rcases hbit with rfl | rfl <;> decide
  | bne =>
    simp only [hop] at h
    by_cases hacc : 1 < b.reg.validBitsNum ∨ b.imm ≠ 0#64 ∧ b.imm ≠ 1#64
    · rw [if_pos hacc] at h
      exact absurd h (by simp)
    · rw [if_neg hacc] at h
      obtain ⟨hbit, himm⟩ := heqne hacc
      rw [(b.taken_of_bit hbit himm).2 hop]
      rcases himm with hzero | hone
      · rw [if_pos hzero] at h
        rw [← Option.some.inj h, hzero, NewBranch.taken, low_eq_of_zero_or_one _ hbit]
      · rw [if_neg (by rw [hone]; decide)] at h
        rw [← Option.some.inj h, hone, NewBranch.taken, low_eq_of_zero_or_one _ hbit]
        rcases hbit with rfl | rfl <;> decide
  | bge =>
    simp only [hop] at h
    by_cases hacc : getLogValueAtBase2 b.imm < 0 ∨
        (b.reg.validBitsNum : Int) ≠ getLogValueAtBase2 b.imm + 1
    · rw [if_pos hacc] at h
      exact absurd h (by simp)
    · rw [if_neg hacc] at h
      obtain ⟨k, hk, hlog, himm, hlt⟩ := branch_facts b.imm_valid hv hacc
      rw [← Option.some.inj h, hlog, Int.toNat_natCast, NewBranch.taken, Bool.eq_iff_iff,
        getLsbD_low_iff hk b.is64 hlt, (b.taken_iff hk himm hlt).1 hop]
  | blt =>
    simp only [hop] at h
    by_cases hacc : getLogValueAtBase2 b.imm < 0 ∨
        (b.reg.validBitsNum : Int) ≠ getLogValueAtBase2 b.imm + 1
    · rw [if_pos hacc] at h
      exact absurd h (by simp)
    · rw [if_neg hacc] at h
      obtain ⟨k, hk, hlog, himm, hlt⟩ := branch_facts b.imm_valid hv hacc
      rw [← Option.some.inj h, hlog, Int.toNat_natCast, NewBranch.taken, Bool.eq_iff_iff,
        Bool.not_eq_true', ← Bool.not_eq_true, getLsbD_low_iff hk b.is64 hlt,
        (b.taken_iff hk himm hlt).2 hop, not_le]

end CmpBranch

/-- The patterns put instructions with the same result, or branches with the same decision, in place
of those that they accept. -/
theorem validBitPatterns_preserve :
    (∀ (i : AndInsn) (useInsns : List AndUse) (v : BitVec 64), i.propagates useInsns = true →
      i.src.Holds v → ∀ u ∈ useInsns, u.run v = u.run (i.run v)) ∧
    (∀ (i : ExtInsn) (src : RegOperand) (newMopIs64 desIsSSAForm : Bool) (v : BitVec 64),
      i.Encodable → i.checkCondition src false = some newMopIs64 → src.Holds v →
        movResult newMopIs64 src desIsSSAForm v = i.run v) ∧
    (∀ (i : ShiftInsn) (src : RegOperand) (v : BitVec 64), i.isZeroByValidBits src = true →
      src.Holds v → 0#64 = i.run v) ∧
    (∀ (c : CmpCset) (new : BitVec 64 → BitVec 64) (v : BitVec 64), c.newInsn = some new →
      c.cmpReg.Holds v → (∀ d, c.defInsn = some d → d.Leaves v) → new v = c.run v) ∧
    (∀ (b : CmpBranch) (new : NewBranch) (v : BitVec 64), b.newBranch = some new →
      b.reg.Holds v → new.taken v = b.taken v) :=
  ⟨fun _ _ _ h hv => andInsn_propagates h hv, fun _ _ _ ssa _ hi h hv => extInsn_run_eq hi h hv ssa,
    fun _ _ _ h hv => (shiftInsn_run_eq_zero h hv).symm,
    fun c _ _ h hv hdef => c.newInsn_eq_run h hv hdef, fun b _ _ h hv => b.newBranch_taken h hv⟩

/-- A virtual register with some valid bits. -/
def virtualReg (validBitsNum : Nat) : RegOperand := ⟨32, validBitsNum, false, true⟩

/-- `and w1, w0, #0xff00` in front of `asr w2, w1, #8`. -/
def highByteAnd : AndInsn := ⟨false, 0xff00#64, virtualReg 16, true, fun _ => by decide⟩

def asrByte : ShiftInsn := ⟨false, .asr, 8, by decide⟩

/-- `asr w1, w0, #31`. -/
def asrSign : ShiftInsn := ⟨false, .asr, 31, by decide⟩

/-- `cmp w0, #0` and `cset w1, ne`. -/
def csetNe : CmpCset := ⟨false, false, virtualReg 1, 0#64, 1, some .other, .ne⟩

/-- `cmp w0, #32768` and `bge`. -/
def bgeHalf : CmpBranch := ⟨.bge, false, virtualReg 16, 0x8000#64, by decide⟩

theorem validBitPatterns_preserve_examples :
    asrByte.run 0x1234#64 = asrByte.run (highByteAnd.run 0x1234#64) ∧
      movResult false (virtualReg 8) true 0x12#64 = ExtInsn.xuxtb32.run 0x12#64 ∧
      0#64 = asrSign.run 0x12#64 ∧ low false 1#64 = csetNe.run 1#64 ∧
      (NewBranch.tbnz false 15).taken 0x9000#64 = bgeHalf.taken 0x9000#64 := by
  obtain ⟨hand, hext, hshift, hcset, hbranch⟩ := validBitPatterns_preserve
  refine ⟨?_, ?_, ?_, ?_, ?_⟩
  · exact hand highByteAnd [.shift asrByte] 0x1234#64 (by decide) (by unfold RegOperand.Holds; decide)
      (.shift asrByte) (by simp)
  · exact hext .xuxtb32 (virtualReg 8) false true 0x12#64 trivial rfl
      (by unfold RegOperand.Holds; decide)
  · exact hshift asrSign (virtualReg 8) 0x12#64 (by decide) (by unfold RegOperand.Holds; decide)
  · refine hcset csetNe (low false) 1#64 rfl (by unfold RegOperand.Holds; decide) ?_
    intro d hd
    obtain rfl := Option.some.inj hd
    trivial
  · exact hbranch bgeHalf (.tbnz false 15) 0x9000#64 (by decide) (by unfold RegOperand.Holds; decide)

end ValidBit
end AArch64
end Maple
