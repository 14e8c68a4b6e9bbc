import Maple.BE.AArch64.Aapcs64
import Mathlib.Tactic.IntervalCases

/-!
# Correctness of the locations of parameters

`LocateNextParm` against the procedure call standard. The source leaves the last rounding of the NSAA
to the next parameter.
-/

namespace Maple
namespace AArch64

open Aapcs64

section Types

variable [Target]

attribute [local simp] PrimType.size PrimType.isVector PrimType.isInteger
  PrimType.isPrimitiveInteger MIRType.getSize MIRType.getPrimType AggType.align CCLocInfo.place

lemma isVector_size {t : PrimType} (h : t.isVector) : t.size = 8 ∨ t.size = 16 := by
  cases t <;> simp_all

end Types

lemma roundUp_eq_up {offset align : Nat} (ha : 0 < align) (h : offset + align - 1 < 2 ^ 64) :
    roundUp offset align = up offset align := by
  rw [roundUp, if_neg ha.ne', Nat.mod_eq_of_lt h, up, Nat.mul_comm]
  have := Nat.div_add_mod (offset + align - 1) align
  omega

lemma toInt32_lt (n : Nat) : toInt32 n < 2 ^ 31 := by
  have := Int.bmod_lt (x := n) (m := 2 ^ 32) (Nat.two_pow_pos 32)
  unfold toInt32
  norm_num at this ⊢
  omega

lemma toInt32_eq_iff {n m : Nat} (hn : n ≤ 2 ^ 31) (hm : m < 2 ^ 31) :
    toInt32 n = m ↔ n = m := by
  unfold toInt32
  simp only [Int.bmod_def]
  norm_num at hn hm ⊢
  omega

/-! ### The two states -/

/-- The registers in use are those that the standard has used. -/
structure SameRegs (k : AArch64CallConvImpl) (s : State) : Prop where
  ngrn : k.nextGeneralRegNO = s.ngrn
  nsrn : k.nextFloatRegNO = s.nsrn
  ngrn_le : s.ngrn ≤ 8
  nsrn_le : s.nsrn ≤ 8

/-- The state of the source stands for a state of the standard. -/
structure Follows (k : AArch64CallConvImpl) (s : State) : Prop extends SameRegs k s where
  nsaa : up k.nextStackArgAdress 8 = s.nsaa
  bound : k.nextStackArgAdress < 2 ^ 31 + 64

lemma follows_init : Follows {} {} := by
  constructor
  · constructor <;> simp
  · rfl
  · decide

variable [Target]

/-- On the stack, the alignment that the source uses for a parameter is as good as that of the
standard. -/
def AlignsAs (s : State) : MIRType → Prop
  | .scalar _ => True
  | .agg a =>
    match a.homogeneous with
    | some (baseType, _) => (a.getUnadjustedAlign ≤ 8 ↔ baseType.size ≤ 8) ∨ 16 ∣ s.nsaa
    | none => a.size ≤ 16 ∨ a.align ∣ s.nsaa

/-- If the standard passes the parameter on the stack, its offset is below `2 ^ 31` and the
alignment does not matter. -/
def Fits (s : State) (ty : MIRType) : Prop :=
  match (stageC s (stageB ty)).1 with
  | .regs _ => True
  | .stack offset => offset < 2 ^ 31 ∧ AlignsAs s ty

instance (s : State) (ty : MIRType) : Decidable (AlignsAs s ty) :=
  match ty with
  | .scalar _ => inferInstanceAs (Decidable True)
  | .agg a =>
    match h : a.homogeneous with
    | some (baseType, _) =>
      decidable_of_iff ((a.getUnadjustedAlign ≤ 8 ↔ baseType.size ≤ 8) ∨ 16 ∣ s.nsaa)
        (by simp [AlignsAs, h])
    | none => decidable_of_iff (a.size ≤ 16 ∨ a.align ∣ s.nsaa) (by simp [AlignsAs, h])

instance (s : State) (ty : MIRType) : Decidable (Fits s ty) :=
  match h : (stageC s (stageB ty)).1 with
  | .regs _ => .isTrue (by simp [Fits, h])
  | .stack offset =>
    decidable_of_iff (offset < 2 ^ 31 ∧ AlignsAs s ty) (by unfold Fits; rw [h])

lemma fits_of_stack {s : State} {ty : MIRType} {offset : Int}
    (h : (stageC s (stageB ty)).1 = .stack offset) :
    Fits s ty ↔ offset < 2 ^ 31 ∧ AlignsAs s ty := by
  unfold Fits
  rw [h]

/-- The location that the choice of registers starts from. -/
def freshLoc (k : AArch64CallConvImpl) (ty : MIRType) : CCLocInfo :=
  { k.initCCLocInfo with memSize := toInt32 ty.getSize }

/-- The stack slot that the choice of registers leaves for a parameter. -/
structure TakesSlot (s : State) (ty : MIRType) (a : Allocated) (alignLog size : Nat) : Prop where
  align : (if a.typeAlign ≤ 8 then 8 else a.typeAlign) = 2 ^ alignLog
  alignLog_ge : 3 ≤ alignLog
  alignLog_lt : alignLog < 32
  size_eq : (if a.aggCopySize ≠ 0 then 8 else ty.getSize) = size
  size_le : size ≤ 64
  nsaa_le : s.nsaa ≤ (onStack s (stageB ty)).1
  nsaa : (onStack s (stageB ty)).2.nsaa = (onStack s (stageB ty)).1 + up size 8
  aligns : AlignsAs s ty ↔ up s.nsaa (2 ^ alignLog) = (onStack s (stageB ty)).1

/-- What `LocateNextParm` knows of a parameter when it has chosen the registers. -/
structure Allocates (k : AArch64CallConvImpl) (s : State) (ty : MIRType) (a : Allocated) :
    Prop where
  address : a.conv.nextStackArgAdress = k.nextStackArgAdress
  memSize : a.ploc.memSize ≠ 0
  regs : ∀ rs s', inRegs s (stageB ty) = some (rs, s') →
    a.ploc.reg0 ≠ .kRinvalid ∧ a.ploc.place = .regs rs ∧ SameRegs a.conv s' ∧ s'.nsaa = s.nsaa
  stack : inRegs s (stageB ty) = none →
    a.ploc.reg0 = .kRinvalid ∧ SameRegs a.conv (onStack s (stageB ty)).2 ∧
      ∃ alignLog size, TakesSlot s ty a alignLog size

lemma Allocates.of_regs {k : AArch64CallConvImpl} {s s' : State} {ty : MIRType} {a : Allocated}
    {rs : List Reg} (hin : inRegs s (stageB ty) = some (rs, s'))
    (haddress : a.conv.nextStackArgAdress = k.nextStackArgAdress) (hmem : a.ploc.memSize ≠ 0)
    (hreg0 : a.ploc.reg0 ≠ .kRinvalid) (hplace : a.ploc.place = .regs rs)
    (hsame : SameRegs a.conv s') (hnsaa : s'.nsaa = s.nsaa) : Allocates k s ty a := by
  refine ⟨haddress, hmem, ?_, ?_⟩
  · intro rs₁ s₁ h
    rw [hin, Option.some.injEq, Prod.mk.injEq] at h
    obtain ⟨rfl, rfl⟩ := h
    exact ⟨hreg0, hplace, hsame, hnsaa⟩
  · intro h
    rw [hin] at h
    exact absurd h (by simp)

lemma Allocates.of_stack {k : AArch64CallConvImpl} {s : State} {ty : MIRType} {a : Allocated}
    {alignLog size : Nat} (hin : inRegs s (stageB ty) = none)
    (haddress : a.conv.nextStackArgAdress = k.nextStackArgAdress) (hmem : a.ploc.memSize ≠ 0)
    (hreg0 : a.ploc.reg0 = .kRinvalid) (hsame : SameRegs a.conv (onStack s (stageB ty)).2)
    (hslot : TakesSlot s ty a alignLog size) : Allocates k s ty a := by
  refine ⟨haddress, hmem, ?_, fun _ => ⟨hreg0, hsame, alignLog, size, hslot⟩⟩
  intro rs s' h
  rw [hin] at h
  exact absurd h (by simp)

/-! ### Scalars -/

omit [Target] in
lemma Follows.eight_dvd {k : AArch64CallConvImpl} {s : State} (h : Follows k s) : 8 ∣ s.nsaa := by
  rw [← h.nsaa]
  exact dvd_up _ 8

lemma stageB_float {t : PrimType} (ht : isPrimitiveFloat t ∨ t.isVector) :
    stageB (.scalar t) = .vector t.size ∧ (t.size = 8 ∨ t.size = 16) ∨
      stageB (.scalar t) = .float t.size ∧ (t.size = 4 ∨ t.size = 8) := by
  rcases ht with hfloat | hvec
  · have ht : (t = .f32 ∨ t = .f64) ∨ t = .f128 := by simpa [isPrimitiveFloat] using hfloat
    rcases ht with (rfl | rfl) | rfl <;>
      simp [stageB, isPrimitiveFloat, PrimType.isVector, PrimType.size]
  · left
    exact ⟨by simp [stageB, hvec], isVector_size hvec⟩

lemma inRegs_float {s : State} {t : PrimType} (ht : isPrimitiveFloat t ∨ t.isVector) :
    inRegs s (stageB (.scalar t)) =
      if s.nsrn < 8 then some ([.v s.nsrn], { s with nsrn := s.nsrn + 1 }) else none := by
  rcases stageB_float ht with ⟨hB, -⟩ | ⟨hB, -⟩ <;> rw [hB] <;> rfl

omit [Target] in
lemma toInt32_ne_zero {n : Nat} (h0 : n ≠ 0) (h : n ≤ 64) : toInt32 n ≠ 0 := by
  have := toInt32_eq_iff (n := n) (m := 0) (by omega) (by omega)
  simp_all

lemma takesSlot_float {k : AArch64CallConvImpl} {s : State} {t : PrimType} {a : Allocated}
    (h : Follows k s) (ht : isPrimitiveFloat t ∨ t.isVector) (halign : a.typeAlign = t.size)
    (hcopy : a.aggCopySize = 0) :
    TakesSlot s (.scalar t) a (if t.size = 16 then 4 else 3) t.size := by
  have h8 := up_of_dvd (by decide) h.eight_dvd
  have hle := le_up (n := s.nsaa) (u := 16) (by decide)
  have hup : up 4 8 = 8 ∧ up 8 8 = 8 ∧ up 16 8 = 16 := by decide
  rcases stageB_float ht with ⟨hB, hsize⟩ | ⟨hB, hsize⟩ <;> rcases hsize with hsize | hsize <;>
    constructor <;>
    simp [halign, hcopy, hsize, hB, AlignsAs, MIRType.getSize, onStack, State.copy, adjustAlign, h8,
      hle, hup]

lemma allocates_float {k : AArch64CallConvImpl} {s : State} {t : PrimType} (h : Follows k s)
    (ht : isPrimitiveFloat t ∨ t.isVector) :
    ∃ a, k.allocateRegister (.scalar t) (freshLoc k (.scalar t)) = some a ∧
      Allocates k s (.scalar t) a := by
  have hsize : t.size ≠ 0 ∧ t.size ≤ 64 := by
    rcases stageB_float ht with ⟨-, h⟩ | ⟨-, h⟩ <;> omega
  have hif : (isPrimitiveFloat t || t.isVector) = true := by simpa using ht
  refine ⟨_, by rw [AArch64CallConvImpl.allocateRegister, if_pos hif], ?_⟩
  have hmem : toInt32 t.size ≠ 0 := toInt32_ne_zero hsize.1 hsize.2
  by_cases hlt : s.nsrn < 8
  · have hk : k.nextFloatRegNO < kNumFloatParmRegs := by rw [h.nsrn]; exact hlt
    simp only [AArch64CallConvImpl.allocateSIMDFPRegister, if_pos hk]
    apply Allocates.of_regs ((inRegs_float ht).trans (if_pos hlt))
    · rfl
    · simpa [freshLoc, MIRType.getSize] using hmem
    · simp [kFloatParmRegs]
    · simp [CCLocInfo.place, kFloatParmRegs, h.nsrn, freshLoc, AArch64CallConvImpl.initCCLocInfo]
    · exact ⟨h.ngrn, by simp [h.nsrn], h.ngrn_le, hlt⟩
    · rfl
  · have hk : ¬ k.nextFloatRegNO < kNumFloatParmRegs := by rw [h.nsrn]; exact hlt
    simp only [AArch64CallConvImpl.allocateSIMDFPRegister, if_neg hk]
    apply Allocates.of_stack ((inRegs_float ht).trans (if_neg hlt))
    · rfl
    · simpa [freshLoc, MIRType.getSize] using hmem
    · rfl
    · rcases stageB_float ht with ⟨hB, -⟩ | ⟨hB, -⟩ <;> rw [hB] <;>
        exact ⟨h.ngrn, h.nsrn, h.ngrn_le, h.nsrn_le⟩
    · exact takesSlot_float h ht rfl rfl

omit [Target] in
lemma allocateNextGPRegister_of_lt {k : AArch64CallConvImpl} (h : k.nextGeneralRegNO < 8) :
    k.allocateNextGPRegister =
      (.r k.nextGeneralRegNO, { k with nextGeneralRegNO := k.nextGeneralRegNO + 1 }) := if_pos h

omit [Target] in
lemma allocateNextGPRegister_of_not_lt {k : AArch64CallConvImpl} (h : ¬ k.nextGeneralRegNO < 8) :
    k.allocateNextGPRegister = (.kRinvalid, k) := if_neg h

lemma allocates_oneRegister {k : AArch64CallConvImpl} {s : State} {ty : MIRType} {a : Allocated}
    {n : Nat} (alignLog size : Nat) (h : Follows k s) (hB : stageB ty = .integral n) (hn : n ≤ 8)
    (hconv : a.conv = k.allocateNextGPRegister.2)
    (hreg0 : a.ploc.reg0 = k.allocateNextGPRegister.1)
    (hrest : a.ploc.reg1 = .kRinvalid ∧ a.ploc.reg2 = .kRinvalid ∧ a.ploc.reg3 = .kRinvalid)
    (hmem : a.ploc.memSize ≠ 0) (hslot : TakesSlot s ty a alignLog size) :
    Allocates k s ty a := by
  have hin : inRegs s (stageB ty) =
      if s.ngrn < 8 then some ([.r s.ngrn], { s with ngrn := s.ngrn + 1 }) else none := by
    rw [hB, inRegs, if_pos hn]
  by_cases hlt : s.ngrn < 8
  · rw [allocateNextGPRegister_of_lt (by rw [h.ngrn]; exact hlt), h.ngrn] at hconv hreg0
    apply Allocates.of_regs (hin.trans (if_pos hlt))
    · rw [hconv]
    · exact hmem
    · simp [hreg0]
    · simp [CCLocInfo.place, hreg0, hrest]
    · rw [hconv]
      exact ⟨rfl, h.nsrn, hlt, h.nsrn_le⟩
    · rfl
  · rw [allocateNextGPRegister_of_not_lt (by rw [h.ngrn]; exact hlt)] at hconv hreg0
    have hngrn : s.ngrn = 8 := le_antisymm h.ngrn_le (Nat.not_lt.mp hlt)
    apply Allocates.of_stack (hin.trans (if_neg hlt)) _ hmem hreg0 _ hslot
    · rw [hconv]
    · rw [hconv, hB]
      exact ⟨h.ngrn.trans hngrn, h.nsrn, le_refl 8, h.nsrn_le⟩

lemma isPrimitiveInteger_size {t : PrimType} (h : t.isPrimitiveInteger) :
    0 < t.size ∧ t.size ≤ 8 ∨ t.size = 16 ∧ (t = .i128 ∨ t = .u128) := by
  rcases Target.pointerSize_eq with hp | hp <;>
    cases t <;> simp_all [PrimType.isPrimitiveInteger, PrimType.isInteger, PrimType.isVector,
      PrimType.size]

lemma stageB_integer {t : PrimType} (h : t.isPrimitiveInteger) :
    stageB (.scalar t) = .integral t.size := by
  cases t <;> simp_all [PrimType.isPrimitiveInteger, PrimType.isInteger, PrimType.isVector, stageB,
    isPrimitiveFloat]

lemma takesSlot_integer {k : AArch64CallConvImpl} {s : State} {t : PrimType} {a : Allocated}
    (h : Follows k s) (ht : t.isPrimitiveInteger) (halign : a.typeAlign = t.size)
    (hcopy : a.aggCopySize = 0) :
    TakesSlot s (.scalar t) a (if t.size ≤ 8 then 3 else 4) t.size := by
  have h8 := up_of_dvd (by decide) h.eight_dvd
  have hle := le_up (n := s.nsaa) (u := 16) (by decide)
  rcases isPrimitiveInteger_size ht with ⟨hpos, hsize⟩ | ⟨hsize, -⟩
  · have h64 : t.size ≤ 64 := by omega
    have hup : up t.size 8 = 8 :=
      le_antisymm (up_le (by decide) hsize (dvd_refl 8))
        (Nat.le_of_dvd (by have := le_up (n := t.size) (u := 8) (by decide); omega) (dvd_up _ 8))
    constructor <;>
      simp [halign, hcopy, hsize, stageB_integer ht, AlignsAs, MIRType.getSize, onStack, State.copy,
        h8, hup, h64]
  · have hup : up 16 8 = 16 := by decide
    constructor <;>
      simp [halign, hcopy, hsize, stageB_integer ht, AlignsAs, MIRType.getSize, onStack, State.copy,
        hle, hup]

lemma allocateGPRegister_pair (k : AArch64CallConvImpl) {t : PrimType} (ploc : CCLocInfo)
    (ht : t = .i128 ∨ t = .u128) :
    k.allocateGPRegister (.scalar t) ploc 16 16 =
      if up k.nextGeneralRegNO 2 < 7 then
        ({ k with nextGeneralRegNO := up k.nextGeneralRegNO 2 + 2 },
          { ploc with
            reg0 := .r (up k.nextGeneralRegNO 2), primTypeOfReg0 := PrimType.u64
            reg1 := .r (up k.nextGeneralRegNO 2 + 1), primTypeOfReg1 := PrimType.u64 })
      else k.exhaustGPRegisters ploc := by
  have hup : (k.nextGeneralRegNO + 1) / 2 * 2 = up k.nextGeneralRegNO 2 := rfl
  have ht' : (MIRType.scalar t).getPrimType = .i128 ∨ (MIRType.scalar t).getPrimType = .u128 := ht
  simp only [AArch64CallConvImpl.allocateGPRegister, if_pos ht', hup, kNumIntParmRegs]
  simp only [Nat.reduceLeDiff, and_false, if_false, if_true, Nat.reduceSub]
  split_ifs with hlt
  · rw [allocateNextGPRegister_of_lt, allocateNextGPRegister_of_lt]
    · simp only
      omega
    · rw [allocateNextGPRegister_of_lt] <;> (simp only; omega)
  · rfl

lemma allocates_integer {k : AArch64CallConvImpl} {s : State} {t : PrimType} (h : Follows k s)
    (ht : t.isPrimitiveInteger) :
    ∃ a, k.allocateRegister (.scalar t) (freshLoc k (.scalar t)) = some a ∧
      Allocates k s (.scalar t) a := by
  have hif : ¬ (isPrimitiveFloat t || t.isVector) = true := by
    cases t <;> simp_all [PrimType.isPrimitiveInteger, PrimType.isInteger, PrimType.isVector,
      isPrimitiveFloat]
  refine ⟨_, by rw [AArch64CallConvImpl.allocateRegister, if_neg hif, if_pos ht], ?_⟩
  have hslot := fun a => takesSlot_integer (a := a) h ht
  rcases isPrimitiveInteger_size ht with ⟨hpos, hsize⟩ | ⟨hsize, ht'⟩
  · have hcond : (MIRType.scalar t).getPrimType.isPrimitiveInteger ∧ (MIRType.scalar t).getSize ≤ 8 :=
      ⟨ht, hsize⟩
    simp only [AArch64CallConvImpl.allocateGPRegister, if_pos hcond]
    apply allocates_oneRegister _ _ h (stageB_integer ht) hsize rfl rfl ⟨rfl, rfl, rfl⟩
    · have hmem : toInt32 t.size ≠ 0 := toInt32_ne_zero hpos.ne' (by omega)
      simpa [freshLoc, MIRType.getSize] using hmem
    · exact hslot _ rfl rfl
  · have hgp := allocateGPRegister_pair k (freshLoc k (.scalar t)) ht'
    have hmem : toInt32 t.size ≠ 0 := toInt32_ne_zero (by omega) (by omega)
    have hin : inRegs s (stageB (.scalar t)) =
        if up s.ngrn 2 < 7 then
          some ([.r (up s.ngrn 2), .r (up s.ngrn 2 + 1)], { s with ngrn := up s.ngrn 2 + 2 })
        else none := by
      rw [stageB_integer ht, hsize]
      simp [inRegs]
    have hget : (MIRType.scalar t).getSize = 16 ∧ (MIRType.scalar t).getAlign = 16 := ⟨hsize, hsize⟩
    simp only [hget, hgp, h.ngrn]
    split_ifs with hlt
    · apply Allocates.of_regs (hin.trans (if_pos hlt))
      · rfl
      · simpa [freshLoc, MIRType.getSize] using hmem
      · simp
      · simp [CCLocInfo.place, freshLoc, AArch64CallConvImpl.initCCLocInfo]
      · exact ⟨rfl, h.nsrn, by simp only; omega, h.nsrn_le⟩
      · rfl
    · apply Allocates.of_stack (hin.trans (if_neg hlt))
      · rfl
      · simpa [freshLoc, MIRType.getSize, AArch64CallConvImpl.exhaustGPRegisters] using hmem
      · rfl
      · rw [stageB_integer ht]
        exact ⟨rfl, h.nsrn, le_refl 8, h.nsrn_le⟩
      · exact hslot _ hsize.symm rfl

/-! ### Aggregates -/

lemma max_eight_align (a : AggType) :
    (if a.align ≤ 8 then 8 else a.align) = 2 ^ max 3 a.alignLog := by
  have hle : a.align ≤ 8 ↔ a.alignLog ≤ 3 := Nat.pow_le_pow_iff_right (m := 3) (by decide)
  split_ifs with h
  · rw [max_eq_left (hle.mp h)]
    rfl
  · rw [max_eq_right (by omega), AggType.align]

lemma allocates_large {k : AArch64CallConvImpl} {s : State} {a : AggType} (h : Follows k s)
    (hhom : a.homogeneous = none) (hsize : 16 < a.size) :
    ∃ l, k.allocateRegister (.agg a) (freshLoc k (.agg a)) = some l ∧
      Allocates k s (.agg a) l := by
  have hB : stageB (.agg a) = .integral 8 := by simp [stageB, hhom, hsize]
  have hnot : ¬ (MIRType.agg a).getSize ≤ 16 := Nat.not_le.mpr hsize
  refine ⟨_, by
    rw [AArch64CallConvImpl.allocateRegister, AArch64CallConvImpl.allocateRegisterForAgg, hhom]
    simp only [if_neg hnot]
    rfl, ?_⟩
  apply allocates_oneRegister (max 3 a.alignLog) 8 h hB (le_refl 8) rfl rfl
    ⟨rfl, rfl, rfl⟩
  · simp
  · have h8 := up_of_dvd (by decide) h.eight_dvd
    have hcopy : roundUp a.size 8 ≠ 0 := by
      have := a.size_lt
      have := le_up (n := a.size) (u := 8) (by decide)
      rw [roundUp_eq_up (by decide) (by omega)]
      omega
    have halog := a.alignLog_lt
    constructor
    · exact max_eight_align a
    · exact le_max_left 3 _
    · omega
    · exact if_pos hcopy
    · decide
    · simp [hB, onStack, State.copy, h8]
    · simp [hB, onStack, State.copy, up]
    · have hnot : ¬ a.size ≤ 16 := Nat.not_le.mpr hsize
      simp only [AlignsAs, hhom, hnot, false_or, hB, onStack, State.copy, max_self, h8]
      rw [up_eq_self_iff (Nat.two_pow_pos _)]
      rcases Nat.le_total a.alignLog 3 with hle | hge
      · have hdvd : a.align ∣ s.nsaa := (Nat.pow_dvd_pow 2 hle).trans h.eight_dvd
        simpa only [hdvd, max_eq_left hle, true_iff] using h.eight_dvd
      · rw [max_eq_right hge, AggType.align]

lemma base_size {t : PrimType} (h : checkHomogeneousAggregatesBaseType t) :
    t.size = 4 ∨ t.size = 8 ∨ t.size = 16 := by
  have ht : isPrimitiveFloat t ∨ t.isVector := by
    simpa [checkHomogeneousAggregatesBaseType] using h
  rcases stageB_float ht with ⟨-, h⟩ | ⟨-, h⟩ <;> omega

lemma takesSlot_homogeneous {k : AArch64CallConvImpl} {s : State} {a : AggType} {l : Allocated}
    {base : PrimType} {n : Nat} (h : Follows k s) (hhom : a.homogeneous = some (base, n))
    (halign : l.typeAlign = base.size) (hcopy : l.aggCopySize = 0) :
    TakesSlot s (.agg a) l (if base.size ≤ 8 then 3 else 4) a.size := by
  obtain ⟨hbase, hpos, hle, hsize⟩ := a.homogeneous_size base n hhom
  have hB : stageB (.agg a) = .homogeneous n a.size a.getUnadjustedAlign := by simp [stageB, hhom]
  have h8 := up_of_dvd (by decide) h.eight_dvd
  have hbsize := base_size hbase
  constructor
  · rw [halign]
    split_ifs <;> omega
  · split_ifs <;> decide
  · split_ifs <;> decide
  · simp [hcopy, MIRType.getSize]
  · have : base.size * n ≤ 16 * 4 := Nat.mul_le_mul (by omega) hle
    omega
  · rw [hB]
    apply le_up
    rw [adjustAlign]
    split_ifs <;> decide
  · rw [hB]
    rfl
  · simp only [AlignsAs, hhom, hB, onStack, State.copy, adjustAlign]
    rw [← up_eq_self_iff (n := s.nsaa) (u := 16) (by decide)]
    by_cases hb : base.size ≤ 8 <;> by_cases hu : a.getUnadjustedAlign ≤ 8 <;> simp [hb, hu, h8]
    exact eq_comm

omit [Target] in
lemma allocateHomogeneous_place {ploc ploc' : CCLocInfo} {base : PrimType} {n begin : Nat}
    (hfresh : ploc.reg1 = .kRinvalid ∧ ploc.reg2 = .kRinvalid ∧ ploc.reg3 = .kRinvalid)
    (hpos : 0 < n) (hle : n ≤ 4)
    (h : allocateHomogeneousAggregatesRegister ploc kFloatReturnRegs kNumFloatParmRegs base n begin
      = some ploc') :
    ploc'.reg0 ≠ .kRinvalid ∧ ploc'.memSize = ploc.memSize ∧
      ploc'.place = .regs ((List.range n).map fun i => .v (begin + i)) := by
  unfold allocateHomogeneousAggregatesRegister at h
  split_ifs at h <;> simp only [Option.some.injEq] at h <;> subst h <;>
    (obtain ⟨h1, h2, h3⟩ := hfresh; interval_cases n <;>
      simp_all [CCLocInfo.place, kFloatReturnRegs, List.range_succ])

lemma allocates_homogeneous {k : AArch64CallConvImpl} {s : State} {a : AggType} {base : PrimType}
    {n : Nat} (h : Follows k s) (hhom : a.homogeneous = some (base, n)) :
    ∃ l, k.allocateRegister (.agg a) (freshLoc k (.agg a)) = some l ∧
      Allocates k s (.agg a) l := by
  obtain ⟨hbase, hpos, hle, hsize⟩ := a.homogeneous_size base n hhom
  have hB : stageB (.agg a) = .homogeneous n a.size a.getUnadjustedAlign := by simp [stageB, hhom]
  have hin : inRegs s (stageB (.agg a)) =
      if s.nsrn + n ≤ 8 then
        some ((List.range n).map fun i => .v (s.nsrn + i), { s with nsrn := s.nsrn + n })
      else none := by
    rw [hB, inRegs]
  have hmem : toInt32 a.size ≠ 0 := by
    have hbsize := base_size hbase
    have : base.size * n ≤ 16 * 4 := Nat.mul_le_mul (by omega) hle
    have : 0 < base.size * n := Nat.mul_pos (by omega) hpos
    exact toInt32_ne_zero (by omega) (by omega)
  by_cases hlt : s.nsrn + n ≤ 8
  · have hk : k.nextFloatRegNO + n - 1 < kNumFloatParmRegs := by rw [h.nsrn, kNumFloatParmRegs]; omega
    obtain ⟨ploc, hploc⟩ : ∃ ploc, allocateHomogeneousAggregatesRegister (freshLoc k (.agg a))
        kFloatReturnRegs kNumFloatParmRegs base n k.nextFloatRegNO = some ploc :=
      ⟨_, if_pos (by rwa [Nat.add_comm])⟩
    obtain ⟨hreg0, hmemSize, hplace⟩ := allocateHomogeneous_place ⟨rfl, rfl, rfl⟩ hpos hle hploc
    refine ⟨_, by
      simp only [AArch64CallConvImpl.allocateRegister, AArch64CallConvImpl.allocateRegisterForAgg,
        hhom, if_pos hk, hploc]
      rfl, ?_⟩
    apply Allocates.of_regs (hin.trans (if_pos hlt))
    · rfl
    · simpa [hmemSize, freshLoc, MIRType.getSize] using hmem
    · exact hreg0
    · simp only [hplace, h.nsrn]
    · exact ⟨h.ngrn, by simp [h.nsrn], h.ngrn_le, hlt⟩
    · rfl
  · have hk : ¬ k.nextFloatRegNO + n - 1 < kNumFloatParmRegs := by
      rw [h.nsrn, kNumFloatParmRegs]; omega
    refine ⟨_, by
      simp only [AArch64CallConvImpl.allocateRegister, AArch64CallConvImpl.allocateRegisterForAgg,
        hhom, if_neg hk]
      rfl, ?_⟩
    apply Allocates.of_stack (hin.trans (if_neg hlt))
    · rfl
    · simpa [freshLoc, MIRType.getSize] using hmem
    · rfl
    · rw [hB]
      exact ⟨h.ngrn, rfl, h.ngrn_le, le_refl 8⟩
    · exact takesSlot_homogeneous h hhom rfl rfl

lemma allocateGPRegister_agg (k : AArch64CallConvImpl) (a : AggType) (ploc : CCLocInfo)
    {size : Nat} (align ngrn : Nat) (hsize : size ≤ 16)
    (hngrn : ngrn = if align = 16 then up k.nextGeneralRegNO 2 else k.nextGeneralRegNO) :
    k.allocateGPRegister (.agg a) ploc size align =
      if size ≤ 8 then
        if ngrn < 8 then
          ({ k with nextGeneralRegNO := ngrn + 1 },
            { ploc with
              reg0 := .r ngrn, primTypeOfReg0 := if size ≤ 4 then PrimType.u32 else PrimType.u64 })
        else k.exhaustGPRegisters ploc
      else if ngrn + 1 < 8 then
        ({ k with nextGeneralRegNO := ngrn + 2 },
          { ploc with
            reg0 := .r ngrn, primTypeOfReg0 := if size ≤ 4 then PrimType.u32 else PrimType.u64
            reg1 := .r (ngrn + 1)
            primTypeOfReg1 := if size ≤ 12 then PrimType.u32 else PrimType.u64 })
      else k.exhaustGPRegisters ploc := by
  have hself : (if align = 16 then
      { k with nextGeneralRegNO := (k.nextGeneralRegNO + 1) / 2 * 2 } else k) =
      { k with nextGeneralRegNO := ngrn } := by
    rw [hngrn]
    split_ifs <;> rfl
  have hint : ¬ ((MIRType.agg a).getPrimType.isPrimitiveInteger ∧ size ≤ 8) := by
    simp [MIRType.getPrimType, PrimType.isPrimitiveInteger, PrimType.isInteger]
  have hpair : ¬ ((MIRType.agg a).getPrimType = .i128 ∨ (MIRType.agg a).getPrimType = .u128) := by
    simp [MIRType.getPrimType]
  simp only [AArch64CallConvImpl.allocateGPRegister, if_neg hint, if_neg hpair, if_pos hsize, hself,
    kNumIntParmRegs]
  by_cases h8 : size ≤ 8
  · simp only [if_pos h8]
    by_cases hlt : ngrn < 8
    · have hnext := allocateNextGPRegister_of_lt (k := { k with nextGeneralRegNO := ngrn }) hlt
      simp [hnext, hlt]
    · simp [hlt, AArch64CallConvImpl.exhaustGPRegisters]
  · simp only [if_neg h8]
    by_cases hlt : ngrn + 1 < 8
    · have hfirst := allocateNextGPRegister_of_lt (k := { k with nextGeneralRegNO := ngrn })
        (Nat.lt_of_succ_lt hlt)
      have hsecond := allocateNextGPRegister_of_lt
        (k := { k with nextGeneralRegNO := ngrn + 1 }) hlt
      simp [hfirst, hsecond, hlt]
    · simp [hlt, AArch64CallConvImpl.exhaustGPRegisters]

lemma takesSlot_composite {s : State} {a : AggType} {l : Allocated}
    (hhom : a.homogeneous = none) (hsize : a.size ≤ 16)
    (halign : l.typeAlign = adjustAlign a.getUnadjustedAlign) (hcopy : l.aggCopySize = 0) :
    TakesSlot s (.agg a) l (if a.getUnadjustedAlign ≤ 8 then 3 else 4) a.size := by
  have hB : stageB (.agg a) = .composite (up a.size 8) (adjustAlign a.getUnadjustedAlign) := by
    simp [stageB, hhom, Nat.not_lt.mpr hsize]
  have hpow : max 8 (adjustAlign a.getUnadjustedAlign) =
      2 ^ (if a.getUnadjustedAlign ≤ 8 then 3 else 4) := by
    rw [adjustAlign]
    split_ifs <;> rfl
  constructor
  · rw [halign, ← hpow]
    rw [adjustAlign]
    split_ifs <;> first | rfl | omega
  · split_ifs <;> decide
  · split_ifs <;> decide
  · simp [hcopy, MIRType.getSize]
  · omega
  · simp only [hB, onStack, State.copy, hpow]
    exact le_up (Nat.two_pow_pos _)
  · rw [hB]
    rfl
  · simp [AlignsAs, hhom, hsize, hB, onStack, State.copy, hpow]

lemma allocates_composite {k : AArch64CallConvImpl} {s : State} {a : AggType} (h : Follows k s)
    (hhom : a.homogeneous = none) (h0 : a.size ≠ 0) (hsize : a.size ≤ 16) :
    ∃ l, k.allocateRegister (.agg a) (freshLoc k (.agg a)) = some l ∧
      Allocates k s (.agg a) l := by
  have hB : stageB (.agg a) = .composite (up a.size 8) (adjustAlign a.getUnadjustedAlign) := by
    simp [stageB, hhom, Nat.not_lt.mpr hsize]
  have hmem : toInt32 a.size ≠ 0 := toInt32_ne_zero h0 (by omega)
  have hget : (MIRType.agg a).getSize = a.size := rfl
  set align := adjustAlign a.getUnadjustedAlign with halign
  obtain ⟨ngrn, hngrn⟩ : ∃ ngrn, ngrn = if align = 16 then up s.ngrn 2 else s.ngrn := ⟨_, rfl⟩
  have hle : ngrn ≤ 8 := by
    rw [hngrn]
    split_ifs
    · exact up_le (by decide) h.ngrn_le (by decide)
    · exact h.ngrn_le
  have hin : inRegs s (stageB (.agg a)) =
      if ngrn + up a.size 8 / 8 ≤ 8 then
        some ((List.range (up a.size 8 / 8)).map fun i => .r (ngrn + i),
          { s with ngrn := ngrn + up a.size 8 / 8 })
      else none := by
    rw [hB, inRegs, hngrn]
  have hgp := allocateGPRegister_agg k a (freshLoc k (.agg a)) align ngrn hsize
    (by rw [h.ngrn]; exact hngrn)
  have hdwords : up a.size 8 / 8 = if a.size ≤ 8 then 1 else 2 := by
    rw [up, Nat.mul_div_cancel _ (by decide)]
    split_ifs <;> omega
  have hfit : ngrn + up a.size 8 / 8 ≤ 8 ↔ if a.size ≤ 8 then ngrn < 8 else ngrn + 1 < 8 := by
    rw [hdwords]
    split_ifs <;> omega
  refine ⟨⟨(k.allocateGPRegister (.agg a) (freshLoc k (.agg a)) a.size align).1,
    (k.allocateGPRegister (.agg a) (freshLoc k (.agg a)) a.size align).2, align, 0⟩, by
      simp only [AArch64CallConvImpl.allocateRegister, AArch64CallConvImpl.allocateRegisterForAgg,
        hhom, hget, if_pos hsize]
      rfl, ?_⟩
  rw [hgp]
  by_cases hlt : ngrn + up a.size 8 / 8 ≤ 8
  · have hlt' := hfit.mp hlt
    apply Allocates.of_regs (hin.trans (if_pos hlt))
    all_goals by_cases h8 : a.size ≤ 8
    all_goals simp only [h8, if_true, if_false] at hlt' ⊢
    all_goals simp only [hlt', if_true]
    · simpa [freshLoc, MIRType.getSize] using hmem
    · simpa [freshLoc, MIRType.getSize] using hmem
    · simp
    · simp
    · simp [CCLocInfo.place, freshLoc, AArch64CallConvImpl.initCCLocInfo, hdwords, h8]
    · simp [CCLocInfo.place, freshLoc, AArch64CallConvImpl.initCCLocInfo, hdwords, h8,
        List.range_succ]
    · exact ⟨by simp [hdwords, h8], h.nsrn, hlt, h.nsrn_le⟩
    · exact ⟨by simp [hdwords, h8], h.nsrn, hlt, h.nsrn_le⟩
  · have hlt' := mt hfit.mpr hlt
    have hexhaust : ∀ r₁ r₂ : AArch64CallConvImpl × CCLocInfo,
        (if a.size ≤ 8 then if ngrn < 8 then r₁ else k.exhaustGPRegisters (freshLoc k (.agg a))
          else if ngrn + 1 < 8 then r₂ else k.exhaustGPRegisters (freshLoc k (.agg a))) =
        k.exhaustGPRegisters (freshLoc k (.agg a)) := by
      intro r₁ r₂
      split_ifs at hlt' ⊢ <;> rfl
    rw [hexhaust]
    apply Allocates.of_stack (hin.trans (if_neg hlt))
    · rfl
    · simpa [freshLoc, MIRType.getSize, AArch64CallConvImpl.exhaustGPRegisters] using hmem
    · rfl
    · rw [hB]
      exact ⟨rfl, h.nsrn, le_refl 8, h.nsrn_le⟩
    · exact takesSlot_composite hhom hsize rfl rfl

lemma exists_allocates {k : AArch64CallConvImpl} {s : State} {ty : MIRType} (h : Follows k s)
    (hty : ty.IsParm) (h0 : ty.getSize ≠ 0) :
    ∃ a, k.allocateRegister ty (freshLoc k ty) = some a ∧ Allocates k s ty a := by
  cases ty with
  | scalar t =>
    rcases hty with hfloat | hvec | hint
    · exact allocates_float h (Or.inl hfloat)
    · exact allocates_float h (Or.inr hvec)
    · exact allocates_integer h hint
  | agg a =>
    cases hhom : a.homogeneous with
    | some base => exact allocates_homogeneous h hhom
    | none =>
      rcases Nat.lt_or_ge 16 a.size with hlarge | hsmall
      · exact allocates_large h hhom hlarge
      · exact allocates_composite h hhom h0 hsmall

/-! ### One parameter -/

omit [Target] in
@[simp] lemma setupCCLocInfoRegCount_reg0 (ploc : CCLocInfo) :
    (setupCCLocInfoRegCount ploc).reg0 = ploc.reg0 := by
  unfold setupCCLocInfoRegCount
  split_ifs <;> rfl

omit [Target] in
@[simp] lemma setupCCLocInfoRegCount_memSize (ploc : CCLocInfo) :
    (setupCCLocInfoRegCount ploc).memSize = ploc.memSize := by
  unfold setupCCLocInfoRegCount
  split_ifs <;> rfl

omit [Target] in
@[simp] lemma setupCCLocInfoRegCount_place (ploc : CCLocInfo) :
    (setupCCLocInfoRegCount ploc).place = ploc.place := by
  unfold setupCCLocInfoRegCount
  split_ifs <;> rfl

omit [Target] in
lemma place_of_stack {ploc : CCLocInfo} (hreg0 : ploc.reg0 = .kRinvalid) (hmem : ploc.memSize ≠ 0)
    (offset : Int) : CCLocInfo.place { ploc with memOffset := offset } = .stack offset :=
  if_pos ⟨hreg0, hmem⟩

lemma stageC_empty {k : AArch64CallConvImpl} {s : State} {a : AggType} (h : Follows k s)
    (h0 : a.size = 0) : stageC s (stageB (.agg a)) = (.regs [], s) := by
  have hhom : a.homogeneous = none := by
    cases hhom : a.homogeneous with
    | none => rfl
    | some base =>
      obtain ⟨hbase, hpos, -, hsize⟩ := a.homogeneous_size _ _ hhom
      have := base_size hbase
      have : 0 < base.1.size * base.2 := Nat.mul_pos (by omega) hpos
      omega
  have halign : adjustAlign a.getUnadjustedAlign = 8 :=
    if_pos (Nat.pow_le_pow_right (by decide) (a.empty_unadjusted h0))
  have hB : stageB (.agg a) = .composite 0 8 := by
    simp [stageB, hhom, h0, halign, up]
  simp [hB, stageC, inRegs, h.ngrn_le]

omit [Target] in
lemma passInMemory_eq (k : AArch64CallConvImpl) (s : State) (ploc : CCLocInfo)
    {size align copy alignLog slot : Nat} (hnsaa : up k.nextStackArgAdress 8 = s.nsaa)
    (hbound : k.nextStackArgAdress < 2 ^ 31 + 64)
    (halign : (if align ≤ 8 then 8 else align) = 2 ^ alignLog) (hge : 3 ≤ alignLog)
    (hlt : alignLog < 32) (hslot : (if copy ≠ 0 then 8 else size) = slot) (hle : slot ≤ 64) :
    k.passInMemory ploc size align copy =
      ({ k with nextStackArgAdress := up s.nsaa (2 ^ alignLog) + slot },
        { ploc with memOffset := toInt32 (up s.nsaa (2 ^ alignLog)) }) := by
  have hpow : 2 ^ alignLog ≤ 2 ^ 31 := Nat.pow_le_pow_right (by decide) (by omega)
  have hpos := Nat.two_pow_pos alignLog
  have hround : roundUp k.nextStackArgAdress (2 ^ alignLog) = up s.nsaa (2 ^ alignLog) := by
    rw [roundUp_eq_up hpos (by omega), ← hnsaa]
    exact (up_up (by decide) hpos (Nat.pow_dvd_pow 2 hge)).symm
  have hup := up_lt (n := s.nsaa) hpos
  have hup8 := up_lt (n := k.nextStackArgAdress) (u := 8) (by decide)
  simp only [AArch64CallConvImpl.passInMemory, halign, hslot, hround]
  rw [Nat.mod_eq_of_lt (by omega)]

lemma TakesSlot.fits_iff {s : State} {ty : MIRType} {a : Allocated} {alignLog size : Nat}
    (h : TakesSlot s ty a alignLog size) :
    toInt32 (up s.nsaa (2 ^ alignLog)) = ((onStack s (stageB ty)).1 : Int) ↔
      ((onStack s (stageB ty)).1 : Int) < 2 ^ 31 ∧ AlignsAs s ty := by
  rw [h.aligns]
  have hle : ((onStack s (stageB ty)).1 : Int) < 2 ^ 31 → up s.nsaa (2 ^ alignLog) ≤ 2 ^ 31 := by
    intro hlt
    have := h.nsaa_le
    have := h.alignLog_lt
    exact up_le (Nat.two_pow_pos _) (by omega) (Nat.pow_dvd_pow 2 (by omega))
  constructor
  · intro heq
    have hlt : ((onStack s (stageB ty)).1 : Int) < 2 ^ 31 := heq ▸ toInt32_lt _
    exact ⟨hlt, (toInt32_eq_iff (hle hlt) (by omega)).mp heq⟩
  · rintro ⟨hlt, heq⟩
    exact (toInt32_eq_iff (hle hlt) (by omega)).mpr heq

lemma MIRType.IsParm.size_ne_zero {t : PrimType} (h : (MIRType.scalar t).IsParm) :
    (MIRType.scalar t).getSize ≠ 0 := by
  change t.size ≠ 0
  rcases h with hfloat | hvec | hint
  · rcases stageB_float (Or.inl hfloat) with ⟨-, hsize⟩ | ⟨-, hsize⟩ <;> omega
  · rcases isVector_size hvec with hsize | hsize <;> omega
  · rcases isPrimitiveInteger_size hint with hsize | hsize <;> omega

lemma locateNextParm_step {k : AArch64CallConvImpl} {s : State} {ty : MIRType} (h : Follows k s)
    (hty : ty.IsParm) :
    ∃ k' ploc copy, k.locateNextParm ty = some (k', ploc, copy) ∧
      (ploc.place = (stageC s (stageB ty)).1 ↔ Fits s ty) ∧
      (Fits s ty → Follows k' (stageC s (stageB ty)).2) := by
  by_cases h0 : ty.getSize = 0
  · cases ty with
    | scalar t => exact absurd h0 hty.size_ne_zero
    | agg a =>
      have hC := stageC_empty h h0
      refine ⟨k, k.initCCLocInfo, 0, by simp [AArch64CallConvImpl.locateNextParm, h0], ?_, ?_⟩
      · rw [Fits, hC]
        simp [CCLocInfo.place, AArch64CallConvImpl.initCCLocInfo]
      · rw [hC]
        exact fun _ => h
  obtain ⟨a, ha, hall⟩ := exists_allocates h hty h0
  have hlocate : k.locateNextParm ty = some (if a.ploc.reg0 = .kRinvalid then
      let r := a.conv.passInMemory (setupCCLocInfoRegCount a.ploc) ty.getSize a.typeAlign
        a.aggCopySize
      (r.1, r.2, a.aggCopySize) else (a.conv, setupCCLocInfoRegCount a.ploc, a.aggCopySize)) := by
    unfold freshLoc at ha
    simp [AArch64CallConvImpl.locateNextParm, h0, ha]
  cases hin : inRegs s (stageB ty) with
  | some r =>
    obtain ⟨rs, s'⟩ := r
    obtain ⟨hreg0, hplace, hsame, hnsaa⟩ := hall.regs rs s' hin
    rw [if_neg hreg0] at hlocate
    have hC : stageC s (stageB ty) = (.regs rs, s') := by rw [stageC, hin]
    refine ⟨_, _, _, hlocate, ?_, ?_⟩
    · simp [Fits, hC, hplace]
    · intro _
      rw [hC]
      exact ⟨hsame, by rw [hall.address, h.nsaa, hnsaa], by rw [hall.address]; exact h.bound⟩
  | none =>
    obtain ⟨hreg0, hsame, alignLog, size, hslot⟩ := hall.stack hin
    rw [if_pos hreg0] at hlocate
    have hmem := passInMemory_eq a.conv s (setupCCLocInfoRegCount a.ploc)
      (by rw [hall.address]; exact h.nsaa) (by rw [hall.address]; exact h.bound) hslot.align
      hslot.alignLog_ge hslot.alignLog_lt hslot.size_eq hslot.size_le
    rw [hmem] at hlocate
    have hC : stageC s (stageB ty) =
        (.stack (onStack s (stageB ty)).1, (onStack s (stageB ty)).2) := by rw [stageC, hin]
    refine ⟨_, _, _, hlocate, ?_, ?_⟩
    · rw [fits_of_stack (congrArg Prod.fst hC), ← hslot.fits_iff, hC,
        place_of_stack (by simp [hreg0]) (by simp [hall.memSize]), Place.stack.injEq]
    · intro hfits
      rw [fits_of_stack (congrArg Prod.fst hC), hslot.aligns] at hfits
      rw [hC]
      refine ⟨⟨hsame.ngrn, hsame.nsrn, hsame.ngrn_le, hsame.nsrn_le⟩, ?_, ?_⟩
      · have hdvd : 8 ∣ up s.nsaa (2 ^ alignLog) :=
          (Nat.pow_dvd_pow 2 hslot.alignLog_ge).trans (dvd_up _ _)
        rw [hslot.nsaa, ← hfits.2]
        exact up_add_of_dvd size (by decide) hdvd
      · have hsize := hslot.size_le
        simp only
        omega

/-! ### The parameters of a call -/

/-- Every parameter fits in the state that the standard has reached. -/
def AllFit (s : State) : List MIRType → Prop
  | [] => True
  | ty :: tys => Fits s ty ∧ AllFit (stageC s (stageB ty)).2 tys

instance (s : State) (tys : List MIRType) : Decidable (AllFit s tys) :=
  match tys with
  | [] => .isTrue trivial
  | ty :: tys =>
    let _ : Decidable (AllFit (stageC s (stageB ty)).2 tys) := instDecidableAllFit _ tys
    inferInstanceAs (Decidable (Fits s ty ∧ AllFit (stageC s (stageB ty)).2 tys))

lemma locateParms_places {k : AArch64CallConvImpl} {s : State} (h : Follows k s)
    {tys : List MIRType} (htys : ∀ ty ∈ tys, ty.IsParm) :
    (k.locateParms tys).map (List.map CCLocInfo.place) = some (places s tys) ↔ AllFit s tys := by
  induction tys generalizing k s with
  | nil => simp [AArch64CallConvImpl.locateParms, places, AllFit]
  | cons ty tys ih =>
    obtain ⟨k', ploc, copy, hlocate, hplace, hnext⟩ := locateNextParm_step h (htys ty (by simp))
    have hrest : ∀ ty ∈ tys, ty.IsParm := fun ty hty => htys ty (by simp [hty])
    simp only [AArch64CallConvImpl.locateParms, hlocate, places, AllFit]
    constructor
    · intro heq
      cases htail : k'.locateParms tys with
      | none => simp [htail] at heq
      | some plocs =>
        simp only [htail, Option.map_some, List.map_cons, Option.some.injEq,
          List.cons.injEq] at heq
        have hfits := hplace.mp heq.1
        refine ⟨hfits, (ih (hnext hfits) hrest).mp ?_⟩
        rw [htail, Option.map_some, heq.2]
    · rintro ⟨hfits, hall⟩
      have htail := (ih (hnext hfits) hrest).mpr hall
      cases hplocs : k'.locateParms tys with
      | none => simp [hplocs] at htail
      | some plocs =>
        simp only [hplocs, Option.map_some, Option.some.injEq] at htail
        simp [hplace.mpr hfits, htail]

/-- The locations of the parameters of a call are those of the procedure call standard if and only
if every parameter on the stack fits. -/
theorem locateParms_aapcs64_iff (tys : List MIRType) (htys : ∀ ty ∈ tys, ty.IsParm) :
    (({} : AArch64CallConvImpl).locateParms tys).map (List.map CCLocInfo.place) =
      some (places {} tys) ↔ AllFit {} tys :=
  locateParms_places follows_init htys

/-- A struct of 32 bytes with the given alignment. -/
def alignedStruct (alignLog : Nat) (h : alignLog < 32) : MIRType :=
  .agg { size := 32, alignLog := alignLog, unadjustedLog := alignLog, homogeneous := none
         size_lt := by decide, alignLog_lt := h, empty_unadjusted := by simp
         homogeneous_size := by simp }

/-- Nine integers and a struct. -/
def integersAndStruct (alignLog : Nat) (h : alignLog < 32) : List MIRType :=
  List.replicate 9 (.scalar .i64) ++ [alignedStruct alignLog h]

omit [Target] in
/-- The pointer to a struct of alignment 8 is the second argument on the stack. -/
theorem locateParms_aapcs64_pointer :
    letI := Target.lp64
    (({} : AArch64CallConvImpl).locateParms (integersAndStruct 3 (by decide))).map
      (List.map CCLocInfo.place) = some (places {} (integersAndStruct 3 (by decide))) := by
  let _ := Target.lp64
  exact (locateParms_aapcs64_iff (integersAndStruct 3 (by decide)) (by decide)).mpr (by decide)

omit [Target] in
/-- For a struct of alignment 16 the standard has the pointer at offset 8, the source at 16. -/
theorem locateParms_overaligned_pointer :
    letI := Target.lp64
    (∀ ty ∈ integersAndStruct 4 (by decide), ty.IsParm) ∧
      (({} : AArch64CallConvImpl).locateParms (integersAndStruct 4 (by decide))).map
        (List.map CCLocInfo.place) ≠ some (places {} (integersAndStruct 4 (by decide))) ∧
      (places {} (integersAndStruct 4 (by decide))).getLast? = some (.stack 8) ∧
      ((({} : AArch64CallConvImpl).locateParms (integersAndStruct 4 (by decide))).map
        (List.map CCLocInfo.place)).bind List.getLast? = some (.stack 16) := by
  let _ := Target.lp64
  decide

/-! ### Results -/

section Results

open AArch64CallConvImpl

attribute [local simp] initCCLocInfo allocateRegister allocateRegisterForAgg allocateSIMDFPRegister
  allocateNextGPRegister setupCCLocInfoRegCount MIRType.getPrimType MIRType.getSize
  MIRType.getAlign MIRType.homogeneous MIRType.isReturnInMemory kFloatParmRegs kFloatReturnRegs
  kIntParmRegs kNumFloatParmRegs kNumIntParmRegs up

/-- A result is returned in memory if it would be passed by a pointer to a copy, and else in the
registers in which it would be passed as the only argument. -/
theorem locateRetVal_locateNextParm (k : AArch64CallConvImpl) {ty : MIRType} (h : ty.IsParm) :
    ∃ conv ploc aggCopySize, locateNextParm {} ty = some (conv, ploc, aggCopySize) ∧
      (ty.isReturnInMemory ↔ aggCopySize ≠ 0) ∧
      k.locateRetVal ty = some (if ty.isReturnInMemory then k.initCCLocInfo else
        { ploc with memSize := 0, memOffset := toInt32 k.nextStackArgAdress }) := by
  by_cases h0 : ty.getSize = 0
  · have hmem : ty.isReturnInMemory = false := by cases ty <;> simp_all
    exact ⟨_, _, 0, if_pos h0, by rw [hmem]; simp, by rw [locateRetVal, if_pos h0, hmem]; rfl⟩
  simp only [locateNextParm, locateRetVal, if_neg h0]
  cases ty with
  | scalar t =>
    by_cases hv : (isPrimitiveFloat t || t.isVector) = true
    · simp [hv]
    have hint : t.isPrimitiveInteger = true := by cases t <;> simp_all [MIRType.IsParm]
    rcases isPrimitiveInteger_size hint with ⟨-, hsize⟩ | ⟨hsize, ht⟩
    · have h64 : t.size * 8 ≤ 64 := by omega
      simp [hv, hint, hsize, h64, PrimType.bitSize, allocateGPRegister]
    · simp [hv, hint, hsize, PrimType.bitSize, allocateGPRegister_pair _ _ ht]
  | agg a =>
    have hv : (isPrimitiveFloat PrimType.agg || PrimType.agg.isVector) = false := rfl
    have hint : PrimType.agg.isPrimitiveInteger = false := rfl
    cases hhom : a.homogeneous with
    | some b =>
      obtain ⟨base, n⟩ := b
      obtain ⟨-, hpos, hle, -⟩ := a.homogeneous_size _ _ hhom
      interval_cases n <;> simp [hv, hint, hhom, allocateHomogeneousAggregatesRegister]
    | none =>
      rcases le_or_gt a.size 16 with h16 | h16
      · rcases le_or_gt a.size 8 with h8 | h8
        · simp [hv, hint, hhom, h16, h16.not_gt, h8, h8.not_gt, allocateGPRegister_agg _ _ _ _ 0 h16]
          rfl
        · simp [hv, hint, hhom, h16, h16.not_gt, h8, h8.not_ge, allocateGPRegister_agg _ _ _ _ 0 h16]
          exact ⟨rfl, rfl⟩
      · have hcopy : roundUp a.size 8 ≠ 0 := by
          have hup := le_up (n := a.size) (u := 8) (by decide)
          rw [roundUp_eq_up (by decide) (by have := a.size_lt; omega)]
          omega
        simp [hv, hint, hhom, h16, h16.not_ge, hcopy]

omit [Target] in
theorem locateRetVal_locateNextParm_i128 :
    letI := Target.lp64
    ∃ t, locateNextParm {} (.scalar .i128) = some t ∧ t.2.2 = 0 := by
  let _ := Target.lp64
  have h : (MIRType.scalar .i128).IsParm := by decide
  obtain ⟨conv, ploc, copy, hloc, hmem, -⟩ := locateRetVal_locateNextParm {} h
  exact ⟨_, hloc, by simpa using hmem⟩

end Results

end AArch64
end Maple
