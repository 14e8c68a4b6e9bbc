import Maple.BE.AArch64.CallConvCorrect
import Mathlib.Data.List.Nodup

/-!
# The locations of parameters do not collide

What successive calls of `LocateNextParm` give to the parameters of one function: every register is
given once and the places on the stack come one after the other.
-/

namespace Maple
namespace AArch64

/-! ### Locations -/

/-- The bytes of a parameter that a register holds. -/
def Reg.capacity : Reg → Nat
  | kRinvalid => 0
  | r _ => 8
  | v _ => 16

namespace CCLocInfo

/-- The registers of a location. -/
def regs (ploc : CCLocInfo) : List Reg :=
  [ploc.reg0, ploc.reg1, ploc.reg2, ploc.reg3].filter (· ≠ .kRinvalid)

/-- The parameter is passed on the stack. A parameter without a size is not passed at all. -/
def InMemory (ploc : CCLocInfo) : Prop := ploc.reg0 = .kRinvalid ∧ ploc.memSize ≠ 0

instance (ploc : CCLocInfo) : Decidable ploc.InMemory :=
  inferInstanceAs (Decidable (ploc.reg0 = .kRinvalid ∧ ploc.memSize ≠ 0))

/-- The parameter has no register, or its registers hold all of it. -/
def Whole (ploc : CCLocInfo) : Prop :=
  if ploc.reg0 = .kRinvalid then ploc.regs = []
  else ploc.memSize ≤ ((ploc.regs.map Reg.capacity).sum : Nat)

end CCLocInfo

/-- No register is given twice, no parameter is torn between registers and memory, and the places
in memory are double-word aligned and follow one another. -/
structure NoCollision (plocs : List CCLocInfo) : Prop where
  regs : (plocs.flatMap CCLocInfo.regs).Nodup
  whole : ∀ ploc ∈ plocs, ploc.Whole
  areas : plocs.Pairwise fun ploc ploc' =>
    ploc.InMemory → ploc'.InMemory → ploc.memOffset + ploc.memSize ≤ ploc'.memOffset
  aligned : ∀ ploc ∈ plocs, ploc.InMemory → 0 < ploc.memSize ∧ 8 ∣ ploc.memOffset

variable [Target]

namespace AArch64CallConvImpl

/-- The locations that successive calls give to the parameters of a list, and the state after them.
The flag is that of the first call. -/
def locateFrom (self : AArch64CallConvImpl) (firstArgReturn : Bool) :
    List MIRType → Option (List CCLocInfo × AArch64CallConvImpl)
  | [] => some ([], self)
  | ty :: tys =>
    match self.locateNextParm ty firstArgReturn with
    | none => none
    | some (self, ploc, _) =>
      (self.locateFrom false tys).map fun (plocs, self) => (ploc :: plocs, self)

/-- Every parameter that the calls pass in memory starts below `2 ^ 31`, so that its address is an
`int32`. -/
def StaysInRange (self : AArch64CallConvImpl) (firstArgReturn : Bool) : List MIRType → Prop
  | [] => True
  | ty :: tys =>
    match self.locateNextParm ty firstArgReturn with
    | none => True
    | some (self, ploc, _) =>
      (ploc.InMemory → self.nextStackArgAdress < 2 ^ 31 + ploc.memSize) ∧
        self.StaysInRange false tys

instance (self : AArch64CallConvImpl) (firstArgReturn : Bool) (tys : List MIRType) :
    Decidable (self.StaysInRange firstArgReturn tys) :=
  match tys with
  | [] => .isTrue trivial
  | ty :: tys =>
    match h : self.locateNextParm ty firstArgReturn with
    | none => .isTrue (by simp [StaysInRange, h])
    | some (conv, ploc, _) =>
      let _ : Decidable (conv.StaysInRange false tys) := instDecidableStaysInRange _ _ tys
      decidable_of_iff ((ploc.InMemory → conv.nextStackArgAdress < 2 ^ 31 + ploc.memSize) ∧
        conv.StaysInRange false tys) (by simp [StaysInRange, h])

end AArch64CallConvImpl

/-! ### One parameter -/

/-- The register is one that the second state has given and the first has not. -/
def NewReg (k k' : AArch64CallConvImpl) : Reg → Prop
  | .kRinvalid => False
  | .r n => k.nextGeneralRegNO ≤ n ∧ n < k'.nextGeneralRegNO
  | .v n => k.nextFloatRegNO ≤ n ∧ n < k'.nextFloatRegNO

/-- The counters go up, to 8 at most. -/
structure CountsUp (k k' : AArch64CallConvImpl) : Prop where
  general : k.nextGeneralRegNO ≤ k'.nextGeneralRegNO
  general_le : k'.nextGeneralRegNO ≤ 8
  float : k.nextFloatRegNO ≤ k'.nextFloatRegNO
  float_le : k'.nextFloatRegNO ≤ 8

/-- What the choice of registers does for a parameter. -/
structure Assigns (k : AArch64CallConvImpl) (ty : MIRType) (a : Allocated) : Prop extends
    CountsUp k a.conv where
  address : a.conv.nextStackArgAdress = k.nextStackArgAdress
  regs : ∀ reg ∈ a.ploc.regs, NewReg k a.conv reg
  nodup : a.ploc.regs.Nodup
  whole : a.ploc.Whole
  slot : a.ploc.reg0 = .kRinvalid → ∃ alignLog size,
    (if a.typeAlign ≤ 8 then 8 else a.typeAlign) = 2 ^ alignLog ∧ 3 ≤ alignLog ∧ alignLog < 32 ∧
      (if a.aggCopySize ≠ 0 then 8 else ty.getSize) = size ∧ 0 < size ∧ size ≤ 64 ∧
        a.ploc.memSize = (size : Int)

section

variable {k : AArch64CallConvImpl} {ty : MIRType} {a : Allocated}

lemma Assigns.of_general {first n : Nat} (hfloat : k.nextFloatRegNO ≤ 8)
    (hfirst : k.nextGeneralRegNO ≤ first) (hlast : first + n ≤ 8)
    (hconv : a.conv = { k with nextGeneralRegNO := first + n })
    (hregs : a.ploc.regs = (List.range n).map fun i => .r (first + i))
    (hreg0 : a.ploc.reg0 ≠ .kRinvalid) (hmem : a.ploc.memSize ≤ (8 * n : Nat)) :
    Assigns k ty a := by
  refine ⟨?_, by rw [hconv], ?_, ?_, ?_, fun h => absurd h hreg0⟩
  · rw [hconv]
    exact ⟨Nat.le_add_right_of_le hfirst, hlast, le_rfl, hfloat⟩
  · intro reg hreg
    rw [hregs] at hreg
    obtain ⟨i, hi, rfl⟩ := List.mem_map.mp hreg
    have := List.mem_range.mp hi
    simp only [NewReg, hconv]
    omega
  · rw [hregs]
    exact List.Nodup.map (fun i j h => by simpa using h) List.nodup_range
  · have hcapacity : (((List.range n).map fun i => Reg.r (first + i)).map Reg.capacity).sum =
        8 * n := by
      simp [Function.comp_def, Reg.capacity, List.map_const', mul_comm]
    rw [CCLocInfo.Whole, if_neg hreg0, hregs, hcapacity]
    exact hmem

lemma Assigns.of_float {n : Nat} (hgeneral : k.nextGeneralRegNO ≤ 8)
    (hlast : k.nextFloatRegNO + n ≤ 8)
    (hconv : a.conv = { k with nextFloatRegNO := k.nextFloatRegNO + n })
    (hregs : a.ploc.regs = (List.range n).map fun i => .v (k.nextFloatRegNO + i))
    (hreg0 : a.ploc.reg0 ≠ .kRinvalid) (hmem : a.ploc.memSize ≤ (16 * n : Nat)) :
    Assigns k ty a := by
  refine ⟨?_, by rw [hconv], ?_, ?_, ?_, fun h => absurd h hreg0⟩
  · rw [hconv]
    exact ⟨le_rfl, hgeneral, Nat.le_add_right _ _, hlast⟩
  · intro reg hreg
    rw [hregs] at hreg
    obtain ⟨i, hi, rfl⟩ := List.mem_map.mp hreg
    have := List.mem_range.mp hi
    simp only [NewReg, hconv]
    omega
  · rw [hregs]
    exact List.Nodup.map (fun i j h => by simpa using h) List.nodup_range
  · have hcapacity : (((List.range n).map fun i => Reg.v (k.nextFloatRegNO + i)).map
        Reg.capacity).sum = 16 * n := by
      simp [Function.comp_def, Reg.capacity, List.map_const', mul_comm]
    rw [CCLocInfo.Whole, if_neg hreg0, hregs, hcapacity]
    exact hmem

lemma Assigns.of_stack (alignLog : Nat) {size : Nat} (hcounts : CountsUp k a.conv)
    (haddress : a.conv.nextStackArgAdress = k.nextStackArgAdress) (hregs : a.ploc.regs = [])
    (halign : (if a.typeAlign ≤ 8 then 8 else a.typeAlign) = 2 ^ alignLog) (hge : 3 ≤ alignLog)
    (hlt : alignLog < 32) (hsize : (if a.aggCopySize ≠ 0 then 8 else ty.getSize) = size)
    (hpos : 0 < size) (hle : size ≤ 64) (hmem : a.ploc.memSize = (size : Int)) :
    Assigns k ty a := by
  have hreg0 : a.ploc.reg0 = .kRinvalid := by
    by_contra hreg0
    simp [CCLocInfo.regs, hreg0] at hregs
  refine ⟨hcounts, haddress, ?_, ?_, ?_, fun _ => ⟨alignLog, size, halign, hge, hlt, hsize, hpos,
    hle, hmem⟩⟩
  · simp [hregs]
  · simp [hregs]
  · rw [CCLocInfo.Whole, if_pos hreg0, hregs]

end

omit [Target] in
lemma toInt32_of_lt {n : Nat} (h : n < 2 ^ 31) : toInt32 n = n := (toInt32_eq_iff h.le h).mpr rfl

lemma assigns_oneRegister {k : AArch64CallConvImpl} {ty : MIRType} {a : Allocated} (alignLog : Nat)
    (hgeneral : k.nextGeneralRegNO ≤ 8) (hfloat : k.nextFloatRegNO ≤ 8) (size : Nat)
    (hconv : a.conv = k.allocateNextGPRegister.2)
    (hreg0 : a.ploc.reg0 = k.allocateNextGPRegister.1)
    (hrest : a.ploc.reg1 = .kRinvalid ∧ a.ploc.reg2 = .kRinvalid ∧ a.ploc.reg3 = .kRinvalid)
    (halign : (if a.typeAlign ≤ 8 then 8 else a.typeAlign) = 2 ^ alignLog) (hge : 3 ≤ alignLog)
    (hlt : alignLog < 32) (hsize : (if a.aggCopySize ≠ 0 then 8 else ty.getSize) = size)
    (hpos : 0 < size) (hle : size ≤ 8) (hmem : a.ploc.memSize = (size : Int)) :
    Assigns k ty a := by
  by_cases hfree : k.nextGeneralRegNO < 8
  · rw [allocateNextGPRegister_of_lt hfree] at hconv hreg0
    refine Assigns.of_general hfloat le_rfl hfree hconv ?_ (by simp [hreg0]) (by omega)
    simp [CCLocInfo.regs, hreg0, hrest]
  · rw [allocateNextGPRegister_of_not_lt hfree] at hconv hreg0
    refine Assigns.of_stack _ (hconv ▸ ⟨le_rfl, hgeneral, le_rfl, hfloat⟩) (by rw [hconv]) ?_ halign
      hge hlt hsize hpos (by omega) hmem
    simp [CCLocInfo.regs, hreg0, hrest]

lemma assigns_float {k : AArch64CallConvImpl} {t : PrimType} (hgeneral : k.nextGeneralRegNO ≤ 8)
    (hfloat : k.nextFloatRegNO ≤ 8) (ht : isPrimitiveFloat t ∨ t.isVector) {a : Allocated}
    (h : k.allocateRegister (.scalar t) (freshLoc k (.scalar t)) = some a) :
    Assigns k (.scalar t) a := by
  have hsize : t.size = 4 ∨ t.size = 8 ∨ t.size = 16 := base_size (by
    simpa [checkHomogeneousAggregatesBaseType] using ht)
  have hmem : toInt32 t.size = t.size := toInt32_of_lt (by omega)
  have hif : (isPrimitiveFloat t || t.isVector) = true := by simpa using ht
  rw [AArch64CallConvImpl.allocateRegister, if_pos hif] at h
  by_cases hfree : k.nextFloatRegNO < 8
  · have hnext : k.allocateSIMDFPRegister =
        (.v k.nextFloatRegNO, { k with nextFloatRegNO := k.nextFloatRegNO + 1 }) := if_pos hfree
    rw [hnext, Option.some.injEq] at h
    subst h
    refine Assigns.of_float (n := 1) hgeneral hfree rfl ?_ (by simp) ?_
    · simp [CCLocInfo.regs, freshLoc, AArch64CallConvImpl.initCCLocInfo]
    · simp only [freshLoc, MIRType.getSize, hmem]
      omega
  · have hnext : k.allocateSIMDFPRegister = (.kRinvalid, k) := if_neg hfree
    rw [hnext, Option.some.injEq] at h
    subst h
    have halign : (if t.size ≤ 8 then 8 else t.size) = 2 ^ if t.size ≤ 8 then 3 else 4 := by
      split_ifs <;> omega
    refine Assigns.of_stack _ ⟨le_rfl, hgeneral, le_rfl, hfloat⟩ rfl ?_ halign
      (by split_ifs <;> decide)
      (by split_ifs <;> decide) (if_neg (by simp)) ?_ ?_ ?_
    · simp [CCLocInfo.regs, freshLoc, AArch64CallConvImpl.initCCLocInfo]
    · simp only [MIRType.getSize]
      omega
    · simp only [MIRType.getSize]
      omega
    · simp only [freshLoc, MIRType.getSize, hmem]

omit [Target] in
lemma up_two_le {n : Nat} (h : n ≤ 8) : n ≤ up n 2 ∧ up n 2 ≤ 8 :=
  ⟨le_up (by decide), up_le (by decide) h (by decide)⟩

lemma assigns_integer {k : AArch64CallConvImpl} {t : PrimType} (hgeneral : k.nextGeneralRegNO ≤ 8)
    (hfloat : k.nextFloatRegNO ≤ 8) (ht : t.isPrimitiveInteger) {a : Allocated}
    (h : k.allocateRegister (.scalar t) (freshLoc k (.scalar t)) = some a) :
    Assigns k (.scalar t) a := by
  have hif : ¬ (isPrimitiveFloat t || t.isVector) = true := by
    cases t <;> simp_all [PrimType.isPrimitiveInteger, PrimType.isInteger, PrimType.isVector,
      isPrimitiveFloat]
  rw [AArch64CallConvImpl.allocateRegister, if_neg hif, if_pos ht, Option.some.injEq] at h
  subst h
  rcases isPrimitiveInteger_size ht with ⟨hpos, hsize⟩ | ⟨hsize, ht'⟩
  · have hcond : (MIRType.scalar t).getPrimType.isPrimitiveInteger ∧
        (MIRType.scalar t).getSize ≤ 8 :=
      ⟨ht, hsize⟩
    have hmem : toInt32 t.size = t.size := toInt32_of_lt (by omega)
    simp only [AArch64CallConvImpl.allocateGPRegister, if_pos hcond]
    exact assigns_oneRegister 3 hgeneral hfloat t.size rfl rfl ⟨rfl, rfl, rfl⟩
      (if_pos hsize) le_rfl (by decide) (if_neg (by simp)) hpos hsize
      (by simp only [freshLoc, MIRType.getSize, hmem])
  · have hgp := allocateGPRegister_pair k (freshLoc k (.scalar t)) ht'
    have hmem : toInt32 t.size = t.size := toInt32_of_lt (by omega)
    obtain ⟨hle, hle8⟩ := up_two_le hgeneral
    simp only [MIRType.getSize, MIRType.getAlign, hsize, hgp]
    split_ifs with hlt
    · refine Assigns.of_general (n := 2) hfloat hle (by omega) rfl ?_ (by simp) ?_
      · simp [CCLocInfo.regs, freshLoc, AArch64CallConvImpl.initCCLocInfo, List.range_succ]
      · simp only [freshLoc, MIRType.getSize, hsize]
        decide
    · refine Assigns.of_stack 4 ⟨hgeneral, le_rfl, le_rfl, hfloat⟩ rfl ?_ rfl
        (by decide) (by decide) (if_neg (by simp)) ?_ ?_ ?_
      · simp [CCLocInfo.regs, freshLoc, AArch64CallConvImpl.initCCLocInfo,
          AArch64CallConvImpl.exhaustGPRegisters]
      · simp only [MIRType.getSize]
        omega
      · simp only [MIRType.getSize]
        omega
      · simp only [freshLoc, MIRType.getSize, hmem, AArch64CallConvImpl.exhaustGPRegisters]

omit [Target] in
lemma allocateHomogeneous_regs {ploc ploc' : CCLocInfo} {base : PrimType} {n begin : Nat}
    (hfresh : ploc.reg1 = .kRinvalid ∧ ploc.reg2 = .kRinvalid ∧ ploc.reg3 = .kRinvalid)
    (hpos : 0 < n) (hle : n ≤ 4)
    (h : allocateHomogeneousAggregatesRegister ploc kFloatReturnRegs kNumFloatParmRegs base n begin
      = some ploc') :
    ploc'.reg0 ≠ .kRinvalid ∧ ploc'.regs = ((List.range n).map fun i => .v (begin + i)) ∧
      ploc'.memSize = ploc.memSize := by
  obtain ⟨hreg0, hmem, hplace⟩ := allocateHomogeneous_place hfresh hpos hle h
  refine ⟨hreg0, ?_, hmem⟩
  simpa [CCLocInfo.place, hreg0, CCLocInfo.regs] using hplace

lemma assigns_homogeneous {k : AArch64CallConvImpl} {g : AggType} {base : PrimType} {n : Nat}
    (hgeneral : k.nextGeneralRegNO ≤ 8) (hfloat : k.nextFloatRegNO ≤ 8)
    (hhom : g.homogeneous = some (base, n)) {a : Allocated}
    (h : k.allocateRegister (.agg g) (freshLoc k (.agg g)) = some a) : Assigns k (.agg g) a := by
  obtain ⟨hbase, hpos, hle, hsize⟩ := g.homogeneous_size base n hhom
  have hbsize := base_size hbase
  have hle16 : g.size ≤ 16 * n := hsize ▸ Nat.mul_le_mul_right n (by omega)
  have hspos : 0 < g.size := hsize ▸ Nat.mul_pos (by omega) hpos
  have hmem : toInt32 g.size = g.size := toInt32_of_lt (by omega)
  simp only [AArch64CallConvImpl.allocateRegister, AArch64CallConvImpl.allocateRegisterForAgg,
    hhom] at h
  split_ifs at h with hfit
  · obtain ⟨ploc, hploc, rfl⟩ := Option.map_eq_some_iff.mp h
    obtain ⟨hreg0, hregs, hpmem⟩ := allocateHomogeneous_regs ⟨rfl, rfl, rfl⟩ hpos hle hploc
    have hlast : k.nextFloatRegNO + n ≤ 8 := by
      simp only [kNumFloatParmRegs] at hfit
      omega
    refine Assigns.of_float hgeneral hlast rfl hregs hreg0 ?_
    simp only [hpmem, freshLoc, MIRType.getSize, hmem]
    omega
  · obtain rfl := Option.some.inj h
    have halign : (if base.size ≤ 8 then 8 else base.size) =
        2 ^ if base.size ≤ 8 then 3 else 4 := by
      split_ifs <;> omega
    refine Assigns.of_stack _ ⟨le_rfl, hgeneral, hfloat, le_rfl⟩ rfl ?_ halign
      (by split_ifs <;> decide) (by split_ifs <;> decide) (if_neg (by simp)) hspos ?_ ?_
    · simp [CCLocInfo.regs, freshLoc, AArch64CallConvImpl.initCCLocInfo]
    · simp only [MIRType.getSize]
      omega
    · simp only [freshLoc, MIRType.getSize, hmem]

lemma assigns_composite {k : AArch64CallConvImpl} {g : AggType} (hgeneral : k.nextGeneralRegNO ≤ 8)
    (hfloat : k.nextFloatRegNO ≤ 8) (hhom : g.homogeneous = none) (hpos : 0 < g.size)
    (hsmall : g.size ≤ 16) {a : Allocated}
    (h : k.allocateRegister (.agg g) (freshLoc k (.agg g)) = some a) : Assigns k (.agg g) a := by
  have hmem : toInt32 g.size = g.size := toInt32_of_lt (by omega)
  have hsize : (MIRType.agg g).getSize = g.size := rfl
  obtain ⟨hle, hle8⟩ := up_two_le hgeneral
  simp only [AArch64CallConvImpl.allocateRegister, AArch64CallConvImpl.allocateRegisterForAgg,
    hhom, hsize, if_pos hsmall, Option.some.injEq] at h
  set align := if g.getUnadjustedAlign ≤ 8 then 8 else 16 with halign
  obtain ⟨ngrn, hngrn⟩ : ∃ ngrn, ngrn =
      if align = 16 then up k.nextGeneralRegNO 2 else k.nextGeneralRegNO := ⟨_, rfl⟩
  have hfirst : k.nextGeneralRegNO ≤ ngrn := by
    rw [hngrn]
    split_ifs <;> omega
  rw [allocateGPRegister_agg k g (freshLoc k (.agg g)) align ngrn hsmall hngrn] at h
  subst h
  have hlog : (if align ≤ 8 then 8 else align) = 2 ^ if align ≤ 8 then 3 else 4 := by
    rw [halign]
    split_ifs <;> simp_all
  have hstack : Assigns k (.agg g)
      { conv := (k.exhaustGPRegisters (freshLoc k (.agg g))).1
        ploc := (k.exhaustGPRegisters (freshLoc k (.agg g))).2
        typeAlign := align } := by
    refine Assigns.of_stack _ ⟨hgeneral, le_rfl, le_rfl, hfloat⟩ rfl ?_ hlog
      (by split_ifs <;> decide)
      (by split_ifs <;> decide) (if_neg (by simp)) (by omega) (by omega) ?_
    · simp [CCLocInfo.regs, freshLoc, AArch64CallConvImpl.initCCLocInfo,
        AArch64CallConvImpl.exhaustGPRegisters]
    · simp only [freshLoc, hsize, hmem, AArch64CallConvImpl.exhaustGPRegisters]
  by_cases h8 : g.size ≤ 8
  · simp only [if_pos h8]
    by_cases hlt : ngrn < 8
    · simp only [if_pos hlt]
      refine Assigns.of_general (n := 1) hfloat hfirst hlt rfl ?_ (by simp) ?_
      · simp [CCLocInfo.regs, freshLoc, AArch64CallConvImpl.initCCLocInfo]
      · simp only [freshLoc, hsize, hmem]
        omega
    · simpa only [if_neg hlt] using hstack
  · simp only [if_neg h8]
    by_cases hlt : ngrn + 1 < 8
    · simp only [if_pos hlt]
      refine Assigns.of_general (n := 2) hfloat hfirst hlt rfl ?_ (by simp) ?_
      · simp [CCLocInfo.regs, freshLoc, AArch64CallConvImpl.initCCLocInfo, List.range_succ]
      · simp only [freshLoc, hsize, hmem]
        omega
    · simpa only [if_neg hlt] using hstack

lemma assigns_large {k : AArch64CallConvImpl} {g : AggType} (hgeneral : k.nextGeneralRegNO ≤ 8)
    (hfloat : k.nextFloatRegNO ≤ 8) (hhom : g.homogeneous = none) (hlarge : ¬ g.size ≤ 16)
    {a : Allocated} (h : k.allocateRegister (.agg g) (freshLoc k (.agg g)) = some a) :
    Assigns k (.agg g) a := by
  have hsize : (MIRType.agg g).getSize = g.size := rfl
  simp only [AArch64CallConvImpl.allocateRegister, AArch64CallConvImpl.allocateRegisterForAgg,
    hhom, hsize, if_neg hlarge, Option.some.injEq] at h
  subst h
  have hcopy : roundUp g.size 8 ≠ 0 := by
    have := g.size_lt
    have := le_up (n := g.size) (u := 8) (by decide)
    rw [roundUp_eq_up (by decide) (by omega)]
    omega
  have halog := g.alignLog_lt
  exact assigns_oneRegister _ hgeneral hfloat 8 rfl rfl ⟨rfl, rfl, rfl⟩ (max_eight_align g)
    (le_max_left 3 _) (by omega) (if_pos hcopy) (by decide) le_rfl rfl

lemma assigns_of_allocateRegister {k : AArch64CallConvImpl} {ty : MIRType} {a : Allocated}
    (hgeneral : k.nextGeneralRegNO ≤ 8) (hfloat : k.nextFloatRegNO ≤ 8) (hsize : ty.getSize ≠ 0)
    (h : k.allocateRegister ty (freshLoc k ty) = some a) : Assigns k ty a := by
  cases ty with
  | scalar t =>
    by_cases hfloating : isPrimitiveFloat t ∨ t.isVector
    · exact assigns_float hgeneral hfloat hfloating h
    · by_cases hint : t.isPrimitiveInteger = true
      · exact assigns_integer hgeneral hfloat hint h
      · have hif : ¬ (isPrimitiveFloat t || t.isVector) = true := by simpa using hfloating
        rw [AArch64CallConvImpl.allocateRegister, if_neg hif, if_neg hint] at h
        exact absurd h (by simp)
  | agg g =>
    cases hhom : g.homogeneous with
    | some base => exact assigns_homogeneous hgeneral hfloat hhom h
    | none =>
      by_cases hsmall : g.size ≤ 16
      · exact assigns_composite hgeneral hfloat hhom (Nat.pos_of_ne_zero hsize) hsmall h
      · exact assigns_large hgeneral hfloat hhom hsmall h

/-! ### Calls in sequence -/

/-- What one call does. -/
structure Located (k : AArch64CallConvImpl) (ploc : CCLocInfo) (k' : AArch64CallConvImpl) :
    Prop extends CountsUp k k' where
  regs : ∀ reg ∈ ploc.regs, NewReg k k' reg
  nodup : ploc.regs.Nodup
  whole : ploc.Whole
  notInMemory : ¬ploc.InMemory → k'.nextStackArgAdress = k.nextStackArgAdress
  inMemory : ploc.InMemory → ∃ address, k.nextStackArgAdress ≤ address ∧ 8 ∣ address ∧
    ploc.memOffset = toInt32 address ∧ 0 < ploc.memSize ∧ ploc.memSize ≤ 64 ∧
      (k'.nextStackArgAdress : Int) = address + ploc.memSize

omit [Target] in
@[simp] lemma setupCCLocInfoRegCount_regs (ploc : CCLocInfo) :
    (setupCCLocInfoRegCount ploc).regs = ploc.regs := by
  unfold setupCCLocInfoRegCount
  split_ifs <;> rfl

omit [Target] in
@[simp] lemma setupCCLocInfoRegCount_whole (ploc : CCLocInfo) :
    (setupCCLocInfoRegCount ploc).Whole ↔ ploc.Whole := by
  unfold setupCCLocInfoRegCount
  split_ifs <;> rfl

omit [Target] in
@[simp] lemma CCLocInfo.regs_memOffset (ploc : CCLocInfo) (memOffset : Int) :
    CCLocInfo.regs { ploc with memOffset := memOffset } = ploc.regs := rfl

omit [Target] in
@[simp] lemma CCLocInfo.whole_memOffset (ploc : CCLocInfo) (memOffset : Int) :
    CCLocInfo.Whole { ploc with memOffset := memOffset } ↔ ploc.Whole := Iff.rfl

omit [Target] in
lemma passInMemory_address (k : AArch64CallConvImpl) (ploc : CCLocInfo)
    {size align copy alignLog slot : Nat} (hbound : k.nextStackArgAdress < 2 ^ 31 + 64)
    (halign : (if align ≤ 8 then 8 else align) = 2 ^ alignLog) (hge : 3 ≤ alignLog)
    (hlt : alignLog < 32) (hslot : (if copy ≠ 0 then 8 else size) = slot) (hle : slot ≤ 64) :
    ∃ address memOffset, k.nextStackArgAdress ≤ address ∧ 8 ∣ address ∧
      memOffset = toInt32 address ∧ k.passInMemory ploc size align copy =
        ({ k with nextStackArgAdress := address + slot },
          { ploc with memOffset := memOffset }) := by
  have hle8 := le_up (n := k.nextStackArgAdress) (u := 8) (by decide)
  have hleup := le_up (n := up k.nextStackArgAdress 8) (Nat.two_pow_pos alignLog)
  exact ⟨_, _, hle8.trans hleup, (Nat.pow_dvd_pow 2 hge).trans (dvd_up _ _), rfl,
    passInMemory_eq k ⟨0, 0, up k.nextStackArgAdress 8⟩ ploc rfl hbound halign hge hlt hslot hle⟩

lemma located_of_locateNextParm {k k' : AArch64CallConvImpl} {ty : MIRType} {ploc : CCLocInfo}
    {copySize : Nat} (hgeneral : k.nextGeneralRegNO ≤ 8) (hfloat : k.nextFloatRegNO ≤ 8)
    (hbound : k.nextStackArgAdress < 2 ^ 31 + 64)
    (h : k.locateNextParm ty false = some (k', ploc, copySize)) : Located k ploc k' := by
  by_cases h0 : ty.getSize = 0
  · obtain ⟨rfl, rfl⟩ : k' = k ∧ ploc = k.initCCLocInfo := by
      simp only [AArch64CallConvImpl.locateNextParm, if_pos h0, Option.some.injEq,
        Prod.mk.injEq] at h
      exact ⟨h.1.symm, h.2.1.symm⟩
    refine ⟨⟨le_rfl, hgeneral, le_rfl, hfloat⟩, ?_, ?_, ?_, fun _ => rfl, fun h => absurd rfl h.2⟩
    · simp [CCLocInfo.regs, AArch64CallConvImpl.initCCLocInfo]
    · simp [CCLocInfo.regs, AArch64CallConvImpl.initCCLocInfo]
    · simp [CCLocInfo.Whole, CCLocInfo.regs, AArch64CallConvImpl.initCCLocInfo]
  cases ha : k.allocateRegister ty (freshLoc k ty) with
  | none =>
    unfold freshLoc at ha
    simp [AArch64CallConvImpl.locateNextParm, h0, ha] at h
  | some a =>
    have hlocate : k.locateNextParm ty false = some (if a.ploc.reg0 = .kRinvalid then
        let r := a.conv.passInMemory (setupCCLocInfoRegCount a.ploc) ty.getSize a.typeAlign
          a.aggCopySize
        (r.1, r.2, a.aggCopySize) else (a.conv, setupCCLocInfoRegCount a.ploc, a.aggCopySize)) := by
      unfold freshLoc at ha
      simp [AArch64CallConvImpl.locateNextParm, h0, ha]
    have hassigns := assigns_of_allocateRegister hgeneral hfloat h0 ha
    rw [hlocate, Option.some.injEq] at h
    by_cases hreg0 : a.ploc.reg0 = .kRinvalid
    · obtain ⟨alignLog, size, halign, hge, hlt, hsize, hpos, hle, hmem⟩ := hassigns.slot hreg0
      obtain ⟨address, memOffset, hleAddress, hdvd, hoffset, hpass⟩ := passInMemory_address a.conv
        (setupCCLocInfoRegCount a.ploc) (hassigns.address ▸ hbound) halign hge hlt hsize hle
      rw [if_pos hreg0, hpass] at h
      simp only [Prod.mk.injEq] at h
      obtain ⟨rfl, rfl, -⟩ := h
      have hregs : (setupCCLocInfoRegCount a.ploc).regs = [] := by
        simpa [CCLocInfo.Whole, hreg0] using hassigns.whole
      refine ⟨⟨hassigns.general, hassigns.general_le, hassigns.float, hassigns.float_le⟩, ?_, ?_,
        ?_,
        fun hnot => absurd ⟨?_, ?_⟩ hnot,
        fun _ => ⟨address, hassigns.address ▸ hleAddress, hdvd, hoffset, ?_, ?_, ?_⟩⟩
      · simp only [CCLocInfo.regs_memOffset, hregs, List.not_mem_nil, false_imp_iff, implies_true]
      · simp only [CCLocInfo.regs_memOffset, hregs, List.nodup_nil]
      · simpa only [CCLocInfo.whole_memOffset, setupCCLocInfoRegCount_whole] using hassigns.whole
      · simp only [setupCCLocInfoRegCount_reg0, hreg0]
      · simp only [setupCCLocInfoRegCount_memSize, hmem]
        omega
      · simp only [setupCCLocInfoRegCount_memSize, hmem]
        omega
      · simp only [setupCCLocInfoRegCount_memSize, hmem]
        omega
      · simp only [setupCCLocInfoRegCount_memSize, hmem, Nat.cast_add]
    · rw [if_neg hreg0] at h
      simp only [Prod.mk.injEq] at h
      obtain ⟨rfl, rfl, -⟩ := h
      have hnot : ¬(setupCCLocInfoRegCount a.ploc).InMemory := fun h => hreg0 (by simpa using h.1)
      refine ⟨hassigns.toCountsUp, ?_, ?_, ?_, fun _ => hassigns.address, fun h => absurd h hnot⟩
      · simpa using hassigns.regs
      · simpa using hassigns.nodup
      · simpa using hassigns.whole

/-- Registers and places that lie behind a state. -/
structure Behind (k : AArch64CallConvImpl) (plocs : List CCLocInfo) : Prop extends
    NoCollision plocs where
  newRegs : ∀ ploc ∈ plocs, ∀ reg ∈ ploc.regs,
    match reg with
    | .kRinvalid => False
    | .r n => k.nextGeneralRegNO ≤ n ∧ n < 8
    | .v n => k.nextFloatRegNO ≤ n ∧ n < 8
  newAreas : ∀ ploc ∈ plocs, ploc.InMemory → (k.nextStackArgAdress : Int) ≤ ploc.memOffset

omit [Target] in
lemma Behind.cons {k k' : AArch64CallConvImpl} {ploc : CCLocInfo} {plocs : List CCLocInfo}
    (hbehind : Behind k' plocs) (hlocated : Located k ploc k')
    (hrange : ploc.InMemory → (k'.nextStackArgAdress : Int) < 2 ^ 31 + ploc.memSize) :
    Behind k (ploc :: plocs) := by
  have haddress (hmem : ploc.InMemory) : (k.nextStackArgAdress : Int) ≤ ploc.memOffset ∧
      8 ∣ ploc.memOffset ∧ 0 < ploc.memSize ∧
        ploc.memOffset + ploc.memSize = (k'.nextStackArgAdress : Int) := by
    obtain ⟨address, hle, hdvd, hoffset, hpos, -, hnext⟩ := hlocated.inMemory hmem
    have hlt := hrange hmem
    rw [toInt32_of_lt (by omega)] at hoffset
    omega
  have hnext : k.nextStackArgAdress ≤ k'.nextStackArgAdress := by
    by_cases hmem : ploc.InMemory
    · have := haddress hmem
      omega
    · exact (hlocated.notInMemory hmem).ge
  constructor
  · constructor
    · rw [List.flatMap_cons, List.nodup_append]
      refine ⟨hlocated.nodup, hbehind.regs, fun reg hreg reg' hreg' => ?_⟩
      rintro rfl
      obtain ⟨ploc', hploc', hreg'⟩ := List.mem_flatMap.mp hreg'
      have hnew := hlocated.regs reg hreg
      have hbehind := hbehind.newRegs ploc' hploc' reg hreg'
      cases reg with
      | kRinvalid => exact hnew
      | r n => exact absurd hnew.2 (Nat.not_lt.mpr hbehind.1)
      | v n => exact absurd hnew.2 (Nat.not_lt.mpr hbehind.1)
    · exact List.forall_mem_cons.mpr ⟨hlocated.whole, hbehind.whole⟩
    · refine List.pairwise_cons.mpr ⟨fun ploc' hploc' hmem hmem' => ?_, hbehind.areas⟩
      rw [(haddress hmem).2.2.2]
      exact hbehind.newAreas ploc' hploc' hmem'
    · refine List.forall_mem_cons.mpr ⟨fun hmem => ?_, hbehind.aligned⟩
      exact ⟨(haddress hmem).2.2.1, (haddress hmem).2.1⟩
  · refine List.forall_mem_cons.mpr ⟨fun reg hreg => ?_, fun ploc' hploc' reg hreg => ?_⟩
    · have hnew := hlocated.regs reg hreg
      have hgeneral := hlocated.general_le
      have hfloat := hlocated.float_le
      cases reg with
      | kRinvalid => exact hnew
      | r n => exact ⟨hnew.1, hnew.2.trans_le hgeneral⟩
      | v n => exact ⟨hnew.1, hnew.2.trans_le hfloat⟩
    · have hnew := hbehind.newRegs ploc' hploc' reg hreg
      cases reg with
      | kRinvalid => exact hnew
      | r n => exact ⟨hlocated.general.trans hnew.1, hnew.2⟩
      | v n => exact ⟨hlocated.float.trans hnew.1, hnew.2⟩
  · refine List.forall_mem_cons.mpr ⟨fun hmem => (haddress hmem).1, fun ploc' hploc' hmem => ?_⟩
    have := hbehind.newAreas ploc' hploc' hmem
    omega

lemma behind_of_locateFrom {k k' : AArch64CallConvImpl} {tys : List MIRType}
    {plocs : List CCLocInfo} (hgeneral : k.nextGeneralRegNO ≤ 8) (hfloat : k.nextFloatRegNO ≤ 8)
    (hbound : k.nextStackArgAdress < 2 ^ 31 + 64) (hrange : k.StaysInRange false tys)
    (h : k.locateFrom false tys = some (plocs, k')) :
    Behind k plocs ∧ k'.nextGeneralRegNO ≤ 8 ∧ k'.nextFloatRegNO ≤ 8 := by
  induction tys generalizing k plocs with
  | nil =>
    simp only [AArch64CallConvImpl.locateFrom, Option.some.injEq, Prod.mk.injEq] at h
    obtain ⟨rfl, rfl⟩ := h
    exact ⟨⟨⟨by simp, by simp, by simp, by simp⟩, by simp, by simp⟩, hgeneral, hfloat⟩
  | cons ty tys ih =>
    cases hty : k.locateNextParm ty false with
    | none => simp [AArch64CallConvImpl.locateFrom, hty] at h
    | some r =>
      obtain ⟨k₁, ploc, copySize⟩ := r
      simp only [AArch64CallConvImpl.locateFrom, hty, Option.map_eq_some_iff] at h
      simp only [AArch64CallConvImpl.StaysInRange, hty] at hrange
      obtain ⟨⟨plocs, k'⟩, hrest, heq⟩ := h
      obtain ⟨rfl, rfl⟩ := Prod.mk.injEq .. ▸ heq
      have hlocated := located_of_locateNextParm hgeneral hfloat hbound hty
      have hbound₁ : k₁.nextStackArgAdress < 2 ^ 31 + 64 := by
        by_cases hmem : ploc.InMemory
        · obtain ⟨_, -, -, -, -, hle, -⟩ := hlocated.inMemory hmem
          have := hrange.1 hmem
          omega
        · rw [hlocated.notInMemory hmem]
          exact hbound
      obtain ⟨hbehind, hcounts⟩ :=
        ih hlocated.general_le hlocated.float_le hbound₁ hrange.2 hrest
      exact ⟨hbehind.cons hlocated hrange.1, hcounts⟩

lemma noCollision_returnThroughMemory {k : AArch64CallConvImpl} {plocs : List CCLocInfo}
    (hplocs : Behind k plocs) (k' : AArch64CallConvImpl) :
    NoCollision (setupToReturnThroughMemory k'.initCCLocInfo :: plocs) := by
  have hregs : (setupToReturnThroughMemory k'.initCCLocInfo).regs = [.r 8] := by
    simp [CCLocInfo.regs, setupToReturnThroughMemory, AArch64CallConvImpl.initCCLocInfo]
  have hnot : ¬(setupToReturnThroughMemory k'.initCCLocInfo).InMemory := fun h => h.2 rfl
  constructor
  · rw [List.flatMap_cons, hregs, List.singleton_append, List.nodup_cons]
    refine ⟨fun hmem => ?_, hplocs.regs⟩
    obtain ⟨ploc, hploc, hreg⟩ := List.mem_flatMap.mp hmem
    exact absurd (hplocs.newRegs ploc hploc _ hreg).2 (by decide)
  · refine List.forall_mem_cons.mpr ⟨?_, hplocs.whole⟩
    rw [CCLocInfo.Whole, hregs, if_neg (by simp [setupToReturnThroughMemory])]
    simp [setupToReturnThroughMemory, AArch64CallConvImpl.initCCLocInfo]
  · exact List.pairwise_cons.mpr ⟨fun _ _ hmem => absurd hmem hnot, hplocs.areas⟩
  · exact List.forall_mem_cons.mpr ⟨fun hmem => absurd hmem hnot, hplocs.aligned⟩

/-- The locations of a list of parameters do not collide while the addresses on the stack are
`int32`, also where the first parameter is the one that returns a struct. -/
theorem locateFrom_noCollision {firstArgReturn : Bool} {tys : List MIRType}
    {plocs : List CCLocInfo} {conv : AArch64CallConvImpl}
    (hrange : AArch64CallConvImpl.StaysInRange {} firstArgReturn tys)
    (h : AArch64CallConvImpl.locateFrom {} firstArgReturn tys = some (plocs, conv)) :
    NoCollision plocs ∧ conv.nextGeneralRegNO ≤ 8 ∧ conv.nextFloatRegNO ≤ 8 := by
  have hbehind {tys : List MIRType} {plocs : List CCLocInfo} {conv : AArch64CallConvImpl} :=
    @behind_of_locateFrom _ {} conv tys plocs (by decide) (by decide) (by decide)
  cases firstArgReturn with
  | false =>
    obtain ⟨hplocs, hcounts⟩ := hbehind hrange h
    exact ⟨hplocs.toNoCollision, hcounts⟩
  | true =>
    cases tys with
    | nil =>
      obtain ⟨hplocs, hcounts⟩ := @hbehind [] plocs conv trivial h
      exact ⟨hplocs.toNoCollision, hcounts⟩
    | cons ty tys =>
      by_cases h0 : ty.getSize = 0
      · -- an empty parameter is not looked at
        have hflag (flag : Bool) : AArch64CallConvImpl.locateNextParm {} ty flag =
            some ({}, AArch64CallConvImpl.initCCLocInfo {}, 0) := if_pos h0
        have hfalse := @hbehind (ty :: tys) plocs conv
        simp only [AArch64CallConvImpl.StaysInRange, AArch64CallConvImpl.locateFrom, hflag] at *
        obtain ⟨hplocs, hcounts⟩ := hfalse hrange h
        exact ⟨hplocs.toNoCollision, hcounts⟩
      · have hfirst : AArch64CallConvImpl.locateNextParm {} ty true =
            some ({}, setupToReturnThroughMemory (AArch64CallConvImpl.initCCLocInfo {}),
              Target.pointerSize) := by
          simp [AArch64CallConvImpl.locateNextParm, h0]
        simp only [AArch64CallConvImpl.StaysInRange, AArch64CallConvImpl.locateFrom, hfirst,
          Option.map_eq_some_iff] at hrange h
        obtain ⟨⟨plocs, conv⟩, hrest, heq⟩ := h
        obtain ⟨rfl, rfl⟩ := Prod.mk.injEq .. ▸ heq
        obtain ⟨hplocs, hcounts⟩ := hbehind hrange.2 hrest
        exact ⟨noCollision_returnThroughMemory hplocs _, hcounts⟩

omit [Target] in
/-- Nine integers and a struct of alignment 16. -/
theorem locateFrom_noCollision_example :
    letI := Target.lp64
    ∃ plocs conv, AArch64CallConvImpl.locateFrom {} false (integersAndStruct 4 (by decide)) =
      some (plocs, conv) ∧ NoCollision plocs := by
  let _ := Target.lp64
  have hrange : AArch64CallConvImpl.StaysInRange {} false (integersAndStruct 4 (by decide)) := by
    decide
  cases h : AArch64CallConvImpl.locateFrom {} false (integersAndStruct 4 (by decide)) with
  | none => exact absurd h (by decide)
  | some r => exact ⟨r.1, r.2, rfl, (locateFrom_noCollision hrange h).1⟩

omit [Target] in
lemma alignLog_lt_28 : 28 < 32 := by decide

/-- Seventeen structs of 32 bytes and alignment `2 ^ 28`. -/
def overalignedStructs : List MIRType := List.replicate 17 (alignedStruct 28 alignLog_lt_28)

omit [Target] in
/-- The pointer to the last copy is at the address `2 ^ 31`, which is negative as an `int32`. -/
theorem locateFrom_overaligned :
    letI := Target.lp64
    ∃ plocs conv, AArch64CallConvImpl.locateFrom {} false overalignedStructs =
      some (plocs, conv) ∧ (plocs.drop 15).map (·.memOffset) = [7 * 2 ^ 28, -2 ^ 31] ∧
        ¬NoCollision plocs := by
  let _ := Target.lp64
  have hlast : (AArch64CallConvImpl.locateFrom {} false overalignedStructs).map
      (fun r => (r.1.drop 15).map fun ploc => (ploc.memOffset, ploc.memSize, ploc.reg0)) =
        some [(7 * 2 ^ 28, 8, .kRinvalid), (-2 ^ 31, 8, .kRinvalid)] := by
    decide +kernel
  obtain ⟨⟨plocs, conv⟩, h, hlast⟩ := Option.map_eq_some_iff.mp hlast
  obtain ⟨ploc, rest, hdrop, hploc, hrest⟩ := List.map_eq_cons_iff.mp hlast
  obtain ⟨ploc', rest', rfl, hploc', hnil⟩ := List.map_eq_cons_iff.mp hrest
  obtain rfl := List.map_eq_nil_iff.mp hnil
  simp only [Prod.mk.injEq] at hploc hploc'
  refine ⟨plocs, conv, h, ?_, fun hno => ?_⟩
  · rw [hdrop, List.map_cons, List.map_cons, hploc.1, hploc'.1, List.map_nil]
  · have hareas := hno.areas.drop (i := 15)
    rw [hdrop] at hareas
    have hle := List.rel_of_pairwise_cons hareas (List.mem_singleton_self _)
      ⟨hploc.2.2, by omega⟩ ⟨hploc'.2.2, by omega⟩
    omega

end AArch64
end Maple
