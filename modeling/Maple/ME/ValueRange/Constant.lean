import Maple.Lib.Int64Cast
import Maple.IR.PrimType

/-!
# Constants of value ranges

Value ranges keep the values of all types up to 64 bits as `int64` constants. For a 64-bit
unsigned type the constant is the value modulo `2 ^ 64`; for every other type it is the value
itself (`InType`).
-/

namespace Maple

namespace PrimType

def isNeeded : PrimType → Bool
  | i8 | i16 | i32 | i64 | u8 | u16 | u32 | a32 | ref | ptr | u64 | a64 | u1 => true
  | _ => false

variable [Target]

/-- `IsPrimTypeUint64`. -/
def isUint64 (t : PrimType) : Bool :=
  t == u64 || t == a64 || ((t == ref || t == ptr) && t.size == 8)

/-- `GetMinNumber`; needed types only. -/
def minNumber : PrimType → Int64
  | i8 => -0x80
  | i16 => -0x8000
  | i32 => -0x80000000
  | i64 => Int64.minValue
  | _ => 0

/-- `GetMaxNumber`; needed types only. The maximum of a 64-bit unsigned type becomes `-1`. -/
def maxNumber : PrimType → Int64
  | i8 => 0x7f
  | i16 => 0x7fff
  | i32 => 0x7fffffff
  | i64 => Int64.maxValue
  | u8 => 0xff
  | u16 => 0xffff
  | u32 | a32 => 0xffffffff
  | ref => if ref.size = 4 then 0xffffffff else -1
  | ptr => if ptr.size = 4 then 0xffffffff else -1
  | u64 | a64 => -1
  | u1 => 1
  | _ => 0

/-- `GetRealValue`; needed types only. -/
def realValue (c : Int64) : PrimType → Int64
  | i8 => c.castSigned 8
  | i16 => c.castSigned 16
  | i32 => c.castSigned 32
  | i64 => c
  | u8 => c.castUnsigned 8
  | u16 => c.castUnsigned 16
  | u32 | a32 => c.castUnsigned 32
  | ref => if ref.size = 4 then c.castUnsigned 32 else c.castUnsigned 64
  | ptr => if ptr.size = 4 then c.castUnsigned 32 else c.castUnsigned 64
  | u64 | a64 => c.castUnsigned 64
  -- a conversion to `bool`, not to one bit
  | u1 => if c = 0 then 0 else 1
  | _ => 0

/-- The value of the type that a constant stands for: unsigned for the 64-bit unsigned types,
`GetRealValue` otherwise. -/
def read (t : PrimType) (c : Int64) : Int := if t.isUint64 then c.asUInt64 else (realValue c t).toInt

/-- Conversion of a value to the type; to `u1` it is the test against zero. -/
def cvt (t : PrimType) (v : Int) : Int :=
  if t = u1 then (if v = 0 then 0 else 1) else t.format.wrap v

/-- The constant encodes a value of the type. -/
def InType (t : PrimType) (c : Int64) : Prop := realValue c t = c

instance (t : PrimType) (c : Int64) : Decidable (t.InType c) := inferInstanceAs (Decidable (_ = _))

/-! ### What the types have in common -/

section Types

attribute [local simp] isNeeded isUint64 minNumber maxNumber realValue cvt format actualBitSize size
  isSignedInteger isUnsignedInteger isUnsigned isInteger IntFormat.minValue IntFormat.maxValue
  IntFormat.modulus

lemma format_of_isUint64 {t : PrimType} (h : t.isUint64) : t.format = ⟨64, false⟩ := by
  have hp : Target.pointerSize = 4 ∨ Target.pointerSize = 8 := Target.pointerSize_eq
  cases t <;> simp_all

lemma format_of_not_isUint64 {t : PrimType} (hn : t.isNeeded) (hu : ¬ t.isUint64) :
    -2 ^ 63 ≤ t.format.minValue ∧ t.format.maxValue < 2 ^ 63 := by
  have hp : Target.pointerSize = 4 ∨ Target.pointerSize = 8 := Target.pointerSize_eq
  cases t <;> simp at hn <;> simp_all

lemma one_le_maxValue {t : PrimType} (hn : t.isNeeded) : 1 ≤ t.format.maxValue := by
  have hp : Target.pointerSize = 4 ∨ Target.pointerSize = 8 := Target.pointerSize_eq
  rcases hp with hp | hp <;> cases t <;> simp at hn <;> simp [hp]

lemma two_le_maxValue {t : PrimType} (hn : t.isNeeded) (h1 : t ≠ u1) :
    2 ≤ t.format.maxValue ∧ 1 < t.actualBitSize := by
  have hp : Target.pointerSize = 4 ∨ Target.pointerSize = 8 := Target.pointerSize_eq
  rcases hp with hp | hp <;> cases t <;> simp at hn h1 <;> simp [hp]

lemma exists_mem_ne {t : PrimType} (hn : t.isNeeded) (w : Int) : ∃ v, t.format.Mem v ∧ v ≠ w := by
  have hmin := t.format.minValue_nonpos
  have hmax := one_le_maxValue hn
  by_cases h : w = 0
  · exact ⟨1, ⟨by omega, hmax⟩, by omega⟩
  · exact ⟨0, ⟨hmin, by omega⟩, by omega⟩

lemma toInt_realValue {t : PrimType} (hn : t.isNeeded) (hu : ¬ t.isUint64) (c : Int64) :
    (realValue c t).toInt = t.cvt c.toInt := by
  have hp : Target.pointerSize = 4 ∨ Target.pointerSize = 8 := Target.pointerSize_eq
  have hc : c = 0 ↔ c.toInt = 0 := by
    rw [← Int64.toInt_inj, Int64.toInt_zero]
  cases t <;> simp at hn <;>
    simp_all [IntFormat.wrap_unsigned, IntFormat.wrap_signed, Int64.toInt_castSigned,
      Int64.toInt_castUnsigned]
  split <;> simp

lemma realValue_of_isUint64 {t : PrimType} (h : t.isUint64) (c : Int64) : realValue c t = c := by
  have hp : Target.pointerSize = 4 ∨ Target.pointerSize = 8 := Target.pointerSize_eq
  cases t <;> simp_all [Int64.castUnsigned_64]

omit [Target] in
lemma signed_or_unsigned (t : PrimType) (hn : t.isNeeded) :
    (t.isSignedInteger ∧ ¬ t.isUnsignedInteger) ∨ (t.isUnsignedInteger ∧ ¬ t.isSignedInteger) := by
  cases t <;> simp_all

lemma isNeeded_of_isUint64 (t : PrimType) (h : t.isUint64) : t.isNeeded := by
  cases t <;> simp_all

lemma isUnsignedInteger_of_isUint64 (t : PrimType) (h : t.isUint64) : t.isUnsignedInteger := by
  cases t <;> simp_all

lemma not_isUint64_of_isSignedInteger (t : PrimType) (h : t.isSignedInteger) : ¬ t.isUint64 := by
  cases t <;> simp_all

lemma minNumber_of_isUint64 (t : PrimType) (h : t.isUint64) : t.minNumber = 0 := by
  cases t <;> simp_all

lemma toInt_minNumber {t : PrimType} (hn : t.isNeeded) (hu : ¬ t.isUint64) :
    t.minNumber.toInt = t.format.minValue := by
  have hp : Target.pointerSize = 4 ∨ Target.pointerSize = 8 := Target.pointerSize_eq
  cases t <;> simp at hn <;> simp_all

lemma maxNumber_of_isUint64 (t : PrimType) (h : t.isUint64) : t.maxNumber = -1 := by
  cases t <;> simp_all

lemma toInt_maxNumber {t : PrimType} (hn : t.isNeeded) (hu : ¬ t.isUint64) :
    t.maxNumber.toInt = t.format.maxValue := by
  have hp : Target.pointerSize = 4 ∨ Target.pointerSize = 8 := Target.pointerSize_eq
  cases t <;> simp at hn <;> simp_all [Int64.toInt_maxValue]

end Types

lemma minValue_of_isUnsignedInteger (t : PrimType) (h : t.isUnsignedInteger) :
    t.format.minValue = 0 := by
  have hs : t.isSignedInteger = false := by
    unfold isUnsignedInteger at h
    simp_all [isSignedInteger]
  simp [format, IntFormat.minValue, hs]

lemma maxValue_le_of_size_lt {s t : PrimType} (ht : t.isNeeded)
    (hsu : s.isUnsignedInteger) (hts : t.isSignedInteger) (hsize : s.size < t.size) :
    s.format.maxValue ≤ t.format.maxValue := by
  have hss : s.isSignedInteger = false := by
    unfold isUnsignedInteger at hsu
    simp_all [isSignedInteger]
  have hbits : s.actualBitSize + 8 ≤ t.actualBitSize := by
    have h : t ≠ u1 := by
      rintro rfl
      simp [isSignedInteger, isUnsigned] at hts
    unfold actualBitSize
    rw [if_neg h]
    split
    · subst s
      have hone : u1.size = 1 := rfl
      omega
    · omega
  have hpow : (2 : Int) ^ (s.actualBitSize + 8) ≤ 2 ^ t.actualBitSize :=
    pow_le_pow_right₀ (by decide) hbits
  simp only [format, IntFormat.maxValue, hss, hts, Bool.false_eq_true, ↓reduceIte,
    IntFormat.modulus]
  push_cast
  rw [pow_add] at hpow
  have hpos : (0 : Int) < 2 ^ s.actualBitSize := by positivity
  omega

lemma cvt_mem (t : PrimType) (v : Int) : t.format.Mem (t.cvt v) := by
  unfold cvt
  split
  · subst t
    have h01 : u1.format.Mem 0 ∧ u1.format.Mem 1 :=
      ⟨⟨le_refl 0, zero_le_one⟩, ⟨zero_le_one, le_refl 1⟩⟩
    split
    · exact h01.1
    · exact h01.2
  · exact t.format.wrap_mem v

lemma cvt_eq_self_iff (t : PrimType) (v : Int) : t.cvt v = v ↔ t.format.Mem v := by
  constructor
  · intro h
    exact h ▸ cvt_mem t v
  · intro h
    unfold cvt
    split
    · subst t
      have hmem : 0 ≤ v ∧ v ≤ 1 := h
      split <;> omega
    · exact t.format.wrap_of_mem h

lemma read_of_isUint64 {t : PrimType} (h : t.isUint64) (c : Int64) :
    t.read c = c.toInt % 2 ^ 64 := by
  rw [read, if_pos h, Int64.asUInt64_eq]

lemma read_eq_cvt {t : PrimType} (hn : t.isNeeded) (c : Int64) : t.read c = t.cvt c.toInt := by
  by_cases hu : t.isUint64
  · have hne : t ≠ u1 := by
      rintro rfl
      simp [isUint64] at hu
    rw [read_of_isUint64 hu, cvt, if_neg hne, format_of_isUint64 hu, IntFormat.wrap_unsigned]
  · rw [read, if_neg hu, toInt_realValue hn hu]

lemma read_mem {t : PrimType} (hn : t.isNeeded) (c : Int64) : t.format.Mem (t.read c) :=
  read_eq_cvt hn c ▸ cvt_mem t c.toInt

lemma inType_of_isUint64 {t : PrimType} (h : t.isUint64) (c : Int64) : t.InType c :=
  realValue_of_isUint64 h c

lemma inType_iff_mem {t : PrimType} (hn : t.isNeeded) (hu : ¬ t.isUint64) (c : Int64) :
    t.InType c ↔ t.format.Mem c.toInt := by
  rw [InType, ← Int64.toInt_inj, toInt_realValue hn hu, cvt_eq_self_iff]

lemma read_of_inType {t : PrimType} (hu : ¬ t.isUint64) {c : Int64} (h : t.InType c) :
    t.read c = c.toInt := by
  rw [read, if_neg hu, h]

lemma read_inj {t : PrimType} {a b : Int64} (ha : t.InType a) (hb : t.InType b) :
    t.read a = t.read b ↔ a = b := by
  constructor
  · intro h
    rw [← Int64.toInt_inj]
    by_cases hu : t.isUint64
    · rw [read_of_isUint64 hu, read_of_isUint64 hu] at h
      have := a.le_toInt
      have := a.toInt_lt
      have := b.le_toInt
      have := b.toInt_lt
      omega
    · rwa [read_of_inType hu ha, read_of_inType hu hb] at h
  · rintro rfl
    rfl

lemma exists_inType {t : PrimType} (hn : t.isNeeded) {v : Int} (hv : t.format.Mem v) :
    ∃ c, t.InType c ∧ t.read c = v := by
  refine ⟨Int64.ofInt v, ?_⟩
  by_cases hu : t.isUint64
  · refine ⟨inType_of_isUint64 hu _, ?_⟩
    rw [format_of_isUint64 hu] at hv
    have hv' : 0 ≤ v ∧ v ≤ 2 ^ 64 - 1 := hv
    have hsize : ((Int64.size : Nat) : Int) = 2 ^ 64 := by decide
    have hmod := @Int.bmod_emod v Int64.size
    rw [hsize] at hmod
    rw [read_of_isUint64 hu, Int64.toInt_ofInt, hmod]
    omega
  · have hr := format_of_not_isUint64 hn hu
    have hto : (Int64.ofInt v).toInt = v := by
      unfold IntFormat.Mem at hv
      exact Int64.toInt_ofInt_of_le (by omega) (by omega)
    have hin : t.InType (Int64.ofInt v) := by
      rw [inType_iff_mem hn hu, hto]
      exact hv
    exact ⟨hin, by rw [read_of_inType hu hin, hto]⟩

lemma minNumber_spec {t : PrimType} (hn : t.isNeeded) :
    t.InType t.minNumber ∧ t.read t.minNumber = t.format.minValue := by
  by_cases hu : t.isUint64
  · refine ⟨inType_of_isUint64 hu _, ?_⟩
    rw [read_of_isUint64 hu, format_of_isUint64 hu, t.minNumber_of_isUint64 hu]
    decide
  · have hto := toInt_minNumber hn hu
    have hin : t.InType t.minNumber := by
      rw [inType_iff_mem hn hu, hto]
      exact ⟨le_refl _, t.format.minValue_le_maxValue⟩
    exact ⟨hin, by rw [read_of_inType hu hin, hto]⟩

lemma maxNumber_spec {t : PrimType} (hn : t.isNeeded) :
    t.InType t.maxNumber ∧ t.read t.maxNumber = t.format.maxValue := by
  by_cases hu : t.isUint64
  · refine ⟨inType_of_isUint64 hu _, ?_⟩
    rw [read_of_isUint64 hu, format_of_isUint64 hu, t.maxNumber_of_isUint64 hu]
    decide
  · have hto := toInt_maxNumber hn hu
    have hin : t.InType t.maxNumber := by
      rw [inType_iff_mem hn hu, hto]
      exact ⟨t.format.minValue_le_maxValue, le_refl _⟩
    exact ⟨hin, by rw [read_of_inType hu hin, hto]⟩

lemma read_eq_read_iff {s t : PrimType} (ht : t.isNeeded) {c : Int64} (hin : s.InType c) :
    t.read c = s.read c ↔ t.format.Mem (s.read c) := by
  constructor
  · intro h
    exact h ▸ read_mem ht c
  · intro h
    by_cases hs : s.isUint64
    · by_cases htu : t.isUint64
      · rw [read_of_isUint64 hs, read_of_isUint64 htu]
      · have hmax := format_of_not_isUint64 ht htu
        have hlo := c.le_toInt
        have hhi := c.toInt_lt
        have hc : c.toInt % 2 ^ 64 = c.toInt := by
          rw [read_of_isUint64 hs] at h
          unfold IntFormat.Mem at h
          omega
        rw [read_of_isUint64 hs, hc] at h ⊢
        rwa [read_eq_cvt ht, cvt_eq_self_iff]
    · rw [read_of_inType hs hin] at h ⊢
      rwa [read_eq_cvt ht, cvt_eq_self_iff]

lemma read_of_isUnsignedInteger {t : PrimType} (hn : t.isNeeded) (hu : t.isUnsignedInteger)
    {c : Int64} (hin : t.InType c) : t.read c = c.asUInt64 := by
  by_cases h64 : t.isUint64
  · rw [read_of_isUint64 h64, Int64.asUInt64_eq]
  · have hmem := (inType_iff_mem hn h64 c).mp hin
    have hmin := t.minValue_of_isUnsignedInteger hu
    have hhi := c.toInt_lt
    unfold IntFormat.Mem at hmem
    rw [read_of_inType h64 hin, Int64.asUInt64_eq]
    omega

lemma inType_iff_mem_of_nonneg {t : PrimType} (hn : t.isNeeded) {c : Int64} (hc : 0 ≤ c.toInt) :
    t.InType c ↔ t.format.Mem c.toInt := by
  by_cases hu : t.isUint64
  · have hhi := c.toInt_lt
    have hmem : t.format.Mem c.toInt := by
      rw [format_of_isUint64 hu]
      exact ⟨hc, show c.toInt ≤ 2 ^ 64 - 1 by omega⟩
    simp [hmem, inType_of_isUint64 hu]
  · exact inType_iff_mem hn hu c

lemma inType_iff_mem_asUInt64 {t : PrimType} (hn : t.isNeeded) (hu : t.isUnsignedInteger)
    (c : Int64) : t.InType c ↔ t.format.Mem c.asUInt64 := by
  by_cases h64 : t.isUint64
  · have hmem := read_mem hn c
    rw [read_of_isUint64 h64, ← Int64.asUInt64_eq] at hmem
    simp [hmem, inType_of_isUint64 h64]
  · have hmin := t.minValue_of_isUnsignedInteger hu
    have hmax := format_of_not_isUint64 hn h64
    have hlo := c.le_toInt
    have hhi := c.toInt_lt
    rw [inType_iff_mem hn h64, Int64.asUInt64_eq]
    unfold IntFormat.Mem
    omega

lemma asUInt64_maxNumber {t : PrimType} (hn : t.isNeeded) (hs : t.isSignedInteger) :
    (t.maxNumber.asUInt64 : Int) = t.format.maxValue := by
  have hu := t.not_isUint64_of_isSignedInteger hs
  have hspec := maxNumber_spec hn
  have hmax := format_of_not_isUint64 hn hu
  have hnonneg := t.format.maxValue_nonneg
  rw [read_of_inType hu hspec.1] at hspec
  rw [Int64.asUInt64_eq, hspec.2]
  omega

end PrimType
end Maple
