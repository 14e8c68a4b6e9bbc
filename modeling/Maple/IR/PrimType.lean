import Maple.Lib.IntFormat

/-!
# Primitive types

The primitive types of the IR (`prim_types.def`, without the types of dynamic languages), their
properties, and the integers they stand for. The size of `ptr` and `ref` is the pointer size of
the target machine.
-/

namespace Maple

/-- What the properties of a type depend on: the pointer size in bytes (`GetPointerSize`). -/
class Target where
  pointerSize : Nat
  pointerSize_eq : pointerSize = 4 ∨ pointerSize = 8

/-- A target with 8-byte pointers, such as aarch64. -/
abbrev Target.lp64 : Target := ⟨8, Or.inr rfl⟩

inductive PrimType where
  | void
  | i8 | i16 | i32 | i64 | i128
  | u8 | u16 | u32 | u64 | u128
  | u1
  | ptr | ref | a32 | a64
  | f32 | f64 | f128
  | c64 | c128
  | constStr | gen | agg
  | v2i64 | v4i32 | v8i16 | v16i8
  | v2u64 | v4u32 | v8u16 | v16u8
  | v2f64 | v4f32
  | v2i32 | v4i16 | v8i8
  | v2u32 | v4u16 | v8u8
  | v2f32 | v1i64 | v1u64
  | unknown
  deriving DecidableEq, Repr

namespace PrimType

/-- The property `isVector` of the type table. -/
def isVector : PrimType → Bool
  | v2i64 | v4i32 | v8i16 | v16i8 | v2u64 | v4u32 | v8u16 | v16u8 | v2f64 | v4f32
  | v2i32 | v4i16 | v8i8 | v2u32 | v4u16 | v8u8 | v2f32 | v1i64 | v1u64 => true
  | _ => false

/-- The property `isInteger` of the type table; addresses and integer vectors have it too. -/
def isInteger : PrimType → Bool
  | i8 | i16 | i32 | i64 | i128 | u8 | u16 | u32 | u64 | u128 | u1 | ptr | ref | a32 | a64
  | v2i64 | v4i32 | v8i16 | v16i8 | v2u64 | v4u32 | v8u16 | v16u8
  | v2i32 | v4i16 | v8i8 | v2u32 | v4u16 | v8u8 | v1i64 | v1u64 => true
  | _ => false

/-- The property `isUnsigned` of the type table. -/
def isUnsigned : PrimType → Bool
  | u8 | u16 | u32 | u64 | u128 | u1 | ptr | ref | a32 | a64
  | v2u64 | v4u32 | v8u16 | v16u8 | v2u32 | v4u16 | v8u8 | v1u64 => true
  | _ => false

def isUnsignedInteger (t : PrimType) : Bool := t.isUnsigned && t.isInteger

def isSignedInteger (t : PrimType) : Bool := !t.isUnsigned && t.isInteger

def isPrimitiveInteger (t : PrimType) : Bool := t.isInteger && !t.isVector

variable [Target]

/-- `GetPrimTypeSize`: the size in bytes, 0 if unknown. -/
def size : PrimType → Nat
  | void | agg => 0
  | ptr | ref => Target.pointerSize
  | u1 | i8 | u8 => 1
  | i16 | u16 => 2
  | a32 | f32 | i32 | u32 => 4
  | a64 | c64 | f64 | i64 | u64
  | v2i32 | v4i16 | v8i8 | v2u32 | v4u16 | v8u8 | v2f32 | v1i64 | v1u64 => 8
  | u128 | i128 | c128 | f128
  | v2i64 | v4i32 | v8i16 | v16i8 | v2u64 | v4u32 | v8u16 | v16u8 | v2f64 | v4f32 => 16
  | _ => 0

def bitSize (t : PrimType) : Nat := t.size * 8

/-- `GetPrimTypeActualBitSize`: as `bitSize`, but one bit for `u1`. -/
def actualBitSize (t : PrimType) : Nat := if t = u1 then 1 else t.size * 8

/-- The integers of a type. -/
def format (t : PrimType) : IntFormat := ⟨t.actualBitSize, t.isSignedInteger⟩

lemma width_cases {t : PrimType} (h : t.isPrimitiveInteger = true) :
    t.format.width = 1 ∨ t.format.width = 8 ∨ t.format.width = 16 ∨ t.format.width = 32 ∨
      t.format.width = 64 ∨ t.format.width = 128 := by
  have hptr : t = ptr ∨ t = ref → t.format.width = Target.pointerSize * 8 := by
    rintro (rfl | rfl) <;> rfl
  have hsize := Target.pointerSize_eq
  cases t with
  | ptr | ref =>
    simp only [reduceCtorEq, or_false, or_true, true_imp_iff] at hptr
    omega
  | u1 => exact Or.inl rfl
  | i8 | u8 => exact Or.inr (Or.inl rfl)
  | i16 | u16 => exact Or.inr (Or.inr (Or.inl rfl))
  | i32 | u32 | a32 => exact Or.inr (Or.inr (Or.inr (Or.inl rfl)))
  | i64 | u64 | a64 => exact Or.inr (Or.inr (Or.inr (Or.inr (Or.inl rfl))))
  | i128 | u128 => exact Or.inr (Or.inr (Or.inr (Or.inr (Or.inr rfl))))
  | _ => cases h

end PrimType
end Maple
