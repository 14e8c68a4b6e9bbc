import Maple.Lib.RoundUp

/-!
# The layout of structs

`MIRStructType::ComputeLayout` and the sizes and alignments of the types it asks for. The numbers of
the layout are `uint32`.
-/

namespace Maple
namespace StructLayout

/-- Conversion to `uint32`. -/
def u32 (n : Nat) : Nat := n % 2 ^ 32

/-- `RoundUp` for an alignment that is a power of two. The mask has only 32 bits, also for an offset
of 64 bits. -/
def roundUp (offset align : Nat) : Nat :=
  if align = 0 then offset else u32 (offset + align - 1) - u32 (offset + align - 1) % align

/-- `FieldAttrs`: `alignLog` is the logarithm of the alignment. -/
structure FieldAttrs where
  packed : Bool := false
  aligned : Bool := false
  alignLog : Nat := 0
  deriving DecidableEq, Repr

def FieldAttrs.getAlign (attrs : FieldAttrs) : Nat := 2 ^ attrs.alignLog

def FieldAttrs.hasAligned (attrs : FieldAttrs) : Bool := attrs.aligned || attrs.getAlign != 1

/-- `TypeAttrs`, with the logarithms of the pack and of the alignment. -/
structure TypeAttrs where
  packed : Bool := false
  pack : Option Nat := none
  alignLog : Nat := 0
  deriving DecidableEq, Repr

def TypeAttrs.getAlign (attrs : TypeAttrs) : Nat := 2 ^ attrs.alignLog

/-- What the layout needs to know about the type of a field: the size of the base type as a
logarithm and the width of a bit-field, or the size and the alignment. -/
inductive FieldType where
  | bitField (baseLog fieldSize : Nat)
  | plain (size align : Nat) (isIncompleteArray : Bool)
  deriving DecidableEq, Repr

/-- The type is an array of unknown length. -/
def FieldType.isIncomplete : FieldType → Bool
  | bitField _ _ => false
  | plain _ _ isIncompleteArray => isIncompleteArray

structure Field where
  attrs : FieldAttrs
  type : FieldType
  deriving DecidableEq, Repr

/-- The alignment of the type without attributes. -/
def FieldType.originAlign : FieldType → Nat
  | bitField baseLog _ => 2 ^ baseLog
  | plain _ align _ => align

def getFieldTypeAlign (attrs : TypeAttrs) (f : Field) : Nat :=
  let fieldAlign := if attrs.packed || f.attrs.packed then 1 else f.type.originAlign
  let fieldAlign := if f.attrs.hasAligned then max fieldAlign f.attrs.getAlign else fieldAlign
  match attrs.pack with
  | some pack => min (2 ^ pack) fieldAlign
  | none => fieldAlign

/-- The alignment of a field in `GetAlign`. -/
def fieldAlignOf (attrs : TypeAttrs) (f : Field) : Nat :=
  let fieldAlign :=
    if attrs.packed || f.attrs.packed then 1
    else match attrs.pack with
      | some pack => min f.type.originAlign (2 ^ pack)
      | none => f.type.originAlign
  let fieldAlign := if f.attrs.hasAligned then max fieldAlign f.attrs.getAlign else fieldAlign
  match attrs.pack with
  | some pack => min (2 ^ pack) fieldAlign
  | none => fieldAlign

/-- The size of the base type of a bit-field of width zero. -/
def zeroBitFieldAlign (f : Field) : Option Nat :=
  match f.type with
  | .bitField baseLog 0 => some (2 ^ baseLog)
  | _ => none

/-- `MIRStructType::GetAlign`. Only aarch64 has a rule for bit-fields of width zero. -/
def getAlign (targAArch64 : Bool) (attrs : TypeAttrs) (fields : List Field) : Nat :=
  match fields with
  | [] => max 1 attrs.getAlign
  | _ =>
    let maxAlign := (fields.map (fieldAlignOf attrs)).foldl max 1
    let zeroAligns := fields.filterMap zeroBitFieldAlign
    if targAArch64 && !zeroAligns.isEmpty then
      max attrs.getAlign (max (zeroAligns.foldl max 1) maxAlign)
    else max attrs.getAlign maxAlign

structure OffsetPair where
  byteOffset : Nat
  bitOffset : Nat
  deriving DecidableEq, Repr

/-- The space needed for the fields before the current one. -/
structure Cursor where
  allocedSize : Nat := 0
  allocedBitSize : Nat := 0
  deriving DecidableEq, Repr

/-- Where a bit-field starts: the bits before it, rounded up. -/
def bitFieldStart (attrs : TypeAttrs) (f : Field) (baseLog fieldBitSize : Nat) (c : Cursor) : Nat :=
  let fieldAlign := getFieldTypeAlign attrs f
  let fieldTypeSizeBits := 2 ^ baseLog * 8
  if f.attrs.hasAligned then
    if f.attrs.getAlign < fieldAlign ∧
        f.attrs.getAlign ≤ u32 (fieldTypeSizeBits + 2 ^ 32 - fieldBitSize) / 8 then
      roundUp c.allocedBitSize (u32 (f.attrs.getAlign * 8))
    else roundUp c.allocedBitSize (u32 (fieldAlign * 8))
  else if (attrs.pack = none ∧ (attrs.packed || f.attrs.packed) = false ∧
      c.allocedBitSize / fieldTypeSizeBits ≠
        u32 (c.allocedBitSize + fieldBitSize + 2 ^ 32 - 1) / fieldTypeSizeBits) ∨
      fieldBitSize = 0 then
    -- the field crosses the boundary of its base type
    roundUp c.allocedBitSize fieldTypeSizeBits
  else c.allocedBitSize

/-- The branch of `ComputeLayout` for bit-fields. -/
def placeBitField (attrs : TypeAttrs) (f : Field) (baseLog fieldBitSize : Nat) (c : Cursor) :
    OffsetPair × Cursor :=
  let fieldAlign := getFieldTypeAlign attrs f
  let fieldAlignBits := u32 (fieldAlign * 8)
  let start := bitFieldStart attrs f baseLog fieldBitSize c
  let allocedBitSize := u32 (start + fieldBitSize)
  let unit := if fieldAlignBits ≠ 0 then fieldAlignBits else 2 ^ baseLog * 8
  (⟨u32 (start / fieldAlignBits * fieldAlign), start % fieldAlignBits⟩,
    ⟨max c.allocedSize (roundUp allocedBitSize unit / 8), allocedBitSize⟩)

/-- The branch of `ComputeLayout` for all other fields. -/
def placePlain (attrs : TypeAttrs) (f : Field) (size : Nat) (isIncompleteArray : Bool) (c : Cursor) :
    OffsetPair × Cursor :=
  let fieldAlign := getFieldTypeAlign attrs f
  let fieldAlignBits := u32 (fieldAlign * 8)
  let fieldTypeSize := u32 size
  let fieldTypeSizeBits := u32 (fieldTypeSize * 8)
  let allocedSize := roundUp c.allocedSize fieldAlign
  if c.allocedBitSize = u32 (c.allocedSize * 8) then
    (⟨allocedSize, 0⟩,
      if isIncompleteArray then { c with allocedSize := allocedSize }
      else ⟨u32 (allocedSize + fieldTypeSize), u32 (u32 (allocedSize + fieldTypeSize) * 8)⟩)
  else
    -- there are bits left over, so that positions are computed from the bits
    let start :=
      if c.allocedBitSize / fieldAlignBits ≠
          u32 (c.allocedBitSize + fieldTypeSizeBits + 2 ^ 32 - 1) / fieldAlignBits ∨
          fieldTypeSize = 0 then
        roundUp c.allocedBitSize fieldAlignBits
      else c.allocedBitSize
    let allocedBitSize := u32 (start + fieldTypeSizeBits)
    (⟨u32 (start / fieldAlignBits * fieldAlign), 0⟩,
      ⟨max allocedSize (roundUp allocedBitSize fieldAlignBits / 8), allocedBitSize⟩)

/-- One round of the loop of `ComputeLayout`. -/
def place (attrs : TypeAttrs) (c : Cursor) (f : Field) : OffsetPair × Cursor :=
  match f.type with
  | .bitField baseLog fieldBitSize => placeBitField attrs f baseLog fieldBitSize c
  | .plain size _ isIncompleteArray => placePlain attrs f size isIncompleteArray c

/-- The loop of `ComputeLayout`: the layout of the fields and the cursor behind them. -/
def placeAll (attrs : TypeAttrs) : Cursor → List Field → List OffsetPair × Cursor
  | c, [] => ([], c)
  | c, f :: fs =>
    let (pair, c) := place attrs c f
    let (pairs, c) := placeAll attrs c fs
    (pair :: pairs, c)

/-- The layout of the fields of a struct and its size. -/
structure Layout where
  fieldLayout : List OffsetPair
  size : Nat
  deriving DecidableEq, Repr

/-- `ComputeLayout` for a struct with fields. -/
def computeLayout (targAArch64 : Bool) (attrs : TypeAttrs) (fields : List Field) : Layout :=
  let (pairs, c) := placeAll attrs {} fields
  ⟨pairs, roundUp c.allocedSize (getAlign targAArch64 attrs fields)⟩

/-! ### Types -/

mutual

/-- The types of fields: a primitive type or pointer as the logarithm of its size, arrays, structs,
unions and bit-fields. -/
inductive MIRType where
  | prim (sizeLog : Nat)
  | array (alignLog : Nat) (isIncompleteArray elemIsTypedef : Bool) (elem : MIRType)
      (sizeArray : List Nat)
  | struct (isCPlusPlus : Bool) (attrs : TypeAttrs) (fields : Fields)
  | union (isCPlusPlus : Bool) (attrs : TypeAttrs) (fields : Fields)
  | bitField (baseLog fieldSize : Nat)

/-- Fields with their attributes. -/
inductive Fields where
  | nil
  | cons (attrs : FieldAttrs) (type : MIRType) (rest : Fields)

end

def MIRType.isIncompleteArray : MIRType → Bool
  | array _ isIncompleteArray _ _ _ => isIncompleteArray
  | _ => false

/-- `MIRBitFieldType::GetSize`. -/
def bitFieldByteSize (fieldSize : Nat) : Nat := (fieldSize + 7) / 8

/-- The size of a field in a union. -/
def FieldType.byteSize : FieldType → Nat
  | bitField _ fieldSize => bitFieldByteSize fieldSize
  | plain size _ _ => size

mutual

def MIRType.getSize (targAArch64 : Bool) : MIRType → Nat
  | .prim sizeLog => 2 ^ sizeLog
  | .array alignLog _ elemIsTypedef elem sizeArray =>
    if elem.getSize targAArch64 = 0 then 0
    else
      let size := roundUp (elem.getSize targAArch64) (2 ^ alignLog) * sizeArray.prod % 2 ^ 64
      if elemIsTypedef then roundUp size (elem.getAlign targAArch64) else size
  | .struct isCPlusPlus attrs fields =>
    match fields.list targAArch64 with
    | [] => if isCPlusPlus then 1 else 0
    | fs => (computeLayout targAArch64 attrs fs).size
  | .union isCPlusPlus attrs fields =>
    match fields.list targAArch64 with
    | [] => if isCPlusPlus then 1 else 0
    | fs => roundUp ((fs.map fun f => f.type.byteSize).foldl max 0)
        (StructLayout.getAlign targAArch64 attrs fs)
  | .bitField _ fieldSize => bitFieldByteSize fieldSize

def MIRType.getAlign (targAArch64 : Bool) : MIRType → Nat
  | .prim sizeLog => 2 ^ sizeLog
  | .array alignLog _ _ elem _ => max (elem.getAlign targAArch64) (2 ^ alignLog)
  | .struct _ attrs fields => StructLayout.getAlign targAArch64 attrs (fields.list targAArch64)
  | .union _ attrs fields => StructLayout.getAlign targAArch64 attrs (fields.list targAArch64)
  | .bitField _ _ => 0

/-- What the layout of a struct needs to know about its fields. -/
def Fields.list (targAArch64 : Bool) : Fields → List Field
  | .nil => []
  | .cons attrs (.bitField baseLog fieldSize) rest =>
    ⟨attrs, .bitField baseLog fieldSize⟩ :: rest.list targAArch64
  | .cons attrs type rest =>
    ⟨attrs, .plain (type.getSize targAArch64) (type.getAlign targAArch64) type.isIncompleteArray⟩ ::
      rest.list targAArch64

end

end StructLayout
end Maple
