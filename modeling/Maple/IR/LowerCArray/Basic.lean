import Maple.IR.PrimType
import Maple.IR.StructLayout.RowMajor

/-!
# Lowering of array addresses

`MIRLower::LowerCArray` (`mir_lower.cpp`) turns the address of an array element into additions and
multiplications. The conversions, constants and types are those of the source; `ConstantFold::Fold`,
which it calls on the result, is a parameter.
-/

namespace Maple
namespace LowerCArray

open StructLayout

def getRegPrimType : PrimType → PrimType
  | .i8 | .i16 => .i32
  | .u1 | .u8 | .u16 => .u32
  | t => t

def getSignedPrimType : PrimType → PrimType
  | .ptr | .ref | .a64 | .u64 => .i64
  | .u8 => .i8
  | .u16 => .i16
  | .a32 | .u32 => .i32
  | t => t

/-- Expressions; `ε` are those that the lowering does not look into. -/
inductive Expr (ε : Type*) where
  | other (primType : PrimType) (expr : ε)
  | constval (primType : PrimType) (value : Int)
  | add (primType : PrimType) (opnd0 opnd1 : Expr ε)
  | mul (primType : PrimType) (opnd0 opnd1 : Expr ε)
  | cvt (primType fromType : PrimType) (opnd : Expr ε)
  deriving DecidableEq, Repr

/-- The operands of an `array` node and the type that its type points to. -/
structure ArrayNode (ε : Type*) where
  primType : PrimType
  arrayType : MIRType
  base : Expr ε
  indices : List (Expr ε)

variable [Target] {ε : Type*}

def needCvtOrRetype (origin compared : PrimType) : Bool :=
  origin.size != compared.size || origin.isSignedInteger != compared.isSignedInteger

namespace Expr

def primType : Expr ε → PrimType
  | other t _ | constval t _ | add t _ _ | mul t _ _ | cvt t _ _ => t

/-- The value of an expression. Every operation is carried out in its type. -/
def eval (value : ε → Int) : Expr ε → Int
  | other t e => t.format.wrap (value e)
  | constval t v => t.format.wrap v
  | add t a b => t.format.wrap (a.eval value + b.eval value)
  | mul t a b => t.format.wrap (a.eval value * b.eval value)
  | cvt t fromType a => t.format.wrap (fromType.format.wrap (a.eval value))

end Expr

/-! ### The products of the dimensions -/

/-- Conversion to `uint64`. -/
def uint64 (n : Nat) : Nat := n % 2 ^ 64

/-- The `while` loop that multiplies `mpyDim` by the inner dimensions of a nested array. -/
def mulInnerDims : MIRType → Nat → Nat
  | .array _ _ _ elem sizeArray, mpyDim => mulInnerDims elem (u32 (mpyDim * sizeArray.getD 0 0))
  | _, mpyDim => mpyDim

/-- `mpyDim` for each index of a nested array. -/
def nestedMpyDims : MIRType → List Nat
  | .array _ _ _ elem _ => mulInnerDims elem 1 :: nestedMpyDims elem
  | _ => []

/-- `mpyDim` for each index of an array type of several dimensions. -/
def flatMpyDims : List Nat → List Nat
  | [] => []
  | _ :: sizes => sizes.foldl (fun mpyDim size => u32 (mpyDim * size)) 1 :: flatMpyDims sizes

/-- The type of the innermost elements. -/
def innermostElem : MIRType → MIRType
  | .array _ _ _ elem _ => innermostElem elem
  | type => type

def isNestedArray (elem : MIRType) (sizeArray : List Nat) : Bool :=
  sizeArray.length == 1 && elem.isArray

def mpyDims : MIRType → List Nat
  | .array alignLog isIncompleteArray elemIsTypedef elem sizeArray =>
    if isNestedArray elem sizeArray then
      nestedMpyDims (.array alignLog isIncompleteArray elemIsTypedef elem sizeArray)
    else flatMpyDims sizeArray
  | _ => []

/-- `esize`: the size of the elements that the indices count. -/
def elemSize (targAArch64 : Bool) : MIRType → Nat
  | .array _ _ _ elem sizeArray =>
    if isNestedArray elem sizeArray then
      roundUp ((innermostElem elem).getSize targAArch64) (elem.getAlign targAArch64)
    else elem.getSize targAArch64
  | _ => 0

/-! ### The expression -/

/-- `GetExtValue` of an integer constant, as a `uint64`. The source asserts that a constant of a
wider type fits. -/
def indexVal (primType : PrimType) (value : Int) : Nat :=
  (primType.format.wrap value % 2 ^ 64).toNat

/-- A new constant for a `uint64`. -/
def newConst (primType : PrimType) (value : Nat) : Expr ε := .constval primType (uint64 value : Nat)

/-- The conversion of a factor to the type of the address. -/
def cvtFactor (P : PrimType) (resNode : Expr ε) : Expr ε :=
  if !resNode.primType.isPrimitiveInteger then
    .cvt (getSignedPrimType P) resNode.primType resNode
  else if resNode.primType.size ≠ P.size then
    .cvt P (getRegPrimType resNode.primType) resNode
  else resNode

/-- `newResNode`: the sum of what the index adds and of the indices before. -/
def newSum (P : PrimType) (mpyNode prevNode : Expr ε) : Expr ε :=
  .add P mpyNode
    (if needCvtOrRetype prevNode.primType P then
      .cvt P (getRegPrimType prevNode.primType) prevNode
    else prevNode)

/-- One round of the loop over the indices: the new `prevNode`. There is none before the first. -/
def lowerIndex (P : PrimType) (prevNode : Option (Expr ε)) (mpyDim : Nat) (index : Expr ε) :
    Expr ε :=
  match index, prevNode with
  | .constval t v, none => newConst P (indexVal t v * mpyDim)
  | .constval t v, some prevNode => newSum P (newConst P (mpyDim * indexVal t v)) prevNode
  | index, none => .mul P (cvtFactor P index) (newConst P mpyDim)
  | index, some prevNode =>
    -- an index that is not multiplied changes places with the sum
    if mpyDim = 1 then newSum P prevNode index
    else newSum P (.mul P (cvtFactor P index) (newConst P mpyDim)) prevNode

/-- The loop over the indices. -/
def lowerIndices (P : PrimType) : Option (Expr ε) → List (Nat × Expr ε) → Option (Expr ε)
  | prevNode, [] => prevNode
  | prevNode, (mpyDim, index) :: rest =>
    lowerIndices P (some (lowerIndex P prevNode mpyDim index)) rest

/-- The expression before it is folded: the base and the index times the size of the elements. -/
def address (P : PrimType) (base resNode : Expr ε) (esize : Nat) : Expr ε :=
  let resNode := cvtFactor P resNode
  .add P base (.mul resNode.primType resNode (newConst P esize))

/-- `LowerCArray`, without a result where a `CHECK_FATAL` fails. -/
def lowerCArray (targAArch64 : Bool) (fold : Expr ε → Option (Expr ε)) (node : ArrayNode ε) :
    Option (Expr ε) :=
  match node.arrayType with
  | .array alignLog isIncompleteArray elemIsTypedef elem sizeArray =>
    let arrayType := MIRType.array alignLog isIncompleteArray elemIsTypedef elem sizeArray
    let dims := mpyDims arrayType
    if 1 < dims.length ∧ ¬ ∀ size ∈ sizeArray.take node.indices.length, 0 < size then none
    else
      let resNode :=
        if 1 < dims.length then lowerIndices node.primType none (dims.zip node.indices)
        else node.indices.head?
      resNode.map fun resNode =>
        let rAdd := address node.primType node.base resNode (elemSize targAArch64 arrayType)
        (fold rAdd).getD rAdd
  | _ => none

end LowerCArray
end Maple
