import Maple.IR.BinMpl.Tables
import Maple.Util.Namemangler

/-!
# Constants in binary MIR

`OutputConst` and `ImportConst`. Every constant is written with a tag, its kind and its type. The
constant that is read differs from the one written by its references, which are those of the
reader, and by what the tables of the reader decide: there is one NaN for each floating-point type,
and the address of a global symbol has the pointer type of the symbol.
-/

namespace Maple
namespace BinMpl

/-- `StIdx`: the scope and the index of a symbol. -/
structure StIdx where
  isGlobal : Bool
  idx : Nat
  deriving DecidableEq

mutual

/-- `MIRConst`. The types, symbols, functions and labels are indices; floating-point values are
their bits. -/
inductive MIRConst where
  /-- A null pointer. -/
  | null
  | int (ty : Nat) (value : Int)
  | addrof (ty : Nat) (stIdx : StIdx) (fieldID offset : Int32)
  | addrofFunc (ty puIdx : Nat)
  | lbl (ty value puIdx : Nat)
  | str (ty : Nat) (value : Option Str)
  | str16 (ty : Nat) (value : List UInt16)
  | float (ty : Nat) (value : UInt32)
  | double (ty : Nat) (value : UInt64)
  | float128 (ty : Nat) (value₀ value₁ : UInt64)
  | agg (ty : Nat) (constVec : ConstVec)
  | st (ty : Nat) (stVec : List Nat) (stOffsetVec : List UInt32)

/-- The elements of an aggregate with their field ids. -/
inductive ConstVec where
  | nil
  | cons (fieldId : UInt32) (item : MIRConst) (rest : ConstVec)

end

mutual

/-- How deep aggregates are nested. -/
def MIRConst.depth : MIRConst → Nat
  | .agg _ constVec => constVec.depth + 1
  | _ => 0

def ConstVec.depth : ConstVec → Nat
  | .nil => 0
  | .cons _ item rest => max item.depth rest.depth

end

def ConstVec.length : ConstVec → Nat
  | .nil => 0
  | .cons _ _ rest => rest.length + 1

/-- The tags of constants. -/
inductive ConstTag where
  | int | addrof | addrofFunc | str | str16 | float | double | agg | st | addrofLabel | addrofLocal
  | float128
  deriving DecidableEq

namespace ConstTag

/-- `kBinKindConst...`. -/
def code : ConstTag → Int
  | int => 20
  | addrof => 21
  | addrofFunc => 22
  | str => 23
  | str16 => 24
  | float => 25
  | double => 26
  | agg => 27
  | st => 28
  | addrofLabel => 66
  | addrofLocal => 67
  | float128 => 68

def ofCode (n : Int) : Option ConstTag :=
  [int, addrof, addrofFunc, str, str16, float, double, agg, st, addrofLabel, addrofLocal,
    float128].find? fun tag => tag.code = n

@[simp] lemma ofCode_code (tag : ConstTag) : ofCode tag.code = some tag := by
  cases tag <;> rfl

lemma code_ne_zero (tag : ConstTag) : tag.code ≠ 0 := by
  cases tag <;> decide

lemma code_mem (tag : ConstTag) : int64Format.Mem tag.code := by
  cases tag <;> decide

end ConstTag

/-! ### Values -/

/-- `GetExtValue`: the low word, extended from the sign bit of the value. -/
def getExtValue (f : IntFormat) (value : Int) : Int :=
  if f.signed ∧ value < 0 then value % 2 ^ 63 - 2 ^ 63 else int64 value

/-- The value of a `MIRIntConst` that is made of a word (`IntVal`). -/
def intVal (f : IntFormat) (word : Int) : Int :=
  if f.signed then f.wrap word else f.wrap (word % 2 ^ 64)

/-- Whether a value of a format fits in one word. -/
def FitsWord (f : IntFormat) (value : Int) : Prop :=
  f.Mem value ∧ if f.signed then int64Format.Mem value else value < 2 ^ 64

instance (f : IntFormat) (value : Int) : Decidable (FitsWord f value) :=
  inferInstanceAs (Decidable (_ ∧ _))

/-- The entry of the table of floating-point constants: there is one NaN of each type. -/
def floatConst (bits : UInt32) : UInt32 :=
  if 0x7F800000 < bits.toNat % 2 ^ 31 then 0x7FC00000 else bits

def doubleConst (bits : UInt64) : UInt64 :=
  if 0x7FF0000000000000 < bits.toNat % 2 ^ 63 then 0x7FF8000000000000 else bits

/-- For 128 bits only positive NaNs are recognised (`IsNan`). -/
def float128Const (value₀ value₁ : UInt64) : UInt64 × UInt64 :=
  if value₀.toNat / 2 ^ 48 = 0x7FFF ∧ (value₀.toNat % 2 ^ 48 ≠ 0 ∨ value₁ ≠ 0) then
    (0x7FFF800000000000, 0)
  else (value₀, value₁)

lemma intVal_getExtValue {f : IntFormat} {value : Int} (h : FitsWord f value) :
    intVal f (getExtValue f value) = value := by
  obtain ⟨hmem, hword⟩ := h
  unfold intVal getExtValue
  by_cases hs : f.signed = true
  · simp only [hs, if_true, true_and] at hword ⊢
    have hlow : (if value < 0 then value % 2 ^ 63 - 2 ^ 63 else int64 value) = value := by
      split_ifs with hneg
      · have hlo : -2 ^ 63 ≤ value := hword.1
        omega
      · exact int64Format.wrap_of_mem hword
    rw [hlow, f.wrap_of_mem hmem]
  · have hmin : f.minValue = 0 := by simp [IntFormat.minValue, hs]
    have hlo := hmem.1
    rw [hmin] at hlo
    simp only [hs, Bool.false_eq_true, if_false, false_and] at hword ⊢
    have hcong : int64 value % 2 ^ 64 = value % 2 ^ 64 := int64Format.wrap_emod value
    rw [hcong, Int.emod_eq_of_lt hlo hword, f.wrap_of_mem hmem]

/-! ### Writing and reading -/

/-- The types that the reader gives to floating-point constants. -/
def tyF32 : Nat := 17
def tyF64 : Nat := 18
def tyF128 : Nat := 19

/-- What constants depend on besides their references. -/
structure ConstTables (S T : Type) extends RefTables S T where
  /-- The integers of the primitive type of a type, for the writer and for the reader. -/
  format : Nat → IntFormat
  formatIn : Nat → IntFormat
  /-- The pointer type of the reader for the type of a global symbol. -/
  pointerTo : Nat → Nat
  /-- The function that is read. -/
  puIdx : Nat

/-- The size of a container; there is no memory for more elements. -/
def writeSize {σ : Type} (size : Nat) : Put σ := if size < 2 ^ 63 then writeNum size else Put.fail

namespace ConstTables

variable {S T : Type} (R : ConstTables S T)

def outputConstBase (kind : Int) (ty : Nat) : Put (WState S) :=
  Put.seq [writeNum kind, R.type.out ty]

/-- `OutputSymbol` or `OutputLocalSymbol`. -/
def outputSymbolOf (stIdx : StIdx) : Put (WState S) :=
  if stIdx.isGlobal then R.symbol.out stIdx.idx else R.localSymbol.out stIdx.idx

/-- The writer of the constants with a tag, the functions `OutputConst...`. -/
def outputTagged (tag : ConstTag) (kind : Int) (ty : Nat) (fields : List (Put (WState S))) :
    Put (WState S) :=
  Put.seq (writeNum tag.code :: R.outputConstBase kind ty :: fields)

mutual

def outputConst : MIRConst → Put (WState S)
  | .null => writeNum 0
  | .int ty value => R.outputTagged .int 1 ty [writeNum (getExtValue (R.format ty) value)]
  | .addrof ty stIdx fieldID offset =>
    R.outputTagged (if stIdx.isGlobal then .addrof else .addrofLocal) 2 ty
      [R.outputSymbolOf stIdx, writeNum fieldID.toInt, writeNum offset.toInt]
  | .addrofFunc ty puIdx => R.outputTagged .addrofFunc 3 ty [R.function.out puIdx]
  | .lbl ty value _ => R.outputTagged .addrofLabel 4 ty [outputLabel value]
  | .str ty value => R.outputTagged .str 5 ty [outputUsrStr value]
  | .str16 ty value => R.outputTagged .str16 6 ty [writeAsciiStr (Namemangler.utf16ToUtf8 value)]
  | .float ty value => R.outputTagged .float 7 ty [writeNum (int32 value.toNat)]
  | .double ty value => R.outputTagged .double 8 ty [writeNum (int64 value.toNat)]
  | .float128 ty value₀ value₁ =>
    R.outputTagged .float128 9 ty
      [writeNum (int64 value₀.toNat), writeNum (int64 value₁.toNat)]
  | .agg ty constVec =>
    R.outputTagged .agg 10 ty [writeSize constVec.length, outputConstVec constVec]
  | .st ty stVec stOffsetVec =>
    R.outputTagged .st 11 ty
      [writeSize stVec.length, Put.seq (stVec.map R.symbol.out), writeSize stOffsetVec.length,
        Put.seq (stOffsetVec.map fun offset => writeNum offset.toNat)]

/-- The loop of `OutputConstAgg`. -/
def outputConstVec : ConstVec → Put (WState S)
  | .nil => Put.skip
  | .cons fieldId item rest =>
    Put.seq [writeNum fieldId.toNat, outputConst item, outputConstVec rest]

end

/-- `ImportConstBase`; the kind is not used. -/
def importConstBase : Get (RState T) Nat := do
  let _kind ← readNum
  R.type.inp

/-- The loop that reads the elements of an aggregate. -/
def importConstVec (importConst : Get (RState T) MIRConst) : Nat → Get (RState T) ConstVec
  | 0 => pure .nil
  | size + 1 => do
    let fieldId ← readNum
    let fieldConst ← importConst
    let rest ← importConstVec importConst size
    pure (.cons (UInt32.ofInt fieldId) fieldConst rest)

/-- The cases of `ImportConst` after the tag and the type. -/
def importTagged (importConst : Get (RState T) MIRConst) (ty : Nat) :
    ConstTag → Get (RState T) MIRConst
  | .int => do
    let n ← readNum
    pure (.int ty (intVal (R.formatIn ty) n))
  | .addrof => do
    let sym ← R.symbol.inp
    let fi ← readNum
    let ofst ← readNum
    pure (.addrof (R.pointerTo sym) ⟨true, sym⟩ (Int32.ofInt fi) (Int32.ofInt ofst))
  | .addrofLocal => do
    let sym ← R.localSymbol.inp
    let fi ← readNum
    let ofst ← readNum
    pure (.addrof ty ⟨false, sym⟩ (Int32.ofInt fi) (Int32.ofInt ofst))
  | .addrofFunc => do
    let puIdx ← R.function.inp
    pure (.addrofFunc ty puIdx)
  | .addrofLabel => do
    let lidx ← importLabel
    pure (.lbl ty lidx R.puIdx)
  | .str => do
    let ustr ← importUsrStr
    pure (.str ty ustr)
  | .str16 => do
    let bytes ← readAsciiStr
    let str16 ← Get.ofOption (Namemangler.utf8ToUtf16 Namemangler.maxCount bytes)
    pure (.str16 ty str16)
  | .float => do
    let n ← readNum
    pure (.float tyF32 (floatConst (UInt32.ofInt n)))
  | .double => do
    let n ← readNum
    pure (.double tyF64 (doubleConst (UInt64.ofInt n)))
  | .float128 => do
    let n₀ ← readNum
    let n₁ ← readNum
    let value := float128Const (UInt64.ofInt n₀) (UInt64.ofInt n₁)
    pure (.float128 tyF128 value.1 value.2)
  | .agg => do
    let size ← readNum
    let constVec ← importConstVec importConst size.toNat
    pure (.agg ty constVec)
  | .st => do
    let size ← readNum
    let stVec ← R.symbol.inp.many size.toNat
    let size ← readNum
    let stOffsetVec ← (readNum >>= fun n => pure (UInt32.ofInt n)).many size.toNat
    pure (.st ty stVec stOffsetVec)

/-- `ImportConst`, for aggregates that are nested less deep than the first argument. -/
def importConst : Nat → Get (RState T) MIRConst
  | 0 => Get.fail
  | n + 1 => do
    let tag ← readNum
    if tag = 0 then pure .null
    else do
      let ty ← R.importConstBase
      match ConstTag.ofCode tag with
      | some tag => R.importTagged (importConst n) ty tag
      | none => Get.fail

end ConstTables

end BinMpl
end Maple
