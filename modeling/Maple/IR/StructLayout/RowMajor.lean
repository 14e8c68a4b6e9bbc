import Maple.IR.StructLayout.ArrayOffset
import Mathlib.Data.Int.ModEq

/-!
# The bytes that an index steps over

The sizes of sub-arrays and elements without the 32-bit mask of `RoundUp`, the offset of an element
in bytes as the sum of the indices times the bytes they step over, and what
`GetBitOffsetFromArrayAddress` leaves out of that offset.
-/

namespace Maple
namespace StructLayout

/-! ### Sums of indices with weights -/

/-- The sum of the indices times their weights. -/
def weightedSum : List Int → List Int → Int
  | w :: ws, i :: is => i * w + weightedSum ws is
  | [], _ => 0
  | _ :: _, [] => 0

@[simp] lemma weightedSum_nil (is : List Int) : weightedSum [] is = 0 := rfl

@[simp] lemma weightedSum_nil_right (ws : List Int) : weightedSum ws [] = 0 := by
  cases ws <;> rfl

@[simp] lemma weightedSum_cons (w : Int) (ws : List Int) (i : Int) (is : List Int) :
    weightedSum (w :: ws) (i :: is) = i * w + weightedSum ws is := rfl

lemma weightedSum_append (vs ws is : List Int) :
    weightedSum (vs ++ ws) is = weightedSum vs is + weightedSum ws (is.drop vs.length) := by
  induction vs generalizing is with
  | nil => simp
  | cons v vs ih =>
    cases is with
    | nil => simp
    | cons i is => simp [ih, add_assoc]

lemma weightedSum_map_mul {α : Type*} (f : α → Int) (c : Int) (as : List α) (is : List Int) :
    weightedSum (as.map fun a => f a * c) is = weightedSum (as.map f) is * c := by
  induction as generalizing is with
  | nil => simp
  | cons a as ih =>
    cases is with
    | nil => simp
    | cons i is =>
      simp only [List.map_cons, weightedSum_cons, ih]
      ring

lemma weightedSum_zipWith_sub {α β : Type*} (f : α → Int) (g : β → Int) (as : List α) (bs : List β)
    (is : List Int) (hlength : as.length = bs.length) :
    weightedSum (List.zipWith (fun a b => f a - g b) as bs) is =
      weightedSum (as.map f) is - weightedSum (bs.map g) is := by
  induction as generalizing bs is with
  | nil =>
    obtain rfl := List.length_eq_zero_iff.mp hlength.symm
    simp
  | cons a as ih =>
    cases bs with
    | nil => simp at hlength
    | cons b bs =>
      cases is with
      | nil => simp
      | cons i is =>
        simp only [List.zipWith_cons_cons, List.map_cons, weightedSum_cons,
          ih bs is (by simpa using hlength)]
        ring

/-- The numbers of elements of the sub-arrays behind each dimension. -/
def subProducts : List Nat → List Nat
  | [] => []
  | _ :: ds => ds.prod :: subProducts ds

@[simp] lemma length_subProducts (ds : List Nat) : (subProducts ds).length = ds.length := by
  induction ds with
  | nil => rfl
  | cons _ _ ih => simp [subProducts, ih]

lemma linearIndex_eq_weightedSum (ds : List Nat) (is : List Int) :
    linearIndex ds is = weightedSum ((subProducts ds).map Nat.cast) is := by
  induction ds generalizing is with
  | nil => simp [subProducts]
  | cons d ds ih =>
    cases is with
    | nil => simp
    | cons i is => simp [subProducts, ih]

/-! ### Sizes and steps -/

/-- `RoundUp` without the mask. -/
def alignUp (n align : Nat) : Nat := if align = 0 then n else up n align

/-- The size of a type in bytes, by the rules of `GetSize` in unbounded numbers for arrays. -/
def MIRType.byteSize (targAArch64 : Bool) : MIRType → Nat
  | .array alignLog _ elemIsTypedef elem sizeArray =>
    let size := alignUp (elem.byteSize targAArch64) (2 ^ alignLog) * sizeArray.prod
    if elemIsTypedef then alignUp size (elem.getAlign targAArch64) else size
  | type => type.getSize targAArch64

/-- The size of an element with the padding to the next one. -/
def elemStep (targAArch64 : Bool) (alignLog : Nat) (elem : MIRType) : Nat :=
  alignUp (elem.byteSize targAArch64) (2 ^ alignLog)

/-- The bytes that the index of each dimension steps over. -/
def MIRType.steps (targAArch64 : Bool) : MIRType → List Int
  | .array alignLog _ _ elem sizeArray =>
    (subProducts sizeArray).map (fun n : Nat => (n : Int) * elemStep targAArch64 alignLog elem) ++
      elem.steps targAArch64
  | _ => []

@[simp] lemma MIRType.length_steps (targAArch64 : Bool) (type : MIRType) :
    (type.steps targAArch64).length = type.dims.length := by
  match type with
  | .array _ _ _ elem _ => simp [steps, dims, elem.length_steps]
  | .prim _ => rfl
  | .struct .. => rfl
  | .union .. => rfl
  | .bitField .. => rfl

/-! ### What the constant offset leaves out -/

/-- The bytes that `GetBitOffsetFromArrayAddress` leaves out: what the mask of `RoundUp` cuts off
the elements, and all inner indices at the early exit. -/
def MIRType.bytesLeftOut (targAArch64 : Bool) : MIRType → List Int → Int
  | .array alignLog _ _ elem sizeArray, is =>
    linearIndex sizeArray is *
        (elemStep targAArch64 alignLog elem - elemSizeOf targAArch64 alignLog elem) +
      if elem.getSize targAArch64 = 0 ∨ BitVec.ofInt 64 (linearIndex sizeArray is) = 0 then
        weightedSum (elem.steps targAArch64) (is.drop sizeArray.length)
      else elem.bytesLeftOut targAArch64 (is.drop sizeArray.length)
  | _, _ => 0

lemma MIRType.sub_bytesLeftOut (targAArch64 : Bool) (type : MIRType) (is : List Int) :
    8 * (weightedSum (type.steps targAArch64) is - type.bytesLeftOut targAArch64 is) =
      type.rowMajorOffset targAArch64 is - type.skippedOffset targAArch64 is := by
  match type with
  | .array alignLog _ _ elem sizeArray =>
    have ih := elem.sub_bytesLeftOut targAArch64 (is.drop sizeArray.length)
    simp only [steps, bytesLeftOut, rowMajorOffset, skippedOffset, weightedSum_append,
      weightedSum_map_mul, List.length_map, length_subProducts, ← linearIndex_eq_weightedSum]
    split_ifs with hexit
    · ring
    · rw [add_sub_assoc (8 * _ * _), ← ih]
      ring
  | .prim _ => simp [steps, bytesLeftOut, rowMajorOffset, skippedOffset]
  | .struct .. => simp [steps, bytesLeftOut, rowMajorOffset, skippedOffset]
  | .union .. => simp [steps, bytesLeftOut, rowMajorOffset, skippedOffset]
  | .bitField .. => simp [steps, bytesLeftOut, rowMajorOffset, skippedOffset]

lemma bmod_eight_mul (n : Int) : (8 * n).bmod (2 ^ 64) / 8 = n.bmod (2 ^ 61) := by
  norm_num only [Int.bmod_def]
  split_ifs <;> omega

lemma getBitOffsetFromArrayAddress_div_eight (targAArch64 : Bool) (type : MIRType)
    (indexArray : List int64) (harray : type.isArray)
    (hlength : indexArray.length ≤ type.dims.length) :
    let is := indexArray.map BitVec.toInt
    ∃ offset, type.getBitOffsetFromArrayAddress targAArch64 indexArray = some offset ∧
      offset.toInt / 8 = (weightedSum (type.steps targAArch64) is -
        type.bytesLeftOut targAArch64 is).bmod (2 ^ 61) := by
  intro is
  refine ⟨_, getBitOffsetFromArrayAddress_eq targAArch64 type indexArray harray hlength, ?_⟩
  rw [← type.sub_bytesLeftOut, BitVec.toInt_ofInt, bmod_eight_mul]

end StructLayout
end Maple
