import Maple.IR.StructLayout.Basic
import Mathlib.Tactic.Ring
import Mathlib.Data.BitVec

/-!
# The offset of an array element

`MIRArrayType::GetBitOffsetFromArrayAddress` adds up the indices of the dimensions of one array type
and goes on with the element type where that is an array again. It is compared with the row-major
offset of the element.
-/

namespace Maple
namespace StructLayout

/-! ### The row-major offset -/

/-- The row-major linear index in an array of the given dimensions. Missing indices are zero. -/
def linearIndex : List Nat → List Int → Int
  | _ :: ds, i :: is => i * (ds.prod : Nat) + linearIndex ds is
  | [], _ => 0
  | _ :: _, [] => 0

@[simp] lemma linearIndex_nil (is : List Int) : linearIndex [] is = 0 := rfl

@[simp] lemma linearIndex_nil_right (ds : List Nat) : linearIndex ds [] = 0 := by
  cases ds <;> rfl

@[simp] lemma linearIndex_cons (d : Nat) (ds : List Nat) (i : Int) (is : List Int) :
    linearIndex (d :: ds) (i :: is) = i * (ds.prod : Nat) + linearIndex ds is := rfl

lemma linearIndex_append (as bs : List Nat) (is : List Int) :
    linearIndex (as ++ bs) is =
      linearIndex as is * (bs.prod : Nat) + linearIndex bs (is.drop as.length) := by
  induction as generalizing is with
  | nil => simp
  | cons a as ih =>
    cases is with
    | nil => simp
    | cons i is =>
      simp only [List.cons_append, linearIndex_cons, ih, List.prod_append, List.length_cons,
        List.drop_succ_cons]
      push_cast
      ring

lemma linearIndex_append_zeros (ds : List Nat) (is : List Int) (n : Nat) :
    linearIndex ds (is ++ List.replicate n 0) = linearIndex ds is := by
  induction ds generalizing is n with
  | nil => simp
  | cons d ds ih =>
    cases is with
    | nil =>
      cases n with
      | zero => simp
      | succ n =>
        have := ih [] n
        simp_all [List.replicate_succ]
    | cons i is => simp [ih]

def MIRType.isArray : MIRType → Bool
  | .array .. => true
  | _ => false

/-- The size of an element in the array: its alignment in the array is that of the array. -/
def elemSizeOf (targAArch64 : Bool) (alignLog : Nat) (elem : MIRType) : Nat :=
  roundUp (elem.getSize targAArch64) (2 ^ alignLog)

/-- All dimensions of arrays of arrays. -/
def MIRType.dims : MIRType → List Nat
  | .array _ _ _ elem sizeArray => sizeArray ++ elem.dims
  | _ => []

/-- The size of the innermost elements. -/
def MIRType.innerSize (targAArch64 : Bool) : MIRType → Nat
  | .array alignLog _ _ elem _ =>
    if elem.isArray then elem.innerSize targAArch64 else elemSizeOf targAArch64 alignLog elem
  | _ => 0

/-- The row-major offset in bits: each index steps over the sub-arrays or elements behind it. -/
def MIRType.rowMajorOffset (targAArch64 : Bool) : MIRType → List Int → Int
  | .array alignLog _ _ elem sizeArray, is =>
    8 * elemSizeOf targAArch64 alignLog elem * linearIndex sizeArray is +
      elem.rowMajorOffset targAArch64 (is.drop sizeArray.length)
  | _, _ => 0

/-- The elements that are arrays have no padding between them. -/
def MIRType.Unpadded (targAArch64 : Bool) : MIRType → Prop
  | .array alignLog _ _ elem _ =>
    (elem.isArray →
      elemSizeOf targAArch64 alignLog elem = elem.innerSize targAArch64 * elem.dims.prod) ∧
      elem.Unpadded targAArch64
  | _ => True

/-! ### The code -/

abbrev int64 := BitVec 64

/-- The number of elements before the one with the indices and the number of all elements, added up
from the last dimension. -/
def sumOfIndices (sizeArray : List Nat) (indexArray : List int64) : int64 × int64 :=
  (sizeArray.zip indexArray).foldr
    (fun (size, index) (sum, numberOfElemInLowerDim) =>
      (sum + index * numberOfElemInLowerDim, numberOfElemInLowerDim * BitVec.ofNat 64 size)) (0, 1)

/-- `GetBitOffsetFromArrayAddress`, without a result where a `CHECK_FATAL` fails. -/
def MIRType.getBitOffsetFromArrayAddress (targAArch64 : Bool) :
    MIRType → List int64 → Option int64
  | .array alignLog _ _ elem sizeArray, indexArray =>
    let dim := sizeArray.length
    let indexArray := indexArray ++ List.replicate (dim - indexArray.length) 0
    if elem.isArray || indexArray.length == dim then
      let sum := (sumOfIndices sizeArray indexArray).1
      let elemsize := elem.getSize targAArch64
      if elemsize = 0 ∨ sum = 0 then some 0
      else
        let elemsize := roundUp elemsize (2 ^ alignLog)
        let offset := sum * BitVec.ofNat 64 elemsize * 8
        if elem.isArray && dim < indexArray.length then
          (elem.getBitOffsetFromArrayAddress targAArch64 (indexArray.drop dim)).map (offset + ·)
        else some offset
    else none
  | _, _ => none

/-- The first array type, from outside, that the function leaves early has an element at offset
zero: its element type has no size or the linear index there is zero, as a number of 64 bits. -/
def MIRType.ExitsAtZero (targAArch64 : Bool) : MIRType → List Int → Prop
  | .array _ _ _ elem sizeArray, is =>
    if elem.getSize targAArch64 = 0 ∨ BitVec.ofInt 64 (linearIndex sizeArray is) = 0 then
      BitVec.ofInt 64 (elem.rowMajorOffset targAArch64 (is.drop sizeArray.length)) = 0
    else elem.ExitsAtZero targAArch64 (is.drop sizeArray.length)
  | _, _ => True

/-- The offset that is left at the early exit. -/
def MIRType.skippedOffset (targAArch64 : Bool) : MIRType → List Int → Int
  | .array _ _ _ elem sizeArray, is =>
    if elem.getSize targAArch64 = 0 ∨ BitVec.ofInt 64 (linearIndex sizeArray is) = 0 then
      elem.rowMajorOffset targAArch64 (is.drop sizeArray.length)
    else elem.skippedOffset targAArch64 (is.drop sizeArray.length)
  | _, _ => 0

/-! ### The sum of the indices -/

lemma sumOfIndices_eq (sizeArray : List Nat) (indexArray : List int64)
    (hlength : sizeArray.length ≤ indexArray.length) :
    sumOfIndices sizeArray indexArray =
      (BitVec.ofInt 64 (linearIndex sizeArray (indexArray.map BitVec.toInt)),
        BitVec.ofNat 64 sizeArray.prod) := by
  induction sizeArray generalizing indexArray with
  | nil => simp [sumOfIndices]
  | cons size sizeArray ih =>
    cases indexArray with
    | nil => simp at hlength
    | cons index indexArray =>
      have htail := ih indexArray (by simpa using hlength)
      unfold sumOfIndices at htail ⊢
      rw [List.zip_cons_cons, List.foldr_cons, htail]
      ext1
      · simp only [List.map_cons, linearIndex_cons, BitVec.ofInt_add, BitVec.ofInt_mul,
          BitVec.ofInt_toInt, BitVec.ofInt_natCast]
        ring
      · simp only [List.prod_cons, BitVec.ofNat_mul]
        ring

lemma sumOfIndices_pad (sizeArray : List Nat) (indexArray : List int64) :
    (sumOfIndices sizeArray
      (indexArray ++ List.replicate (sizeArray.length - indexArray.length) 0)).1 =
      BitVec.ofInt 64 (linearIndex sizeArray (indexArray.map BitVec.toInt)) := by
  have hlength : sizeArray.length ≤
      (indexArray ++ List.replicate (sizeArray.length - indexArray.length) 0).length := by
    simp only [List.length_append, List.length_replicate]
    omega
  simp only [sumOfIndices_eq _ _ hlength, List.map_append, List.map_replicate]
  exact congrArg _ (linearIndex_append_zeros _ _ _)

/-! ### The row-major offset without indices and without padding -/

@[simp] lemma MIRType.rowMajorOffset_nil (targAArch64 : Bool) (type : MIRType) :
    type.rowMajorOffset targAArch64 [] = 0 := by
  match type with
  | .array _ _ _ elem _ => simp [rowMajorOffset, elem.rowMajorOffset_nil]
  | .prim _ => rfl
  | .struct .. => rfl
  | .union .. => rfl
  | .bitField .. => rfl

lemma MIRType.rowMajorOffset_of_not_array (targAArch64 : Bool) {type : MIRType}
    (harray : type.isArray = false) (is : List Int) : type.rowMajorOffset targAArch64 is = 0 := by
  cases type with
  | array => simp [isArray] at harray
  | _ => rfl

lemma MIRType.skippedOffset_of_not_array (targAArch64 : Bool) {type : MIRType}
    (harray : type.isArray = false) (is : List Int) : type.skippedOffset targAArch64 is = 0 := by
  cases type with
  | array => simp [isArray] at harray
  | _ => rfl

lemma MIRType.dims_of_not_array {type : MIRType} (harray : type.isArray = false) :
    type.dims = [] := by
  cases type with
  | array => simp [isArray] at harray
  | _ => rfl

lemma MIRType.rowMajorOffset_of_unpadded (targAArch64 : Bool) (type : MIRType) (is : List Int)
    (hunpadded : type.Unpadded targAArch64) :
    type.rowMajorOffset targAArch64 is =
      8 * type.innerSize targAArch64 * linearIndex type.dims is := by
  match type with
  | .array alignLog isIncompleteArray elemIsTypedef elem sizeArray =>
    have ih := elem.rowMajorOffset_of_unpadded targAArch64 (is.drop sizeArray.length) hunpadded.2
    cases harray : elem.isArray with
    | false =>
      simp [rowMajorOffset, innerSize, dims, harray, rowMajorOffset_of_not_array targAArch64 harray,
        dims_of_not_array harray]
    | true =>
      simp only [rowMajorOffset, innerSize, dims, harray, if_true, ih, linearIndex_append,
        hunpadded.1 harray]
      push_cast
      ring
  | .prim _ => simp [rowMajorOffset, dims]
  | .struct .. => simp [rowMajorOffset, dims]
  | .union .. => simp [rowMajorOffset, dims]
  | .bitField .. => simp [rowMajorOffset, dims]

/-! ### The early exit -/

lemma MIRType.skippedOffset_nil (targAArch64 : Bool) (type : MIRType) :
    type.skippedOffset targAArch64 [] = 0 := by
  cases type with
  | array => simp [skippedOffset]
  | _ => rfl

lemma MIRType.exitsAtZero_iff (targAArch64 : Bool) (type : MIRType) (is : List Int) :
    type.ExitsAtZero targAArch64 is ↔ BitVec.ofInt 64 (type.skippedOffset targAArch64 is) = 0 := by
  match type with
  | .array _ _ _ elem sizeArray =>
    have ih := elem.exitsAtZero_iff targAArch64 (is.drop sizeArray.length)
    simp only [ExitsAtZero, skippedOffset]
    split_ifs with hexit
    · rfl
    · exact ih
  | .prim _ => simp [ExitsAtZero, skippedOffset]
  | .struct .. => simp [ExitsAtZero, skippedOffset]
  | .union .. => simp [ExitsAtZero, skippedOffset]
  | .bitField .. => simp [ExitsAtZero, skippedOffset]

lemma roundUp_zero (alignLog : Nat) : roundUp 0 (2 ^ alignLog) = 0 := by
  have hpos : 0 < 2 ^ alignLog := Nat.two_pow_pos alignLog
  have hle : u32 (0 + 2 ^ alignLog - 1) ≤ 0 + 2 ^ alignLog - 1 := Nat.mod_le _ _
  rw [roundUp, if_neg (by omega), Nat.mod_eq_of_lt (by omega), Nat.sub_self]

lemma ofInt_levelOffset (elemsize : Nat) (sum : Int) :
    BitVec.ofInt 64 (8 * elemsize * sum) =
      BitVec.ofInt 64 sum * BitVec.ofNat 64 elemsize * 8 := by
  simp only [BitVec.ofInt_mul, BitVec.ofInt_natCast]
  have h8 : BitVec.ofInt 64 8 = 8 := by decide
  rw [h8]
  ring

lemma ofInt_levelOffset_eq_zero (targAArch64 : Bool) (alignLog : Nat) (elem : MIRType) (sum : Int)
    (hexit : elem.getSize targAArch64 = 0 ∨ BitVec.ofInt 64 sum = 0) :
    BitVec.ofInt 64 (8 * elemSizeOf targAArch64 alignLog elem * sum) = 0 := by
  rw [ofInt_levelOffset]
  obtain hsize | hsum := hexit
  · simp [elemSizeOf, hsize, roundUp_zero]
  · simp [hsum]

lemma getBitOffsetFromArrayAddress_eq (targAArch64 : Bool) (type : MIRType)
    (indexArray : List int64) (harray : type.isArray)
    (hlength : indexArray.length ≤ type.dims.length) :
    type.getBitOffsetFromArrayAddress targAArch64 indexArray =
      some (BitVec.ofInt 64 (type.rowMajorOffset targAArch64 (indexArray.map BitVec.toInt) -
        type.skippedOffset targAArch64 (indexArray.map BitVec.toInt))) := by
  match type with
  | .array alignLog isIncompleteArray elemIsTypedef elem sizeArray =>
    have hadmitted : (elem.isArray || (indexArray ++
        List.replicate (sizeArray.length - indexArray.length) 0).length == sizeArray.length) := by
      cases helem : elem.isArray with
      | true => rfl
      | false =>
        simp only [MIRType.dims, MIRType.dims_of_not_array helem, List.append_nil] at hlength
        simp [hlength]
    simp only [MIRType.getBitOffsetFromArrayAddress, MIRType.rowMajorOffset, MIRType.skippedOffset,
      hadmitted, if_true, sumOfIndices_pad]
    by_cases hexit : elem.getSize targAArch64 = 0 ∨
        BitVec.ofInt 64 (linearIndex sizeArray (indexArray.map BitVec.toInt)) = 0
    · rw [if_pos hexit, if_pos hexit, add_sub_cancel_right,
        ofInt_levelOffset_eq_zero targAArch64 alignLog elem _ hexit]
    · rw [if_neg hexit, if_neg hexit, add_sub_assoc, BitVec.ofInt_add, ofInt_levelOffset]
      cases hdone : elem.isArray &&
          decide (sizeArray.length < (indexArray ++
            List.replicate (sizeArray.length - indexArray.length) 0).length) with
      | true =>
        obtain ⟨helem, hlt⟩ := Bool.and_eq_true_iff.mp hdone
        have hlt : sizeArray.length < indexArray.length := by
          simp only [List.length_append, List.length_replicate, decide_eq_true_eq] at hlt
          omega
        have hpad : indexArray ++ List.replicate (sizeArray.length - indexArray.length) 0 =
            indexArray := by
          rw [Nat.sub_eq_zero_of_le hlt.le, List.replicate_zero, List.append_nil]
        have ih := getBitOffsetFromArrayAddress_eq targAArch64 elem
          (indexArray.drop sizeArray.length) helem (by
            simp only [MIRType.dims, List.length_append] at hlength
            simp only [List.length_drop]
            omega)
        rw [if_pos rfl, hpad, ih, List.map_drop, elemSizeOf, Option.map_some]
      | false =>
        rw [if_neg (by simp)]
        have hrest : elem.rowMajorOffset targAArch64
              ((indexArray.map BitVec.toInt).drop sizeArray.length) = 0 ∧
            elem.skippedOffset targAArch64
              ((indexArray.map BitVec.toInt).drop sizeArray.length) = 0 := by
          obtain helem | hlt := Bool.and_eq_false_iff.mp hdone
          · exact ⟨elem.rowMajorOffset_of_not_array targAArch64 helem _,
              elem.skippedOffset_of_not_array targAArch64 helem _⟩
          · rw [List.drop_eq_nil_of_le (by
              simp only [List.length_append, List.length_replicate, decide_eq_false_iff_not] at hlt
              simp only [List.length_map]
              omega)]
            exact ⟨elem.rowMajorOffset_nil targAArch64, elem.skippedOffset_nil targAArch64⟩
        simp [hrest.1, hrest.2, elemSizeOf]

lemma getBitOffsetFromArrayAddress_eq_iff (targAArch64 : Bool) (type : MIRType)
    (indexArray : List int64) (harray : type.isArray)
    (hlength : indexArray.length ≤ type.dims.length) :
    type.getBitOffsetFromArrayAddress targAArch64 indexArray =
        some (BitVec.ofInt 64 (type.rowMajorOffset targAArch64 (indexArray.map BitVec.toInt))) ↔
      type.ExitsAtZero targAArch64 (indexArray.map BitVec.toInt) := by
  rw [getBitOffsetFromArrayAddress_eq targAArch64 type indexArray harray hlength,
    type.exitsAtZero_iff, Option.some_inj, sub_eq_add_neg, BitVec.ofInt_add, BitVec.ofInt_neg,
    add_eq_left, neg_eq_zero]

/-- `GetBitOffsetFromArrayAddress` gives the row-major offset of the element if and only if what is
left of the indices at its early exit steps over nothing. Where the inner arrays have no padding
that is the size of the innermost elements times the linear index over all dimensions. -/
theorem getBitOffsetFromArrayAddress_exact_iff (targAArch64 : Bool) (alignLog : Nat)
    (isIncompleteArray elemIsTypedef : Bool) (elem : MIRType) (sizeArray : List Nat)
    (indexArray : List int64)
    (hlength : indexArray.length ≤
      (MIRType.array alignLog isIncompleteArray elemIsTypedef elem sizeArray).dims.length) :
    let type := MIRType.array alignLog isIncompleteArray elemIsTypedef elem sizeArray
    let indices := indexArray.map BitVec.toInt
    (type.getBitOffsetFromArrayAddress targAArch64 indexArray =
        some (BitVec.ofInt 64 (type.rowMajorOffset targAArch64 indices)) ↔
      type.ExitsAtZero targAArch64 indices) ∧
    (type.Unpadded targAArch64 →
      type.rowMajorOffset targAArch64 indices =
        8 * type.innerSize targAArch64 * linearIndex type.dims indices) :=
  ⟨getBitOffsetFromArrayAddress_eq_iff targAArch64 _ indexArray rfl hlength,
    MIRType.rowMajorOffset_of_unpadded targAArch64 _ _⟩

/-- `<[2] <[3] i32>>`. -/
def nestedArray : MIRType := .array 0 false false (.array 0 false false (.prim 2) [3]) [2]

/-- The offset of the element with the indices 1 and 2 is right. -/
theorem getBitOffsetFromArrayAddress_exact_iff_examples :
    nestedArray.getBitOffsetFromArrayAddress true [1, 2] =
        some (BitVec.ofInt 64 (nestedArray.rowMajorOffset true [1, 2])) ∧
      nestedArray.rowMajorOffset true [1, 2] = 8 * 4 * 5 := by
  have h := getBitOffsetFromArrayAddress_exact_iff true 0 false false
    (.array 0 false false (.prim 2) [3]) [2] [1, 2] (by decide)
  have hexit : nestedArray.ExitsAtZero true [1, 2] := by
    simp [nestedArray, MIRType.ExitsAtZero]
    decide
  have hunpadded : nestedArray.Unpadded true := by
    simp [nestedArray, MIRType.Unpadded, MIRType.isArray]
    decide
  refine ⟨h.1.mpr hexit, (h.2 hunpadded).trans ?_⟩
  decide

/-- The element with the indices 0 and 1 gets the offset of the one with the indices 0 and 0. -/
theorem getBitOffsetFromArrayAddress_leading_zero :
    nestedArray.getBitOffsetFromArrayAddress true [0, 1] = some 0 ∧
      8 * nestedArray.innerSize true * linearIndex nestedArray.dims [0, 1] = 32 ∧
      nestedArray.getBitOffsetFromArrayAddress true [0, 1] ≠
        some (BitVec.ofInt 64 (nestedArray.rowMajorOffset true [0, 1])) := by
  refine ⟨by decide, by decide, by decide⟩

end StructLayout
end Maple
