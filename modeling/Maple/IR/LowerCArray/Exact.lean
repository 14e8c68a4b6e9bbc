import Maple.IR.LowerCArray.Correct

/-!
# When the lowered address is the address of the element

The condition counts what the lowering and the constant offset leave out: padding that is not in the
size of the elements, sub-arrays of 2³² elements and more, the indices behind the early exit of
`GetBitOffsetFromArrayAddress`, and offsets of more than 61 bits.
-/

namespace Maple
namespace LowerCArray

open StructLayout

variable [Target] {ε : Type*}

/-- The bytes that the lowered address leaves out for each index: the padding that is not in the
size of the elements, and the elements of the sub-array that a number of 32 bits does not count. -/
def lostBytes (targAArch64 : Bool) (type : MIRType) : List Int :=
  List.zipWith
    (fun (step : Int) (count : Nat) =>
      step - count * elemSize targAArch64 type +
        2 ^ 32 * (count / 2 ^ 32 : Nat) * elemSize targAArch64 type)
    (type.steps targAArch64) (subProducts type.dims)

/-- The values of the indices. -/
def ArrayNode.indexValues (value : ε → Int) (node : ArrayNode ε) : List Int :=
  node.indices.map (Expr.eval value)

/-- The lowered address is the base plus the indices times the bytes they step over. -/
def IsRowMajor (targAArch64 : Bool) (fold : Expr ε → Option (Expr ε)) (value : ε → Int)
    (node : ArrayNode ε) : Prop :=
  ∃ e, lowerCArray targAArch64 fold node = some e ∧
    e.eval value ≡ node.base.eval value +
      weightedSum (node.arrayType.steps targAArch64) (node.indexValues value) [ZMOD 2 ^ 64]

def IsConstval (index : Expr ε) (n : int64) : Prop :=
  ∃ t v, index = .constval t v ∧ t.format.wrap v = n.toInt

/-- There is an index for each dimension, and they are the given non-negative constants. -/
structure AreConstants (node : ArrayNode ε) (indexArray : List int64) : Prop where
  constval : List.Forall₂ IsConstval node.indices indexArray
  nonneg : ∀ n ∈ indexArray, 0 ≤ n.toInt
  length : indexArray.length = node.arrayType.dims.length

/-- For constant indices the lowered address is the base plus the constant offset in bytes. -/
def AgreesWithOffset (targAArch64 : Bool) (fold : Expr ε → Option (Expr ε)) (value : ε → Int)
    (node : ArrayNode ε) : Prop :=
  ∀ indexArray, AreConstants node indexArray →
    ∃ e offset, lowerCArray targAArch64 fold node = some e ∧
      node.arrayType.getBitOffsetFromArrayAddress targAArch64 indexArray = some offset ∧
      e.eval value ≡ node.base.eval value + offset.toInt / 8 [ZMOD 2 ^ 64]

/-- What the lowered address leaves out comes to nothing. -/
def LosesNothing (targAArch64 : Bool) (type : MIRType) (is : List Int) : Prop :=
  weightedSum (lostBytes targAArch64 type) is ≡ 0 [ZMOD 2 ^ 64]

/-- What the constant offset leaves out, and the multiples of 2⁶¹ by which it is too large for an
`int64` of bits, come to nothing. -/
def OffsetFits (targAArch64 : Bool) (type : MIRType) (is : List Int) : Prop :=
  let left := type.bytesLeftOut targAArch64 is
  left + 2 ^ 61 * ((weightedSum (type.steps targAArch64) is - left + 2 ^ 60) / 2 ^ 61) ≡
    0 [ZMOD 2 ^ 64]

instance (targAArch64 : Bool) (type : MIRType) (is : List Int) :
    Decidable (LosesNothing targAArch64 type is) := inferInstanceAs (Decidable (_ % _ = _ % _))

/-! ### The two halves -/

omit [Target] in
lemma weightedSum_lostBytes (targAArch64 : Bool) (type : MIRType) (is : List Int) :
    weightedSum (((subProducts type.dims).map u32).map Nat.cast) is * elemSize targAArch64 type =
      weightedSum (type.steps targAArch64) is - weightedSum (lostBytes targAArch64 type) is := by
  have hlost : lostBytes targAArch64 type =
      List.zipWith (fun (step : Int) (count : Nat) =>
        id step - (u32 count : Int) * elemSize targAArch64 type)
        (type.steps targAArch64) (subProducts type.dims) := by
    unfold lostBytes
    congr 1
    funext step count
    have hcount : (count : Int) = 2 ^ 32 * (count / 2 ^ 32 : Nat) + u32 count := by
      rw [u32]
      exact_mod_cast (Nat.div_add_mod count (2 ^ 32)).symm
    rw [id_eq, hcount]
    ring_nf
  rw [hlost, weightedSum_zipWith_sub _ _ _ _ _ (by simp), List.map_id,
    weightedSum_map_mul (fun count => (u32 count : Int)), List.map_map]
  simp only [Function.comp_def]
  ring

lemma eval_lowerCArray (targAArch64 : Bool) {fold : Expr ε → Option (Expr ε)} {node : ArrayNode ε}
    {value : ε → Int} (hprim : IsWord node.primType)
    (hfold : ∀ e e', e.primType = node.primType → fold e = some e' →
      e'.eval value ≡ e.eval value [ZMOD 2 ^ 64])
    (harray : node.arrayType.isArray) (hmixed : NotMixed node.arrayType)
    (hdims : ∀ d ∈ node.arrayType.dims, 0 < d)
    (hindices : ∀ index ∈ node.indices, index.primType.isPrimitiveInteger)
    (hlength : 1 ≤ node.indices.length ∧ node.indices.length ≤ node.arrayType.dims.length) :
    ∃ e, lowerCArray targAArch64 fold node = some e ∧
      e.eval value ≡ node.base.eval value +
        (weightedSum (node.arrayType.steps targAArch64) (node.indexValues value) -
          weightedSum (lostBytes targAArch64 node.arrayType) (node.indexValues value))
        [ZMOD 2 ^ 64] := by
  obtain ⟨P, arrayType, base, indices⟩ := node
  match arrayType with
  | .array alignLog isIncompleteArray elemIsTypedef elem sizeArray =>
    simp only at *
    have heq := mpyDims_eq (.array alignLog isIncompleteArray elemIsTypedef elem sizeArray) hmixed
    have hdimsLength : (mpyDims (.array alignLog isIncompleteArray elemIsTypedef elem
        sizeArray)).length = (MIRType.array alignLog isIncompleteArray elemIsTypedef elem
        sizeArray).dims.length := by
      rw [heq, List.length_map, length_subProducts]
    obtain ⟨resNode, hres, hprimRes, heval⟩ := eval_resNode value hprim
      (mpyDims (.array alignLog isIncompleteArray elemIsTypedef elem sizeArray)) indices hindices
      (hdimsLength ▸ hlength) (by
        intro hone
        rw [hdimsLength] at hone
        obtain ⟨d, hd⟩ := List.length_eq_one_iff.mp hone
        rw [heq, hd]
        rfl)
    have hsizes : ∀ size ∈ sizeArray.take indices.length, 0 < size := fun size hsize =>
      hdims size (List.mem_append_left _ (List.mem_of_mem_take hsize))
    refine ⟨_, by
      simp only [lowerCArray, hres, Option.map_some]
      rw [if_neg fun h => h.2 hsizes], ?_⟩
    have hfolded (rAdd : Expr ε) (hrAdd : rAdd.primType = P) :
        ((fold rAdd).getD rAdd).eval value ≡ rAdd.eval value [ZMOD 2 ^ 64] := by
      cases hsome : fold rAdd with
      | none => rfl
      | some e => exact hfold rAdd e hrAdd hsome
    refine (hfolded _ rfl).trans ((eval_address hprim base _ hprimRes).trans ?_)
    rw [← weightedSum_lostBytes, ← heq]
    exact Int.ModEq.rfl.add (heval.mul_right _)
  | .prim _ => simp [MIRType.isArray] at harray
  | .struct .. => simp [MIRType.isArray] at harray
  | .union .. => simp [MIRType.isArray] at harray
  | .bitField .. => simp [MIRType.isArray] at harray

omit [Target] in
lemma bmod_two_pow_61 (n : Int) : n.bmod (2 ^ 61) = n - 2 ^ 61 * ((n + 2 ^ 60) / 2 ^ 61) := by
  norm_num only [Int.bmod_def]
  split_ifs <;> omega

lemma indexValues_of_areConstants {node : ArrayNode ε} {indexArray : List int64}
    (hconst : AreConstants node indexArray) (value : ε → Int) :
    node.indexValues value = indexArray.map BitVec.toInt := by
  obtain ⟨hconstval, -, -⟩ := hconst
  unfold ArrayNode.indexValues
  generalize node.indices = indices at hconstval
  induction hconstval with
  | nil => rfl
  | cons hhead _ ih =>
    obtain ⟨t, v, rfl, hv⟩ := hhead
    rw [List.map_cons, List.map_cons, ih]
    exact congrArg (· :: _) hv

lemma isRowMajor_iff (targAArch64 : Bool) {fold : Expr ε → Option (Expr ε)} {node : ArrayNode ε}
    {value : ε → Int} {e : Expr ε} (he : lowerCArray targAArch64 fold node = some e)
    (heval : e.eval value ≡ node.base.eval value +
      (weightedSum (node.arrayType.steps targAArch64) (node.indexValues value) -
        weightedSum (lostBytes targAArch64 node.arrayType) (node.indexValues value))
      [ZMOD 2 ^ 64]) :
    IsRowMajor targAArch64 fold value node ↔
      LosesNothing targAArch64 node.arrayType (node.indexValues value) := by
  have hvalue : IsRowMajor targAArch64 fold value node ↔
      e.eval value ≡ node.base.eval value +
        weightedSum (node.arrayType.steps targAArch64) (node.indexValues value) [ZMOD 2 ^ 64] := by
    constructor
    · rintro ⟨e', he', h⟩
      obtain rfl := Option.some_inj.mp (he.symm.trans he')
      exact h
    · intro h
      exact ⟨e, he, h⟩
  rw [hvalue, LosesNothing]
  unfold Int.ModEq at heval ⊢
  omega

lemma agreesWithOffset_iff (targAArch64 : Bool) {fold : Expr ε → Option (Expr ε)}
    {node : ArrayNode ε} {value : ε → Int} (harray : node.arrayType.isArray)
    (hrow : IsRowMajor targAArch64 fold value node) :
    AgreesWithOffset targAArch64 fold value node ↔
      ∀ indexArray, AreConstants node indexArray →
        OffsetFits targAArch64 node.arrayType (node.indexValues value) := by
  obtain ⟨e, he, heval⟩ := hrow
  refine forall₂_congr fun indexArray hconst => ?_
  obtain ⟨offset, hoffset, hdiv⟩ := getBitOffsetFromArrayAddress_div_eight targAArch64
    node.arrayType indexArray harray hconst.length.le
  rw [← indexValues_of_areConstants hconst value] at hdiv
  have hagrees : (∃ e offset, lowerCArray targAArch64 fold node = some e ∧
      node.arrayType.getBitOffsetFromArrayAddress targAArch64 indexArray = some offset ∧
      e.eval value ≡ node.base.eval value + offset.toInt / 8 [ZMOD 2 ^ 64]) ↔
      e.eval value ≡ node.base.eval value + offset.toInt / 8 [ZMOD 2 ^ 64] := by
    constructor
    · rintro ⟨e', offset', he', hoffset', h⟩
      obtain rfl := Option.some_inj.mp (he.symm.trans he')
      obtain rfl := Option.some_inj.mp (hoffset.symm.trans hoffset')
      exact h
    · intro h
      exact ⟨e, offset, he, hoffset, h⟩
  rw [hagrees, hdiv, bmod_two_pow_61, OffsetFits]
  unfold Int.ModEq at heval ⊢
  omega

section Examples

/-- `a[i][j]` in `int a[4][5]`, with the base 1000 and the indices 3 and 2. -/
def matrixNode : ArrayNode Nat :=
  ⟨.ptr, .array 0 false false (.prim 2) [4, 5], .other .ptr 0, [.other .u64 1, .other .u64 2]⟩

def matrixValue : Nat → Int
  | 0 => 1000
  | 1 => 3
  | _ => 2

/-- `a[i]` in `int a[2][65537][65537]`, with the base 1000 and the index 3. -/
def hugeNode : ArrayNode Nat :=
  ⟨.ptr, .array 0 false false (.prim 2) [2, 65537, 65537], .other .ptr 0, [.other .u64 1]⟩

end Examples

end LowerCArray
end Maple
