import Maple.IR.LowerCArray.Basic

/-!
# Where lowered array addresses are row-major

The lowered address is compared with the sum of the indices times the bytes they step over, and with
the constant offset.
-/

namespace Maple
namespace LowerCArray

open StructLayout

variable [Target] {ε : Type*}

/-! ### Values modulo 2⁶⁴ -/

/-- The integer types of eight bytes, which the addresses have. -/
def IsWord (t : PrimType) : Prop := t.isPrimitiveInteger ∧ t.size = 8

omit [Target] in
lemma wrap_modEq (f : IntFormat) (hwidth : f.width = 64) (n : Int) :
    f.wrap n ≡ n [ZMOD 2 ^ 64] := by
  have h := f.wrap_emod n
  simpa [IntFormat.modulus, hwidth, Int.ModEq] using h

lemma IsWord.wrap {t : PrimType} (ht : IsWord t) (n : Int) :
    t.format.wrap n ≡ n [ZMOD 2 ^ 64] := by
  apply wrap_modEq
  obtain ⟨-, hsize⟩ := ht
  have hu1 : t ≠ .u1 := by
    rintro rfl
    simp [PrimType.size] at hsize
  simp [PrimType.format, PrimType.actualBitSize, hu1, hsize]

namespace Expr

variable (value : ε → Int)

lemma eval_mem (e : Expr ε) : e.primType.format.Mem (e.eval value) := by
  cases e <;> exact IntFormat.wrap_mem _ _

lemma wrap_getRegPrimType {t : PrimType} {n : Int} (hn : t.format.Mem n) :
    (getRegPrimType t).format.wrap n = n := by
  apply IntFormat.wrap_of_mem
  cases t with
  | i8 | i16 | u1 | u8 | u16 =>
    simp [IntFormat.Mem, IntFormat.minValue, IntFormat.maxValue, IntFormat.modulus,
      PrimType.format, PrimType.actualBitSize, PrimType.size, PrimType.isSignedInteger,
      PrimType.isUnsigned, PrimType.isInteger, getRegPrimType] at hn ⊢
    omega
  | _ => exact hn

lemma eval_cvt_modEq {P : PrimType} (hP : IsWord P) (e : Expr ε) :
    (cvt P (getRegPrimType e.primType) e).eval value ≡ e.eval value [ZMOD 2 ^ 64] := by
  rw [eval, wrap_getRegPrimType (e.eval_mem value)]
  exact hP.wrap _

end Expr

variable {value : ε → Int} {P : PrimType}

lemma isWord_cvtFactor (hP : IsWord P) {e : Expr ε} (he : e.primType.isPrimitiveInteger) :
    IsWord (cvtFactor P e).primType := by
  unfold cvtFactor
  split_ifs with hint hsize
  · simp [he] at hint
  · exact hP
  · exact ⟨he, (not_not.mp hsize).trans hP.2⟩

lemma eval_cvtFactor (hP : IsWord P) {e : Expr ε} (he : e.primType.isPrimitiveInteger) :
    (cvtFactor P e).eval value ≡ e.eval value [ZMOD 2 ^ 64] := by
  unfold cvtFactor
  split_ifs with hint hsize
  · simp [he] at hint
  · exact e.eval_cvt_modEq value hP
  · rfl

lemma eval_newConst (hP : IsWord P) (n : Nat) :
    (newConst P n : Expr ε).eval value ≡ n [ZMOD 2 ^ 64] := by
  refine (hP.wrap _).trans ?_
  rw [uint64, Int.natCast_mod]
  exact Int.mod_modEq _ _

lemma indexVal_modEq (t : PrimType) (v : Int) :
    (indexVal t v : Int) ≡ (Expr.constval t v : Expr ε).eval value [ZMOD 2 ^ 64] := by
  rw [indexVal, Int.toNat_of_nonneg (Int.emod_nonneg _ (by norm_num))]
  exact Int.mod_modEq _ _

variable (value) in
lemma eval_newSum (hP : IsWord P) (mpyNode prevNode : Expr ε) :
    (newSum P mpyNode prevNode).eval value ≡
      mpyNode.eval value + prevNode.eval value [ZMOD 2 ^ 64] := by
  refine (hP.wrap _).trans (Int.ModEq.rfl.add ?_)
  split_ifs
  · exact prevNode.eval_cvt_modEq value hP
  · rfl

lemma eval_mul_modEq {t : PrimType} (ht : IsWord t) {a b : Expr ε} {m n : Int}
    (ha : a.eval value ≡ m [ZMOD 2 ^ 64]) (hb : b.eval value ≡ n [ZMOD 2 ^ 64]) :
    (Expr.mul t a b).eval value ≡ m * n [ZMOD 2 ^ 64] :=
  (ht.wrap _).trans (ha.mul hb)

/-! ### The loop -/

/-- The value of the indices so far, 0 before the first. -/
def sumSoFar (value : ε → Int) (prevNode : Option (Expr ε)) : Int :=
  (prevNode.map (Expr.eval value)).getD 0

variable (value) in
lemma eval_lowerIndex (hP : IsWord P) (prevNode : Option (Expr ε)) (mpyDim : Nat) {index : Expr ε}
    (hindex : index.primType.isPrimitiveInteger) :
    (lowerIndex P prevNode mpyDim index).eval value ≡
      sumSoFar value prevNode + index.eval value * mpyDim [ZMOD 2 ^ 64] := by
  have hproduct : (Expr.mul P (cvtFactor P index) (newConst P mpyDim)).eval value ≡
      index.eval value * mpyDim [ZMOD 2 ^ 64] :=
    eval_mul_modEq hP (eval_cvtFactor hP hindex) (eval_newConst hP mpyDim)
  have hconst {t : PrimType} {v : Int} (n : Nat) (hn : n = indexVal t v * mpyDim) :
      (newConst P n : Expr ε).eval value ≡
        (Expr.constval t v : Expr ε).eval value * mpyDim [ZMOD 2 ^ 64] := by
    refine (eval_newConst hP n).trans ?_
    rw [hn, Nat.cast_mul]
    exact (indexVal_modEq t v).mul_right _
  -- what is not a constant is treated alike
  have hother : (match prevNode with
      | none => Expr.mul P (cvtFactor P index) (newConst P mpyDim)
      | some prevNode =>
        if mpyDim = 1 then newSum P prevNode index
        else newSum P (.mul P (cvtFactor P index) (newConst P mpyDim)) prevNode).eval value ≡
      sumSoFar value prevNode + index.eval value * mpyDim [ZMOD 2 ^ 64] := by
    cases prevNode with
    | none => simpa [sumSoFar] using hproduct
    | some prevNode =>
      simp only [sumSoFar, Option.map_some, Option.getD_some]
      split_ifs with hone
      · simpa [hone] using eval_newSum value hP prevNode index
      · rw [add_comm]
        exact (eval_newSum value hP _ _).trans (hproduct.add_right _)
  cases index with
  | constval t v =>
    cases prevNode with
    | none => simpa [sumSoFar, lowerIndex] using hconst _ rfl
    | some prevNode =>
      rw [add_comm]
      exact (eval_newSum value hP _ _).trans ((hconst _ (Nat.mul_comm _ _)).add_right _)
  | other | add | mul | cvt => cases prevNode <;> exact hother

lemma primType_lowerIndex (prevNode : Option (Expr ε)) (mpyDim : Nat) (index : Expr ε) :
    (lowerIndex P prevNode mpyDim index).primType = P := by
  cases index <;> cases prevNode <;> simp only [lowerIndex] <;> (try split_ifs) <;> rfl

variable (value) in
lemma eval_lowerIndices (hP : IsWord P) (prevNode : Expr ε) (dims : List Nat)
    (indices : List (Expr ε)) (hprev : prevNode.primType = P)
    (hindices : ∀ index ∈ indices, index.primType.isPrimitiveInteger) :
    ∃ resNode, lowerIndices P (some prevNode) (dims.zip indices) = some resNode ∧
      resNode.primType = P ∧
      resNode.eval value ≡ prevNode.eval value +
        weightedSum (dims.map Nat.cast) (indices.map (Expr.eval value)) [ZMOD 2 ^ 64] := by
  induction dims generalizing indices prevNode with
  | nil => exact ⟨prevNode, rfl, hprev, by simp⟩
  | cons mpyDim dims ih =>
    cases indices with
    | nil => exact ⟨prevNode, rfl, hprev, by simp⟩
    | cons index indices =>
      obtain ⟨hindex, hindices⟩ := List.forall_mem_cons.mp hindices
      obtain ⟨resNode, hres, hprim, heval⟩ := ih (lowerIndex P (some prevNode) mpyDim index) indices
        (primType_lowerIndex _ _ _) hindices
      refine ⟨resNode, hres, hprim, heval.trans ?_⟩
      simp only [List.map_cons, weightedSum_cons, ← add_assoc]
      exact (eval_lowerIndex value hP (some prevNode) mpyDim hindex).add_right _

/-! ### The products of the dimensions -/

/-- Arrays of one dimension, nested to any depth. -/
def OneDim : MIRType → Prop
  | .array _ _ _ elem sizeArray => sizeArray.length = 1 ∧ OneDim elem
  | _ => True

/-- Several dimensions in one type, or nested arrays of one dimension. -/
def NotMixed : MIRType → Prop
  | .array _ _ _ elem sizeArray => elem.isArray = false ∨ sizeArray.length = 1 ∧ OneDim elem
  | _ => True

omit [Target] in
lemma u32_u32_mul (m n : Nat) : u32 (u32 m * n) = u32 (m * n) := Nat.mod_mul_mod m n _

omit [Target] in
lemma foldl_u32 (sizes : List Nat) (n : Nat) :
    sizes.foldl (fun mpyDim size => u32 (mpyDim * size)) (u32 n) = u32 (n * sizes.prod) := by
  induction sizes generalizing n with
  | nil => simp
  | cons size sizes ih => rw [List.foldl_cons, u32_u32_mul, ih, List.prod_cons, Nat.mul_assoc]

omit [Target] in
lemma flatMpyDims_eq (sizes : List Nat) : flatMpyDims sizes = (subProducts sizes).map u32 := by
  induction sizes with
  | nil => rfl
  | cons size sizes ih =>
    have hfold := foldl_u32 sizes 1
    rw [one_mul] at hfold
    rw [flatMpyDims, ih, subProducts, List.map_cons, ← hfold]
    rfl

omit [Target] in
lemma mulInnerDims_eq (type : MIRType) (n : Nat) (hone : OneDim type) :
    mulInnerDims type (u32 n) = u32 (n * type.dims.prod) := by
  match type with
  | .array _ _ _ elem sizeArray =>
    obtain ⟨hlength, hone⟩ := hone
    obtain ⟨size, rfl⟩ := List.length_eq_one_iff.mp hlength
    rw [mulInnerDims, u32_u32_mul, mulInnerDims_eq elem _ hone, MIRType.dims, List.singleton_append,
      List.prod_cons, ← Nat.mul_assoc]
    rfl
  | .prim _ => simp [mulInnerDims, MIRType.dims]
  | .struct .. => simp [mulInnerDims, MIRType.dims]
  | .union .. => simp [mulInnerDims, MIRType.dims]
  | .bitField .. => simp [mulInnerDims, MIRType.dims]

omit [Target] in
lemma nestedMpyDims_eq (type : MIRType) (hone : OneDim type) :
    nestedMpyDims type = (subProducts type.dims).map u32 := by
  match type with
  | .array _ _ _ elem sizeArray =>
    obtain ⟨hlength, hone⟩ := hone
    obtain ⟨size, rfl⟩ := List.length_eq_one_iff.mp hlength
    have hinner := mulInnerDims_eq elem 1 hone
    rw [one_mul] at hinner
    rw [nestedMpyDims, nestedMpyDims_eq elem hone, MIRType.dims, List.singleton_append, subProducts,
      List.map_cons, ← hinner]
    rfl
  | .prim _ => rfl
  | .struct .. => rfl
  | .union .. => rfl
  | .bitField .. => rfl

omit [Target] in
lemma mpyDims_eq (type : MIRType) (hmixed : NotMixed type) :
    mpyDims type = (subProducts type.dims).map u32 := by
  match type with
  | .array alignLog isIncompleteArray elemIsTypedef elem sizeArray =>
    obtain helem | ⟨hlength, hone⟩ := hmixed
    · simp [mpyDims, isNestedArray, helem, MIRType.dims, MIRType.dims_of_not_array helem,
        flatMpyDims_eq]
    · cases helem : elem.isArray with
      | false =>
        simp [mpyDims, isNestedArray, helem, MIRType.dims, MIRType.dims_of_not_array helem,
          flatMpyDims_eq]
      | true =>
        simp only [mpyDims, isNestedArray, hlength, helem, BEq.rfl, Bool.and_self, if_true]
        exact nestedMpyDims_eq _ ⟨hlength, hone⟩
  | .prim _ => rfl
  | .struct .. => rfl
  | .union .. => rfl
  | .bitField .. => rfl

/-! ### The address -/

lemma eval_address (hP : IsWord P) (base : Expr ε) {resNode : Expr ε} (esize : Nat)
    (hres : resNode.primType.isPrimitiveInteger) :
    (address P base resNode esize).eval value ≡
      base.eval value + resNode.eval value * esize [ZMOD 2 ^ 64] :=
  (hP.wrap _).trans (Int.ModEq.rfl.add
    (eval_mul_modEq (isWord_cvtFactor hP hres) (eval_cvtFactor hP hres) (eval_newConst hP esize)))

variable (value) in
lemma eval_resNode (hP : IsWord P) (dims : List Nat) (indices : List (Expr ε))
    (hindices : ∀ index ∈ indices, index.primType.isPrimitiveInteger)
    (hlength : 1 ≤ indices.length ∧ indices.length ≤ dims.length)
    (hone : dims.length = 1 → dims = [1]) :
    ∃ resNode,
      (if 1 < dims.length then lowerIndices P none (dims.zip indices) else indices.head?) =
        some resNode ∧
      resNode.primType.isPrimitiveInteger ∧
      resNode.eval value ≡
        weightedSum (dims.map Nat.cast) (indices.map (Expr.eval value)) [ZMOD 2 ^ 64] := by
  match indices, dims with
  | [], _ => simp at hlength
  | _ :: _, [] => simp at hlength
  | index :: indices, mpyDim :: dims =>
    obtain ⟨hindex, hindices⟩ := List.forall_mem_cons.mp hindices
    split_ifs with hlt
    · have hfirst : sumSoFar value (none : Option (Expr ε)) = 0 := rfl
      obtain ⟨resNode, hres, hprim, heval⟩ := eval_lowerIndices value hP
        (lowerIndex P none mpyDim index) dims indices (primType_lowerIndex _ _ _) hindices
      refine ⟨resNode, hres, hprim ▸ hP.1, heval.trans ?_⟩
      simpa [hfirst] using
        (eval_lowerIndex value hP none mpyDim hindex).add_right
          (weightedSum (dims.map Nat.cast) (indices.map (Expr.eval value)))
    · have hdims := hone (by simpa using Nat.le_antisymm (not_lt.mp hlt) (by simp))
      obtain ⟨rfl, rfl⟩ := List.cons_eq_cons.mp hdims
      exact ⟨index, rfl, hindex, by simp⟩

end LowerCArray
end Maple
