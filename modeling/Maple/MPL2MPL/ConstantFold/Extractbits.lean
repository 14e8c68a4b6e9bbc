import Maple.IR.PrimType
import Maple.Lib.IntBits
import Maple.Util.IntVal.Typed

/-!
# Folding of `extractbits`, `sext` and `zext`

`ConstantFold::FoldExtractbits` (`constantfold.cpp`): a constant operand of `sext` or `zext` is
extended, an extraction of the same bits below is deleted, and an extraction that the operand has
made already is left out. The result is compared with the node bit by bit: every bit of a nest of
extractions is known or one bit of the operand below.
-/

namespace Maple
namespace FoldExtractbits

open IntVal (Shape shapeOf shapeOf_eq)

/-- The opcode with the offset, which is zero for `sext` and `zext`. -/
inductive ExtractOp where
  | extractbits (bitsOffset : Nat)
  | sext
  | zext
  deriving DecidableEq, Repr

namespace ExtractOp

def bitsOffset : ExtractOp → Nat
  | extractbits bitsOffset => bitsOffset
  | _ => 0

/-- Whether the field is sign-extended to the type. -/
def isSigned (primType : PrimType) : ExtractOp → Bool
  | extractbits _ => primType.isSignedInteger
  | sext => true
  | zext => false

end ExtractOp

/-- The declared type of what a `dread` or `iread` reads. -/
inductive MirType where
  | scalar (primType : PrimType)
  | bitField (fieldSize : Nat) (primType : PrimType)
  deriving DecidableEq, Repr

namespace MirType

def primType : MirType → PrimType
  | scalar primType => primType
  | bitField _ primType => primType

variable [Target]

/-- `GetSize`, in bytes. -/
def getSize : MirType → Nat
  | scalar primType => primType.size
  | bitField fieldSize _ =>
    if fieldSize = 0 then 0 else if fieldSize ≤ 8 then 1 else (fieldSize + 7) / 8

/-- The numbers that are read. -/
def format : MirType → IntFormat
  | scalar primType => primType.format
  | bitField fieldSize primType => ⟨fieldSize, primType.isSignedInteger⟩

end MirType

/-- A nest of extractions over a constant, over the read of an object, whose declared type is `none`
where a `dynamic_cast` fails, or over another operand. This lowest operand stands as `DispatchFold`
and `PairToExpr` leave it. -/
inductive Expr where
  | constval (primType : PrimType) (value : IntVal)
  | read (primType : PrimType) (mirType : Option MirType)
  | other (primType : PrimType)
  | extract (op : ExtractOp) (primType : PrimType) (bitsSize : Nat) (opnd : Expr)

namespace Expr

def getPrimType : Expr → PrimType
  | constval primType _ => primType
  | read primType _ => primType
  | other primType => primType
  | extract _ primType _ _ => primType

variable [Target]

/-- The numbers that the lowest operand can be; a constant does not depend on a variable. -/
def leafFormat : Expr → IntFormat
  | constval _ _ => ⟨1, false⟩
  | read primType none => primType.format
  | read _ (some mirType) => mirType.format
  | other primType => primType.format
  | extract _ _ _ opnd => opnd.leafFormat

/-- The value of a nest over an operand with the value `v`: the field is cut out, extended, and made
a number of the type. -/
def eval (v : Int) : Expr → Int
  | constval _ value => value.toInt
  | read _ _ => v
  | other _ => v
  | extract op primType bitsSize opnd =>
    primType.format.wrap
      ((⟨bitsSize, op.isSigned primType⟩ : IntFormat).wrap (opnd.eval v / 2 ^ op.bitsOffset))

end Expr

variable [Target]

/-! ### Constants -/

/-- `FoldSignExtendMIRConst`. The shifts of `GetSXTValue` and `GetZXTValue` by `64 - size` are not
defined beyond 64 bits. -/
def foldSignExtendMIRConst (op : ExtractOp) (resultType : PrimType) (size : Nat) (val : IntVal) :
    Option IntVal :=
  if size ≤ IntVal.kWordBitSize then do
    let result :=
      if op = .sext then (val.getSXTValue size).toUInt64 else val.getZXTValue size
    let type ← shapeOf resultType.format.width resultType.format.signed
    return IntVal.ofNumber type result
  else none

def foldSignExtend (op : ExtractOp) (resultType : PrimType) (size : Nat) (cst : IntVal) :
    Option Expr := do
  let val ← cst.truncOrExtend (← shapeOf size (decide (op = .sext)))
  return .constval resultType (← foldSignExtendMIRConst op resultType size val)

/-! ### Extractions of the same bits -/

/-- The operand after a redundant extraction has been deleted. -/
def deleteRedundant (op : ExtractOp) (size : Nat) (opnd : Expr) : Expr :=
  match opnd with
  | .extract opndOp _ opndSize inner =>
    if op.bitsOffset = opndOp.bitsOffset ∧ size = opndSize then inner else opnd
  | _ => opnd

def extractbitsRedundant (op : ExtractOp) (primType : PrimType) (bitsSize : Nat) (opnd : Expr) :
    Bool :=
  if primType.size = 8 then false
  else
    match opnd with
    | .read _ (some mirType) =>
      mirType.primType.isPrimitiveInteger && mirType.getSize * 8 == bitsSize &&
        mirType.primType == primType
    | .extract (.extractbits _) opndType opndSize _ =>
      bitsSize > opndSize && (op = .zext && primType == opndType && opndType.isUnsignedInteger)
    | _ => false

def isPowerOf2 (num : UInt64) : Bool := num != 0 && (~~~(num - 1) &&& num) == num

/-- The check at the end of `FoldExtractbits`. -/
def isReturnedOpnd (op : ExtractOp) (primType : PrimType) (size : Nat) (opnd : Expr) : Bool :=
  op.bitsOffset = 0 && 8 ≤ size && isPowerOf2 (UInt64.ofNat size) && extractbitsRedundant op primType size opnd

/-- `FoldExtractbits` on a node whose operand has been folded. -/
def foldNode (op : ExtractOp) (primType : PrimType) (size : Nat) (e : Expr) : Option Expr :=
  match e, op with
  | .constval _ cst, .sext => foldSignExtend .sext primType size cst
  | .constval _ cst, .zext => foldSignExtend .zext primType size cst
  | _, _ =>
    let opnd := deleteRedundant op size e
    some (if isReturnedOpnd op primType size opnd then opnd else .extract op primType size opnd)

/-- `FoldExtractbits`, which folds the operand first. -/
def foldExtractbits : Expr → Option Expr
  | .extract op primType size opnd => (foldExtractbits opnd).bind (foldNode op primType size)
  | e => some e

/-! ### Well-formed nests -/

namespace Expr

/-- The types are integer types with bits of their own, and fields are not empty. -/
def Ok : Expr → Prop
  | constval _ value => value.Canonical ∧ value.width ≤ value.storageBits
  | read primType none => primType.isPrimitiveInteger = true
  | read _ (some (.scalar primType)) => primType.isPrimitiveInteger = true
  | read _ (some (.bitField fieldSize primType)) =>
    primType.isPrimitiveInteger = true ∧ 0 < fieldSize ∧ fieldSize ≤ primType.format.width
  | other primType => primType.isPrimitiveInteger = true
  | extract _ primType bitsSize opnd =>
    primType.isPrimitiveInteger = true ∧ 0 < bitsSize ∧ opnd.Ok

/-- Every field lies within the type of its operand. -/
def InType : Expr → Prop
  | extract op _ bitsSize opnd =>
    op.bitsOffset + bitsSize ≤ opnd.getPrimType.format.width ∧ opnd.InType
  | _ => True

end Expr

lemma width_pos {t : PrimType} (h : t.isPrimitiveInteger = true) : 0 < t.format.width := by
  have := PrimType.width_cases h
  omega

lemma Expr.leafFormat_pos {e : Expr} (h : e.Ok) : 0 < e.leafFormat.width := by
  induction e with
  | constval primType value => exact Nat.one_pos
  | read primType mirType =>
    cases mirType with
    | none => exact width_pos h
    | some m =>
      cases m with
      | scalar t => exact width_pos h
      | bitField fieldSize t => exact h.2.1
  | other primType => exact width_pos h
  | extract op primType bitsSize opnd ih => exact ih h.2.2

/-! ### The bits of a nest -/

namespace Expr

/-- Where the bits of the value come from. -/
def source : Expr → Nat → BitSource
  | constval _ value => fun i => .known (value.toInt.testBit i)
  | read primType mirType => (read primType mirType).leafFormat.sources .leaf
  | other primType => (other primType).leafFormat.sources .leaf
  | extract op primType bitsSize opnd =>
    primType.format.sources ((⟨bitsSize, op.isSigned primType⟩ : IntFormat).sources
      fun i => opnd.source (op.bitsOffset + i))

lemma testBit_eval {e : Expr} (h : e.Ok) {v : Int} (hv : e.leafFormat.Mem v) (i : Nat) :
    (e.eval v).testBit i = (e.source i).eval v := by
  induction e generalizing i with
  | constval primType value => rfl
  | read primType mirType => exact IntFormat.testBit_sources_leaf (leafFormat_pos h) hv i
  | other primType => exact IntFormat.testBit_sources_leaf (leafFormat_pos h) hv i
  | extract op primType bitsSize opnd ih =>
    obtain ⟨htype, hsize, hopnd⟩ := h
    apply IntFormat.testBit_wrap_sources (width_pos htype)
    apply IntFormat.testBit_wrap_sources hsize
    intro j
    rw [Int.testBit_ediv_two_pow]
    exact ih hopnd hv _

lemma source_below {e : Expr} (h : e.Ok) (i : Nat) : (e.source i).Below e.leafFormat.width := by
  induction e generalizing i with
  | constval primType value => trivial
  | read primType mirType => exact IntFormat.sources_leaf_below (leafFormat_pos h) i
  | other primType => exact IntFormat.sources_leaf_below (leafFormat_pos h) i
  | extract op primType bitsSize opnd ih =>
    apply IntFormat.sources_below
    intro j
    apply IntFormat.sources_below
    intro k
    exact ih h.2.2 _

lemma eval_eq_iff {e e' : Expr} (h : e.Ok) (h' : e'.Ok) (hleaf : e'.leafFormat = e.leafFormat) :
    (∀ v, e.leafFormat.Mem v → e'.eval v = e.eval v) ↔ ∀ i, e'.source i = e.source i := by
  constructor
  · intro heval i
    by_contra hne
    obtain ⟨v, hv, hbit⟩ := BitSource.exists_eval_ne (f := e.leafFormat)
      (hleaf ▸ source_below h' i) (source_below h i) hne
    rw [← testBit_eval h hv, ← testBit_eval h' (hleaf ▸ hv), heval v hv] at hbit
    exact hbit rfl
  · intro hsource v hv
    apply Int.eq_of_testBit_eq
    intro i
    rw [testBit_eval h hv, testBit_eval h' (hleaf ▸ hv), hsource i]

end Expr

/-! ### The deletion of an extraction -/

lemma delete_iff {op opndOp : ExtractOp} {t t' : PrimType} {size : Nat} {e : Expr}
    (ht : t.isPrimitiveInteger = true) (hsize : 0 < size) (he : (Expr.extract opndOp t' size e).Ok) :
    (∀ v, e.leafFormat.Mem v →
      (Expr.extract op t size e).eval v =
        (Expr.extract op t size (.extract opndOp t' size e)).eval v) ↔
    ∀ j < min size t.format.width, (Expr.extract opndOp t' size e).source (op.bitsOffset + j) =
      e.source (op.bitsOffset + j) := by
  have hinner : (Expr.extract op t size e).Ok := ⟨ht, hsize, he.2.2⟩
  have houter : (Expr.extract op t size (.extract opndOp t' size e)).Ok := ⟨ht, hsize, he⟩
  refine (Expr.eval_eq_iff houter hinner rfl).trans ?_
  simp only [Expr.source]
  rw [IntFormat.sources_congr (width_pos ht)]
  constructor
  · intro h j hj
    rw [lt_min_iff] at hj
    have hj' := h j hj.2
    simp only [IntFormat.sources, hj.1, if_true] at hj' ⊢
    exact hj'.symm
  · intro h i hi
    have hbits : ∀ j < size, j < t.format.width → _ := fun j hj hj' => h j (lt_min hj hj')
    rw [IntFormat.sources]
    conv_rhs => rw [IntFormat.sources]
    split_ifs with hlt hs
    · exact (hbits i hlt hi).symm
    · exact (hbits (size - 1) (by omega) (by simp only at hlt; omega)).symm
    · rfl

lemma source_of_offset_zero {opndOp : ExtractOp} {t' : PrimType} {size : Nat} {e : Expr}
    (hoffset : opndOp.bitsOffset = 0) (hle : size ≤ t'.format.width) {j : Nat} (hj : j < size) :
    (Expr.extract opndOp t' size e).source j = e.source j := by
  rw [Expr.source, IntFormat.sources, if_pos (by omega), IntFormat.sources, if_pos hj, hoffset,
    Nat.zero_add]

/-! ### The operand in place of the node -/

omit [Target] in
lemma modulus_mk (n : Nat) (s : Bool) : (((IntFormat.mk n s).modulus : Nat) : Int) = 2 ^ n := by
  simp [IntFormat.modulus]

omit [Target] in
lemma wrap_neg_one (n : Nat) : (IntFormat.mk n false).wrap (-1) = 2 ^ n - 1 := by
  have hpos : (0 : Int) < 2 ^ n := by positivity
  apply IntFormat.wrap_eq_of_mem _ ((IntFormat.mem_unsigned_iff n _).mpr ⟨by omega, by omega⟩)
  rw [modulus_mk, sub_eq_neg_add, Int.add_emod_right]

omit [Target] in
lemma wrap_wrap_field_iff {m n w : Nat} {s : Bool} (sg : Bool) (hm : 0 < m) (hmn : m ≤ n) (hmw : m ≤ w) :
    (∀ v, (⟨m, s⟩ : IntFormat).Mem v →
      v = (⟨w, s⟩ : IntFormat).wrap ((⟨n, sg⟩ : IntFormat).wrap v)) ↔
    w ≤ n ∨ sg = s ∨ s = false ∧ m < n := by
  have hn : 0 < n := by omega
  have hpos : (0 : Int) < 2 ^ n := by positivity
  constructor
  · intro h
    by_contra hnot
    simp only [not_or, not_and, not_lt, not_le] at hnot
    obtain ⟨hlt, hne, hnarrow⟩ := hnot
    have hpow : (2 : Int) ^ n ≤ 2 ^ (w - 1) := pow_le_pow_right₀ (by decide) (by omega)
    have hpow' : (2 : Int) ^ w = 2 * 2 ^ (w - 1) := by
      rw [← pow_succ', Nat.sub_add_cancel (by omega)]
    have hhalf : (1 : Int) ≤ 2 ^ (m - 1) := one_le_pow₀ (by decide)
    cases s with
    | true =>
      obtain rfl : sg = false := by simpa using hne
      have hminus := h (-1) ((IntFormat.mem_signed_iff hm _).mpr ⟨by omega, by omega⟩)
      rw [wrap_neg_one, IntFormat.wrap_of_mem _ ((IntFormat.mem_signed_iff (by omega) _).mpr
        ⟨by omega, by omega⟩)] at hminus
      omega
    | false =>
      obtain rfl : sg = true := by simpa using hne
      obtain rfl : m = n := le_antisymm hmn (hnarrow rfl)
      have hones := h (2 ^ m - 1) ((IntFormat.mem_unsigned_iff m _).mpr ⟨by omega, by omega⟩)
      have hfield : (⟨m, true⟩ : IntFormat).wrap (2 ^ m - 1) = -1 := by
        apply IntFormat.wrap_eq_of_mem _ ((IntFormat.mem_signed_iff hm _).mpr ⟨by omega, by omega⟩)
        rw [modulus_mk, sub_eq_neg_add, Int.add_emod_right]
      rw [hfield, wrap_neg_one] at hones
      omega
  · intro h v hv
    have hmem : (⟨w, s⟩ : IntFormat).Mem v := hv.of_width_le hmw rfl
    obtain hle | rfl | ⟨rfl, hlt⟩ := h
    · rw [IntFormat.wrap_wrap_of_width_le hle, IntFormat.wrap_of_mem _ hmem]
    · rw [IntFormat.wrap_of_mem ⟨n, sg⟩ (hv.of_width_le hmn rfl), IntFormat.wrap_of_mem _ hmem]
    · cases sg with
      | false => rw [IntFormat.wrap_of_mem ⟨n, false⟩ (hv.of_width_le hmn rfl),
          IntFormat.wrap_of_mem _ hmem]
      | true =>
        have hpow : (2 : Int) ^ m ≤ 2 ^ (n - 1) := pow_le_pow_right₀ (by decide) (by omega)
        rw [IntFormat.mem_unsigned_iff] at hv
        rw [IntFormat.wrap_of_mem ⟨n, true⟩ ((IntFormat.mem_signed_iff hn v).mpr
          ⟨by omega, by omega⟩), IntFormat.wrap_of_mem _ hmem]

lemma returned_iff {op : ExtractOp} {t : PrimType} {size : Nat} {opnd : Expr}
    (ht : t.isPrimitiveInteger = true) (hsize : 0 < size) (hopnd : opnd.Ok)
    (h : isReturnedOpnd op t size opnd = true) :
    (∀ v, opnd.leafFormat.Mem v → opnd.eval v = (Expr.extract op t size opnd).eval v) ↔
    ∀ p fieldSize ft, opnd = .read p (some (.bitField fieldSize ft)) →
      t.format.width ≤ size ∨ op.isSigned t = t.isSignedInteger ∨
        t.isSignedInteger = false ∧ fieldSize < size := by
  simp only [isReturnedOpnd, Bool.and_eq_true, decide_eq_true_eq] at h
  obtain ⟨⟨⟨hoffset, -⟩, -⟩, hredundant⟩ := h
  unfold extractbitsRedundant at hredundant
  split_ifs at hredundant with hconservative
  cases opnd with
  | constval primType value => cases hredundant
  | other primType => cases hredundant
  | read p mirType =>
    cases mirType with
    | none => cases hredundant
    | some m =>
      simp only [Bool.and_eq_true, beq_iff_eq] at hredundant
      obtain ⟨⟨-, hbits⟩, rfl⟩ := hredundant
      cases m with
      | scalar ft =>
        refine iff_of_true ?_ (fun p fieldSize ft' h => by cases h)
        intro v hv
        have hv' : ft.format.Mem v := hv
        have hle : ft.format.width ≤ size := by
          change (if ft = .u1 then 1 else ft.size * 8) ≤ size
          change ft.size * 8 = size at hbits
          split <;> omega
        simp only [Expr.eval, hoffset, pow_zero, Int.ediv_one, MirType.primType]
        rw [IntFormat.wrap_wrap_of_width_le hle, ft.format.wrap_of_mem hv']
      | bitField fieldSize ft =>
        obtain ⟨-, hpos, hfield⟩ := hopnd
        have hle : fieldSize ≤ size := by
          change (if fieldSize = 0 then 0 else if fieldSize ≤ 8 then 1
            else (fieldSize + 7) / 8) * 8 = size at hbits
          split_ifs at hbits <;> omega
        have hwrap := wrap_wrap_field_iff (s := ft.isSignedInteger) (op.isSigned ft) hpos hle
          hfield
        simp only [Expr.eval, hoffset, pow_zero, Int.ediv_one, MirType.primType]
        refine hwrap.trans ?_
        constructor
        · intro h p' fieldSize' ft' heq
          cases heq
          exact h
        · intro h
          exact h p fieldSize ft rfl
  | extract opndOp opndType opndSize e =>
    refine iff_of_true ?_ (fun p fieldSize ft' h => by cases h)
    cases opndOp with
    | sext => cases hredundant
    | zext => cases hredundant
    | extractbits offset =>
      simp only [Bool.and_eq_true, decide_eq_true_eq, beq_iff_eq] at hredundant
      obtain ⟨hgt, ⟨rfl, rfl⟩, hunsigned⟩ := hredundant
      intro v hv
      have hsigned : t.isSignedInteger = false := by
        simp only [PrimType.isUnsignedInteger, Bool.and_eq_true] at hunsigned
        simp [PrimType.isSignedInteger, hunsigned.1]
      have hpow : (2 : Int) ^ opndSize ≤ 2 ^ size := pow_le_pow_right₀ (by decide) (by omega)
      have hformat : t.format = ⟨t.format.width, false⟩ := by rw [← hsigned]; rfl
      simp only [Expr.eval, ExtractOp.isSigned, hsigned, hoffset, pow_zero, Int.ediv_one]
      generalize hz : (⟨opndSize, false⟩ : IntFormat).wrap (e.eval v / _) = z
      have hzmem : (⟨opndSize, false⟩ : IntFormat).Mem z := hz ▸ IntFormat.wrap_mem _ _
      rw [IntFormat.mem_unsigned_iff] at hzmem
      have hfield : (⟨size, false⟩ : IntFormat).Mem (t.format.wrap z) := by
        rw [hformat, IntFormat.wrap_unsigned, IntFormat.mem_unsigned_iff]
        have hpos : (0 : Int) < 2 ^ t.format.width := by positivity
        have hnn := Int.emod_nonneg z hpos.ne'
        have hdiv := Int.emod_add_mul_ediv z (2 ^ t.format.width)
        have hquot := mul_nonneg hpos.le (Int.ediv_nonneg hzmem.1 hpos.le)
        omega
      rw [IntFormat.wrap_of_mem _ hfield, IntFormat.wrap_wrap]

/-! ### The extension of a constant -/

omit [Target] in
lemma getSXTValue_width {a : IntVal} (h : a.IsOneWord) :
    a.getSXTValue a.width = a.getSXTValue 0 := by
  have hpos := a.width_pos
  have hle : a.width ≤ 64 := h
  have hwidth : a.width % 2 ^ 8 = a.width := Nat.mod_eq_of_lt (by omega)
  simp only [IntVal.getSXTValue, ne_eq, hpos.ne', not_false_eq_true, if_true, not_true_eq_false,
    if_false, hwidth]

omit [Target] in
lemma getZXTValue_width {a : IntVal} (h : a.IsOneWord) (hcanon : a.Canonical) :
    a.getZXTValue a.width = a.getZXTValue 0 := by
  rw [← UInt64.toNat_inj]
  simp only [IntVal.getZXTValue, ne_eq, a.width_pos.ne', not_false_eq_true, if_true,
    not_true_eq_false, if_false]
  exact (IntVal.toNat_shift_back h hcanon).trans h.word_eq.symm

omit [Target] in
lemma word_eq_getExtValue (op : ExtractOp) {val : IntVal} (h : val.IsOneWord)
    (hcanon : val.Canonical) (hsign : val.sign = decide (op = .sext)) :
    (if op = .sext then (val.getSXTValue val.width).toUInt64 else val.getZXTValue val.width) =
      (val.getExtValue 0).toUInt64 := by
  rw [IntVal.getExtValue, hsign, getSXTValue_width h, getZXTValue_width h hcanon]
  by_cases hop : op = .sext
  · rw [if_pos hop, if_pos (decide_eq_true hop)]
  · rw [if_neg hop, if_neg (by simpa using hop), UInt64.toUInt64_toInt64]

lemma foldSignExtend_spec (op : ExtractOp) {t : PrimType} (ht : t.isPrimitiveInteger = true)
    {size : Nat} (hsize : 0 < size) (hle : size ≤ 64) {c : IntVal} (hcanon : c.Canonical)
    (hcap : c.width ≤ c.storageBits) :
    ∃ r, foldSignExtend op t size c = some (.constval t r) ∧
      (r.Canonical ∧ r.width ≤ r.storageBits) ∧
      r.toInt = t.format.wrap ((⟨64, t.format.signed⟩ : IntFormat).wrap
        ((⟨size, decide (op = .sext)⟩ : IntFormat).wrap c.toInt)) := by
  have hwidth := PrimType.width_cases ht
  obtain ⟨s, hs, hswidth, hssign⟩ := shapeOf_eq hsize (by omega) (decide (op = .sext))
  obtain ⟨st, hst, hstwidth, hstsign⟩ :=
    shapeOf_eq (width_pos ht) (by omega) t.format.signed
  have hone : s.IsOneWord := by
    change s.width ≤ 64
    omega
  have hprim : st.IsPrim := by
    rcases Nat.lt_or_ge 64 t.format.width with hlt | hge
    · exact Or.inr (by omega)
    · exact Or.inl (by change st.width ≤ 64; omega)
  obtain ⟨val, hval, hrep⟩ := IntVal.truncOrExtend_represents hcanon hcap (Or.inl hone)
  have hshape : val.width = size := (congrArg Shape.width hrep.shape_eq).trans hswidth
  have hvone : val.IsOneWord := by
    change val.width ≤ 64
    omega
  have hword := word_eq_getExtValue op hvone hrep.canonical
    ((congrArg Shape.sign hrep.shape_eq).trans hssign)
  rw [hshape] at hword
  have hnum := IntVal.ofNumber_represents hprim (val.getExtValue 0).toUInt64
  refine ⟨IntVal.ofNumber st (val.getExtValue 0).toUInt64, ?_,
    ⟨hnum.canonical, hnum.width_le_storageBits⟩, ?_⟩
  · have hmir : foldSignExtendMIRConst op t size val =
        some (IntVal.ofNumber st (val.getExtValue 0).toUInt64) := by
      rw [foldSignExtendMIRConst, if_pos hle]
      simp only [hword, hst]
      rfl
    simp only [foldSignExtend, hs, Option.bind_eq_bind, Option.bind_some, hval, hmir]
    rfl
  · have hsformat : s.format = ⟨size, decide (op = .sext)⟩ := by
      rw [Shape.format, hswidth, hssign]
    have htformat : st.format = t.format := by
      rw [Shape.format, hstwidth, hstsign]
    rw [hnum.toInt_eq, htformat, hstsign, ← hsformat, ← hrep.toInt_eq]
    congr 1
    rw [IntFormat.wrap_eq_wrap_iff, IntVal.toNat_getExtValue hvone hrep.canonical]
    exact Int.emod_emod_of_dvd _ (dvd_refl _)

lemma foldSignExtend_of_lt {op : ExtractOp} {t : PrimType} {size : Nat} (hlt : 64 < size)
    (c : IntVal) : foldSignExtend op t size c = none := by
  have hmir : ∀ val, foldSignExtendMIRConst op t size val = none := fun val =>
    if_neg (not_le.mpr hlt)
  simp [foldSignExtend, hmir]

omit [Target] in
lemma mem_wide {n : Nat} {s : Bool} (hn : n ≤ 64) {x : Int} (hx : (⟨n, s⟩ : IntFormat).Mem x) :
    (⟨128, true⟩ : IntFormat).Mem x := by
  cases s with
  | true => exact hx.of_width_le (show n ≤ 128 by omega) rfl
  | false =>
    have hpow : (2 : Int) ^ n ≤ 2 ^ 64 := pow_le_pow_right₀ (by decide) hn
    rw [IntFormat.mem_unsigned_iff] at hx
    rw [IntFormat.mem_signed_iff (by decide)]
    omega

omit [Target] in
lemma wrap_word_iff {w n : Nat} {s sg : Bool} {x : Int} (hw : w ≤ 64 ∨ w = 128)
    (hle : n ≤ 64) (hx : (⟨n, sg⟩ : IntFormat).Mem x) :
    (⟨w, s⟩ : IntFormat).wrap ((⟨64, s⟩ : IntFormat).wrap x) = (⟨w, s⟩ : IntFormat).wrap x ↔
      w ≤ 64 ∨ (⟨64, s⟩ : IntFormat).Mem x := by
  rcases hw with hw | rfl
  · exact iff_of_true (IntFormat.wrap_wrap_of_width_le hw x) (Or.inl hw)
  · rw [or_iff_right (by decide), ← IntFormat.wrap_eq_self_iff]
    constructor
    · intro h
      exact IntFormat.eq_of_mem_of_emod_eq ⟨128, true⟩ (mem_wide (le_refl 64) (IntFormat.wrap_mem _ x))
        (mem_wide hle hx) ((IntFormat.wrap_eq_wrap_iff ⟨128, s⟩ _ _).mp h)
    · intro h
      rw [h]

/-! ### One node -/

/-- What keeps the value of a node when its operand has been folded to `e`. -/
structure Keeps (op : ExtractOp) (t : PrimType) (size : Nat) (e : Expr) : Prop where
  /-- An extended constant has at most 64 bits, and its number is one of 64 bits of the sign of the
  type, or the type has no more bits. -/
  const : ∀ p c, e = .constval p c → op = .sext ∨ op = .zext → size ≤ 64 ∧
    (t.format.width ≤ 64 ∨ (⟨64, t.format.signed⟩ : IntFormat).Mem
      ((⟨size, decide (op = .sext)⟩ : IntFormat).wrap c.toInt))
  /-- An extraction that is deleted has left in place the bits that are read. -/
  inner : ∀ opndOp t' e', e = .extract opndOp t' size e' → op.bitsOffset = opndOp.bitsOffset →
    ∀ j < min size t.format.width, e.source (op.bitsOffset + j) = e'.source (op.bitsOffset + j)
  /-- A bit-field that is read in place of the node is extended as in the node, or has no bit where
  this would be seen. -/
  read : isReturnedOpnd op t size (deleteRedundant op size e) = true →
    ∀ p fieldSize ft, deleteRedundant op size e = .read p (some (.bitField fieldSize ft)) →
      t.format.width ≤ size ∨ op.isSigned t = t.isSignedInteger ∨
        t.isSignedInteger = false ∧ fieldSize < size

lemma foldNode_of_const {op : ExtractOp} (hop : op = .sext ∨ op = .zext) (t : PrimType) (size : Nat)
    (p : PrimType) (c : IntVal) :
    foldNode op t size (.constval p c) = foldSignExtend op t size c := by
  rcases hop with rfl | rfl <;> rfl

lemma foldNode_of_not_const {op : ExtractOp} {e : Expr}
    (h : ∀ p c, e = .constval p c → ¬(op = .sext ∨ op = .zext)) (t : PrimType) (size : Nat) :
    foldNode op t size e = some (if isReturnedOpnd op t size (deleteRedundant op size e) then
      deleteRedundant op size e else .extract op t size (deleteRedundant op size e)) := by
  cases e with
  | constval p c =>
    cases op with
    | extractbits offset => rfl
    | sext => exact absurd (Or.inl rfl) (h p c rfl)
    | zext => exact absurd (Or.inr rfl) (h p c rfl)
  | read p mirType => rfl
  | other p => rfl
  | extract opndOp t' size' e' => rfl

omit [Target] in
lemma isSigned_of_ext {op : ExtractOp} (hop : op = .sext ∨ op = .zext) (t : PrimType) :
    op.bitsOffset = 0 ∧ op.isSigned t = decide (op = .sext) := by
  rcases hop with rfl | rfl <;> exact ⟨rfl, rfl⟩

section

variable {op : ExtractOp} {t : PrimType} {size : Nat} {e : Expr}
  (ht : t.isPrimitiveInteger = true) (hsize : 0 < size) (he : e.Ok)
include ht hsize he

lemma foldNode_const_iff {p : PrimType} {c : IntVal} (heq : e = .constval p c)
    (hop : op = .sext ∨ op = .zext) :
    (∃ r, foldNode op t size e = some r ∧ ∀ v, e.leafFormat.Mem v →
      r.eval v = (Expr.extract op t size e).eval v) ↔ Keeps op t size e := by
  subst heq
  obtain ⟨hoffset, hsigned⟩ := isSigned_of_ext hop t
  have hkeeps : Keeps op t size (.constval p c) ↔ size ≤ 64 ∧
      (t.format.width ≤ 64 ∨ (⟨64, t.format.signed⟩ : IntFormat).Mem
        ((⟨size, decide (op = .sext)⟩ : IntFormat).wrap c.toInt)) := by
    constructor
    · intro h
      exact h.const p c rfl hop
    · intro h
      refine ⟨?_, nofun, nofun⟩
      intro p' c' heq _
      cases heq
      exact h
  have hvalue : ∀ v, (Expr.extract op t size (.constval p c)).eval v =
      t.format.wrap ((⟨size, decide (op = .sext)⟩ : IntFormat).wrap c.toInt) := by
    intro v
    simp only [Expr.eval, hoffset, hsigned, pow_zero, Int.ediv_one]
  rw [hkeeps, foldNode_of_const hop]
  rcases Nat.lt_or_ge 64 size with hlt | hle
  · rw [foldSignExtend_of_lt hlt]
    exact iff_of_false (by simp) (fun h => absurd h.1 (not_le.mpr hlt))
  · obtain ⟨r, hr, -, hrval⟩ := foldSignExtend_spec op ht hsize hle he.1 he.2
    have hwide := wrap_word_iff (w := t.format.width) (s := t.format.signed)
      (by have := PrimType.width_cases ht; omega) hle
      (IntFormat.wrap_mem ⟨size, decide (op = .sext)⟩ c.toInt)
    rw [hr, and_iff_right hle, ← hwide]
    constructor
    · rintro ⟨r', hr', heval⟩
      cases hr'
      have hv := heval 0 (show (⟨1, false⟩ : IntFormat).Mem 0 by decide)
      rw [hvalue] at hv
      exact hrval.symm.trans hv
    · intro h
      refine ⟨_, rfl, ?_⟩
      intro v _
      rw [hvalue]
      exact hrval.trans h

variable (op) in
lemma deleteRedundant_iff :
    (∀ v, e.leafFormat.Mem v → (Expr.extract op t size (deleteRedundant op size e)).eval v =
      (Expr.extract op t size e).eval v) ↔
    ∀ opndOp t' e', e = .extract opndOp t' size e' → op.bitsOffset = opndOp.bitsOffset →
      ∀ j < min size t.format.width,
        e.source (op.bitsOffset + j) = e'.source (op.bitsOffset + j) := by
  by_cases hsame : ∃ opndOp t' e', e = .extract opndOp t' size e' ∧
      op.bitsOffset = opndOp.bitsOffset
  · obtain ⟨opndOp, t', e', rfl, hoffset⟩ := hsame
    have hdelete : deleteRedundant op size (.extract opndOp t' size e') = e' :=
      if_pos ⟨hoffset, rfl⟩
    rw [hdelete]
    refine (delete_iff ht hsize he).trans ?_
    constructor
    · intro h opndOp' t'' e'' heq _
      cases heq
      exact h
    · intro h
      exact h opndOp t' e' rfl hoffset
  · have hkeep : deleteRedundant op size e = e := by
      unfold deleteRedundant
      split
      · rename_i opndOp t' size' e'
        rw [if_neg]
        rintro ⟨hoffset, rfl⟩
        exact hsame ⟨opndOp, t', e', rfl, hoffset⟩
      · rfl
    rw [hkeep]
    refine iff_of_true (fun v _ => rfl) ?_
    intro opndOp t' e' heq hoffset
    exact absurd ⟨opndOp, t', e', heq, hoffset⟩ hsame

variable (op size) in
omit ht hsize in
lemma deleteRedundant_ok : (deleteRedundant op size e).Ok ∧
    (deleteRedundant op size e).leafFormat = e.leafFormat := by
  unfold deleteRedundant
  split
  · split_ifs
    · exact ⟨he.2.2, rfl⟩
    · exact ⟨he, rfl⟩
  · exact ⟨he, rfl⟩

variable (op) in
lemma foldNode_iff (hin : ∀ opndOp t' size' e', e = .extract opndOp t' size' e' →
      op.bitsOffset + size ≤ t'.format.width) :
    (∃ r, foldNode op t size e = some r ∧ ∀ v, e.leafFormat.Mem v →
      r.eval v = (Expr.extract op t size e).eval v) ↔ Keeps op t size e := by
  by_cases hconst : ∃ p c, e = .constval p c ∧ (op = .sext ∨ op = .zext)
  · obtain ⟨p, c, heq, hop⟩ := hconst
    exact foldNode_const_iff ht hsize he heq hop
  have hnot : ∀ p c, e = .constval p c → ¬(op = .sext ∨ op = .zext) := fun p c heq hop =>
    hconst ⟨p, c, heq, hop⟩
  obtain ⟨hok, hleaf⟩ := deleteRedundant_ok op size he
  have hinner := deleteRedundant_iff op ht hsize he
  rw [foldNode_of_not_const hnot]
  by_cases hret : isReturnedOpnd op t size (deleteRedundant op size e) = true
  · have hoffset : op.bitsOffset = 0 := by
      simp only [isReturnedOpnd, Bool.and_eq_true, decide_eq_true_eq] at hret
      exact hret.1.1.1
    have hdelete := hinner.mpr (by
      intro opndOp t' e' heq hsame j hj
      subst heq
      have hle := hin opndOp t' size e' rfl
      rw [hoffset, Nat.zero_add]
      exact source_of_offset_zero (hsame.symm.trans hoffset) (by omega) (lt_min_iff.mp hj).1)
    have hreturned := returned_iff ht hsize hok hret
    rw [if_pos hret]
    constructor
    · rintro ⟨r, hr, heval⟩
      cases hr
      refine ⟨fun p c heq hop => absurd hop (hnot p c heq), hinner.mp hdelete, fun _ => ?_⟩
      apply hreturned.mp
      intro v hv
      rw [hleaf] at hv
      rw [heval v hv, hdelete v hv]
    · intro h
      refine ⟨_, rfl, ?_⟩
      intro v hv
      rw [hreturned.mpr (h.read hret) v (hleaf ▸ hv), hdelete v hv]
  · rw [if_neg hret]
    constructor
    · rintro ⟨r, hr, heval⟩
      cases hr
      exact ⟨fun p c heq hop => absurd hop (hnot p c heq), hinner.mp heval,
        fun h => absurd h hret⟩
    · intro h
      exact ⟨_, rfl, hinner.mpr h.inner⟩

end

/-! ### Nests -/

/-- A property of all extractions of a nest. -/
def Expr.All (P : ExtractOp → PrimType → Nat → Expr → Prop) : Expr → Prop
  | .extract op t size opnd => P op t size opnd ∧ opnd.All P
  | _ => True

/-- `FoldExtractbits` gives an expression with the value of the node. -/
def Preserved (op : ExtractOp) (t : PrimType) (size : Nat) (opnd : Expr) : Prop :=
  ∃ r, foldExtractbits (.extract op t size opnd) = some r ∧ ∀ v, opnd.leafFormat.Mem v →
    r.eval v = (Expr.extract op t size opnd).eval v

/-- The conditions for a node, with its operand as the fold leaves it. -/
def KeepsFolded (op : ExtractOp) (t : PrimType) (size : Nat) (opnd : Expr) : Prop :=
  ∃ e, foldExtractbits opnd = some e ∧ Keeps op t size e

/-- What the fold of a well-formed nest is. -/
structure Folded (e r : Expr) : Prop where
  ok : r.Ok
  leafFormat_eq : r.leafFormat = e.leafFormat
  type_eq : ∀ op t size opnd, r = .extract op t size opnd → t = e.getPrimType

lemma type_eq_of_returned {op opndOp : ExtractOp} {t t' : PrimType} {size size' : Nat} {e : Expr}
    (h : isReturnedOpnd op t size (.extract opndOp t' size' e) = true) : t' = t := by
  simp only [isReturnedOpnd, Bool.and_eq_true] at h
  have hredundant := h.2
  unfold extractbitsRedundant at hredundant
  split_ifs at hredundant
  cases opndOp with
  | sext => cases hredundant
  | zext => cases hredundant
  | extractbits offset =>
    simp only [Bool.and_eq_true, decide_eq_true_eq, beq_iff_eq] at hredundant
    exact hredundant.2.1.2.symm

lemma foldNode_folded {op : ExtractOp} {t : PrimType} {size : Nat} {e r : Expr}
    (ht : t.isPrimitiveInteger = true) (hsize : 0 < size) (he : e.Ok)
    (h : foldNode op t size e = some r) : Folded (.extract op t size e) r := by
  by_cases hconst : ∃ p c, e = .constval p c ∧ (op = .sext ∨ op = .zext)
  · obtain ⟨p, c, rfl, hop⟩ := hconst
    rw [foldNode_of_const hop] at h
    rcases Nat.lt_or_ge 64 size with hlt | hle
    · rw [foldSignExtend_of_lt hlt] at h
      cases h
    · obtain ⟨r', hr', hok, -⟩ := foldSignExtend_spec op ht hsize hle he.1 he.2
      cases hr'.symm.trans h
      exact ⟨hok, rfl, nofun⟩
  · rw [foldNode_of_not_const fun p c heq hop => hconst ⟨p, c, heq, hop⟩, Option.some_inj] at h
    obtain ⟨hok, hleaf⟩ := deleteRedundant_ok op size he
    subst h
    split_ifs with hret
    · refine ⟨hok, hleaf, ?_⟩
      intro op' t' size' opnd heq
      rw [heq] at hret
      exact type_eq_of_returned hret
    · refine ⟨⟨ht, hsize, hok⟩, hleaf, ?_⟩
      intro op' t' size' opnd heq
      cases heq
      rfl

lemma foldExtractbits_folded {e r : Expr} (he : e.Ok) (h : foldExtractbits e = some r) :
    Folded e r := by
  induction e generalizing r with
  | constval p c =>
    cases h
    exact ⟨he, rfl, nofun⟩
  | read p mirType =>
    cases h
    exact ⟨he, rfl, nofun⟩
  | other p =>
    cases h
    exact ⟨he, rfl, nofun⟩
  | extract op t size opnd ih =>
    obtain ⟨e', he', hr⟩ := Option.bind_eq_some_iff.mp h
    have hfolded := ih he.2.2 he'
    have hnode := foldNode_folded he.1 he.2.1 hfolded.ok hr
    exact ⟨hnode.ok, hnode.leafFormat_eq.trans hfolded.leafFormat_eq, hnode.type_eq⟩

lemma exists_folded_of_all {e : Expr} (h : e.All Preserved) :
    ∃ r, foldExtractbits e = some r ∧ ∀ v, e.leafFormat.Mem v → r.eval v = e.eval v := by
  cases e with
  | constval p c => exact ⟨_, rfl, fun v _ => rfl⟩
  | read p mirType => exact ⟨_, rfl, fun v _ => rfl⟩
  | other p => exact ⟨_, rfl, fun v _ => rfl⟩
  | extract op t size opnd => exact h.1

lemma preserved_iff {op : ExtractOp} {t : PrimType} {size : Nat} {opnd : Expr}
    (hok : (Expr.extract op t size opnd).Ok) (hin : (Expr.extract op t size opnd).InType)
    (hopnd : opnd.All Preserved) : Preserved op t size opnd ↔ KeepsFolded op t size opnd := by
  obtain ⟨e, he, heval⟩ := exists_folded_of_all hopnd
  have hfolded := foldExtractbits_folded hok.2.2 he
  have hnode := foldNode_iff op hok.1 hok.2.1 hfolded.ok (by
    intro opndOp t' size' e' heq
    rw [hfolded.type_eq _ _ _ _ heq]
    exact hin.1)
  have hsame : ∀ v, opnd.leafFormat.Mem v →
      (Expr.extract op t size e).eval v = (Expr.extract op t size opnd).eval v := by
    intro v hv
    rw [Expr.eval, Expr.eval, heval v hv]
  rw [hfolded.leafFormat_eq] at hnode
  have hkeeps : KeepsFolded op t size opnd ↔ Keeps op t size e := by
    simp only [KeepsFolded, he, Option.some_inj, exists_eq_left']
  rw [hkeeps, ← hnode, Preserved, foldExtractbits, he, Option.bind_some]
  constructor
  · rintro ⟨r, hr, hval⟩
    exact ⟨r, hr, fun v hv => (hval v hv).trans (hsame v hv).symm⟩
  · rintro ⟨r, hr, hval⟩
    exact ⟨r, hr, fun v hv => (hval v hv).trans (hsame v hv)⟩

/-- The fold keeps the value of every extraction of a nest exactly if every extraction meets the
conditions. -/
theorem foldExtractbits_iff (e : Expr) (hok : e.Ok) (hin : e.InType) :
    e.All Preserved ↔ e.All KeepsFolded := by
  induction e with
  | constval p c => exact Iff.rfl
  | read p mirType => exact Iff.rfl
  | other p => exact Iff.rfl
  | extract op t size opnd ih =>
    have hrest := ih hok.2.2 hin.2
    constructor
    · rintro ⟨hnode, hall⟩
      exact ⟨(preserved_iff hok hin hall).mp hnode, hrest.mp hall⟩
    · rintro ⟨hnode, hall⟩
      have hall' := hrest.mpr hall
      exact ⟨(preserved_iff hok hin hall').mpr hnode, hall'⟩

omit [Target] in
/-- `zext u32 8 (zext u32 8 (x))` over a variable of type `u32`. -/
theorem foldExtractbits_iff_twice :
    letI := Target.lp64
    let e : Expr := .extract .zext .u32 8 (.extract .zext .u32 8 (.other .u32))
    e.All Preserved ↔ e.All KeepsFolded := by
  let _ := Target.lp64
  exact foldExtractbits_iff _ ⟨rfl, by decide, rfl, by decide, rfl⟩ ⟨by decide, by decide, trivial⟩

omit [Target] in
/-- `extractbits u32 4 4` twice over a variable of type `u32` is zero, and becomes one extraction,
which of 240 gives 15. -/
theorem not_foldExtractbits_offsetTwice :
    letI := Target.lp64
    ¬∀ (op : ExtractOp) (t : PrimType) (size : Nat) (opnd : Expr),
      (Expr.extract op t size opnd).Ok → (Expr.extract op t size opnd).InType →
        Preserved op t size opnd := by
  let _ := Target.lp64
  intro h
  obtain ⟨r, hr, heval⟩ := h (.extractbits 4) .u32 4 (.extract (.extractbits 4) .u32 4 (.other .u32))
    ⟨rfl, by decide, rfl, by decide, rfl⟩ ⟨by decide, by decide, trivial⟩
  have hfold : some r = some (.extract (.extractbits 4) .u32 4 (.other .u32)) := by
    rw [← hr]
    rfl
  cases hfold
  have hvalue := heval 240 (by decide)
  revert hvalue
  decide

end FoldExtractbits
end Maple
