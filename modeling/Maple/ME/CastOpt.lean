import Maple.IR.PrimType

/-!
# Casts under an assignment

`MeCastOpt::SimplifyCastForAssign` of `cast_opt.cpp`: an assignment keeps only the lowest bits of its
right-hand side, so that casts which do not change these are dropped.
-/

namespace Maple

namespace CastOpt

/-! ### Kinds of casts -/

inductive CastKind where
  | intTrunc | zext | sext | int2fp | fp2int | fpTrunc | fpExt | retype | unknown
  deriving DecidableEq, Repr

/-- `CastInfo`; the source type is `none` where it stays `PTY_begin`. -/
structure CastInfo where
  kind : CastKind
  srcType : Option PrimType
  dstType : PrimType
  deriving DecidableEq, Repr

def isPrimitiveFloat (t : PrimType) : Bool := t == .f32 || t == .f64 || t == .f128

def getIntegerPrimTypeBySizeAndSign (sizeBit : Nat) (isSign : Bool) : Option PrimType :=
  match sizeBit with
  | 1 => if isSign then none else some .u1
  | 8 => some (if isSign then .i8 else .u8)
  | 16 => some (if isSign then .i16 else .u16)
  | 32 => some (if isSign then .i32 else .u32)
  | 64 => some (if isSign then .i64 else .u64)
  | _ => none

/-- Expressions, as far as casts and loads are concerned. The operand type of a load is the one of the
object that it reads. -/
inductive MeExpr (V : Type) where
  | zext (primType : PrimType) (bitsSize : Nat) (opnd : MeExpr V)
  | sext (primType : PrimType) (bitsSize : Nat) (opnd : MeExpr V)
  | retype (primType opndType : PrimType) (opnd : MeExpr V)
  | cvt (primType opndType : PrimType) (opnd : MeExpr V)
  | iread (primType opndType : PrimType) (v : V)
  | regread (primType opndType : PrimType) (v : V)
  | dread (primType : PrimType) (v : V)
  | other (primType : PrimType) (v : V)
  deriving DecidableEq, Repr

section Model

variable {V : Type} [Target]

def getCastKindByTwoType (fromType toType : PrimType) : CastKind :=
  if toType = .u1 ∧ fromType ≠ .u1 then .unknown
  else if fromType.isPrimitiveInteger && toType.isPrimitiveInteger then
    if toType.actualBitSize = fromType.actualBitSize then .retype
    else if toType.actualBitSize < fromType.actualBitSize then .intTrunc
    else if fromType.isSignedInteger then .sext else .zext
  else if isPrimitiveFloat fromType && isPrimitiveFloat toType then
    if toType.actualBitSize = fromType.actualBitSize then .retype
    else if toType.actualBitSize < fromType.actualBitSize then .fpTrunc
    else .fpExt
  else if fromType.isPrimitiveInteger && isPrimitiveFloat toType then .int2fp
  else if isPrimitiveFloat fromType && toType.isPrimitiveInteger then .fp2int
  else .unknown

def isExplicitCastOp : MeExpr V → Bool
  | .retype .. | .cvt .. | .zext .. | .sext .. => true
  | _ => false

/-- The cases `OP_zext` and `OP_sext` of `DoComputeCastInfo`. -/
def extCastInfo (isSext : Bool) (primType : PrimType) (sizeBit : Nat) : CastInfo :=
  -- there is no type `i1`
  if sizeBit = 1 ∧ isSext then ⟨.unknown, none, primType⟩
  else
    match getIntegerPrimTypeBySizeAndSign sizeBit isSext with
    | none => ⟨.unknown, none, primType⟩
    | some srcType => ⟨if isSext then .sext else .zext, some srcType, primType⟩

/-- The cases `OP_iread` and `OP_regread`: a load of a narrow integer extends it. -/
def loadCastInfo (primType opndType : PrimType) : CastInfo :=
  if opndType.isPrimitiveInteger && primType.isPrimitiveInteger &&
      opndType.actualBitSize < primType.actualBitSize then
    ⟨if opndType.isSignedInteger then .sext else .zext, some opndType, primType⟩
  else ⟨.unknown, some opndType, primType⟩

/-- The operand type of a `cvt`, where `cvt xx u1` is always the same as `cvt xx u8`. -/
def cvtSrcType (primType opndType : PrimType) : PrimType :=
  if opndType = .u1 ∧ primType ≠ .u1 then .u8 else opndType

def computeCastInfo : MeExpr V → CastInfo
  | .zext primType bitsSize _ => extCastInfo false primType bitsSize
  | .sext primType bitsSize _ => extCastInfo true primType bitsSize
  | .retype primType opndType _ =>
    ⟨if primType.actualBitSize ≠ opndType.actualBitSize then .unknown else .retype,
      some opndType, primType⟩
  | .cvt primType opndType _ =>
    ⟨getCastKindByTwoType (cvtSrcType primType opndType) primType,
      some (cvtSrcType primType opndType), primType⟩
  | .iread primType opndType _ => loadCastInfo primType opndType
  | .regread primType opndType _ => loadCastInfo primType opndType
  | .dread primType _ => ⟨.unknown, none, primType⟩
  | .other primType _ => ⟨.unknown, none, primType⟩

/-! ### SimplifyCastForAssign -/

/-- Whether a round of the loop goes on to the operand. -/
def isDropped (expectedType : PrimType) (cur : MeExpr V) : Bool :=
  let castInfo := computeCastInfo cur
  if castInfo.kind = .intTrunc then
    -- an implicit extension by the assignment is not expected
    ! decide (expectedType.actualBitSize > castInfo.dstType.actualBitSize)
  else
    (castInfo.kind = .zext || castInfo.kind = .sext) && isExplicitCastOp cur &&
      castInfo.srcType.any fun srcType => srcType.actualBitSize = expectedType.actualBitSize

/-- The loop; only explicit casts are dropped, and these have one operand. -/
def dropCasts (expectedType : PrimType) : MeExpr V → MeExpr V
  | .zext primType bitsSize opnd =>
    if isDropped expectedType (.zext primType bitsSize opnd) then dropCasts expectedType opnd
    else .zext primType bitsSize opnd
  | .sext primType bitsSize opnd =>
    if isDropped expectedType (.sext primType bitsSize opnd) then dropCasts expectedType opnd
    else .sext primType bitsSize opnd
  | .retype primType opndType opnd =>
    if isDropped expectedType (.retype primType opndType opnd) then dropCasts expectedType opnd
    else .retype primType opndType opnd
  | .cvt primType opndType opnd =>
    if isDropped expectedType (.cvt primType opndType opnd) then dropCasts expectedType opnd
    else .cvt primType opndType opnd
  | cur => cur

/-- Statements; the type of an assignment is the one of its target. -/
inductive MeStmt (V : Type) where
  | dassign (lhsType : PrimType) (rhs : MeExpr V)
  | iassign (lhsType : PrimType) (rhs : MeExpr V)
  | regassign (lhsType : PrimType) (rhs : MeExpr V)
  | other
  deriving DecidableEq, Repr

def simplifyRHS (expectedType : PrimType) (rhs : MeExpr V) : MeExpr V :=
  if expectedType.isPrimitiveInteger && isExplicitCastOp rhs then dropCasts expectedType rhs
  else rhs

def simplifyCastForAssign : MeStmt V → MeStmt V
  | .dassign lhsType rhs => .dassign lhsType (simplifyRHS lhsType rhs)
  | .iassign lhsType rhs => .iassign lhsType (simplifyRHS lhsType rhs)
  -- the expression is computed, but not set
  | .regassign lhsType rhs => .regassign lhsType rhs
  | .other => .other

/-! ### Values -/

/-- The values of the operands, and what conversions mean that are not from integers to integers. -/
structure Env (V : Type) where
  value : V → Int
  retype : PrimType → PrimType → Int → Int
  cvt : PrimType → PrimType → Int → Int

/-- `cvt` between integers; `cvt u1 xx` is a comparison with zero. -/
def cvtInteger (primType opndType : PrimType) (v : Int) : Int :=
  if primType = .u1 ∧ opndType ≠ .u1 then if opndType.format.wrap v = 0 then 0 else 1
  else primType.format.wrap ((cvtSrcType primType opndType).format.wrap v)

/-- The value of an expression. An extension treats its operand as an integer of `bitsSize` bits. -/
def MeExpr.eval (env : Env V) : MeExpr V → Int
  | .zext _ bitsSize opnd => IntFormat.wrap ⟨bitsSize, false⟩ (opnd.eval env)
  | .sext _ bitsSize opnd => IntFormat.wrap ⟨bitsSize, true⟩ (opnd.eval env)
  | .retype primType opndType opnd => env.retype primType opndType (opnd.eval env)
  | .cvt primType opndType opnd =>
    if primType.isPrimitiveInteger && opndType.isPrimitiveInteger then
      cvtInteger primType opndType (opnd.eval env)
    else env.cvt primType opndType (opnd.eval env)
  | .iread _ _ v | .regread _ _ v | .dread _ v | .other _ v => env.value v

/-- What an assignment stores: the value of the right-hand side, cut down to its type. -/
def MeStmt.stored (env : Env V) : MeStmt V → Option Int
  | .dassign lhsType rhs | .iassign lhsType rhs | .regassign lhsType rhs =>
    some (lhsType.format.wrap (rhs.eval env))
  | .other => none

/-! ### The bits that are stored -/

lemma actualBitSize_of_getIntegerPrimType {sizeBit : Nat} {isSign : Bool} {t : PrimType}
    (h : getIntegerPrimTypeBySizeAndSign sizeBit isSign = some t) : t.actualBitSize = sizeBit := by
  unfold getIntegerPrimTypeBySizeAndSign at h
  split at h <;> cases isSign <;> cases h <;> rfl

lemma isDropped_iff {expectedType : PrimType} {cur : MeExpr V} :
    isDropped expectedType cur = true ↔
      ((computeCastInfo cur).kind = .intTrunc ∧
        expectedType.actualBitSize ≤ (computeCastInfo cur).dstType.actualBitSize) ∨
      (((computeCastInfo cur).kind = .zext ∨ (computeCastInfo cur).kind = .sext) ∧
        isExplicitCastOp cur = true ∧ ∃ srcType, (computeCastInfo cur).srcType = some srcType ∧
          srcType.actualBitSize = expectedType.actualBitSize) := by
  unfold isDropped
  generalize computeCastInfo cur = castInfo
  rcases castInfo with ⟨kind, srcType, dstType⟩
  cases srcType <;> cases kind <;> simp

lemma extCastInfo_cases (isSext : Bool) (primType : PrimType) (sizeBit : Nat) :
    (extCastInfo isSext primType sizeBit).kind = .unknown ∨
      (extCastInfo isSext primType sizeBit).kind ≠ .intTrunc ∧
        ∀ srcType, (extCastInfo isSext primType sizeBit).srcType = some srcType →
          srcType.actualBitSize = sizeBit := by
  unfold extCastInfo
  by_cases h1 : sizeBit = 1 ∧ isSext = true
  · rw [if_pos h1]
    exact .inl rfl
  · rw [if_neg h1]
    cases hsize : getIntegerPrimTypeBySizeAndSign sizeBit isSext with
    | none => exact .inl rfl
    | some t =>
      right
      constructor
      · cases isSext <;> simp
      · rintro srcType ⟨⟩
        exact actualBitSize_of_getIntegerPrimType hsize

lemma eq_of_isDropped_ext {expectedType primType : PrimType} {isSext : Bool} {sizeBit : Nat}
    {cur : MeExpr V} (hinfo : computeCastInfo cur = extCastInfo isSext primType sizeBit)
    (h : isDropped expectedType cur = true) : expectedType.actualBitSize = sizeBit := by
  rw [isDropped_iff, hinfo] at h
  rcases extCastInfo_cases isSext primType sizeBit with hunknown | ⟨hne, hsize⟩
  · rw [hunknown] at h
    simp at h
  · rcases h with ⟨htrunc, -⟩ | ⟨-, -, srcType, hsrc, heq⟩
    · exact absurd htrunc hne
    · rw [← heq, hsize srcType hsrc]

lemma getCastKindByTwoType_cases {fromType toType : PrimType}
    (h : getCastKindByTwoType fromType toType = .intTrunc ∨
      getCastKindByTwoType fromType toType = .zext ∨
      getCastKindByTwoType fromType toType = .sext) :
    fromType.isPrimitiveInteger = true ∧ toType.isPrimitiveInteger = true ∧
      ¬(toType = .u1 ∧ fromType ≠ .u1) ∧
      (getCastKindByTwoType fromType toType = .intTrunc →
        toType.actualBitSize < fromType.actualBitSize) ∧
      (getCastKindByTwoType fromType toType ≠ .intTrunc →
        fromType.actualBitSize < toType.actualBitSize) := by
  unfold getCastKindByTwoType at h ⊢
  split_ifs at h ⊢ with hu1 hint <;> simp_all <;> omega

lemma le_of_isDropped_cvt {expectedType primType opndType : PrimType} {opnd : MeExpr V}
    (h : isDropped expectedType (.cvt primType opndType opnd) = true) :
    (cvtSrcType primType opndType).isPrimitiveInteger = true ∧
      primType.isPrimitiveInteger = true ∧
      ¬(primType = .u1 ∧ cvtSrcType primType opndType ≠ .u1) ∧
      expectedType.actualBitSize ≤ primType.actualBitSize ∧
      expectedType.actualBitSize ≤ (cvtSrcType primType opndType).actualBitSize := by
  rw [isDropped_iff] at h
  simp only [computeCastInfo, Option.some.injEq] at h
  rcases h with ⟨hkind, hle⟩ | ⟨hkind, -, srcType, rfl, heq⟩
  · obtain ⟨hfrom, hto, hu1, hlt, -⟩ := getCastKindByTwoType_cases (.inl hkind)
    exact ⟨hfrom, hto, hu1, hle, hle.trans (hlt hkind).le⟩
  · obtain ⟨hfrom, hto, hu1, -, hlt⟩ := getCastKindByTwoType_cases (.inr hkind)
    have hne : getCastKindByTwoType (cvtSrcType primType opndType) primType ≠ .intTrunc := by
      rcases hkind with hkind | hkind <;> simp [hkind]
    exact ⟨hfrom, hto, hu1, heq.ge.trans (hlt hne).le, heq.ge⟩

lemma isDropped_retype {expectedType primType opndType : PrimType} {opnd : MeExpr V} :
    isDropped expectedType (.retype primType opndType opnd) = false := by
  rw [Bool.eq_false_iff, ne_eq, isDropped_iff]
  simp only [computeCastInfo]
  split_ifs <;> simp

omit [Target] in
lemma cvtSrcType_integer (primType opndType : PrimType) :
    (cvtSrcType primType opndType).isPrimitiveInteger = opndType.isPrimitiveInteger ∧
      (primType = .u1 → cvtSrcType primType opndType = opndType) := by
  unfold cvtSrcType
  split_ifs with h
  · rw [h.1]
    exact ⟨rfl, fun hu1 => absurd hu1 h.2⟩
  · exact ⟨rfl, fun _ => rfl⟩

lemma wrap_eval_dropCasts (env : Env V) (expectedType : PrimType) (cur : MeExpr V) :
    expectedType.format.wrap ((dropCasts expectedType cur).eval env) =
      expectedType.format.wrap (cur.eval env) := by
  induction cur with
  | zext primType bitsSize opnd ih =>
    rw [dropCasts]
    split_ifs with h
    · have hsize := eq_of_isDropped_ext rfl h
      rw [ih, MeExpr.eval, IntFormat.wrap_wrap_of_width_le hsize.le]
    · rfl
  | sext primType bitsSize opnd ih =>
    rw [dropCasts]
    split_ifs with h
    · have hsize := eq_of_isDropped_ext rfl h
      rw [ih, MeExpr.eval, IntFormat.wrap_wrap_of_width_le hsize.le]
    · rfl
  | retype primType opndType opnd ih =>
    rw [dropCasts, isDropped_retype]
    rfl
  | cvt primType opndType opnd ih =>
    rw [dropCasts]
    split_ifs with h
    · obtain ⟨hfrom, hto, hu1, hle, hle'⟩ := le_of_isDropped_cvt h
      obtain ⟨hinteger, hsrc⟩ := cvtSrcType_integer primType opndType
      have hu1' : ¬(primType = .u1 ∧ opndType ≠ .u1) := by
        rintro ⟨hprim, hne⟩
        exact hu1 ⟨hprim, (hsrc hprim).symm ▸ hne⟩
      rw [hinteger] at hfrom
      rw [ih, MeExpr.eval, hto, hfrom, Bool.and_true, if_pos rfl, cvtInteger, if_neg hu1',
        IntFormat.wrap_wrap_of_width_le hle, IntFormat.wrap_wrap_of_width_le hle']
    · rfl
  | iread primType opndType v => rfl
  | regread primType opndType v => rfl
  | dread primType v => rfl
  | other primType v => rfl

/-- `SimplifyCastForAssign` leaves what is stored as it is. -/
theorem stored_simplifyCastForAssign (env : Env V) (stmt : MeStmt V) :
    (simplifyCastForAssign stmt).stored env = stmt.stored env := by
  have hrhs : ∀ (lhsType : PrimType) (rhs : MeExpr V),
      lhsType.format.wrap ((simplifyRHS lhsType rhs).eval env) =
        lhsType.format.wrap (rhs.eval env) := by
    intro lhsType rhs
    unfold simplifyRHS
    split_ifs
    · exact wrap_eval_dropCasts env lhsType rhs
    · rfl
  cases stmt with
  | dassign lhsType rhs => exact congrArg some (hrhs lhsType rhs)
  | iassign lhsType rhs => exact congrArg some (hrhs lhsType rhs)
  | regassign lhsType rhs => rfl
  | other => rfl

end Model

example : @dropCasts Unit .lp64 .u8 (.zext .u32 8 (.cvt .u8 .u64 (.sext .i64 32 (.dread .i32 ())))) =
    .sext .i64 32 (.dread .i32 ()) := by decide

end CastOpt
end Maple
