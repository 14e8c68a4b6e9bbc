import Maple.IR.BinMpl.Expr
import Maple.IR.BinMpl.Numbers

/-!
# Expressions are read back

An expression is read back, with the references of the reader, if the reader knows its opcodes and
keeps all fields of its nodes. It does not know the opcodes of the default case of the writer, loses
the type of a `sizeoftype` and the type that a `retype` converts, and reads the bytes of a
`depositbits` as numbers.
-/

namespace Maple
namespace BinMpl

namespace ConstTables

variable {S T : Type} (R : ConstTables S T)

/-- The fields with the references of the reader. -/
def readHead {n : Nat} (w : WState S) : Head n → Head n
  | .constval constVal => .constval (R.normal (R.rename w constVal))
  | .conststr strIdx => .conststr strIdx
  | .addroflabel offset => .addroflabel (labelName w offset)
  | .addroffunc puIdx => .addroffunc (R.funcViaSym.name w puIdx)
  | .sizeoftype tyIdx => .sizeoftype (R.type.name w tyIdx)
  | .addrof op num stIdx =>
    .addrof op num { stIdx with
      idx := if stIdx.islocal then R.localSymbol.name w stIdx.idx else R.symbol.name w stIdx.idx }
  | .regread regIdx => .regread (pregName w regIdx)
  | .gcmalloc op tyIdx => .gcmalloc op (R.type.name w tyIdx)
  | .unary op => .unary op
  | .typeCvt op fromPrimType => .typeCvt op fromPrimType
  | .retype fromPrimType tyIdx => .retype fromPrimType (R.type.name w tyIdx)
  | .iread op tyIdx fieldID => .iread op (R.type.name w tyIdx) fieldID
  | .ireadoff offset => .ireadoff offset
  | .ireadfpoff offset => .ireadfpoff offset
  | .extractbits op bitsOffset bitsSize => .extractbits op bitsOffset bitsSize
  | .depositbits bitsOffset bitsSize => .depositbits bitsOffset bitsSize
  | .jarrayMalloc op tyIdx => .jarrayMalloc op (R.type.name w tyIdx)
  | .binary op => .binary op
  | .compare op opndType => .compare op opndType
  | .resolveFunc op puIdx => .resolveFunc op (R.funcViaSym.name w puIdx)
  | .select => .select
  | .array tyIdx boundsCheck numOpnds => .array (R.type.name w tyIdx) boundsCheck numOpnds
  | .intrinsicop intrinsic numOpnds => .intrinsicop intrinsic numOpnds
  | .intrinsicopwithtype intrinsic tyIdx numOpnds =>
    .intrinsicopwithtype intrinsic (R.type.name w tyIdx) numOpnds
  | .unhandled op => .unhandled op

mutual

/-- The expression with the references of the reader, and the constants that its tables have. -/
def readExpr (w : WState S) : Expr → Expr
  | .node primType head opnds => .node primType (R.readHead w head) (readExprs w opnds)

def readExprs (w : WState S) {n : Nat} : Exprs n → Exprs n
  | .nil => .nil
  | .cons opnd opnds => .cons (readExpr w opnd) (readExprs w opnds)

end

/-- The reader knows the opcode and keeps the primitive type and the fields. -/
def KeptHead {n : Nat} (primType : UInt8) : Head n → Prop
  | .constval constVal => R.Fits constVal
  | .sizeoftype _ => primType = kPtyInvalid
  | .retype fromPrimType _ => fromPrimType = kPtyInvalid
  | .depositbits bitsOffset bitsSize => bitsOffset.toNat < 64 ∧ bitsSize.toNat < 64
  | .unhandled _ => False
  | _ => True

mutual

/-- The reader keeps all nodes. -/
def Kept : Expr → Prop
  | .node primType head opnds => R.KeptHead primType head ∧ KeptOpnds opnds

def KeptOpnds {n : Nat} : Exprs n → Prop
  | .nil => True
  | .cons opnd opnds => Kept opnd ∧ KeptOpnds opnds

end

end ConstTables

/-- The offset and the size of a `depositbits` lie within 128 bits. -/
def Head.InWord {n : Nat} : Head n → Prop
  | .depositbits bitsOffset bitsSize => bitsOffset.toNat < 128 ∧ bitsSize.toNat < 128
  | _ => True

mutual

def Expr.InWord : Expr → Prop
  | .node _ head opnds => head.InWord ∧ opnds.InWord

def Exprs.InWord {n : Nat} : Exprs n → Prop
  | .nil => True
  | .cons opnd opnds => opnd.InWord ∧ opnds.InWord

end

/-! ### Constants that are cut -/

namespace ConstTables

variable {S T : Type} {R : ConstTables S T}

lemma fitsWord_of_intVal {f : IntFormat} {value : Int}
    (h : intVal f (getExtValue f value) = value) : FitsWord f value := by
  have hmem : f.Mem value := by
    rw [← h]
    unfold intVal
    split_ifs <;> exact f.wrap_mem _
  refine ⟨hmem, ?_⟩
  unfold intVal at h
  split_ifs at h ⊢ with hs
  · rcases le_total f.width 64 with hle | hle
    · exact hmem.of_width_le hle hs
    · have hword : int64Format.Mem (getExtValue f value) := by
        rw [← bounds_getExtValue]
        exact int64_mem _
      rw [f.wrap_of_mem (hword.of_width_le hle hs.symm)] at h
      rwa [h] at hword
  · have hlt : ∀ {x : Int}, (⟨64, false⟩ : IntFormat).Mem x ↔ 0 ≤ x ∧ x < 2 ^ 64 := by
      intro x
      norm_num [IntFormat.Mem, IntFormat.minValue, IntFormat.maxValue, IntFormat.modulus]
      omega
    rw [Bool.not_eq_true] at hs
    rcases le_total f.width 64 with hle | hle
    · exact (hlt.mp (hmem.of_width_le (g := ⟨64, false⟩) hle hs)).2
    · have hword : (⟨64, false⟩ : IntFormat).Mem (getExtValue f value % 2 ^ 64) := by
        rw [hlt]
        omega
      rw [f.wrap_of_mem (hword.of_width_le hle hs.symm)] at h
      omega

mutual

lemma fits_of_readConst {w : WState S} : ∀ {c : MIRConst},
    R.normal (R.rename w (R.cut c)) = R.normal (R.rename w c) → R.Fits c
  | .int ty value, h => by
    simp only [cut, rename, normal, MIRConst.int.injEq, true_and] at h
    exact fitsWord_of_intVal h
  | .str16 ty value, h => by
    simp only [cut, rename, normal, MIRConst.str16.injEq, true_and] at h
    exact List.take_eq_self_iff _ |>.mp h
  | .agg ty constVec, h => by
    simp only [cut, rename, normal, MIRConst.agg.injEq, true_and] at h
    exact fits_of_readConstVec h
  | .null, _ | .addrof .., _ | .addrofFunc .., _ | .lbl .., _ | .str .., _ | .float .., _
  | .double .., _ | .float128 .., _ | .st .., _ => trivial

lemma fits_of_readConstVec {w : WState S} : ∀ {constVec : ConstVec},
    R.normalVec (R.renameVec w (R.cutVec constVec)) = R.normalVec (R.renameVec w constVec) →
      R.FitsVec constVec
  | .nil, _ => trivial
  | .cons fieldId item rest, h => by
    simp only [cutVec, renameVec, normalVec, ConstVec.cons.injEq, true_and] at h
    exact ⟨fits_of_readConst h.1, fits_of_readConstVec h.2⟩

end

end ConstTables

/-! ### Bytes that are read as numbers -/

/-- What a byte is as the last byte of a number. -/
def asNum (b : UInt8) : Int := if b.toNat < 64 then b.toNat else b.toNat - 128

lemma readsBack_write_readNum {σ τ : Type} [Preorder σ] {Linked : σ → τ → Prop} {F : σ} {b : UInt8}
    (h : b.toNat < 128) : ReadsBack Linked F (write b) readNum (asNum b) := by
  intro s t hl bs s' hw _ rest
  cases hw
  refine ⟨t, ?_, hl⟩
  have hnum : readNumLoop 0 0 (b :: rest) = some (int64 (asNum b), rest) := by
    rw [readNumLoop, if_neg (by omega), low_bits h]
    simp [asNum]
  have hmem : int64 (asNum b) = asNum b := by
    apply ConstTables.int64_of_bounds
    · unfold asNum
      split_ifs <;> omega
    · unfold asNum
      split_ifs <;> omega
  change (readNumLoop 0 0 (b :: rest)).map _ = _
  rw [hnum, hmem]
  rfl

lemma uint8_asNum {b : UInt8} (h : b.toNat < 128) : uint8 (asNum b) = b ↔ b.toNat < 64 := by
  unfold asNum
  split_ifs with hlt
  · simp only [hlt, iff_true]
    apply UInt8.toNat.inj
    have := uint8_toNat (x := b.toNat) (by omega) (by omega)
    omega
  · simp only [hlt, iff_false]
    intro heq
    have hcongr : uint8 (b.toNat - 128 : Int) = uint8 (b.toNat + 128 : Int) := by
      unfold uint8
      congr 2
      omega
    have := uint8_toNat (x := b.toNat + 128) (by omega) (by omega)
    rw [← hcongr, heq] at this
    omega

namespace ConstTables

variable {S T : Type} [Preorder S] {R : ConstTables S T} {F : WState S} {k n : Nat}

/-! ### The fields of a node -/

lemma grows_writeNumOpnds (numOpnds : Nat) : (writeNumOpnds numOpnds : Put (WState S)).Grows := by
  unfold writeNumOpnds
  split_ifs
  · exact grows_writeNum _
  · exact Put.grows_fail

lemma readsBack_writeNumOpnds {Linked : WState S → RState T → Prop} (f : Nat → Σ n, Head n)
    (numOpnds : Nat) :
    ReadsBack Linked F (Put.seq [writeNumOpnds numOpnds])
      (readNum >>= fun n => pure (f (uint32 n).toNat)) (f numOpnds) := by
  unfold writeNumOpnds
  split_ifs with h
  · have hnum : ReadsBack Linked F _ _ _ := readsBack_writeNum (numOpnds : Int)
    have hsize : (uint32 (int64 numOpnds)).toNat = numOpnds := by
      rw [int64_of_bounds (by omega) (by omega), uint32_of_mem (by omega) (by omega),
        Int.toNat_natCast]
    have hread := (hnum.map fun n => f (uint32 n).toNat).seq_singleton
    rwa [hsize] at hread
  · exact (ReadsBack.fail _ _).seq_singleton

lemma grows_scopedSymbol (hR : R.Sound) (stIdx : ScopeIdx) :
    (if stIdx.islocal then R.localSymbol.out stIdx.idx else R.symbol.out stIdx.idx).Grows := by
  split_ifs
  · exact hR.localSymbol.grows _
  · exact hR.symbol.grows _

lemma grows_outputHead (hR : R.Sound) (head : Head n) : (R.outputHead head).Grows := by
  cases head with
  | constval constVal => exact grows_outputConst hR constVal
  | conststr strIdx => exact grows_outputUsrStr strIdx
  | addroflabel offset => exact grows_outputLabel offset
  | addroffunc puIdx => exact hR.funcViaSym.grows puIdx
  | sizeoftype tyIdx => exact hR.type.grows tyIdx
  | addrof op num stIdx =>
    apply Put.grows_seq_cons (grows_writeNum _)
    apply Put.grows_seq_cons (grows_writeNum _)
    exact Put.grows_seq_singleton (grows_scopedSymbol hR stIdx)
  | regread regIdx =>
    simp only [outputHead]
    split_ifs
    · exact Put.grows_fail
    · exact grows_outputPreg _ _
  | gcmalloc op tyIdx => exact hR.type.grows tyIdx
  | unary op => exact Put.grows_skip
  | typeCvt op fromPrimType => exact grows_write _
  | retype fromPrimType tyIdx => exact hR.type.grows tyIdx
  | iread op tyIdx fieldID =>
    exact Put.grows_seq_cons (hR.type.grows tyIdx) (Put.grows_seq_singleton (grows_writeNum _))
  | ireadoff offset => exact grows_writeNum _
  | ireadfpoff offset => exact grows_writeNum _
  | extractbits op bitsOffset bitsSize =>
    exact Put.grows_seq_cons (grows_write _) (Put.grows_seq_singleton (grows_write _))
  | depositbits bitsOffset bitsSize =>
    exact Put.grows_seq_cons (grows_write _) (Put.grows_seq_singleton (grows_write _))
  | jarrayMalloc op tyIdx => exact hR.type.grows tyIdx
  | binary op => exact Put.grows_skip
  | compare op opndType => exact grows_write _
  | resolveFunc op puIdx => exact hR.funcViaSym.grows puIdx
  | select => exact Put.grows_skip
  | array tyIdx boundsCheck =>
    apply Put.grows_seq_cons (hR.type.grows tyIdx)
    apply Put.grows_seq_cons (grows_write _)
    exact Put.grows_seq_singleton (grows_writeNumOpnds _)
  | intrinsicop intrinsic =>
    exact Put.grows_seq_cons (grows_writeNum _) (Put.grows_seq_singleton (grows_writeNumOpnds _))
  | intrinsicopwithtype intrinsic tyIdx =>
    apply Put.grows_seq_cons (grows_writeNum _)
    apply Put.grows_seq_cons (hR.type.grows tyIdx)
    exact Put.grows_seq_singleton (grows_writeNumOpnds _)
  | unhandled op => exact Put.grows_skip

lemma readsBack_depositbits (Linked : WState S → RState T → Prop) {bitsOffset bitsSize : UInt8}
    (hoffset : bitsOffset.toNat < 128) (hsize : bitsSize.toNat < 128)
    (f : UInt8 → UInt8 → Σ n, Head n) :
    ReadsBack Linked F (Put.seq [write bitsOffset, write bitsSize])
      (readNum >>= fun x => readNum >>= fun y => pure (f (uint8 x) (uint8 y)))
      (f (uint8 (asNum bitsOffset)) (uint8 (asNum bitsSize))) := by
  apply ReadsBack.seq_cons (readsBack_write_readNum hoffset)
    (Put.grows_seq_singleton (grows_write _))
  exact ((readsBack_write_readNum hsize).map _).seq_singleton

lemma readsBack_oneField {Linked : WState S → RState T → Prop} {α : Type} {p : Put (WState S)}
    {g : Get (RState T) α} {a : α} (f : α → Σ n, Head n) (h : ReadsBack Linked F p g a) :
    ReadsBack Linked F p (g >>= fun x => pure (f x)) (f a) :=
  h.map f

lemma readsBack_int32 {Linked : WState S → RState T → Prop} (f : Int32 → Σ n, Head n) (x : Int32) :
    ReadsBack Linked F (writeNum x.toInt) (readNum >>= fun n => pure (f (Int32.ofInt n)))
      (f x) := by
  have hnum : ReadsBack Linked F _ _ _ := readsBack_writeNum x.toInt
  have h := readsBack_oneField (fun n => f (Int32.ofInt n)) hnum
  rwa [ofInt_int64_toInt] at h

lemma readsBack_outputHead (hR : R.Sound) {head : Head n} {primType : UInt8} (hd : head.depth ≤ k)
    (hkept : R.KeptHead primType head) :
    ReadsBack R.Linked F (R.outputHead head) (R.importHead (R.importConst k) head.op)
      ⟨n, R.readHead F head⟩ := by
  cases head with
  | constval constVal =>
    have h := readsBack_outputConst (F := F) hR constVal k hd
    rw [R.cut_eq_self hkept] at h
    exact readsBack_oneField (fun constv => ⟨0, .constval constv⟩) h
  | conststr strIdx =>
    exact readsBack_oneField (fun x => ⟨0, .conststr x⟩) (readsBack_outputUsrStr strIdx)
  | addroflabel offset =>
    exact readsBack_oneField (fun x => ⟨0, .addroflabel x⟩) (readsBack_outputLabel offset)
  | addroffunc puIdx =>
    exact readsBack_oneField (fun x => ⟨0, .addroffunc x⟩) (hR.funcViaSym.readsBack F puIdx)
  | sizeoftype tyIdx =>
    exact readsBack_oneField (fun x => ⟨0, .sizeoftype x⟩) (hR.type.readsBack F tyIdx)
  | addrof op num stIdx =>
    obtain ⟨scope, idx⟩ := stIdx
    have hsym := grows_scopedSymbol hR ⟨scope, idx⟩
    have hscope : uint8 (uint32 (int64 scope.toNat)) = scope := by
      have hlt := scope.toNat_lt
      rw [int64_of_bounds (by omega) (by omega), uint32_of_mem (by omega) (by omega)]
      apply UInt8.toNat.inj
      have := uint8_toNat (x := scope.toNat) (by omega) (by omega)
      omega
    apply ReadsBack.seq_cons (readsBack_writeNum _)
    · exact Put.grows_seq_cons (grows_writeNum _) (Put.grows_seq_singleton hsym)
    apply ReadsBack.seq_cons (readsBack_writeNum _) (Put.grows_seq_singleton hsym)
    rw [ofInt_int64_toInt, hscope]
    apply ReadsBack.seq_singleton
    have hlocal : ScopeIdx.islocal ⟨scope, 0⟩ = ScopeIdx.islocal ⟨scope, idx⟩ := rfl
    simp only [hlocal]
    cases hl : ScopeIdx.islocal ⟨scope, idx⟩ with
    | true =>
      have h := (hR.localSymbol.readsBack F idx).map
        fun sym => (⟨0, .addrof op num ⟨scope, sym⟩⟩ : Σ n, Head n)
      simpa only [readHead, hl, if_true] using h
    | false =>
      have h := (hR.symbol.readsBack F idx).map
        fun sym => (⟨0, .addrof op num ⟨scope, sym⟩⟩ : Σ n, Head n)
      simpa only [readHead, hl, Bool.false_eq_true, if_false] using h
  | regread regIdx =>
    simp only [outputHead]
    split_ifs with hlast
    · exact ReadsBack.fail _ _
    · have hlt : -256 < regIdx := by
        unfold kSregLast at hlast
        omega
      exact readsBack_oneField (fun x => ⟨0, .regread x⟩) (readsBack_outputPreg hlt)
  | gcmalloc op tyIdx =>
    exact readsBack_oneField (fun x => ⟨0, .gcmalloc op x⟩) (hR.type.readsBack F tyIdx)
  | unary op => exact ReadsBack.skip _
  | typeCvt op fromPrimType =>
    exact readsBack_oneField (fun x => ⟨1, .typeCvt op x⟩) (readsBack_write fromPrimType)
  | retype fromPrimType tyIdx =>
    obtain rfl : fromPrimType = kPtyInvalid := hkept
    exact readsBack_oneField (fun x => ⟨1, .retype kPtyInvalid x⟩) (hR.type.readsBack F tyIdx)
  | iread op tyIdx fieldID =>
    apply ReadsBack.seq_cons (hR.type.readsBack F tyIdx)
      (Put.grows_seq_singleton (grows_writeNum _))
    exact (readsBack_int32 (fun x => ⟨1, .iread op (R.type.name F tyIdx) x⟩) fieldID).seq_singleton
  | ireadoff offset => exact readsBack_int32 (fun x => ⟨1, .ireadoff x⟩) offset
  | ireadfpoff offset => exact readsBack_int32 (fun x => ⟨0, .ireadfpoff x⟩) offset
  | extractbits op bitsOffset bitsSize =>
    apply ReadsBack.seq_cons (readsBack_write _) (Put.grows_seq_singleton (grows_write _))
    exact (readsBack_oneField (fun x => ⟨1, .extractbits op bitsOffset x⟩)
      (readsBack_write bitsSize)).seq_singleton
  | depositbits bitsOffset bitsSize =>
    obtain ⟨hoffset, hsize⟩ := hkept
    have h := readsBack_depositbits (F := F) R.Linked
      (show bitsOffset.toNat < 128 by omega) (show bitsSize.toNat < 128 by omega)
      fun x y => ⟨2, .depositbits x y⟩
    rw [(uint8_asNum (by omega)).mpr hoffset, (uint8_asNum (by omega)).mpr hsize] at h
    exact h
  | jarrayMalloc op tyIdx =>
    exact readsBack_oneField (fun x => ⟨1, .jarrayMalloc op x⟩) (hR.type.readsBack F tyIdx)
  | binary op => exact ReadsBack.skip _
  | compare op opndType =>
    exact readsBack_oneField (fun x => ⟨2, .compare op x⟩) (readsBack_write opndType)
  | resolveFunc op puIdx =>
    exact readsBack_oneField (fun x => ⟨2, .resolveFunc op x⟩) (hR.funcViaSym.readsBack F puIdx)
  | select => exact ReadsBack.skip _
  | array tyIdx boundsCheck =>
    have hnum := Put.grows_seq_singleton (grows_writeNumOpnds (S := S) n)
    apply ReadsBack.seq_cons (hR.type.readsBack F tyIdx) (Put.grows_seq_cons (grows_write _) hnum)
    apply ReadsBack.seq_cons (readsBack_write _) hnum
    have hbool : ((if boundsCheck = true then (1 : UInt8) else 0) != 0) = boundsCheck := by
      cases boundsCheck <;> rfl
    rw [hbool]
    exact readsBack_writeNumOpnds (fun m => ⟨m, .array (R.type.name F tyIdx) boundsCheck m⟩) n
  | intrinsicop intrinsic =>
    have hnum := Put.grows_seq_singleton (grows_writeNumOpnds (S := S) n)
    apply ReadsBack.seq_cons (readsBack_writeNum _) hnum
    rw [uInt32_ofInt_toNat]
    exact readsBack_writeNumOpnds (fun m => ⟨m, .intrinsicop intrinsic m⟩) n
  | intrinsicopwithtype intrinsic tyIdx =>
    have hnum := Put.grows_seq_singleton (grows_writeNumOpnds (S := S) n)
    apply ReadsBack.seq_cons (readsBack_writeNum _) (Put.grows_seq_cons (hR.type.grows tyIdx) hnum)
    apply ReadsBack.seq_cons (hR.type.readsBack F tyIdx) hnum
    rw [uInt32_ofInt_toNat]
    exact readsBack_writeNumOpnds
      (fun m => ⟨m, .intrinsicopwithtype intrinsic (R.type.name F tyIdx) m⟩) n
  | unhandled op => exact hkept.elim

lemma misreads_outputHead (hR : R.Sound) {head : Head n} {primType : UInt8} (hd : head.depth ≤ k)
    (hword : head.InWord) (hop : head.op ≠ .sizeoftype) (hkept : ¬ R.KeptHead primType head) :
    Misreads R.Linked F (R.outputHead head) (R.importHead (R.importConst k) head.op)
      ⟨n, R.readHead F head⟩ := by
  cases head with
  | constval constVal =>
    have hread := readsBack_oneField (fun constv => ⟨0, .constval constv⟩)
      (readsBack_outputConst (F := F) hR constVal k hd)
    apply hread.misreads
    intro heq
    simp only [readHead, Sigma.mk.injEq, heq_eq_eq, Head.constval.injEq, true_and] at heq
    exact hkept (fits_of_readConst heq)
  | sizeoftype tyIdx => exact absurd rfl hop
  | retype fromPrimType tyIdx =>
    have hread := readsBack_oneField (fun x => ⟨1, .retype kPtyInvalid x⟩)
      (hR.type.readsBack F tyIdx)
    apply hread.misreads
    intro heq
    simp only [readHead, Sigma.mk.injEq, heq_eq_eq, Head.retype.injEq, true_and, and_true] at heq
    exact hkept heq.symm
  | depositbits bitsOffset bitsSize =>
    have hread := readsBack_depositbits (F := F) R.Linked hword.1 hword.2
      fun x y => ⟨2, .depositbits x y⟩
    apply hread.misreads
    intro heq
    simp only [readHead, Sigma.mk.injEq, heq_eq_eq, Head.depositbits.injEq, true_and] at heq
    exact hkept ⟨(uint8_asNum hword.1).mp heq.1, (uint8_asNum hword.2).mp heq.2⟩
  | unhandled op => exact Misreads.fail _ _
  | conststr | addroflabel | addroffunc | addrof | regread | gcmalloc | unary | typeCvt | iread
  | ireadoff | ireadfpoff | extractbits | jarrayMalloc | binary | compare | resolveFunc | select
  | array | intrinsicop | intrinsicopwithtype => exact absurd trivial hkept

/-! ### Nodes and trees -/

mutual

lemma grows_outputExpression (hR : R.Sound) : ∀ e : Expr, (R.outputExpression e).Grows
  | .node primType head opnds => by
    apply Put.grows_seq_cons
    · exact Put.grows_seq_cons (grows_write _) (Put.grows_seq_singleton (grows_write _))
    · apply Put.grows_seq_cons (grows_outputHead hR head)
      exact Put.grows_seq_singleton (grows_outputOpnds hR opnds)

lemma grows_outputOpnds (hR : R.Sound) : ∀ {n : Nat} (opnds : Exprs n), (R.outputOpnds opnds).Grows
  | _, .nil => Put.grows_skip
  | _, .cons opnd opnds => (grows_outputExpression hR opnd).append (grows_outputOpnds hR opnds)

end

lemma readsBack_outputBaseNode {Linked : WState S → RState T → Prop} (op : Opcode)
    (primType : UInt8) :
    ReadsBack Linked F (outputBaseNode op primType) importBaseNode (uint8 op.code, primType) := by
  apply ReadsBack.seq_cons (readsBack_write _) (Put.grows_seq_singleton (grows_write _))
  exact ((readsBack_write primType).map fun typ => (uint8 op.code, typ)).seq_singleton

lemma ofCode_uint8_code (op : Opcode) : Opcode.ofCode (uint8 op.code).toNat = some op := by
  have hlt := op.code_lt
  have := uint8_toNat (x := op.code) (by omega) (by omega)
  rw [show (uint8 op.code).toNat = op.code by omega, Opcode.ofCode_code]

omit [Preorder S] in
lemma nodeType_of_keptHead {head : Head n} {primType : UInt8} (h : R.KeptHead primType head) :
    nodeType head.op primType = primType := by
  unfold nodeType
  split_ifs with hop
  · cases head <;> cases hop
    exact h.symm
  · rfl

mutual

/-- What is read for an expression whose nodes are kept. -/
theorem readsBack_outputExpression (hR : R.Sound) : ∀ (e : Expr) (k : Nat), e.depth < k →
    R.Kept e → ReadsBack R.Linked F (R.outputExpression e) (R.importExpression k) (R.readExpr F e)
  | _, 0, h, _ => absurd h (Nat.not_lt_zero _)
  | .node primType head opnds, k + 1, h, hkept => by
    have hdepth : max head.depth opnds.depth < k := Nat.lt_of_succ_lt_succ h
    have hopnds := Put.grows_seq_singleton (grows_outputOpnds hR opnds)
    apply ReadsBack.seq_cons (readsBack_outputBaseNode head.op primType)
    · exact Put.grows_seq_cons (grows_outputHead hR head) hopnds
    · simp only [ofCode_uint8_code]
      apply ReadsBack.seq_cons (readsBack_outputHead hR (by omega) hkept.1) hopnds
      apply ReadsBack.seq_singleton
      have hread := (readsBack_outputOpnds hR opnds k (by omega) hkept.2).map
        (Expr.node (nodeType head.op primType) (R.readHead F head))
      rw [nodeType_of_keptHead hkept.1] at hread
      rw [nodeType_of_keptHead hkept.1]
      exact hread

theorem readsBack_outputOpnds (hR : R.Sound) : ∀ {n : Nat} (opnds : Exprs n) (k : Nat),
    opnds.depth < k → R.KeptOpnds opnds →
    ReadsBack R.Linked F (R.outputOpnds opnds) (importOpnds (R.importExpression k) n)
      (R.readExprs F opnds)
  | _, .nil, _, _, _ => ReadsBack.skip _
  | _, .cons opnd opnds, k, h, hkept => by
    have hdepth : max opnd.depth opnds.depth < k := h
    apply ReadsBack.bind (readsBack_outputExpression hR opnd k (by omega) hkept.1)
      (grows_outputOpnds hR opnds)
    exact (readsBack_outputOpnds hR opnds k (by omega) hkept.2).map _

end

mutual

/-- An expression with a node that is not kept is misread: at the first such node. -/
theorem misreads_outputExpression (hR : R.Sound) : ∀ (e : Expr) (k : Nat), e.depth < k →
    e.InWord → ¬ R.Kept e →
    Misreads R.Linked F (R.outputExpression e) (R.importExpression k) (R.readExpr F e)
  | _, 0, h, _, _ => absurd h (Nat.not_lt_zero _)
  | .node primType head opnds, k + 1, h, hword, hkept => by
    have hdepth : max head.depth opnds.depth < k := Nat.lt_of_succ_lt_succ h
    have hopnds := Put.grows_seq_singleton (grows_outputOpnds hR opnds)
    apply ReadsBack.bind_misreads (readsBack_outputBaseNode head.op primType)
    · exact Put.grows_seq_cons (grows_outputHead hR head) hopnds
    simp only [ofCode_uint8_code]
    by_cases hhead : R.KeptHead primType head
    · have hbad : ¬ R.KeptOpnds opnds := fun hgood => hkept ⟨hhead, hgood⟩
      apply ReadsBack.bind_misreads (readsBack_outputHead hR (by omega) hhead) hopnds
      apply Misreads.bind (misreads_outputOpnds hR opnds k (by omega) hword.2 hbad) Put.grows_skip
      intro x t bs t' bs' hx
      simp only [readExpr, Get.pure_apply, Option.some.injEq, Prod.mk.injEq, Expr.node.injEq,
        heq_eq_eq, true_and] at hx
      exact hx.1.2
    by_cases hop : head.op = .sizeoftype
    · -- the node that is made has no type
      have hne : nodeType head.op primType ≠ primType := by
        intro heq
        cases head <;> cases hop
        exact hhead heq.symm
      intro s t _ bs s' _ _ rest b t' rest' hb
      obtain ⟨x, t₁, rest₁, -, hb⟩ := Get.bind_eq_some.mp hb
      obtain ⟨y, t₂, rest₂, -, hb⟩ := Get.bind_eq_some.mp hb
      rintro rfl
      simp only [readExpr, Get.pure_apply, Option.some.injEq, Prod.mk.injEq, Expr.node.injEq] at hb
      exact hne hb.1.2.1
    · apply Misreads.bind (misreads_outputHead hR (by omega) hword.1 hop hhead) hopnds
      rintro ⟨m, x⟩ t bs t' bs' hx
      obtain ⟨y, t₁, bs₁, -, hx⟩ := Get.bind_eq_some.mp hx
      simp only [readExpr, Get.pure_apply, Option.some.injEq, Prod.mk.injEq, Expr.node.injEq] at hx
      obtain ⟨⟨rfl, -, hx, -⟩, -⟩ := hx
      cases hx
      rfl

theorem misreads_outputOpnds (hR : R.Sound) : ∀ {n : Nat} (opnds : Exprs n) (k : Nat),
    opnds.depth < k → opnds.InWord → ¬ R.KeptOpnds opnds →
    Misreads R.Linked F (R.outputOpnds opnds) (importOpnds (R.importExpression k) n)
      (R.readExprs F opnds)
  | _, .nil, _, _, _, hkept => absurd trivial hkept
  | _, .cons opnd opnds, k, h, hword, hkept => by
    have hdepth : max opnd.depth opnds.depth < k := h
    have hopnds := grows_outputOpnds hR opnds
    by_cases hopnd : R.Kept opnd
    · have hbad : ¬ R.KeptOpnds opnds := fun hgood => hkept ⟨hopnd, hgood⟩
      have hread := readsBack_outputExpression (F := F) hR opnd k (by omega) hopnd
      apply hread.bind_misreads hopnds
      apply Misreads.map _ (misreads_outputOpnds hR opnds k (by omega) hword.2 hbad)
      intro x y hxy
      cases hxy
      rfl
    · apply Misreads.bind (misreads_outputExpression hR opnd k (by omega) hword.1 hopnd) hopnds
      intro x t bs t' bs' hx
      obtain ⟨y, t₁, bs₁, -, hx⟩ := Get.bind_eq_some.mp hx
      cases hx
      rfl

end

end ConstTables

/-! ### Expressions over constants -/

section PrimTables

/-- The frame slot at an offset, an `i64`. -/
def frameSlot (offset : Int32) : Expr := .node 5 (.ireadfpoff offset) .nil

/-- `depositbits i64 8 16 (ireadfpoff i64 8, add i64 (ireadfpoff i64 16, constval i64 -5))` and the
like. -/
def depositbitsNode (bitsOffset bitsSize : UInt8) : Expr :=
  .node 5 (.depositbits bitsOffset bitsSize)
    (.cons (frameSlot 8)
      (.cons (.node 5 (.binary .add)
        (.cons (frameSlot 16) (.cons (.node 5 (.constval (.int 5 (-5))) .nil) .nil))) .nil))

lemma depositbitsNode_kept : primTables.Kept (depositbitsNode 8 16) := by
  have hbits : (8 : UInt8).toNat < 64 ∧ (16 : UInt8).toNat < 64 := by decide
  have hint : FitsWord ⟨64, true⟩ (-5) := by decide
  have hsum : primTables.KeptOpnds (.cons (frameSlot 16)
      (.cons (.node 5 (.constval (.int 5 (-5))) .nil) .nil)) :=
    ⟨⟨trivial, trivial⟩, ⟨hint, trivial⟩, trivial⟩
  exact ⟨hbits, ⟨trivial, trivial⟩, ⟨trivial, hsum⟩, trivial⟩

/-- What is written for the expression is never read as the expression. -/
def Lost (e : Expr) : Prop :=
  ∃ bs w', primTables.outputExpression e ⟨[], [], [], ()⟩ = some (bs, w') ∧ ∀ rest r' rest',
    primTables.importExpression 5 ⟨[], [], [], ()⟩ (bs ++ rest) ≠
      some (primTables.readExpr w' e, r', rest')

lemma lost_of_not_kept {e : Expr} (hdepth : e.depth < 5) (hword : e.InWord)
    (hkept : ¬ primTables.Kept e)
    (hsome : (primTables.outputExpression e ⟨[], [], [], ()⟩).isSome = true) : Lost e := by
  obtain ⟨⟨bs, w'⟩, hw⟩ := Option.isSome_iff_exists.mp hsome
  refine ⟨bs, w', hw, fun rest r' rest' hread => ?_⟩
  exact ConstTables.misreads_outputExpression primTables_sound e 5 hdepth hword hkept _ _
    primTables_linked bs w' hw (le_refl w') rest _ r' rest' hread rfl

end PrimTables

end BinMpl
end Maple
