import Maple.IR.BinMpl.Const
import Mathlib.Order.CompletePartialOrder

/-!
# Constants are read back

What `ImportConst` returns for the bytes of `OutputConst`: `cut`, what a constant loses when it is
written, then `rename`, its references on the side of the reader, and `normal`, the constant that the
tables of the reader have for it.
-/

namespace Maple
namespace BinMpl

namespace ConstTables

variable {S T : Type} (R : ConstTables S T)

mutual

/-- A constant after its integers went through a word and its strings through the counter of the
conversion. -/
def cut : MIRConst → MIRConst
  | .int ty value => .int ty (intVal (R.format ty) (getExtValue (R.format ty) value))
  | .str16 ty value => .str16 ty (value.take Namemangler.maxCount)
  | .agg ty constVec => .agg ty (cutVec constVec)
  | c => c

def cutVec : ConstVec → ConstVec
  | .nil => .nil
  | .cons fieldId item rest => .cons fieldId (cut item) (cutVec rest)

end

mutual

/-- Integers are values of their types that fit in a word, and strings end before the counter of
the conversion wraps around. -/
def Fits : MIRConst → Prop
  | .int ty value => FitsWord (R.format ty) value
  | .str16 _ value => value.length ≤ Namemangler.maxCount
  | .agg _ constVec => FitsVec constVec
  | _ => True

def FitsVec : ConstVec → Prop
  | .nil => True
  | .cons _ item rest => Fits item ∧ FitsVec rest

end

/-- The symbol of the reader. -/
def stIdxName (w : WState S) (stIdx : StIdx) : StIdx :=
  ⟨stIdx.isGlobal,
    if stIdx.isGlobal then R.symbol.name w stIdx.idx else R.localSymbol.name w stIdx.idx⟩

mutual

/-- The constant with the references of the reader. -/
def rename (w : WState S) : MIRConst → MIRConst
  | .null => .null
  | .int ty value => .int (R.type.name w ty) value
  | .addrof ty stIdx fieldID offset =>
    .addrof (R.type.name w ty) (R.stIdxName w stIdx) fieldID offset
  | .addrofFunc ty puIdx => .addrofFunc (R.type.name w ty) (R.function.name w puIdx)
  | .lbl ty value puIdx => .lbl (R.type.name w ty) (labelName w value) puIdx
  | .str ty value => .str (R.type.name w ty) value
  | .str16 ty value => .str16 (R.type.name w ty) value
  | .float ty value => .float (R.type.name w ty) value
  | .double ty value => .double (R.type.name w ty) value
  | .float128 ty value₀ value₁ => .float128 (R.type.name w ty) value₀ value₁
  | .agg ty constVec => .agg (R.type.name w ty) (renameVec w constVec)
  | .st ty stVec stOffsetVec =>
    .st (R.type.name w ty) (stVec.map (R.symbol.name w)) stOffsetVec

def renameVec (w : WState S) : ConstVec → ConstVec
  | .nil => .nil
  | .cons fieldId item rest => .cons fieldId (rename w item) (renameVec w rest)

end

mutual

/-- The constant that the reader has for a constant with its references. -/
def normal : MIRConst → MIRConst
  | .addrof ty stIdx fieldID offset =>
    .addrof (if stIdx.isGlobal then R.pointerTo stIdx.idx else ty) stIdx fieldID offset
  | .lbl ty value _ => .lbl ty value R.puIdx
  | .float _ value => .float tyF32 (floatConst value)
  | .double _ value => .double tyF64 (doubleConst value)
  | .float128 _ value₀ value₁ =>
    .float128 tyF128 (float128Const value₀ value₁).1 (float128Const value₀ value₁).2
  | .agg ty constVec => .agg ty (normalVec constVec)
  | c => c

def normalVec : ConstVec → ConstVec
  | .nil => .nil
  | .cons fieldId item rest => .cons fieldId (normal item) (normalVec rest)

end

/-- The writers and readers of references fit together, and types keep their primitive types. -/
structure Sound [Preorder S] : Prop extends RefTables.Sound R.toRefTables where
  formatIn_name : ∀ w ty, R.formatIn (R.type.name w ty) = R.format ty

/-! ### Numbers of the fields -/

lemma int64_of_bounds {x : Int} (hlo : -2 ^ 63 ≤ x) (hhi : x < 2 ^ 63) : int64 x = x :=
  int64Format.wrap_of_mem (int64_mem_of_lt hlo hhi)

lemma int64_int64 (x : Int) : int64 (int64 x) = int64 x :=
  int64Format.wrap_of_mem (int64_mem x)

lemma int64_int32 (x : Int) : int64 (int32 x) = int32 x := by
  have h := int32Format.wrap_mem x
  apply int64_of_bounds
  · exact le_trans (by decide) h.1
  · exact lt_of_le_of_lt h.2 (by decide)

lemma ofInt_int64_toInt (x : Int32) : Int32.ofInt (int64 x.toInt) = x := by
  have hlo := x.le_toInt
  have hhi := x.toInt_lt
  rw [int64_of_bounds (by omega) (by omega), Int32.ofInt_toInt]

lemma uInt32_ofInt {x : Int} {u : UInt32} (h : x % 2 ^ 32 = u.toNat) : UInt32.ofInt x = u := by
  rw [UInt32.ofInt, h, Int.toNat_natCast, UInt32.ofNat_toNat]

lemma uInt64_ofInt {x : Int} {u : UInt64} (h : x % 2 ^ 64 = u.toNat) : UInt64.ofInt x = u := by
  rw [UInt64.ofInt, h, Int.toNat_natCast, UInt64.ofNat_toNat]

lemma uInt32_ofInt_toNat (u : UInt32) : UInt32.ofInt (int64 u.toNat) = u := by
  have hlt := u.toNat_lt
  apply uInt32_ofInt
  rw [int64_of_bounds (by omega) (by omega)]
  omega

lemma uInt32_ofInt_int32 (u : UInt32) : UInt32.ofInt (int64 (int32 u.toNat)) = u := by
  have hlt := u.toNat_lt
  apply uInt32_ofInt
  rw [int64_int32]
  have hcong : int32 u.toNat % 2 ^ 32 = u.toNat % 2 ^ 32 := int32Format.wrap_emod _
  rw [hcong]
  omega

lemma uInt64_ofInt_int64 (u : UInt64) : UInt64.ofInt (int64 (int64 u.toNat)) = u := by
  have hlt := u.toNat_lt
  apply uInt64_ofInt
  rw [int64_int64]
  have hcong : int64 u.toNat % 2 ^ 64 = u.toNat % 2 ^ 64 := int64Format.wrap_emod _
  rw [hcong]
  omega

lemma bounds_getExtValue (f : IntFormat) (value : Int) :
    int64 (getExtValue f value) = getExtValue f value := by
  unfold getExtValue
  split_ifs
  · apply int64_of_bounds <;> omega
  · exact int64_int64 value

/-! ### The cases of the reader -/

section ReadsBack

variable [Preorder S] {R} {F : WState S}

lemma grows_writeSize (size : Nat) : Put.Grows (writeSize size : Put (WState S)) := by
  unfold writeSize
  split_ifs
  · exact grows_writeNum _
  · exact Put.grows_fail

lemma readsBack_writeSize {Linked : WState S → RState T → Prop} (size : Nat) :
    ReadsBack Linked F (writeSize size) readNum (size : Int) := by
  unfold writeSize
  split_ifs with h
  · have hsize : ReadsBack Linked F _ _ _ := readsBack_writeNum (size : Int)
    rwa [int64_of_bounds (by omega) (by omega)] at hsize
  · exact ReadsBack.fail _ _

lemma grows_outputConstBase (hR : R.Sound) (kind : Int) (ty : Nat) :
    (R.outputConstBase kind ty).Grows :=
  Put.grows_seq_cons (grows_writeNum _) (Put.grows_seq_singleton (hR.type.grows ty))

lemma grows_outputTagged (hR : R.Sound) (tag : ConstTag) (kind : Int) (ty : Nat)
    {fields : List (Put (WState S))} (h : (Put.seq fields).Grows) :
    (R.outputTagged tag kind ty fields).Grows := by
  apply Put.grows_seq_cons (grows_writeNum _)
  exact Put.grows_seq_cons (grows_outputConstBase hR kind ty) h

lemma grows_outputSymbolOf (hR : R.Sound) (stIdx : StIdx) : (R.outputSymbolOf stIdx).Grows := by
  unfold outputSymbolOf
  split_ifs
  · exact hR.symbol.grows _
  · exact hR.localSymbol.grows _

mutual

lemma grows_outputConst (hR : R.Sound) : ∀ c : MIRConst, (R.outputConst c).Grows
  | .null => grows_writeNum 0
  | .int .. => grows_outputTagged hR _ _ _ (Put.grows_seq_singleton (grows_writeNum _))
  | .addrof _ stIdx _ _ => by
    apply grows_outputTagged hR
    apply Put.grows_seq_cons (grows_outputSymbolOf hR stIdx)
    apply Put.grows_seq_cons (grows_writeNum _)
    exact Put.grows_seq_singleton (grows_writeNum _)
  | .addrofFunc .. =>
    grows_outputTagged hR _ _ _ (Put.grows_seq_singleton (hR.function.grows _))
  | .lbl .. => grows_outputTagged hR _ _ _ (Put.grows_seq_singleton (grows_outputLabel _))
  | .str .. => grows_outputTagged hR _ _ _ (Put.grows_seq_singleton (grows_outputUsrStr _))
  | .str16 .. =>
    grows_outputTagged hR _ _ _ (Put.grows_seq_singleton (grows_writeAsciiStr _))
  | .float .. => grows_outputTagged hR _ _ _ (Put.grows_seq_singleton (grows_writeNum _))
  | .double .. => grows_outputTagged hR _ _ _ (Put.grows_seq_singleton (grows_writeNum _))
  | .float128 .. => by
    apply grows_outputTagged hR
    apply Put.grows_seq_cons (grows_writeNum _)
    exact Put.grows_seq_singleton (grows_writeNum _)
  | .agg _ constVec => by
    apply grows_outputTagged hR
    apply Put.grows_seq_cons (grows_writeSize _)
    exact Put.grows_seq_singleton (grows_outputConstVec hR constVec)
  | .st _ stVec stOffsetVec => by
    apply grows_outputTagged hR
    apply Put.grows_seq_cons (grows_writeSize _)
    apply Put.grows_seq_cons
    · apply Put.Grows.seq
      simpa using fun sym _ => hR.symbol.grows sym
    · apply Put.grows_seq_cons (grows_writeSize _)
      refine Put.grows_seq_singleton ?_
      apply Put.Grows.seq
      simpa using fun offset _ => grows_writeNum _

lemma grows_outputConstVec (hR : R.Sound) : ∀ constVec : ConstVec,
    (R.outputConstVec constVec).Grows
  | .nil => Put.grows_skip
  | .cons _ item rest => by
    apply Put.grows_seq_cons (grows_writeNum _)
    apply Put.grows_seq_cons (grows_outputConst hR item)
    exact Put.grows_seq_singleton (grows_outputConstVec hR rest)

end

lemma readsBack_outputTagged (hR : R.Sound) {n : Nat} {tag : ConstTag} {kind : Int} {ty : Nat}
    {fields : List (Put (WState S))} {c : MIRConst} (hgrows : (Put.seq fields).Grows)
    (h : ReadsBack R.Linked F (Put.seq fields)
      (R.importTagged (R.importConst n) (R.type.name F ty) tag) c) :
    ReadsBack R.Linked F (R.outputTagged tag kind ty fields) (R.importConst (n + 1)) c := by
  apply ReadsBack.seq_cons (readsBack_writeNum _)
  · exact Put.grows_seq_cons (grows_outputConstBase hR kind ty) hgrows
  · have htag : int64 tag.code = tag.code := int64Format.wrap_of_mem tag.code_mem
    rw [htag, if_neg tag.code_ne_zero, ConstTag.ofCode_code]
    refine ReadsBack.seq_cons ?_ hgrows h
    apply ReadsBack.seq_cons (readsBack_writeNum _)
    · exact Put.grows_seq_singleton (hR.type.grows ty)
    · exact (hR.type.readsBack F ty).seq_singleton

lemma readsBack_field {α : Type} {Linked : WState S → RState T → Prop} {p : Put (WState S)}
    {g : Get (RState T) α} {a : α} (f : α → MIRConst) (h : ReadsBack Linked F p g a) :
    ReadsBack Linked F (Put.seq [p]) (g >>= fun x => pure (f x)) (f a) :=
  (h.map f).seq_singleton

lemma readsBack_fieldID_offset {Linked : WState S → RState T → Prop} (fieldID offset : Int32)
    (f : Int32 → Int32 → MIRConst) :
    ReadsBack Linked F (Put.seq [writeNum fieldID.toInt, writeNum offset.toInt])
      (readNum >>= fun fi => readNum >>= fun ofst => pure (f (Int32.ofInt fi) (Int32.ofInt ofst)))
      (f fieldID offset) := by
  apply ReadsBack.seq_cons (readsBack_writeNum _) (Put.grows_seq_singleton (grows_writeNum _))
  have h := readsBack_field (fun x => f (Int32.ofInt (int64 fieldID.toInt)) (Int32.ofInt x))
    (show ReadsBack Linked F _ _ _ from readsBack_writeNum offset.toInt)
  rw [ofInt_int64_toInt, ofInt_int64_toInt] at h
  rw [ofInt_int64_toInt]
  exact h

lemma readsBack_offsets {Linked : WState S → RState T → Prop} (stOffsetVec : List UInt32) :
    ReadsBack Linked F (Put.seq (stOffsetVec.map fun offset => writeNum offset.toNat))
      ((readNum >>= fun n => pure (UInt32.ofInt n)).many stOffsetVec.length) stOffsetVec := by
  have hone : ∀ offset : UInt32, ReadsBack Linked F (writeNum offset.toNat)
      (readNum >>= fun n => pure (UInt32.ofInt n)) offset := by
    intro offset
    have hword : ReadsBack Linked F _ _ _ := readsBack_writeNum (offset.toNat : Int)
    have h := hword.map UInt32.ofInt
    rwa [uInt32_ofInt_toNat] at h
  have h : ReadsBack Linked F (Put.seq (stOffsetVec.map fun offset => writeNum offset.toNat))
      ((readNum >>= fun n => pure (UInt32.ofInt n)).many stOffsetVec.length) (stOffsetVec.map id) :=
    ReadsBack.many (fun _ _ => grows_writeNum _) fun offset _ => hone offset
  rwa [List.map_id] at h

/-! ### The round trip -/

mutual

/-- What is read for a constant. -/
theorem readsBack_outputConst (hR : R.Sound) : ∀ (c : MIRConst) (n : Nat), c.depth < n →
    ReadsBack R.Linked F (R.outputConst c) (R.importConst n) (R.normal (R.rename F (R.cut c)))
  | c, 0, h => absurd h (Nat.not_lt_zero _)
  | .null, n + 1, _ => by
    intro w r hl bs w' hw _ rest
    cases hw
    have hread := readNum_numBytes 0 (int64_mem_of_lt (by decide) (by decide)) r rest
    exact ⟨r, (Get.bind_of_eq hread).trans rfl, hl⟩
  | .int ty value, n + 1, _ => by
    apply readsBack_outputTagged hR (Put.grows_seq_singleton (grows_writeNum _))
    have hword : ReadsBack R.Linked F _ _ _ := readsBack_writeNum (getExtValue (R.format ty) value)
    rw [bounds_getExtValue] at hword
    have h := readsBack_field (fun x => .int (R.type.name F ty) (intVal (R.format ty) x)) hword
    rw [← hR.formatIn_name F ty] at h
    rw [cut, ← hR.formatIn_name F ty]
    exact h
  | .addrof ty ⟨isGlobal, idx⟩ fieldID offset, n + 1, _ => by
    have hnum : (Put.seq [writeNum fieldID.toInt, writeNum offset.toInt] : Put (WState S)).Grows :=
      Put.grows_seq_cons (grows_writeNum _) (Put.grows_seq_singleton (grows_writeNum _))
    apply readsBack_outputTagged hR (Put.grows_seq_cons (grows_outputSymbolOf hR _) hnum)
    cases isGlobal with
    | true =>
      apply ReadsBack.seq_cons (hR.symbol.readsBack F idx) hnum
      exact readsBack_fieldID_offset fieldID offset _
    | false =>
      apply ReadsBack.seq_cons (hR.localSymbol.readsBack F idx) hnum
      exact readsBack_fieldID_offset fieldID offset _
  | .addrofFunc ty puIdx, n + 1, _ => by
    apply readsBack_outputTagged hR (Put.grows_seq_singleton (hR.function.grows _))
    exact readsBack_field (MIRConst.addrofFunc (R.type.name F ty)) (hR.function.readsBack F puIdx)
  | .lbl ty value puIdx, n + 1, _ => by
    apply readsBack_outputTagged hR (Put.grows_seq_singleton (grows_outputLabel _))
    exact readsBack_field (fun x => .lbl (R.type.name F ty) x R.puIdx) (readsBack_outputLabel value)
  | .str ty value, n + 1, _ => by
    apply readsBack_outputTagged hR (Put.grows_seq_singleton (grows_outputUsrStr _))
    exact readsBack_field (MIRConst.str (R.type.name F ty)) (readsBack_outputUsrStr value)
  | .str16 ty value, n + 1, _ => by
    apply readsBack_outputTagged hR (Put.grows_seq_singleton (grows_writeAsciiStr _))
    have hlen := Namemangler.length_utf16ToUtf8_le value
    have hbytes : ReadsBack R.Linked F (writeAsciiStr (Namemangler.utf16ToUtf8 value)) _ _ :=
      readsBack_writeAsciiStr (lt_of_le_of_lt hlen (by decide))
    have hnil : (Put.seq [] : Put (WState S)).Grows := Put.grows_skip
    apply ReadsBack.seq_cons hbytes hnil
    rw [Namemangler.utf8ToUtf16_utf16ToUtf8]
    exact ReadsBack.skip _
  | .float ty value, n + 1, _ => by
    apply readsBack_outputTagged hR (Put.grows_seq_singleton (grows_writeNum _))
    have h := readsBack_field (fun x => .float tyF32 (floatConst (UInt32.ofInt x)))
      (show ReadsBack R.Linked F _ _ _ from readsBack_writeNum (int32 value.toNat))
    rw [uInt32_ofInt_int32] at h
    exact h
  | .double ty value, n + 1, _ => by
    apply readsBack_outputTagged hR (Put.grows_seq_singleton (grows_writeNum _))
    have h := readsBack_field (fun x => .double tyF64 (doubleConst (UInt64.ofInt x)))
      (show ReadsBack R.Linked F _ _ _ from readsBack_writeNum (int64 value.toNat))
    rw [uInt64_ofInt_int64] at h
    exact h
  | .float128 ty value₀ value₁, n + 1, _ => by
    have hword := Put.grows_seq_singleton (grows_writeNum (σ := WState S) (int64 value₁.toNat))
    apply readsBack_outputTagged hR (Put.grows_seq_cons (grows_writeNum _) hword)
    apply ReadsBack.seq_cons (readsBack_writeNum _) hword
    have h := readsBack_field (fun x => .float128 tyF128
        (float128Const (UInt64.ofInt (int64 (int64 value₀.toNat))) (UInt64.ofInt x)).1
        (float128Const (UInt64.ofInt (int64 (int64 value₀.toNat))) (UInt64.ofInt x)).2)
      (show ReadsBack R.Linked F _ _ _ from readsBack_writeNum (int64 value₁.toNat))
    rw [uInt64_ofInt_int64, uInt64_ofInt_int64] at h
    rw [uInt64_ofInt_int64]
    exact h
  | .agg ty constVec, n + 1, h => by
    have hvec := grows_outputConstVec hR constVec
    apply readsBack_outputTagged hR
    · exact Put.grows_seq_cons (grows_writeSize _) (Put.grows_seq_singleton hvec)
    · apply ReadsBack.seq_cons (readsBack_writeSize _) (Put.grows_seq_singleton hvec)
      exact readsBack_field (MIRConst.agg (R.type.name F ty))
        (readsBack_outputConstVec hR constVec n (Nat.lt_of_succ_lt_succ h))
  | .st ty stVec stOffsetVec, n + 1, _ => by
    have hoffsets : (Put.seq [Put.seq (stOffsetVec.map fun offset => writeNum offset.toNat)] :
        Put (WState S)).Grows := by
      apply Put.grows_seq_singleton
      apply Put.Grows.seq
      simpa using fun offset _ => grows_writeNum _
    have htail := Put.grows_seq_cons (grows_writeSize stOffsetVec.length) hoffsets
    have hsymbols : Put.Grows (Put.seq (stVec.map R.symbol.out)) := by
      apply Put.Grows.seq
      simpa using fun sym _ => hR.symbol.grows sym
    have hall := Put.grows_seq_cons hsymbols htail
    apply readsBack_outputTagged hR (Put.grows_seq_cons (grows_writeSize _) hall)
    apply ReadsBack.seq_cons (readsBack_writeSize _) hall
    apply ReadsBack.seq_cons _ htail
    · apply ReadsBack.seq_cons (readsBack_writeSize _) hoffsets
      apply readsBack_field (MIRConst.st (R.type.name F ty) (stVec.map (R.symbol.name F)))
      exact readsBack_offsets stOffsetVec
    · exact ReadsBack.many (fun sym _ => hR.symbol.grows sym)
        fun sym _ => hR.symbol.readsBack F sym

theorem readsBack_outputConstVec (hR : R.Sound) : ∀ (constVec : ConstVec) (n : Nat),
    constVec.depth < n →
    ReadsBack R.Linked F (R.outputConstVec constVec)
      (importConstVec (R.importConst n) constVec.length)
      (R.normalVec (R.renameVec F (R.cutVec constVec)))
  | .nil, _, _ => ReadsBack.skip _
  | .cons fieldId item rest, n, h => by
    have hrest := Put.grows_seq_singleton (grows_outputConstVec hR rest)
    have hitem := Put.grows_seq_cons (grows_outputConst hR item) hrest
    have hdepth : max item.depth rest.depth < n := h
    apply ReadsBack.seq_cons (readsBack_writeNum _) hitem
    rw [uInt32_ofInt_toNat]
    apply ReadsBack.seq_cons (readsBack_outputConst hR item n (by omega)) hrest
    apply ReadsBack.seq_singleton
    exact (readsBack_outputConstVec hR rest n (by omega)).map _

end

end ReadsBack

mutual

lemma cut_eq_self : ∀ {c : MIRConst}, R.Fits c → R.cut c = c
  | .int ty value, h => by
    have hword : FitsWord (R.format ty) value := h
    rw [cut, intVal_getExtValue hword]
  | .str16 ty value, h => by
    have hlen : value.length ≤ Namemangler.maxCount := h
    rw [cut, List.take_of_length_le hlen]
  | .agg ty constVec, h => by
    have hvec : R.FitsVec constVec := h
    rw [cut, cutVec_eq_self hvec]
  | .null, _ | .addrof .., _ | .addrofFunc .., _ | .lbl .., _ | .str .., _ | .float .., _
  | .double .., _ | .float128 .., _ | .st .., _ => rfl

lemma cutVec_eq_self : ∀ {constVec : ConstVec}, R.FitsVec constVec → R.cutVec constVec = constVec
  | .nil, _ => rfl
  | .cons fieldId item rest, h => by
    have hitem : R.Fits item := h.1
    have hrest : R.FitsVec rest := h.2
    rw [cutVec, cut_eq_self hitem, cutVec_eq_self hrest]

end

variable {R}

end ConstTables

/-! ### A module with primitive types only -/

section PrimTables

/-- The marks of primitive types are their indices. -/
def primType : Channel (WState Unit) (RState Unit) Nat Nat where
  out ty := if ty < 2 ^ 63 then writeNum (-ty) else Put.fail
  inp := readNum >>= fun n => pure (-n).toNat
  name _ ty := ty

def noReference : Channel (WState Unit) (RState Unit) Nat Nat where
  out _ := Put.fail
  inp := Get.fail
  name _ a := a

/-- The types `i32`, `i128` and others of 64 bits. -/
def primTables : ConstTables Unit Unit where
  pregType _ := 4
  type := primType
  symbol := noReference
  localSymbol := noReference
  funcViaSym := noReference
  function := noReference
  restLinked _ _ := True
  format ty := if ty = 4 then ⟨32, true⟩ else if ty = 6 then ⟨128, true⟩ else ⟨64, true⟩
  formatIn ty := if ty = 4 then ⟨32, true⟩ else if ty = 6 then ⟨128, true⟩ else ⟨64, true⟩
  pointerTo _ := 13
  puIdx := 1

lemma primType_sound {Linked : WState Unit → RState Unit → Prop} : primType.Sound Linked where
  grows ty := by
    change Put.Grows (if ty < 2 ^ 63 then writeNum (-ty) else Put.fail)
    split_ifs
    · exact grows_writeNum _
    · exact Put.grows_fail
  readsBack F ty := by
    change ReadsBack Linked F (if ty < 2 ^ 63 then writeNum (-ty) else Put.fail) _ ty
    split_ifs with h
    · have hnum : ReadsBack Linked F _ _ _ := readsBack_writeNum (-ty : Int)
      have hread := hnum.map
        fun n => (-n).toNat
      rw [ConstTables.int64_of_bounds (by omega) (by omega), neg_neg, Int.toNat_natCast] at hread
      exact hread
    · exact ReadsBack.fail _ _

lemma noReference_sound {Linked : WState Unit → RState Unit → Prop} : noReference.Sound Linked where
  grows _ := Put.grows_fail
  readsBack _ _ := ReadsBack.fail _ _

lemma primTables_sound : primTables.Sound where
  type := primType_sound
  symbol := noReference_sound
  localSymbol := noReference_sound
  funcViaSym := noReference_sound
  function := noReference_sound
  formatIn_name _ _ := rfl

lemma primTables_linked : primTables.Linked ⟨[], [], [], ()⟩ ⟨[], [], [], ()⟩ where
  uStr := ⟨by decide, rfl⟩
  preg := ⟨by decide, rfl⟩
  label := ⟨by decide, rfl⟩
  rest := trivial

/-- An aggregate `{-5, {u"é", 0.0f}}`. -/
def nestedConst : MIRConst :=
  .agg 24 (.cons 1 (.int 4 (-5)) (.cons 2 (.agg 24 (.cons 1 (.str16 13 [0xE9])
    (.cons 2 (.float 17 0) .nil))) .nil))

lemma nestedConst_fits : primTables.Fits nestedConst := by
  have hint : FitsWord ⟨32, true⟩ (-5) := by decide
  have hstr : [(0xE9 : UInt16)].length ≤ Namemangler.maxCount := by decide
  exact ⟨hint, ⟨hstr, trivial, trivial⟩, trivial⟩

end PrimTables

end BinMpl
end Maple
