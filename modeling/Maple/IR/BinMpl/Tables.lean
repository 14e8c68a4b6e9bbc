import Maple.IR.BinMpl.Buffer
import Mathlib.Data.List.Infix

/-!
# References in binary MIR

Strings, labels, pseudo registers, types, symbols and functions are written in full the first time
and by their mark, the negated position in a table, afterwards. Strings, labels and pseudo registers
are modelled here. Types, symbols and functions are parameters: what is written for them depends on
the whole module.
-/

namespace Maple
namespace BinMpl

/-- A string of `UStrIdx`; its bytes fit in memory. -/
structure Str where
  bytes : List UInt8
  length_lt : bytes.length < 2 ^ 63
  deriving DecidableEq

/-- The marks of the writer: the entries in the order of their marks, which start with 1. -/
structure WState (S : Type) where
  uStrMark : List Str := []
  localPregMark : List Nat := []
  labelMark : List Nat := []
  /-- The marks of types, symbols and functions. -/
  rest : S

/-- The tables of the reader without the dummy at position 0. The pseudo registers and labels of the
function that is read are created in the order of these tables, so that their positions are their
indices. -/
structure RState (T : Type) where
  uStrTab : List Str := []
  /-- The primitive types of the pseudo registers. -/
  localPregTab : List UInt8 := []
  localLabelTab : List Unit := []
  /-- The tables of types, symbols and functions. -/
  rest : T

instance {S : Type} [Preorder S] : Preorder (WState S) where
  le w w' := w.uStrMark <+: w'.uStrMark ∧ w.localPregMark <+: w'.localPregMark ∧
    w.labelMark <+: w'.labelMark ∧ w.rest ≤ w'.rest
  le_refl w := ⟨List.prefix_refl _, List.prefix_refl _, List.prefix_refl _, le_refl _⟩
  le_trans _ _ _ h h' := ⟨h.1.trans h'.1, h.2.1.trans h'.2.1, h.2.2.1.trans h'.2.2.1,
    h.2.2.2.trans h'.2.2.2⟩

/-- A writer and a reader for one kind of reference, with what a reference of the writer is called
on the side of the reader. -/
structure Channel (σ τ α β : Type) where
  out : α → Put σ
  inp : Get τ β
  name : σ → α → β

structure Channel.Sound {σ τ α β : Type} [Preorder σ] (c : Channel σ τ α β)
    (Linked : σ → τ → Prop) : Prop where
  grows : ∀ a, (c.out a).Grows
  readsBack : ∀ F a, ReadsBack Linked F (c.out a) c.inp (c.name F a)

/-! ### Marks -/

section Marks

variable {σ τ α κ β : Type}

/-- The writer of a reference: a mark, or the tag, the content and a new mark. It fails when
there is no memory for a mark. -/
def outputMarked [DecidableEq α] (marks : σ → List α) (push : σ → α → σ) (tag : Int)
    (content : α → List UInt8) (a : α) : Put σ := fun s =>
  if a ∈ marks s then some (numBytes 9 (-((marks s).idxOf a + 1 : Nat)), s)
  else if (marks s).length < 2 ^ 63 - 1 then some (numBytes 9 tag ++ content a, push s a)
  else none

/-- The value of the entry at a position, which starts with 1. -/
def entryAt (entries : τ → List κ) (value : Nat → κ → β) (pos : Nat) : Get τ β := fun t bs =>
  ((entries t)[pos - 1]?).map fun c => (value pos c, t, bs)

/-- A new entry. -/
def newEntry (entries : τ → List κ) (push : τ → κ → τ) (value : Nat → κ → β) (c : κ) : Get τ β :=
  fun t bs => some (value ((entries t).length + 1) c, push t c, bs)

/-- The reader of a reference; `zero` is the value of the dummy entry and `other` the reader for
further tags. -/
def importMarked (zero : β) (entries : τ → List κ) (push : τ → κ → τ) (value : Nat → κ → β)
    (tag : Int) (content : Get τ κ) (other : Int → Get τ β) : Get τ β := do
  let n ← readNum
  if n = 0 then pure zero
  else if n < 0 then entryAt entries value (-n).toNat
  else if n = tag then content >>= newEntry entries push value
  else other n

/-- The entries of the reader are those of the marks. -/
structure MarksAgree (marks : List α) (entries : List κ) (contentOf : α → κ) : Prop where
  length_lt : marks.length < 2 ^ 63
  entries_eq : entries = marks.map contentOf

variable [DecidableEq α] [Preorder σ] {Linked : σ → τ → Prop} {marks : σ → List α}
  {pushMark : σ → α → σ} {tag : Int} {contentBytes : α → List UInt8} {zero : β}
  {entries : τ → List κ} {pushEntry : τ → κ → τ} {value : Nat → κ → β} {content : Get τ κ}
  {other : Int → Get τ β}

lemma grows_outputMarked (hpush : ∀ s a, s ≤ pushMark s a) (a : α) :
    (outputMarked marks pushMark tag contentBytes a).Grows := by
  intro s bs s' h
  unfold outputMarked at h
  split_ifs at h <;> cases h
  · exact le_refl _
  · exact hpush s a

lemma idxOf_of_le {xs ys : List α} {a : α} (h : xs <+: ys) (ha : a ∈ xs) :
    ys.idxOf a = xs.idxOf a := by
  obtain ⟨zs, rfl⟩ := h
  exact List.idxOf_append_of_mem ha

lemma readsBack_outputMarked (contentOf : α → κ) (F : σ) (a : α) (htag : 0 < tag)
    (htag' : tag < 2 ^ 63)
    (hmono : ∀ s s', s ≤ s' → marks s <+: marks s')
    (hmarks : ∀ s a, marks (pushMark s a) = marks s ++ [a])
    (hcontent : ∀ a t rest, content t (contentBytes a ++ rest) = some (contentOf a, t, rest))
    (hagree : ∀ s t, Linked s t → MarksAgree (marks s) (entries t) contentOf)
    (hlinked : ∀ s t a, Linked s t → (marks s).length < 2 ^ 63 - 1 →
      Linked (pushMark s a) (pushEntry t (contentOf a))) :
    ReadsBack Linked F (outputMarked marks pushMark tag contentBytes a)
      (importMarked zero entries pushEntry value tag content other)
      (value ((marks F).idxOf a + 1) (contentOf a)) := by
  intro s t hl bs s' h hF rest
  have hentries := (hagree s t hl).entries_eq
  have hlength := (hagree s t hl).length_lt
  unfold outputMarked at h
  split_ifs at h with ha hlt
  · simp only [Option.some.injEq, Prod.mk.injEq] at h
    obtain ⟨rfl, rfl⟩ := h
    have hidx : (marks s).idxOf a < (marks s).length := List.idxOf_lt_length_iff.mpr ha
    have hread := readNum_numBytes (-((marks s).idxOf a + 1 : Nat))
      (int64_mem_of_lt (by omega) (by omega)) t rest
    refine ⟨t, ?_, hl⟩
    have hne : ¬ (-((marks s).idxOf a + 1 : Nat) : Int) = 0 := by omega
    have hneg : (-((marks s).idxOf a + 1 : Nat) : Int) < 0 := by omega
    have hpos : (-(-((marks s).idxOf a + 1 : Nat) : Int)).toNat = (marks s).idxOf a + 1 := by
      rw [neg_neg, Int.toNat_natCast]
    have hget : (entries t)[(marks s).idxOf a]? = some (contentOf a) := by
      rw [hentries, List.getElem?_map, List.getElem?_eq_getElem hidx, List.getElem_idxOf]
      rfl
    rw [importMarked, Get.bind_of_eq hread, if_neg hne, if_pos hneg, hpos, entryAt,
      Nat.add_sub_cancel, hget, idxOf_of_le (hmono s F hF) ha]
    rfl
  · simp only [Option.some.injEq, Prod.mk.injEq] at h
    obtain ⟨rfl, rfl⟩ := h
    have hread := readNum_numBytes tag (int64_mem_of_lt (by omega) htag') t
      (contentBytes a ++ rest)
    refine ⟨pushEntry t (contentOf a), ?_, hlinked s t a hl hlt⟩
    have hle : marks s ++ [a] <+: marks F := by
      rw [← hmarks]
      exact hmono _ _ hF
    have hidx : (marks F).idxOf a = (marks s).length := by
      rw [idxOf_of_le hle (by simp), List.idxOf_append_of_notMem ha]
      simp
    rw [List.append_assoc, importMarked, Get.bind_of_eq hread, if_neg htag.ne', if_neg htag.not_gt,
      if_pos rfl, Get.bind_of_eq (hcontent a t rest), newEntry, hidx, hentries, List.length_map]

end Marks

/-! ### Strings, labels and pseudo registers -/

section References

variable {S T : Type}

def kBinUsrString : Int := 1
def kBinPreg : Int := 52
def kBinSpecialReg : Int := 53
def kBinLabel : Int := 54

/-- `OutputUsrStr`; `none` is the index 0. -/
def outputUsrStr : Option Str → Put (WState S)
  | none => writeNum 0
  | some str =>
    outputMarked WState.uStrMark (fun w str => { w with uStrMark := w.uStrMark ++ [str] })
      kBinUsrString (fun str => numBytes 9 str.bytes.length ++ str.bytes) str

/-- `ReadAsciiStr` for an entry of the table. -/
def readStr : Get (RState T) Str := do
  let bytes ← readAsciiStr
  if h : bytes.length < 2 ^ 63 then pure ⟨bytes, h⟩ else Get.fail

def importUsrStr : Get (RState T) (Option Str) :=
  importMarked none RState.uStrTab (fun r str => { r with uStrTab := r.uStrTab ++ [str] })
    (fun _ str => some str) kBinUsrString readStr fun _ => Get.fail

def outputLabel (lidx : Nat) : Put (WState S) :=
  if lidx = 0 then writeNum 0
  else
    outputMarked WState.labelMark (fun w l => { w with labelMark := w.labelMark ++ [l] })
      kBinLabel (fun _ => []) lidx

def importLabel : Get (RState T) Nat :=
  importMarked 0 RState.localLabelTab
    (fun r c => { r with localLabelTab := r.localLabelTab ++ [c] }) (fun pos _ => pos) kBinLabel
    (pure ()) fun _ => Get.fail

/-- `OutputPreg` for a register index, whose register is a special one if the index is negative;
there is no register with the index 0. -/
def outputPreg (pregType : Nat → UInt8) (regIdx : Int) : Put (WState S) :=
  if regIdx < 0 then writeNum kBinSpecialReg ++ write (uint8 (-regIdx))
  else if regIdx = 0 then Put.fail
  else
    outputMarked WState.localPregMark
      (fun w p => { w with localPregMark := w.localPregMark ++ [p] }) kBinPreg
      (fun p => [pregType p]) regIdx.toNat

def importPreg : Get (RState T) Int :=
  importMarked 0 RState.localPregTab
    (fun r c => { r with localPregTab := r.localPregTab ++ [c] }) (fun pos _ => (pos : Int)) kBinPreg
    read fun n =>
      if n = kBinSpecialReg then do
        let b ← read
        pure (-(b.toNat : Int))
      else Get.fail

/-- The label and the register of the reader for those of the writer. -/
def labelName (w : WState S) (lidx : Nat) : Nat :=
  if lidx = 0 then 0 else w.labelMark.idxOf lidx + 1

def pregName (w : WState S) (regIdx : Int) : Int :=
  if regIdx < 0 then regIdx else (w.localPregMark.idxOf regIdx.toNat + 1 : Nat)

/-- The writers and readers for types, symbols and functions. -/
structure RefTables (S T : Type) where
  /-- The primitive type of a pseudo register. -/
  pregType : Nat → UInt8
  type : Channel (WState S) (RState T) Nat Nat
  symbol : Channel (WState S) (RState T) Nat Nat
  localSymbol : Channel (WState S) (RState T) Nat Nat
  funcViaSym : Channel (WState S) (RState T) Nat Nat
  function : Channel (WState S) (RState T) Nat Nat
  /-- The tables of the reader stand for those of the writer. -/
  restLinked : S → T → Prop

structure RefTables.Linked (R : RefTables S T) (w : WState S) (r : RState T) : Prop where
  uStr : MarksAgree w.uStrMark r.uStrTab id
  preg : MarksAgree w.localPregMark r.localPregTab R.pregType
  label : MarksAgree w.labelMark r.localLabelTab fun _ => ()
  rest : R.restLinked w.rest r.rest

variable [Preorder S]

lemma grows_outputUsrStr (str : Option Str) : (outputUsrStr str : Put (WState S)).Grows := by
  cases str with
  | none => exact grows_writeNum 0
  | some str =>
    apply grows_outputMarked
    intro w str
    exact ⟨List.prefix_append _ _, List.prefix_refl _, List.prefix_refl _, le_refl _⟩

lemma grows_outputLabel (lidx : Nat) : (outputLabel lidx : Put (WState S)).Grows := by
  unfold outputLabel
  split_ifs
  · exact grows_writeNum 0
  · apply grows_outputMarked
    intro w l
    exact ⟨List.prefix_refl _, List.prefix_refl _, List.prefix_append _ _, le_refl _⟩

lemma grows_outputPreg (pregType : Nat → UInt8) (regIdx : Int) :
    (outputPreg pregType regIdx : Put (WState S)).Grows := by
  unfold outputPreg
  split_ifs
  · exact (grows_writeNum _).append (grows_write _)
  · exact Put.grows_fail
  · apply grows_outputMarked
    intro w p
    exact ⟨List.prefix_refl _, List.prefix_append _ _, List.prefix_refl _, le_refl _⟩

variable {R : RefTables S T} {F : WState S}

omit [Preorder S] in
lemma MarksAgree.push {α κ : Type} {marks : List α} {entries : List κ} {contentOf : α → κ}
    (h : MarksAgree marks entries contentOf) (hlt : marks.length < 2 ^ 63 - 1) (a : α) :
    MarksAgree (marks ++ [a]) (entries ++ [contentOf a]) contentOf where
  length_lt := by
    rw [List.length_append, List.length_singleton]
    omega
  entries_eq := by rw [h.entries_eq, List.map_append, List.map_singleton]

lemma readsBack_importMarked_zero {σ τ κ β : Type} [Preorder σ] {Linked : σ → τ → Prop} {F : σ}
    {zero : β} {entries : τ → List κ} {push : τ → κ → τ} {value : Nat → κ → β} {tag : Int}
    {content : Get τ κ} {other : Int → Get τ β} :
    ReadsBack Linked F (writeNum 0)
      (importMarked zero entries push value tag content other) zero := by
  intro s t hl bs s' h _ rest
  cases h
  have hread := readNum_numBytes 0 (int64_mem_of_lt (by decide) (by decide)) t rest
  refine ⟨t, ?_, hl⟩
  rw [importMarked]
  exact (Get.bind_of_eq hread).trans rfl

lemma readStr_bytes (str : Str) (r : RState T) (rest : List UInt8) :
    readStr r ((numBytes 9 str.bytes.length ++ str.bytes) ++ rest) = some (str, r, rest) := by
  have hlt := str.length_lt
  have hread := readNum_numBytes str.bytes.length (int64_mem_of_lt (by omega) (by omega)) r
    (str.bytes ++ rest)
  have hascii : readAsciiStr r ((numBytes 9 str.bytes.length ++ str.bytes) ++ rest) =
      some (str.bytes, r, rest) := by
    rw [List.append_assoc, readAsciiStr, Get.bind_of_eq hread, Int.toNat_natCast, many_read]
  rw [readStr, Get.bind_of_eq hascii, dif_pos hlt]
  rfl

lemma readsBack_outputUsrStr (str : Option Str) :
    ReadsBack R.Linked F (outputUsrStr str) importUsrStr str := by
  cases str with
  | none => exact readsBack_importMarked_zero
  | some str =>
    apply readsBack_outputMarked id
    · decide
    · decide
    · exact fun _ _ h => h.1
    · exact fun _ _ => rfl
    · exact fun str r rest => readStr_bytes str r rest
    · exact fun _ _ h => h.uStr
    · exact fun w r str h hlt => ⟨h.uStr.push hlt str, h.preg, h.label, h.rest⟩

lemma readsBack_outputLabel (lidx : Nat) :
    ReadsBack R.Linked F (outputLabel lidx) importLabel (labelName F lidx) := by
  unfold outputLabel labelName
  split_ifs with h0
  · exact readsBack_importMarked_zero
  · apply readsBack_outputMarked fun _ => ()
    · decide
    · decide
    · exact fun _ _ h => h.2.2.1
    · exact fun _ _ => rfl
    · exact fun _ _ _ => rfl
    · exact fun _ _ h => h.label
    · exact fun w r l h hlt => ⟨h.uStr, h.preg, h.label.push hlt l, h.rest⟩

lemma readsBack_outputPreg {regIdx : Int} (h : -256 < regIdx) :
    ReadsBack R.Linked F (outputPreg R.pregType regIdx) importPreg (pregName F regIdx) := by
  unfold outputPreg pregName
  split_ifs with hneg h0
  · intro w r hl bs w' hw _ rest
    cases hw
    have hread := readNum_numBytes kBinSpecialReg (int64_mem_of_lt (by decide) (by decide)) r
      (uint8 (-regIdx) :: rest)
    have hbyte := uint8_toNat (x := -regIdx) (by omega) (by omega)
    refine ⟨r, ?_, hl⟩
    rw [importPreg, importMarked]
    refine (Get.bind_of_eq hread).trans ?_
    change some (-((uint8 (-regIdx)).toNat : Int), r, rest) = _
    rw [hbyte, neg_neg]
  · exact ReadsBack.fail _ _
  · apply readsBack_outputMarked R.pregType
    · decide
    · decide
    · exact fun _ _ h => h.2.1
    · exact fun _ _ => rfl
    · exact fun _ _ _ => rfl
    · exact fun _ _ h => h.preg
    · exact fun w r p h hlt => ⟨h.uStr, h.preg.push hlt p, h.label, h.rest⟩

/-- The writers and readers for types, symbols and functions fit together. -/
structure RefTables.Sound (R : RefTables S T) : Prop where
  type : R.type.Sound R.Linked
  symbol : R.symbol.Sound R.Linked
  localSymbol : R.localSymbol.Sound R.Linked
  funcViaSym : R.funcViaSym.Sound R.Linked
  function : R.function.Sound R.Linked

end References

end BinMpl
end Maple
