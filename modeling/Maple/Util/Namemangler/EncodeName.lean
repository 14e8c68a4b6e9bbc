import Maple.Util.Namemangler
import Mathlib.Tactic.Linarith

/-!
# Mangled names

`EncodeName` and `DecodeName` of `namemangler`, without compression: `doCompression` is false and
never set. Characters are bytes; `none` stands for a read or write outside of a buffer.
-/

namespace Maple
namespace Namemangler

/-! ### EncodeName -/

def kLocalCodebufSize : Nat := 1024

def kMaxCodecbufSize : Nat := 65536

/-- The size of the buffer that `AllocCodecBuf` returns. -/
def allocCodecBuf (maxLen : Nat) : Nat :=
  if maxLen ≤ kLocalCodebufSize then 3 * maxLen else 3 * kMaxCodecbufSize

/-- `isalnum` in the C locale. -/
def isalnum (c : UInt8) : Bool :=
  ('0'.toUInt8 ≤ c && c ≤ '9'.toUInt8) || ('A'.toUInt8 ≤ c && c ≤ 'Z'.toUInt8) ||
    ('a'.toUInt8 ≤ c && c ≤ 'z'.toUInt8)

def getHexChar (n : Nat) : UInt8 :=
  if n < 10 then UInt8.ofNat (n + '0'.toNat) else UInt8.ofNat (n - 10 + 'a'.toNat)

def getHexCharU (n : Nat) : UInt8 :=
  if n < 10 then UInt8.ofNat (n + '0'.toNat) else UInt8.ofNat (n - 10 + 'A'.toNat)

/-- The units that `UTF8ToUTF16` adds for one code point with the limit `num = 1`, which does not
exchange their bytes. -/
def utf16UnitsOne (codePoint : Nat) : List UInt16 :=
  if codePoint ≤ 0xFFFF then [UInt16.ofNat codePoint]
  else
    [UInt16.ofNat (((codePoint - 0x10000) / 1024) ||| 0xD800),
      UInt16.ofNat (((codePoint - 0x10000) % 1024) ||| 0xDC00)]

/-- `UTF8ToUTF16` with the limit `num = 1`: the units and the number of bytes that were read. -/
def utf8ToUtf16One (str8 : List UInt8) : Option (List UInt16 × Nat) := do
  let (codePoint, rest) ← getCodePoint str8
  pure (utf16UnitsOne codePoint, str8.length - rest.length)

def hexUnit (m : UInt16) : List UInt8 :=
  [getHexChar (m.toNat / 4096), getHexChar (m.toNat / 256 % 16), getHexChar (m.toNat / 16 % 16),
    getHexChar (m.toNat % 16)]

/-- What one round of the loop of `EncodeName` writes, and how many bytes it reads. -/
def encodeChar : List UInt8 → Option (List UInt8 × Nat)
  | [] => none
  | c :: rest =>
    if c = '_'.toUInt8 then some (['_'.toUInt8, '_'.toUInt8], 1)
    else if c = '['.toUInt8 then some (['A'.toUInt8], 1)
    else if isalnum c then some ([c], 1)
    else if c ≤ 0x7F then
      -- use / in package name
      let c := if c = '.'.toUInt8 then '/'.toUInt8 else c
      some (['_'.toUInt8, getHexCharU (c.toNat / 16), getHexCharU (c.toNat % 16)], 1)
    else
      match utf8ToUtf16One (c :: rest) with
      | some ([m], n) => some ('_'.toUInt8 :: 'u'.toUInt8 :: hexUnit m, n)
      | some ([m₁, m₂], n) => some ('_'.toUInt8 :: 'U'.toUInt8 :: hexUnit m₁ ++ hexUnit m₂, n)
      | _ => none

/-- The loop of `EncodeName` from the byte `i` on. -/
def encodeLoop (nameLen : Nat) : Nat → Nat → List UInt8 → Option (List UInt8)
  | 0, _, _ => some []
  | fuel + 1, i, rest =>
    if i < nameLen then
      match encodeChar rest with
      | none => none
      | some (out, n) => (encodeLoop nameLen fuel (i + n) (rest.drop n)).map (out ++ ·)
    else some []

def encodeName (name : List UInt8) : Option (List UInt8) :=
  let nameLen := min name.length kMaxCodecbufSize
  if nameLen = 0 then some name
  else
    match encodeLoop nameLen nameLen 0 name with
    | none => none
    -- the terminator needs a place, too
    | some buf => if buf.length < allocCodecBuf nameLen then some buf else none

/-! ### DecodeName -/

def updatePrimType (primType : Bool) (splitNo : Nat) (ch : UInt32) : Bool :=
  if ch = 'L'.val then false
  else if (ch = ';'.val ∨ ch = '('.val ∨ ch = ')'.val) ∧ splitNo > 1 then true
  else primType

/-- The value of a digit behind `_u`. -/
def hexValue (c : UInt8) : UInt8 :=
  if c ≤ '9'.toUInt8 then c - '0'.toUInt8 else c - 'a'.toUInt8 + 10

/-- The value of a digit behind `_`. -/
def hexValueU (c : UInt8) : UInt32 :=
  if c ≤ '9'.toUInt8 then c.toUInt32 - '0'.val else c.toUInt32 - 'A'.val + 10

/-- The bytes that are written for a unit: none for a unit that gives one byte. -/
def decodeUnit (b₁ b₂ b₃ b₄ : UInt8) : List UInt8 :=
  let codepoint := ((hexValue b₁).toUInt32 <<< 12) ||| ((hexValue b₂).toUInt32 <<< 8) |||
    ((hexValue b₃).toUInt32 <<< 4) ||| (hexValue b₄).toUInt32
  let str := utf8Bytes codepoint.toUInt16.toNat
  if str.length = 1 then [] else str

/-- The loop of `DecodeName`. -/
def decodeLoop : Bool → Nat → List UInt8 → Option (List UInt8)
  | _, _, [] => some []
  | primType, splitNo, c :: rest =>
    if c = '_'.toUInt8 then
      match rest with
      | [] => some []
      | d :: rest =>
        if d = '_'.toUInt8 then (decodeLoop primType splitNo rest).map (d :: ·)
        else if d = 'u'.toUInt8 then
          match rest with
          | b₁ :: b₂ :: b₃ :: b₄ :: rest =>
            (decodeLoop primType splitNo rest).map (decodeUnit b₁ b₂ b₃ b₄ ++ ·)
          | _ => none
        else
          match rest with
          | [] => some []
          | e :: rest =>
            let asc := (hexValueU d <<< 4) + hexValueU e
            let splitNo := if asc = '|'.val then splitNo + 1 else splitNo
            (decodeLoop (updatePrimType primType splitNo asc) splitNo rest).map (asc.toUInt8 :: ·)
    else if splitNo < 2 then (decodeLoop primType splitNo rest).map (c :: ·)
    else
      let primType := updatePrimType primType splitNo c.toUInt32
      let out := if primType ∧ c = 'A'.toUInt8 then '['.toUInt8 else c
      (decodeLoop primType splitNo rest).map (out :: ·)

def decodeName (name : List UInt8) : Option (List UInt8) :=
  -- no need Decoding a non-encoded string
  if ';'.toUInt8 ∈ name then some name else decodeLoop true 0 name

/-! ### Symbols -/

/-- A byte that a symbol of the assembler may have. -/
def isSymbolByte (c : UInt8) : Bool := isalnum c || c = '_'.toUInt8

lemma isSymbolByte_getHexChar : ∀ n < 16, isSymbolByte (getHexChar n) := by decide

lemma isSymbolByte_getHexCharU : ∀ n < 16, isSymbolByte (getHexCharU n) := by decide

lemma isSymbolByte_hexUnit (m : UInt16) : ∀ c ∈ hexUnit m, isSymbolByte c := by
  have hm := m.toNat_lt
  simp only [hexUnit, List.forall_mem_cons]
  refine ⟨?_, ?_, ?_, ?_, by simp⟩
  all_goals exact isSymbolByte_getHexChar _ (by omega)

lemma isSymbolByte_encodeChar {rest out : List UInt8} {n : Nat}
    (h : encodeChar rest = some (out, n)) : ∀ c ∈ out, isSymbolByte c := by
  cases rest with
  | nil => cases h
  | cons b rest =>
    rw [encodeChar] at h
    by_cases hunder : b = '_'.toUInt8
    · rw [if_pos hunder] at h
      cases h
      exact List.all_eq_true.mp (by decide)
    rw [if_neg hunder] at h
    by_cases hbracket : b = '['.toUInt8
    · rw [if_pos hbracket] at h
      cases h
      exact List.all_eq_true.mp (by decide)
    rw [if_neg hbracket] at h
    by_cases halnum : isalnum b
    · rw [if_pos halnum] at h
      cases h
      simp [isSymbolByte, halnum]
    rw [if_neg halnum] at h
    by_cases hascii : b ≤ 0x7F
    · rw [if_pos hascii] at h
      have hb : (if b = '.'.toUInt8 then '/'.toUInt8 else b) ≤ 0x7F := by
        split_ifs
        · decide
        · exact hascii
      generalize (if b = '.'.toUInt8 then '/'.toUInt8 else b) = c at h hb
      have hc : c.toNat ≤ 0x7F := UInt8.le_iff_toNat_le.mp hb
      cases h
      simp only [List.forall_mem_cons]
      exact ⟨by decide, isSymbolByte_getHexCharU _ (Nat.div_lt_of_lt_mul (by omega)),
        isSymbolByte_getHexCharU _ (by omega), by simp⟩
    rw [if_neg hascii] at h
    split at h
    · cases h
      simp only [List.forall_mem_cons]
      exact ⟨by decide, by decide, isSymbolByte_hexUnit _⟩
    · cases h
      simp only [List.forall_mem_cons, List.cons_append, List.forall_mem_append]
      exact ⟨by decide, by decide, isSymbolByte_hexUnit _, isSymbolByte_hexUnit _⟩
    · cases h

lemma isSymbolByte_encodeLoop {nameLen fuel i : Nat} {rest out : List UInt8}
    (h : encodeLoop nameLen fuel i rest = some out) : ∀ c ∈ out, isSymbolByte c := by
  induction fuel generalizing i rest out with
  | zero =>
    cases h
    simp
  | succ fuel ih =>
    rw [encodeLoop] at h
    split_ifs at h
    · cases hchar : encodeChar rest with
      | none => simp [hchar] at h
      | some r =>
        simp only [hchar, Option.map_eq_some_iff] at h
        obtain ⟨out', hloop, rfl⟩ := h
        exact List.forall_mem_append.mpr ⟨isSymbolByte_encodeChar hchar, ih hloop⟩
    · cases h
      simp

end Namemangler
end Maple
