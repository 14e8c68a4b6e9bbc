import Maple.Util.Namemangler.EncodeName
import Mathlib.Data.List.Induction

/-!
# Names and their mangled form

What `DecodeName` gives for the mangled form of a name, character by character, and the names that it
gives back.
-/

namespace Maple
namespace Namemangler

/-- The bytes of a text. -/
def utf8 (name : List Char) : List UInt8 := name.flatMap String.utf8EncodeChar

@[simp] lemma utf8_nil : utf8 [] = [] := rfl

@[simp] lemma utf8_cons (c : Char) (name : List Char) :
    utf8 (c :: name) = String.utf8EncodeChar c ++ utf8 name := List.flatMap_cons

@[simp] lemma utf8_append (name₁ name₂ : List Char) :
    utf8 (name₁ ++ name₂) = utf8 name₁ ++ utf8 name₂ := List.flatMap_append

/-! ### Characters and bytes -/

section Char

variable {c d : Char}

lemma utf8EncodeChar_ascii (h : c.toNat < 128) :
    String.utf8EncodeChar c = [UInt8.ofNat c.toNat] := by
  unfold String.utf8EncodeChar
  exact if_pos (show c.toNat ≤ 0x7F by omega)

lemma utf8EncodeChar_eq_utf8Bytes (h : c.toNat < 65536) :
    String.utf8EncodeChar c = utf8Bytes c.toNat := by
  unfold String.utf8EncodeChar utf8Bytes
  change (if c.toNat ≤ 0x7F then _ else if c.toNat ≤ 0x7FF then _
    else if c.toNat ≤ 0xFFFF then _ else _) = _
  split_ifs with h1 h2 h3
  · rfl
  · change [UInt8.ofNat (c.toNat / 64 % 32 + 0xC0), UInt8.ofNat (c.toNat % 64 + 0x80)] = _
    rw [Nat.mod_eq_of_lt (show c.toNat / 64 < 32 by omega), Nat.add_comm, Nat.add_comm _ 0x80]
  · rw [Nat.add_comm 0xE0, Nat.add_comm 0x80, Nat.add_comm 0x80]
    rfl
  · omega

lemma ofNat_toNat_inj (hc : c.toNat < 128) (hd : d.toNat < 128) :
    UInt8.ofNat c.toNat = UInt8.ofNat d.toNat ↔ c = d := by
  constructor
  · intro h
    have hnat := congrArg UInt8.toNat h
    rw [toNat_ofNat_byte (by omega), toNat_ofNat_byte (by omega)] at hnat
    rw [← Char.ofNat_toNat c, hnat, Char.ofNat_toNat]
  · rintro rfl
    rfl

lemma isalnum_ofNat : ∀ n < 128, isalnum (UInt8.ofNat n) = (Char.ofNat n).isAlphanum := by decide

lemma isalnum_of_le {b : UInt8} (h : 128 ≤ b.toNat) : isalnum b = false := by
  have h9 : '9'.toUInt8.toNat = 57 := rfl
  have hZ : 'Z'.toUInt8.toNat = 90 := rfl
  have hz : 'z'.toUInt8.toNat = 122 := rfl
  simp only [isalnum, Bool.or_eq_false_iff, Bool.and_eq_false_iff, decide_eq_false_iff_not,
    UInt8.le_iff_toNat_le]
  omega

lemma isalnum_ascii (h : c.toNat < 128) : isalnum (UInt8.ofNat c.toNat) = c.isAlphanum := by
  rw [isalnum_ofNat _ h, Char.ofNat_toNat]

lemma lt_of_isAlphanum (h : c.isAlphanum = true) : c.toNat < 128 := by
  have hlt {d : Char} (hle : c.val ≤ d.val) (hd : d.toNat < 128) : c.toNat < 128 :=
    lt_of_le_of_lt (UInt32.le_iff_toNat_le.mp hle) hd
  obtain halpha | hdigit := (Bool.or_eq_true _ _).mp h
  · obtain hupper | hlower := (Bool.or_eq_true _ _).mp halpha
    · exact hlt (d := 'Z') (of_decide_eq_true hupper).2 (by decide)
    · exact hlt (d := 'z') (of_decide_eq_true ((Bool.and_eq_true _ _).mp hlower).2) (by decide)
  · exact hlt (d := '9') (of_decide_eq_true ((Bool.and_eq_true _ _).mp hdigit).2) (by decide)

lemma getCodePoint_utf8EncodeChar (c : Char) (rest : List UInt8) :
    getCodePoint (String.utf8EncodeChar c ++ rest) = some (c.toNat, rest) := by
  by_cases h : c.toNat < 65536
  · rw [utf8EncodeChar_eq_utf8Bytes h, getCodePoint_utf8Bytes h]
  · have hlt : c.toNat < 0x110000 := by
      rcases c.valid with hv | ⟨-, hv⟩
      · exact lt_trans hv (by decide)
      · exact hv
    unfold String.utf8EncodeChar
    change getCodePoint ((if c.toNat ≤ 0x7F then _ else if c.toNat ≤ 0x7FF then _
      else if c.toNat ≤ 0xFFFF then _ else _) ++ rest) = _
    rw [if_neg (by omega), if_neg (by omega), if_neg (by omega)]
    have ha := toNat_ofNat_byte (n := c.toNat / 262144 % 8 + 0xF0) (by omega)
    have hb := toNat_ofNat_byte (n := c.toNat / 4096 % 64 + 0x80) (by omega)
    have hc := toNat_ofNat_byte (n := c.toNat / 64 % 64 + 0x80) (by omega)
    have hd := toNat_ofNat_byte (n := c.toNat % 64 + 0x80) (by omega)
    change getCodePoint (UInt8.ofNat (c.toNat / 262144 % 8 + 0xF0) ::
      UInt8.ofNat (c.toNat / 4096 % 64 + 0x80) :: UInt8.ofNat (c.toNat / 64 % 64 + 0x80) ::
        UInt8.ofNat (c.toNat % 64 + 0x80) :: rest) = _
    simp only [getCodePoint, ha, hb, hc, hd]
    rw [if_neg (by omega), if_pos (by omega)]
    have hcode : (c.toNat / 262144 % 8 + 0xF0) % 8 * 262144 +
        (c.toNat / 4096 % 64 + 0x80) % 64 * 4096 + (c.toNat / 64 % 64 + 0x80) % 64 * 64 +
          (c.toNat % 64 + 0x80) % 64 = c.toNat := by
      omega
    rw [hcode]

lemma utf8EncodeChar_eq_cons (h : 128 ≤ c.toNat) :
    ∃ b bs, String.utf8EncodeChar c = b :: bs ∧ 128 ≤ b.toNat := by
  unfold String.utf8EncodeChar
  change ∃ b bs, (if c.toNat ≤ 0x7F then _ else if c.toNat ≤ 0x7FF then _
    else if c.toNat ≤ 0xFFFF then _ else _) = b :: bs ∧ _
  split_ifs with h1 h2 h3
  · omega
  · refine ⟨_, _, rfl, ?_⟩
    change 128 ≤ (UInt8.ofNat (c.toNat / 64 % 32 + 0xC0)).toNat
    rw [toNat_ofNat_byte (by omega)]
    omega
  · refine ⟨_, _, rfl, ?_⟩
    change 128 ≤ (UInt8.ofNat (c.toNat / 4096 % 16 + 0xE0)).toNat
    rw [toNat_ofNat_byte (by omega)]
    omega
  · refine ⟨_, _, rfl, ?_⟩
    change 128 ≤ (UInt8.ofNat (c.toNat / 262144 % 8 + 0xF0)).toNat
    rw [toNat_ofNat_byte (by omega)]
    omega

lemma utf8_injective : Function.Injective utf8 := by
  intro name₁ name₂ h
  induction name₁ generalizing name₂ with
  | nil =>
    cases name₂ with
    | nil => rfl
    | cons d name₂ =>
      have hcode := getCodePoint_utf8EncodeChar d (utf8 name₂)
      rw [← utf8_cons, ← h] at hcode
      cases hcode
  | cons c name₁ ih =>
    have hcode := getCodePoint_utf8EncodeChar c (utf8 name₁)
    rw [← utf8_cons, h] at hcode
    cases name₂ with
    | nil => cases hcode
    | cons d name₂ =>
      rw [utf8_cons, getCodePoint_utf8EncodeChar, Option.some.injEq, Prod.mk.injEq] at hcode
      have hcd : d = c := by
        rw [← Char.ofNat_toNat d, hcode.1, Char.ofNat_toNat]
      rw [hcd, ih hcode.2.symm]

end Char

/-! ### The mangled form of a character -/

/-- What `EncodeName` writes for a character. -/
def mangled (c : Char) : List UInt8 :=
  if c = '_' then ['_'.toUInt8, '_'.toUInt8]
  else if c = '[' then ['A'.toUInt8]
  else if c.isAlphanum then [UInt8.ofNat c.toNat]
  else if c.toNat < 128 then
    let c := if c = '.' then '/' else c
    ['_'.toUInt8, getHexCharU (c.toNat / 16), getHexCharU (c.toNat % 16)]
  else if c.toNat < 65536 then '_'.toUInt8 :: 'u'.toUInt8 :: hexUnit (UInt16.ofNat c.toNat)
  else
    '_'.toUInt8 :: 'U'.toUInt8 :: hexUnit (UInt16.ofNat (((c.toNat - 0x10000) / 1024) ||| 0xD800)) ++
      hexUnit (UInt16.ofNat (((c.toNat - 0x10000) % 1024) ||| 0xDC00))

/-- Its length. -/
def mangledLength (c : Char) : Nat :=
  if c = '[' ∨ c.isAlphanum then 1
  else if c = '_' then 2
  else if c.toNat < 128 then 3
  else if c.toNat < 65536 then 6
  else 10

lemma length_mangled (c : Char) : (mangled c).length = mangledLength c := by
  unfold mangled mangledLength
  by_cases h1 : c = '_'
  · subst h1
    rfl
  · by_cases h2 : c = '['
    · subst h2
      rfl
    · simp only [h1, h2, if_false, false_or]
      split_ifs <;> simp [hexUnit]

lemma encodeChar_utf8EncodeChar (c : Char) (rest : List UInt8) :
    encodeChar (String.utf8EncodeChar c ++ rest) =
      some (mangled c, (String.utf8EncodeChar c).length) := by
  by_cases h : c.toNat < 128
  · rw [utf8EncodeChar_ascii h, List.singleton_append, encodeChar, mangled]
    have heq : ∀ d : Char, d.toNat < 128 →
        (UInt8.ofNat c.toNat = UInt8.ofNat d.toNat) = (c = d) := by
      intro d hd
      exact propext (ofNat_toNat_inj h hd)
    have hle : UInt8.ofNat c.toNat ≤ 0x7F := by
      rw [UInt8.le_iff_toNat_le, toNat_ofNat_byte (by omega)]
      exact Nat.le_of_lt_succ h
    simp only [show '_'.toUInt8 = UInt8.ofNat '_'.toNat from rfl,
      show '['.toUInt8 = UInt8.ofNat '['.toNat from rfl,
      show '.'.toUInt8 = UInt8.ofNat '.'.toNat from rfl,
      heq '_' (by decide), heq '[' (by decide), heq '.' (by decide), isalnum_ascii h, hle, h,
      if_true]
    split_ifs
    · rfl
    · rfl
    · rfl
    · rfl
    · rw [toNat_ofNat_byte (by omega)]
      rfl
  · obtain ⟨b, bs, hbytes, hb⟩ := utf8EncodeChar_eq_cons (show 128 ≤ c.toNat by omega)
    have hcode := getCodePoint_utf8EncodeChar c rest
    have hne : ∀ d : Char, d.toNat < 128 → b ≠ UInt8.ofNat d.toNat := by
      rintro d hd rfl
      rw [toNat_ofNat_byte (by omega)] at hb
      omega
    have hchar : ∀ d : Char, d.toNat < 128 → c ≠ d := by
      rintro d hd rfl
      exact h hd
    have halnum : isalnum b = false := isalnum_of_le hb
    have hle : ¬b ≤ 0x7F := by
      rw [UInt8.le_iff_toNat_le]
      exact Nat.not_le.mpr hb
    have hc : c.isAlphanum = false := by
      rw [← Bool.not_eq_true]
      exact fun halpha => h (lt_of_isAlphanum halpha)
    rw [hbytes, List.cons_append] at hcode ⊢
    rw [encodeChar, mangled, if_neg (show b ≠ '_'.toUInt8 from hne '_' (by decide)),
      if_neg (show b ≠ '['.toUInt8 from hne '[' (by decide)), if_neg (hchar '_' (by decide)),
      if_neg (hchar '[' (by decide))]
    simp only [halnum, hc, Bool.false_eq_true, if_false, hle, h]
    have hlength : (b :: (bs ++ rest)).length - rest.length = (b :: bs).length := by
      simp only [List.length_cons, List.length_append]
      omega
    simp only [utf8ToUtf16One, hcode, Option.bind_eq_bind, Option.bind_some, hlength,
      utf16UnitsOne]
    by_cases hsmall : c.toNat < 65536
    · rw [if_pos (by omega), if_pos hsmall]
      rfl
    · rw [if_neg (by omega), if_neg hsmall]
      rfl

/-! ### The mangled form read back -/

/-- `primType` and `splitNo` behind a character. -/
def scan (s : Bool × Nat) (c : Char) : Bool × Nat :=
  if c = '|' then (s.1, s.2 + 1)
  else if s.2 < 2 then s
  else if c = 'L' then (false, s.2)
  else if c = ';' ∨ c = '(' ∨ c = ')' then (true, s.2)
  else s

/-- Whether `A` is read as the start of an array type. -/
def readsArray (s : Bool × Nat) : Prop := s.1 = true ∧ 2 ≤ s.2

instance (s : Bool × Nat) : Decidable (readsArray s) := inferInstanceAs (Decidable (_ ∧ _))

/-- The character that `DecodeName` gives for a mangled one of at most 16 bits. -/
def readBack (s : Bool × Nat) (c : Char) : Char :=
  if c = '.' then '/'
  else if c = '[' ∧ ¬readsArray s then 'A'
  else if c = 'A' ∧ readsArray s then '['
  else c

section ReadBack

variable {c : Char} {s : Bool × Nat}

lemma hexValue_getHexChar : ∀ n < 16, hexValue (getHexChar n) = UInt8.ofNat n := by decide

lemma hexValueU_getHexCharU : ∀ n < 128,
    (hexValueU (getHexCharU (n / 16)) <<< 4) + hexValueU (getHexCharU (n % 16)) =
      UInt32.ofNat n := by
  decide

lemma getHexCharU_ne : ∀ n < 16, getHexCharU n ≠ '_'.toUInt8 ∧ getHexCharU n ≠ 'u'.toUInt8 := by
  decide

lemma decodeLoop_literal (s : Bool × Nat) {b : UInt8} (h : b ≠ '_'.toUInt8) (rest : List UInt8) :
    decodeLoop s.1 s.2 (b :: rest) =
      if s.2 < 2 then (decodeLoop s.1 s.2 rest).map (b :: ·)
      else (decodeLoop (updatePrimType s.1 s.2 b.toUInt32) s.2 rest).map
        ((if updatePrimType s.1 s.2 b.toUInt32 ∧ b = 'A'.toUInt8 then '['.toUInt8 else b) :: ·) := by
  rw [decodeLoop.eq_def]
  simp only [h, if_false]

lemma decodeLoop_hex (s : Bool × Nat) {n : Nat} (h : n < 128) (rest : List UInt8) :
    decodeLoop s.1 s.2 ('_'.toUInt8 :: getHexCharU (n / 16) :: getHexCharU (n % 16) :: rest) =
      (decodeLoop (updatePrimType s.1 (if UInt32.ofNat n = '|'.val then s.2 + 1 else s.2)
        (UInt32.ofNat n)) (if UInt32.ofNat n = '|'.val then s.2 + 1 else s.2) rest).map
          ((UInt32.ofNat n).toUInt8 :: ·) := by
  have hne := getHexCharU_ne (n / 16) (by omega)
  rw [decodeLoop.eq_def]
  simp only [if_true, hne.1, hne.2, if_false, hexValueU_getHexCharU n h]

lemma toUInt32_ofNat {n : Nat} (h : n < 128) : (UInt8.ofNat n).toUInt32 = UInt32.ofNat n := by
  rw [← UInt32.toNat_inj, UInt8.toNat_toUInt32, toNat_ofNat_byte (by omega), UInt32.toNat_ofNat',
    Nat.mod_eq_of_lt (by omega)]

lemma toUInt8_ofNat {n : Nat} (h : n < 128) : (UInt32.ofNat n).toUInt8 = UInt8.ofNat n := by
  rw [← UInt8.toNat_inj, UInt32.toNat_toUInt8, UInt32.toNat_ofNat', toNat_ofNat_byte (by omega)]
  omega

lemma ofNat_eq_val_iff {d : Char} (hc : c.toNat < 128) :
    UInt32.ofNat c.toNat = d.val ↔ c = d := by
  constructor
  · intro h
    have hnat := congrArg UInt32.toNat h
    rw [UInt32.toNat_ofNat', Nat.mod_eq_of_lt (by omega)] at hnat
    rw [← Char.ofNat_toNat c, hnat]
    exact Char.ofNat_toNat d
  · rintro rfl
    exact UInt32.ofNat_toNat

lemma updatePrimType_ofNat (hc : c.toNat < 128) (primType : Bool) (splitNo : Nat) :
    updatePrimType primType splitNo (UInt32.ofNat c.toNat) =
      if c = 'L' then false
      else if (c = ';' ∨ c = '(' ∨ c = ')') ∧ 1 < splitNo then true
      else primType := by
  simp only [updatePrimType, ofNat_eq_val_iff hc, gt_iff_lt]

lemma or_digits {a b c d : Nat} (hb : b < 16) (hc : c < 16) (hd : d < 16) :
    a <<< 12 ||| b <<< 8 ||| c <<< 4 ||| d = a * 4096 + b * 256 + c * 16 + d := by
  have hcd : c <<< 4 ||| d = c <<< 4 + d := (Nat.shiftLeft_add_eq_or_of_lt hd c).symm
  have hbcd : b <<< 8 ||| (c <<< 4 + d) = b <<< 8 + (c <<< 4 + d) :=
    (Nat.shiftLeft_add_eq_or_of_lt (by rw [Nat.shiftLeft_eq]; omega) b).symm
  rw [Nat.or_assoc, Nat.or_assoc, hcd, hbcd, ← Nat.shiftLeft_add_eq_or_of_lt
    (by rw [Nat.shiftLeft_eq, Nat.shiftLeft_eq]; omega) a]
  simp only [Nat.shiftLeft_eq]
  omega

lemma decodeUnit_hexUnit {m : UInt16} (h : 128 ≤ m.toNat) :
    ∃ b₁ b₂ b₃ b₄, hexUnit m = [b₁, b₂, b₃, b₄] ∧ decodeUnit b₁ b₂ b₃ b₄ = utf8Bytes m.toNat := by
  refine ⟨_, _, _, _, rfl, ?_⟩
  have hm := m.toNat_lt
  have hdigits := or_digits (a := m.toNat / 4096) (b := m.toNat / 256 % 16)
    (c := m.toNat / 16 % 16) (d := m.toNat % 16) (by omega) (by omega) (by omega)
  have hcode : ((UInt8.ofNat (m.toNat / 4096)).toUInt32 <<< 12 |||
      (UInt8.ofNat (m.toNat / 256 % 16)).toUInt32 <<< 8 |||
      (UInt8.ofNat (m.toNat / 16 % 16)).toUInt32 <<< 4 |||
      (UInt8.ofNat (m.toNat % 16)).toUInt32).toUInt16.toNat = m.toNat := by
    rw [UInt32.toNat_toUInt16]
    simp only [UInt32.toNat_or, UInt32.toNat_shiftLeft, UInt8.toNat_toUInt32]
    rw [toNat_ofNat_byte (show m.toNat / 4096 < 256 by omega),
      toNat_ofNat_byte (show m.toNat / 256 % 16 < 256 by omega),
      toNat_ofNat_byte (show m.toNat / 16 % 16 < 256 by omega),
      toNat_ofNat_byte (show m.toNat % 16 < 256 by omega)]
    change ((m.toNat / 4096) <<< 12 % 2 ^ 32 ||| (m.toNat / 256 % 16) <<< 8 % 2 ^ 32 |||
      (m.toNat / 16 % 16) <<< 4 % 2 ^ 32 ||| m.toNat % 16) % 2 ^ 16 = m.toNat
    rw [Nat.mod_eq_of_lt (b := 2 ^ 32) (show (m.toNat / 4096) <<< 12 < _ by
        rw [Nat.shiftLeft_eq]; omega),
      Nat.mod_eq_of_lt (b := 2 ^ 32) (show (m.toNat / 256 % 16) <<< 8 < _ by
        rw [Nat.shiftLeft_eq]; omega),
      Nat.mod_eq_of_lt (b := 2 ^ 32) (show (m.toNat / 16 % 16) <<< 4 < _ by
        rw [Nat.shiftLeft_eq]; omega), hdigits]
    omega
  have hlength : ¬(utf8Bytes m.toNat).length = 1 := by
    unfold utf8Bytes
    rw [if_neg (by omega)]
    split_ifs <;> simp
  simp only [decodeUnit, hexValue_getHexChar (m.toNat / 4096) (by omega),
    hexValue_getHexChar (m.toNat / 256 % 16) (by omega),
    hexValue_getHexChar (m.toNat / 16 % 16) (by omega),
    hexValue_getHexChar (m.toNat % 16) (by omega), hcode, hlength, if_false]

lemma not_isAlphanum_iff {d : Char} (hd : d.isAlphanum = false) (hc : c.isAlphanum = true) :
    c ≠ d := by
  rintro rfl
  exact absurd (hd.symm.trans hc) (by decide)

lemma decodeLoop_alphanum (s : Bool × Nat) (h : c.isAlphanum = true) (rest : List UInt8) :
    decodeLoop s.1 s.2 (UInt8.ofNat c.toNat :: rest) =
      (decodeLoop (scan s c).1 (scan s c).2 rest).map
        (String.utf8EncodeChar (readBack s c) ++ ·) := by
  have hc := lt_of_isAlphanum h
  have hbar : c ≠ '|' := not_isAlphanum_iff (by decide) h
  have hdot : c ≠ '.' := not_isAlphanum_iff (by decide) h
  have hbracket : c ≠ '[' := not_isAlphanum_iff (by decide) h
  have hends : ¬(c = ';' ∨ c = '(' ∨ c = ')') := by
    rintro (hd | hd | hd)
    · exact not_isAlphanum_iff (by decide) h hd
    · exact not_isAlphanum_iff (by decide) h hd
    · exact not_isAlphanum_iff (by decide) h hd
  have hunder : UInt8.ofNat c.toNat ≠ '_'.toUInt8 := by
    intro heq
    exact not_isAlphanum_iff (by decide) h ((ofNat_toNat_inj hc (d := '_') (by decide)).mp heq)
  have hA : (UInt8.ofNat c.toNat = 'A'.toUInt8) = (c = 'A') :=
    propext (ofNat_toNat_inj hc (d := 'A') (by decide))
  rw [decodeLoop_literal s hunder, toUInt32_ofNat hc, updatePrimType_ofNat hc]
  simp only [scan, readBack, hbar, hdot, hbracket, hends, hA, if_false, false_and]
  by_cases hsig : s.2 < 2
  · have hno : ¬readsArray s := fun hs => absurd hs.2 (by omega)
    simp only [hsig, if_true, hno, and_false, if_false, utf8EncodeChar_ascii hc,
      List.singleton_append]
  · have hreads : readsArray s ↔ s.1 = true := and_iff_left (by omega)
    simp only [hsig, if_false]
    by_cases hL : c = 'L'
    · subst hL
      simp [utf8EncodeChar_ascii]
    · simp only [hL, if_false]
      by_cases hA' : c = 'A' ∧ readsArray s
      · rw [if_pos hA', if_pos ⟨hreads.mp hA'.2, hA'.1⟩]
        rfl
      · rw [if_neg hA', if_neg (fun hs => hA' ⟨hs.2, hreads.mpr hs.1⟩), utf8EncodeChar_ascii hc]
        rfl

lemma decodeLoop_escaped (s : Bool × Nat) (hc : c.toNat < 128) (h : c.isAlphanum = false)
    (hbracket : c ≠ '[') (rest : List UInt8) :
    decodeLoop s.1 s.2 ('_'.toUInt8 :: getHexCharU ((if c = '.' then '/' else c).toNat / 16) ::
        getHexCharU ((if c = '.' then '/' else c).toNat % 16) :: rest) =
      (decodeLoop (scan s c).1 (scan s c).2 rest).map
        (String.utf8EncodeChar (readBack s c) ++ ·) := by
  have hL : c ≠ 'L' := by
    rintro rfl
    exact absurd h (by decide)
  have hA : c ≠ 'A' := by
    rintro rfl
    exact absurd h (by decide)
  by_cases hdot : c = '.'
  · subst hdot
    simp only [if_true]
    rw [decodeLoop_hex s (n := '/'.toNat) (by decide)]
    simp [scan, readBack, updatePrimType, utf8EncodeChar_ascii]
  · simp only [hdot, if_false, readBack, hbracket, hA, false_and]
    rw [decodeLoop_hex s hc, updatePrimType_ofNat hc, toUInt8_ofNat hc, utf8EncodeChar_ascii hc]
    simp only [ofNat_eq_val_iff hc, hL, if_false, scan]
    by_cases hbar : c = '|'
    · subst hbar
      simp
    · simp only [hbar, if_false]
      by_cases hsig : s.2 < 2
      · simp [hsig, show ¬1 < s.2 by omega]
      · by_cases hends : c = ';' ∨ c = '(' ∨ c = ')'
        · simp [hsig, hends, show 1 < s.2 by omega]
        · simp [hsig, hends]

lemma decodeLoop_mangled (s : Bool × Nat) (h : c.toNat < 65536) (rest : List UInt8) :
    decodeLoop s.1 s.2 (mangled c ++ rest) =
      (decodeLoop (scan s c).1 (scan s c).2 rest).map
        (String.utf8EncodeChar (readBack s c) ++ ·) := by
  unfold mangled
  by_cases hunder : c = '_'
  · subst hunder
    have hscan : scan s '_' = s := by simp [scan]
    have hread : readBack s '_' = '_' := by simp [readBack]
    rw [hscan, hread, utf8EncodeChar_ascii (by decide), if_pos rfl, decodeLoop.eq_def]
    rfl
  rw [if_neg hunder]
  by_cases hbracket : c = '['
  · subst hbracket
    have hscan : scan s '[' = s := by simp [scan]
    rw [hscan, if_pos rfl, List.singleton_append, decodeLoop_literal s (by decide)]
    have hprim : updatePrimType s.1 s.2 ('A'.toUInt8).toUInt32 = s.1 := by
      rw [updatePrimType, if_neg (by decide), if_neg (fun hand => absurd hand.1 (by decide))]
    rw [hprim]
    by_cases hsig : s.2 < 2
    · have hread : readBack s '[' = 'A' := by
        simp [readBack, readsArray, show ¬2 ≤ s.2 by omega]
      rw [hread, if_pos hsig, utf8EncodeChar_ascii (by decide)]
      rfl
    · by_cases hs : s.1 = true
      · have hread : readBack s '[' = '[' := by
          simp [readBack, readsArray, hs, show 2 ≤ s.2 by omega]
        rw [hread, if_neg hsig, if_pos ⟨hs, rfl⟩, utf8EncodeChar_ascii (by decide)]
        rfl
      · have hread : readBack s '[' = 'A' := by simp [readBack, readsArray, hs]
        rw [hread, if_neg hsig, if_neg (fun hand => hs hand.1), utf8EncodeChar_ascii (by decide)]
        rfl
  rw [if_neg hbracket]
  by_cases halnum : c.isAlphanum = true
  · rw [if_pos halnum]
    exact decodeLoop_alphanum s halnum rest
  rw [if_neg halnum]
  by_cases hascii : c.toNat < 128
  · rw [if_pos hascii]
    exact decodeLoop_escaped s hascii (by simpa using halnum) hbracket rest
  · rw [if_neg hascii, if_pos h]
    have hm : (UInt16.ofNat c.toNat).toNat = c.toNat := by
      rw [UInt16.toNat_ofNat', Nat.mod_eq_of_lt h]
    obtain ⟨b₁, b₂, b₃, b₄, hunit, hdecode⟩ :=
      decodeUnit_hexUnit (m := UInt16.ofNat c.toNat) (by omega)
    have hne : ∀ d : Char, d.toNat < 128 → c ≠ d := by
      rintro d hd rfl
      exact hascii hd
    have hscan : scan s c = s := by
      simp [scan, hne '|' (by decide), hne 'L' (by decide), hne ';' (by decide),
        hne '(' (by decide), hne ')' (by decide)]
    have hread : readBack s c = c := by
      simp [readBack, hne '.' (by decide), hne '[' (by decide), hne 'A' (by decide)]
    rw [hm] at hdecode
    rw [hscan, hread, hunit, utf8EncodeChar_eq_utf8Bytes h, ← hdecode]
    rw [decodeLoop.eq_def]
    rfl

lemma decodeLoop_mangled_long (s : Bool × Nat) (h : 65536 ≤ c.toNat) (rest : List UInt8) :
    ∃ tail : Option (List UInt8),
      decodeLoop s.1 s.2 (mangled c ++ rest) = tail.map (13 :: ·) := by
  have hne : ∀ d : Char, d.toNat < 128 → c ≠ d := by
    rintro d hd rfl
    omega
  have halnum : c.isAlphanum = false := by
    rw [← Bool.not_eq_true]
    intro halpha
    have hlt := lt_of_isAlphanum halpha
    omega
  have hvalid : c.toNat < 0x110000 := by
    rcases c.valid with hv | ⟨-, hv⟩
    · exact lt_trans hv (by decide)
    · exact hv
  unfold mangled
  rw [if_neg (hne '_' (by decide)), if_neg (hne '[' (by decide)),
    if_neg (by rw [halnum]; decide), if_neg (by omega), if_neg (by omega)]
  have hunit : (UInt16.ofNat (((c.toNat - 0x10000) / 1024) ||| 0xD800)).toNat / 4096 = 13 := by
    have hor : (c.toNat - 0x10000) / 1024 ||| 0xD800 = 0xD800 + (c.toNat - 0x10000) / 1024 := by
      rw [Nat.or_comm]
      exact (Nat.two_pow_add_eq_or_of_lt (i := 10) (by omega) 54).symm
    rw [hor, UInt16.toNat_ofNat']
    omega
  rw [hexUnit, hunit]
  rw [decodeLoop.eq_def]
  exact ⟨_, rfl⟩

lemma readBack_eq_self_iff :
    readBack s c = c ↔ c ≠ '.' ∧ (c = '[' → readsArray s) ∧ (c = 'A' → ¬readsArray s) := by
  unfold readBack
  by_cases hdot : c = '.'
  · subst hdot
    simp
  by_cases hbracket : c = '['
  · subst hbracket
    by_cases hs : readsArray s <;> simp [hs]
  by_cases hA : c = 'A'
  · subst hA
    by_cases hs : readsArray s <;> simp [hs]
  · simp [hdot, hbracket, hA]

end ReadBack

/-! ### A whole name -/

/-- All characters behind the state `s` are read as themselves. -/
def ReadsBack (s : Bool × Nat) : List Char → Prop
  | [] => True
  | c :: name => (c.toNat < 65536 ∧ readBack s c = c) ∧ ReadsBack (scan s c) name

lemma utf8EncodeChar_append_inj {c d : Char} {x y : List UInt8} :
    String.utf8EncodeChar c ++ x = String.utf8EncodeChar d ++ y ↔ c = d ∧ x = y := by
  constructor
  · intro h
    have hc := getCodePoint_utf8EncodeChar c x
    rw [h, getCodePoint_utf8EncodeChar, Option.some.injEq, Prod.mk.injEq] at hc
    refine ⟨?_, hc.2.symm⟩
    rw [← Char.ofNat_toNat c, ← hc.1, Char.ofNat_toNat]
  · rintro ⟨rfl, rfl⟩
    rfl

lemma decodeLoop_flatMap (s : Bool × Nat) (name rest : List Char) :
    decodeLoop s.1 s.2 (name.flatMap mangled) = some (utf8 (name ++ rest)) ↔
      rest = [] ∧ ReadsBack s name := by
  induction name generalizing s with
  | nil =>
    simp only [List.flatMap_nil, List.nil_append, ReadsBack, and_true]
    rw [decodeLoop.eq_def, Option.some.injEq, eq_comm]
    exact utf8_injective.eq_iff (a := rest) (b := [])
  | cons c name ih =>
    rw [List.flatMap_cons, List.cons_append, utf8_cons, ReadsBack]
    by_cases hc : c.toNat < 65536
    · rw [decodeLoop_mangled s hc]
      simp only [Option.map_eq_some_iff, utf8EncodeChar_append_inj, hc, true_and]
      constructor
      · rintro ⟨out, hout, hread, rfl⟩
        have hrest := (ih (scan s c)).mp hout
        exact ⟨hrest.1, hread, hrest.2⟩
      · rintro ⟨hrest, hread, hname⟩
        exact ⟨_, (ih (scan s c)).mpr ⟨hrest, hname⟩, hread, rfl⟩
    · obtain ⟨tail, htail⟩ := decodeLoop_mangled_long s (by omega : 65536 ≤ c.toNat)
        (name.flatMap mangled)
      obtain ⟨b, bs, hbytes, hb⟩ := utf8EncodeChar_eq_cons (show 128 ≤ c.toNat by omega)
      rw [htail, hbytes]
      simp only [Option.map_eq_some_iff, List.cons_append, List.cons.injEq, hc, false_and, and_false,
        iff_false]
      rintro ⟨out, -, rfl, -⟩
      exact absurd hb (by decide)

/-! ### Types in the signature -/

/-- `q` is the text behind the second bar of `p`. -/
def IsSignature (p q : List Char) : Prop :=
  ∃ cls method, p = cls ++ '|' :: (method ++ '|' :: q) ∧ '|' ∉ cls ∧ '|' ∉ method

/-- A text ends within the name of a class. -/
def InClassName (q : List Char) : Prop :=
  ∃ a b, q = a ++ 'L' :: b ∧ ∀ c ∈ b, c ≠ ';' ∧ c ≠ '(' ∧ c ≠ ')'

/-- A text ends in the signature, but not within the name of a class. -/
def StartsType (p : List Char) : Prop := ∃ q, IsSignature p q ∧ ¬InClassName q

lemma inClassName_append (q : List Char) (c : Char) :
    InClassName (q ++ [c]) ↔ c = 'L' ∨ ¬(c = ';' ∨ c = '(' ∨ c = ')') ∧ InClassName q := by
  constructor
  · rintro ⟨a, b, heq, hb⟩
    rcases List.eq_nil_or_concat b with rfl | ⟨b, d, rfl⟩
    · left
      exact (List.cons.inj (List.append_inj' heq rfl).2).1
    · rw [List.concat_eq_append, ← List.cons_append, ← List.append_assoc] at heq
      obtain ⟨rfl, hcd⟩ := List.append_inj' heq rfl
      obtain rfl : c = d := (List.cons.inj hcd).1
      have hends := hb c (by simp)
      refine .inr ⟨by simp [hends], a, b, rfl, ?_⟩
      intro d hd
      exact hb d (by simp [hd])
  · rintro (rfl | ⟨hends, a, b, rfl, hb⟩)
    · exact ⟨q, [], rfl, by simp⟩
    · refine ⟨a, b ++ [c], by simp, ?_⟩
      intro d hd
      rcases List.mem_append.mp hd with hd | hd
      · exact hb d hd
      · rw [List.mem_singleton.mp hd]
        simpa [not_or] using hends

lemma foldl_scan_signature (q : List Char) :
    2 ≤ (q.foldl scan (true, 2)).2 ∧
      ((q.foldl scan (true, 2)).1 = true ↔ ¬InClassName q) := by
  induction q using List.reverseRecOn with
  | nil =>
    refine ⟨le_rfl, ?_⟩
    simp only [List.foldl_nil, true_iff]
    rintro ⟨a, b, h, -⟩
    simp at h
  | append_singleton q c ih =>
    obtain ⟨hsplit, hprim⟩ := ih
    rw [List.foldl_append, List.foldl_cons, List.foldl_nil, inClassName_append, scan]
    by_cases hbar : c = '|'
    · subst hbar
      refine ⟨?_, ?_⟩
      · simp only [if_true]
        omega
      · simpa using hprim
    rw [if_neg hbar, if_neg (by omega)]
    by_cases hL : c = 'L'
    · subst hL
      simpa using hsplit
    rw [if_neg hL]
    by_cases hends : c = ';' ∨ c = '(' ∨ c = ')'
    · rw [if_pos hends]
      simpa [hL, hends] using hsplit
    · rw [if_neg hends]
      refine ⟨hsplit, ?_⟩
      rw [hprim]
      simp [hL, hends]

lemma foldl_scan_of_notMem {q : List Char} (h : '|' ∉ q) {s : Bool × Nat} (hs : s.2 < 2) :
    q.foldl scan s = s := by
  induction q with
  | nil => rfl
  | cons c q ih =>
    rw [List.mem_cons, not_or] at h
    rw [List.foldl_cons, scan, if_neg (Ne.symm h.1), if_pos hs]
    exact ih h.2

lemma foldl_scan_of_isSignature {p q : List Char} (h : IsSignature p q) :
    p.foldl scan (true, 0) = q.foldl scan (true, 2) := by
  obtain ⟨cls, method, rfl, hcls, hmethod⟩ := h
  rw [List.foldl_append, List.foldl_cons, foldl_scan_of_notMem hcls (by decide),
    List.foldl_append, List.foldl_cons]
  have hbar : scan (true, 0) '|' = (true, 1) := rfl
  rw [hbar, foldl_scan_of_notMem hmethod (by decide)]
  rfl

lemma readsArray_foldl_scan (p : List Char) :
    readsArray (p.foldl scan (true, 0)) ↔ StartsType p := by
  by_cases hsig : ∃ q, IsSignature p q
  · obtain ⟨q, hq⟩ := hsig
    obtain ⟨hsplit, hprim⟩ := foldl_scan_signature q
    rw [foldl_scan_of_isSignature hq, readsArray, hprim, and_iff_left hsplit]
    constructor
    · intro h
      exact ⟨q, hq, h⟩
    · rintro ⟨q', hq', h⟩
      have hstate := (foldl_scan_of_isSignature hq).symm.trans (foldl_scan_of_isSignature hq')
      rw [← (foldl_scan_signature q').2, ← hstate] at h
      exact hprim.mp h
  · have hno : ¬StartsType p := by
      rintro ⟨q, hq, -⟩
      exact hsig ⟨q, hq⟩
    refine iff_of_false ?_ hno
    by_cases hbar : '|' ∈ p
    · obtain ⟨cls, rest, rfl, hcls⟩ := List.eq_append_cons_of_mem hbar
      have hrest : '|' ∉ rest := by
        intro hmem
        obtain ⟨method, q, rfl, hmethod⟩ := List.eq_append_cons_of_mem hmem
        exact hsig ⟨q, cls, method, rfl, hcls, hmethod⟩
      rw [List.foldl_append, List.foldl_cons, foldl_scan_of_notMem hcls (by decide),
        foldl_scan_of_notMem hrest (by decide)]
      decide
    · rw [foldl_scan_of_notMem hbar (by decide)]
      decide

lemma readsBack_iff (s : Bool × Nat) (name : List Char) :
    ReadsBack s name ↔ ∀ p c q, name = p ++ c :: q →
      c.toNat < 65536 ∧ readBack (p.foldl scan s) c = c := by
  induction name generalizing s with
  | nil => simp [ReadsBack]
  | cons c name ih =>
    rw [ReadsBack, ih]
    constructor
    · rintro ⟨hc, hname⟩ p d q heq
      cases p with
      | nil =>
        obtain ⟨rfl, -⟩ := List.cons.inj heq
        exact hc
      | cons c' p =>
        obtain ⟨rfl, hrest⟩ := List.cons.inj heq
        exact hname p d q hrest
    · intro h
      refine ⟨h [] c name rfl, ?_⟩
      intro p d q heq
      exact h (c :: p) d q (by rw [heq, List.cons_append])

end Namemangler
end Maple
