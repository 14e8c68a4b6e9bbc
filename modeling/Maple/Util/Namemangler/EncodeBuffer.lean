import Maple.Util.Namemangler.Utf16

/-!
# The buffer of EncodeName

Every write of `EncodeName` with its index, for any bytes. A character takes between one and ten
bytes of the buffer, and the buffer has room for three bytes per byte of the name.
-/

namespace Maple
namespace Namemangler

/-! ### The writes -/

/-- What one round of the loop of `EncodeName` writes for the bytes from `i` on, and how far `i`
goes. -/
def encodeStep (memory : Nat → UInt8) (str : List UInt8) : List UInt8 × Nat :=
  let c := str.headD 0
  if c = '_'.toUInt8 then (['_'.toUInt8, '_'.toUInt8], 1)
  else if c = '['.toUInt8 then (['A'.toUInt8], 1)
  else if isalnum c then ([c], 1)
  else if c ≤ 0x7F then
    -- use / in package name
    let c := if c = '.'.toUInt8 then '/'.toUInt8 else c
    (['_'.toUInt8, getHexCharU (c.toNat / 16), getHexCharU (c.toNat % 16)], 1)
  else
    let (str16, n) := utf8ToUtf16With 1 false memory str
    let out :=
      if n / 65536 = 1 then 'u'.toUInt8 :: hexUnit (str16.getD 0 0)
      else 'U'.toUInt8 :: hexUnit (str16.getD 0 0) ++ hexUnit (str16.getD 1 0)
    ('_'.toUInt8 :: out, n % 65536)

lemma byteAt_zero_eq (memory : Nat → UInt8) (str : List UInt8) :
    byteAt memory str 0 = (str.headD 0).toNat := by
  cases str <;> rfl

lemma readBytes_le (memory : Nat → UInt8) (str : List UInt8) : (readBytes memory str).2 ≤ 4 := by
  simp only [readBytes]
  split_ifs <;> simp

lemma utf8ToUtf16With_one (memory : Nat → UInt8) {str : List UInt8} (h : str ≠ []) :
    utf8ToUtf16With 1 false memory str =
      ((unitsOf (readBytes memory str).1).map UInt16.ofNat,
        (unitsOf (readBytes memory str).1).length * 65536 + (readBytes memory str).2) := by
  have hle := readBytes_le memory str
  have hlimit : (1 : UInt16) = 0 + 1 := rfl
  have horder : ∀ u, orderUnit 1 false u = u := fun u => rfl
  have hlength : (unitsOf (readBytes memory str).1).length = 1 ∨
      (unitsOf (readBytes memory str).1).length = 2 := by
    unfold unitsOf
    split_ifs <;> simp
  have hret : (0 + UInt16.ofNat (unitsOf (readBytes memory str).1).length).toNat =
      (unitsOf (readBytes memory str).1).length := by
    rcases hlength with hone | htwo
    · rw [hone]
      rfl
    · rw [htwo]
      rfl
  have hpack : packCounts (0 + UInt16.ofNat (unitsOf (readBytes memory str).1).length)
      (0 + (readBytes memory str).2) =
        (unitsOf (readBytes memory str).1).length * 65536 + (readBytes memory str).2 := by
    have hdisjoint := Nat.two_pow_add_eq_or_of_lt (i := 16)
      (show (readBytes memory str).2 < 2 ^ 16 by omega) (unitsOf (readBytes memory str).1).length
    rw [packCounts, hret, Nat.zero_add, Nat.mul_comm]
    exact hdisjoint.symm
  rw [utf8ToUtf16With, utf8ToUtf16Loop, if_neg h, if_pos hlimit]
  simp only [List.length_map, horder, hpack]

/-- How much of the buffer the first character takes. -/
def charWidth (memory : Nat → UInt8) (str : List UInt8) : Nat :=
  let c := str.headD 0
  if c = '_'.toUInt8 then 2
  else if c = '['.toUInt8 ∨ isalnum c then 1
  else if c ≤ 0x7F then 3
  else if (readBytes memory str).1 ≤ 0xFFFF then 6
  else 10

lemma le_of_isalnum {c : UInt8} (h : isalnum c = true) : c ≤ 0x7F := by
  simp only [isalnum, Bool.or_eq_true, Bool.and_eq_true, decide_eq_true_eq] at h
  rcases h with (⟨-, h⟩ | ⟨-, h⟩) | ⟨-, h⟩ <;> exact UInt8.le_trans h (by decide)

lemma readBytes_of_ascii (memory : Nat → UInt8) {str : List UInt8} (h : str.headD 0 ≤ 0x7F) :
    readBytes memory str = ((str.headD 0).toNat, 1) := by
  have hle : (str.headD 0).toNat ≤ 0x7F := UInt8.le_iff_toNat_le.mp h
  simp only [readBytes, byteAt_zero_eq, if_pos hle]

lemma encodeStep_spec (memory : Nat → UInt8) (str : List UInt8) :
    (encodeStep memory str).1.length = charWidth memory str ∧
      (encodeStep memory str).2 = (readBytes memory str).2 := by
  simp only [encodeStep, charWidth]
  by_cases hunderscore : str.headD 0 = '_'.toUInt8
  · rw [if_pos hunderscore, if_pos hunderscore,
      readBytes_of_ascii memory (by rw [hunderscore]; decide)]
    exact ⟨rfl, rfl⟩
  by_cases hbracket : str.headD 0 = '['.toUInt8
  · rw [if_neg hunderscore, if_neg hunderscore, if_pos hbracket, if_pos (Or.inl hbracket),
      readBytes_of_ascii memory (by rw [hbracket]; decide)]
    exact ⟨rfl, rfl⟩
  by_cases halnum : isalnum (str.headD 0) = true
  · rw [if_neg hunderscore, if_neg hunderscore, if_neg hbracket, if_pos halnum,
      if_pos (Or.inr halnum), readBytes_of_ascii memory (le_of_isalnum halnum)]
    exact ⟨rfl, rfl⟩
  rw [if_neg hunderscore, if_neg hunderscore, if_neg hbracket, if_neg halnum,
    if_neg (not_or.mpr ⟨hbracket, halnum⟩)]
  by_cases hascii : str.headD 0 ≤ 0x7F
  · rw [if_pos hascii, if_pos hascii, readBytes_of_ascii memory hascii]
    exact ⟨rfl, rfl⟩
  · have hne : str ≠ [] := by
      rintro rfl
      exact hascii (by decide)
    have hle := readBytes_le memory str
    rw [if_neg hascii, if_neg hascii, utf8ToUtf16With_one memory hne]
    by_cases hbasic : (readBytes memory str).1 ≤ 0xFFFF
    · have hunits : (unitsOf (readBytes memory str).1).length = 1 := by
        simp [unitsOf, hbasic]
      rw [if_pos hbasic, hunits, if_pos (by omega)]
      constructor
      · rfl
      · omega
    · have hunits : (unitsOf (readBytes memory str).1).length = 2 := by
        simp [unitsOf, hbasic]
      rw [if_neg hbasic, hunits, if_neg (by omega)]
      constructor
      · rfl
      · omega

/-- The loop of `EncodeName` for the last `left` of the bytes that it is to read. -/
def encodeAll (memory : Nat → UInt8) (left : Nat) (str : List UInt8) : List UInt8 :=
  if left = 0 then []
  else
    let step := encodeStep memory str
    step.1 ++ encodeAll memory (left - step.2) (str.drop step.2)
termination_by left
decreasing_by
  have hread := one_le_readBytes memory str
  have hstep := (encodeStep_spec memory str).2
  omega

/-- The number of bytes that `EncodeName` reads. -/
def encodedLength (name : List UInt8) : Nat := min name.length kMaxCodecbufSize

/-- The characters that `EncodeName` writes into its buffer, each with its index. -/
def encodeWrites (memory : Nat → UInt8) (name : List UInt8) : List (UInt8 × Nat) :=
  -- there is no buffer for an empty name
  if encodedLength name = 0 then []
  else (encodeAll memory (encodedLength name) name ++ [0]).zipIdx

/-! ### What the characters take -/

/-- The last `left` bytes of a name from each of its characters on. -/
def nameChars (memory : Nat → UInt8) (left : Nat) (str : List UInt8) : List (List UInt8) :=
  if left = 0 then []
  else
    let n := (readBytes memory str).2
    str :: nameChars memory (left - n) (str.drop n)
termination_by left
decreasing_by
  have hread := one_le_readBytes memory str
  omega

/-- The characters of a name and the final zero take no more than the buffer has. -/
def Fits (memory : Nat → UInt8) (name : List UInt8) : Prop :=
  name = [] ∨ ((nameChars memory (encodedLength name) name).map (charWidth memory)).sum <
    allocCodecBuf (encodedLength name)

/-- A character takes less of the buffer than there is for its bytes. -/
def Saves (c : Char) : Prop :=
  c.toNat ≤ 0x7F ∧ (c = '_' ∨ c = '[' ∨ isalnum (UInt8.ofNat c.toNat)) ∨ 0x800 ≤ c.toNat

lemma length_encodeAll (memory : Nat → UInt8) (left : Nat) (str : List UInt8) :
    (encodeAll memory left str).length =
      ((nameChars memory left str).map (charWidth memory)).sum := by
  induction left, str using nameChars.induct memory with
  | case1 str => simp [encodeAll, nameChars]
  | case2 left str hleft n ih =>
    obtain ⟨hwidth, hread⟩ := encodeStep_spec memory str
    rw [encodeAll, nameChars, if_neg hleft, if_neg hleft, List.length_append, hwidth, hread, ih]
    rfl

lemma forall_zipIdx_lt {α : Type} {l : List α} (h : l ≠ []) (size : Nat) :
    (∀ w ∈ l.zipIdx, w.2 < size) ↔ l.length ≤ size := by
  have hpos := List.length_pos_iff.mpr h
  constructor
  · intro hall
    have hlast : l.length - 1 < l.length := by omega
    have hmem : (l[l.length - 1], l.length - 1) ∈ l.zipIdx := by
      rw [List.mem_zipIdx_iff_getElem?]
      exact List.getElem?_eq_getElem hlast
    have hlt := hall _ hmem
    omega
  · intro hle w hw
    rw [List.mem_zipIdx_iff_getElem?] at hw
    obtain ⟨hlt, -⟩ := List.getElem?_eq_some_iff.mp hw
    omega

/-- How much less of the buffer a character takes than there is for its bytes. -/
def spared (c : Char) : Nat :=
  if c = '_' then 1
  else if c.toNat ≤ 0x7F then if c = '[' ∨ isalnum (UInt8.ofNat c.toNat) then 2 else 0
  else if c.toNat ≤ 0x7FF then 0
  else if c.toNat ≤ 0xFFFF then 3
  else 2

lemma spared_pos_iff (c : Char) : spared c ≠ 0 ↔ Saves c := by
  unfold spared Saves
  by_cases hunderscore : c = '_'
  · subst hunderscore
    simp
  · by_cases hascii : c.toNat ≤ 0x7F
    · have hsmall : ¬ 0x800 ≤ c.toNat := by omega
      simp [hunderscore, hascii, hsmall, or_iff_not_imp_left]
    · by_cases htwo : c.toNat ≤ 0x7FF
      · have hsmall : ¬ 0x800 ≤ c.toNat := by omega
        simp [hunderscore, hascii, htwo, hsmall]
      · have hlarge : 0x800 ≤ c.toNat := by omega
        simp only [hunderscore, hascii, htwo, hlarge, if_false, or_true, iff_true]
        split_ifs <;> simp

lemma ofNat_eq_toUInt8_iff {c d : Char} (hc : c.toNat ≤ 0x7F) (hd : d.toNat ≤ 0x7F) :
    UInt8.ofNat c.toNat = d.toUInt8 ↔ c = d := by
  have htoNat : d.toUInt8.toNat = d.toNat % 256 := rfl
  rw [← UInt8.toNat_inj, UInt8.toNat_ofNat', htoNat, ← Char.toNat_inj]
  omega

lemma headD_utf8Char (codePoint : Nat) (h : ¬ codePoint ≤ 0x7F) (hlt : codePoint < 2097152)
    (rest : List UInt8) : ¬ (utf8Char codePoint ++ rest).headD 0 ≤ 0x7F := by
  have hbyte : ∀ n, n < 64 → ¬ UInt8.ofNat (0xC0 + n) ≤ 0x7F := by
    intro n hn hle
    have hnat := UInt8.le_iff_toNat_le.mp hle
    rw [toNat_ofNat_byte (by omega)] at hnat
    have hmax : (0x7F : UInt8).toNat = 0x7F := rfl
    omega
  unfold utf8Char
  split_ifs with htwo hthree
  · exact hbyte (codePoint / 64) (by omega)
  · have hthird := hbyte (0x20 + codePoint / 4096 % 16) (by omega)
    rwa [← Nat.add_assoc] at hthird
  · have hfourth := hbyte (0x30 + codePoint / 262144 % 8) (by omega)
    rwa [← Nat.add_assoc] at hfourth

lemma charWidth_add_spared (memory : Nat → UInt8) (c : Char) (rest : List UInt8) :
    charWidth memory (utf8Char c.toNat ++ rest) + spared c = 3 * (utf8Char c.toNat).length := by
  by_cases hascii : c.toNat ≤ 0x7F
  · have hchar : utf8Char c.toNat = [UInt8.ofNat c.toNat] := by
      rw [utf8Char, if_pos hascii]
    have hbyte : UInt8.ofNat c.toNat ≤ 0x7F := by
      rw [UInt8.le_iff_toNat_le, toNat_ofNat_byte (by omega)]
      exact hascii
    have hunderscore := ofNat_eq_toUInt8_iff hascii (show '_'.toNat ≤ 0x7F by decide)
    have hbracket := ofNat_eq_toUInt8_iff hascii (show '['.toNat ≤ 0x7F by decide)
    simp only [charWidth, spared, hchar, List.cons_append, List.headD_cons, hunderscore, hbracket,
      hbyte, hascii, if_true, List.length_singleton]
    split_ifs <;> rfl
  · have hlt : c.toNat < 2097152 := (toNat_lt c).trans (by omega)
    have hhead := headD_utf8Char c.toNat hascii hlt rest
    have hunderscore : (utf8Char c.toNat ++ rest).headD 0 ≠ '_'.toUInt8 := by
      intro heq
      exact hhead (by rw [heq]; decide)
    have hplain : ¬ ((utf8Char c.toNat ++ rest).headD 0 = '['.toUInt8 ∨
        isalnum ((utf8Char c.toNat ++ rest).headD 0) = true) := by
      rintro (heq | halnum)
      · exact hhead (by rw [heq]; decide)
      · exact hhead (le_of_isalnum halnum)
    have hchar : c ≠ '_' := by
      rintro rfl
      exact hascii (by decide)
    simp only [charWidth, spared, hunderscore, hplain, hhead, hchar, hascii, if_false,
      readBytes_utf8Char memory hlt]
    unfold utf8Char
    split_ifs with hbasic htwo htwo
    · rfl
    · rfl
    · omega
    · rfl

lemma sum_charWidth_add (memory : Nat → UInt8) (text : List Char) :
    let name := text.flatMap fun c => utf8Char c.toNat
    ((nameChars memory name.length name).map (charWidth memory)).sum + (text.map spared).sum =
      3 * name.length := by
  induction text with
  | nil => simp [nameChars]
  | cons c text ih =>
    intro name
    have hname : name = utf8Char c.toNat ++ text.flatMap fun c => utf8Char c.toNat :=
      List.flatMap_cons
    have hread := readBytes_utf8Char memory ((toNat_lt c).trans (by omega))
      (text.flatMap fun c => utf8Char c.toNat)
    have hwidth := charWidth_add_spared memory c (text.flatMap fun c => utf8Char c.toNat)
    have hpos := List.length_pos_iff.mpr (utf8Char_ne_nil c.toNat)
    rw [hname, nameChars, if_neg (by rw [List.length_append]; omega)]
    simp only [hread, List.drop_left, List.length_append, Nat.add_sub_cancel_left, List.map_cons,
      List.sum_cons] at ih ⊢
    omega

/-- Every index stays inside of the buffer if and only if the characters and the zero fit. A text of
up to 1024 bytes fits if it is empty or has a character that takes less than its share. -/
theorem encodeWrites_inBuffer_iff (memory : Nat → UInt8) (name : List UInt8) :
    ((∀ w ∈ encodeWrites memory name, w.2 < allocCodecBuf (encodedLength name)) ↔
        Fits memory name) ∧
      ∀ text : List Char, name = text.flatMap String.utf8EncodeChar →
        name.length ≤ kLocalCodebufSize →
          (Fits memory name ↔ text = [] ∨ ∃ c ∈ text, Saves c) := by
  constructor
  · by_cases hname : name = []
    · subst hname
      simp [encodeWrites, Fits, encodedLength]
    · have hpos := List.length_pos_iff.mpr hname
      have hne : encodedLength name ≠ 0 := by
        unfold encodedLength kMaxCodecbufSize
        omega
      rw [encodeWrites, if_neg hne, forall_zipIdx_lt (by simp), List.length_append,
        length_encodeAll, List.length_singleton, Fits]
      simp only [hname, false_or]
      exact Nat.succ_le_iff
  · intro text htext hshort
    have hfun : String.utf8EncodeChar = fun c => utf8Char c.toNat := funext utf8EncodeChar_eq
    have hsum := sum_charWidth_add memory text
    rw [hfun] at htext
    rw [← htext] at hsum
    have hlength : encodedLength name = name.length :=
      min_eq_left (hshort.trans (by decide))
    have hempty : name = [] ↔ text = [] := by
      rw [htext, List.flatMap_eq_nil_iff]
      constructor
      · intro hall
        apply List.eq_nil_iff_forall_not_mem.mpr
        intro c hc
        exact utf8Char_ne_nil c.toNat (hall c hc)
      · rintro rfl
        simp
    have hspared : (text.map spared).sum ≠ 0 ↔ ∃ c ∈ text, Saves c := by
      rw [ne_eq, List.sum_eq_zero_iff_forall_eq_nat]
      simp only [List.forall_mem_map, not_forall, ← spared_pos_iff, exists_prop, ne_eq]
    rw [Fits, hempty, hlength, allocCodecBuf, if_pos hshort, ← hspared]
    apply or_congr Iff.rfl
    omega

/-- An exclamation mark takes the three bytes that it gets, and the zero is behind them. -/
theorem encodeWrites_exclamationMark :
    encodeWrites (fun _ => 0) ['!'.toUInt8] =
        [('_'.toUInt8, 0), ('2'.toUInt8, 1), ('1'.toUInt8, 2), (0, 3)] ∧
      allocCodecBuf (encodedLength ['!'.toUInt8]) = 3 := by
  decide +kernel

end Namemangler
end Maple
