import Maple.Util.Namemangler.RoundTrip

/-!
# The names that `DecodeName` gives back
-/

namespace Maple
namespace Namemangler

/-! ### The loop of `EncodeName` -/

/-- The characters that start before the byte `nameLen`, from the byte `i` on. -/
def kept (nameLen : Nat) : Nat → List Char → List Char
  | _, [] => []
  | i, c :: name =>
    if i < nameLen then c :: kept nameLen (i + (String.utf8EncodeChar c).length) name else []

lemma length_utf8EncodeChar_pos (c : Char) : 0 < (String.utf8EncodeChar c).length := by
  rw [List.length_pos_iff]
  exact String.utf8EncodeChar_ne_nil

lemma encodeLoop_utf8 (nameLen fuel i : Nat) (name : List Char)
    (hname : nameLen ≤ i + (utf8 name).length) (hfuel : nameLen ≤ i + fuel) :
    encodeLoop nameLen fuel i (utf8 name) = some ((kept nameLen i name).flatMap mangled) := by
  induction fuel generalizing i name with
  | zero =>
    cases name with
    | nil => rfl
    | cons c name =>
      rw [kept, if_neg (by omega)]
      rfl
  | succ fuel ih =>
    rw [encodeLoop]
    split_ifs with hi
    · cases name with
      | nil =>
        simp only [utf8_nil, List.length_nil] at hname
        omega
      | cons c name =>
        have hpos := length_utf8EncodeChar_pos c
        rw [utf8_cons, List.length_append] at hname
        have hrest := ih (i + (String.utf8EncodeChar c).length) name (by omega) (by omega)
        rw [utf8_cons, encodeChar_utf8EncodeChar]
        simp only [List.drop_left, hrest, Option.map_some, kept, if_pos hi, List.flatMap_cons]
    · cases name with
      | nil => rfl
      | cons c name =>
        rw [kept, if_neg hi]
        rfl

lemma exists_append_kept (nameLen i : Nat) (name : List Char) :
    ∃ rest, name = kept nameLen i name ++ rest ∧
      (rest = [] ↔ name = [] ∨ i + (utf8 name.dropLast).length < nameLen) := by
  induction name generalizing i with
  | nil => exact ⟨[], rfl, by simp⟩
  | cons c name ih =>
    rw [kept]
    split_ifs with hi
    · obtain ⟨rest, heq, hiff⟩ := ih (i + (String.utf8EncodeChar c).length)
      refine ⟨rest, by rw [List.cons_append, ← heq], ?_⟩
      rw [hiff]
      cases name with
      | nil => simpa using hi
      | cons d name =>
        rw [List.dropLast_cons_of_ne_nil (List.cons_ne_nil d name), utf8_cons, List.length_append]
        simp only [reduceCtorEq, false_or, Nat.add_assoc]
    · refine ⟨c :: name, rfl, ?_⟩
      simp only [reduceCtorEq, false_or, false_iff]
      omega

/-! ### The mangled name -/

lemma getHexChar_ne_semicolon : ∀ n < 16, getHexChar n ≠ ';'.toUInt8 := by decide

lemma getHexCharU_ne_semicolon : ∀ n < 16, getHexCharU n ≠ ';'.toUInt8 := by decide

lemma semicolon_notMem_hexUnit (m : UInt16) : ';'.toUInt8 ∉ hexUnit m := by
  have hm := m.toNat_lt
  have h1 := getHexChar_ne_semicolon (m.toNat / 4096) (by omega)
  have h2 := getHexChar_ne_semicolon (m.toNat / 256 % 16) (by omega)
  have h3 := getHexChar_ne_semicolon (m.toNat / 16 % 16) (by omega)
  have h4 := getHexChar_ne_semicolon (m.toNat % 16) (by omega)
  simp [hexUnit, h1.symm, h2.symm, h3.symm, h4.symm]

lemma semicolon_notMem_mangled (c : Char) : ';'.toUInt8 ∉ mangled c := by
  have hlit : ';'.toUInt8 ≠ '_'.toUInt8 ∧ ';'.toUInt8 ≠ 'A'.toUInt8 ∧ ';'.toUInt8 ≠ 'u'.toUInt8 ∧
      ';'.toUInt8 ≠ 'U'.toUInt8 := by decide
  unfold mangled
  by_cases hunder : c = '_'
  · simp [hunder, hlit]
  rw [if_neg hunder]
  by_cases hbracket : c = '['
  · simp [hbracket, hlit]
  rw [if_neg hbracket]
  by_cases halnum : c.isAlphanum = true
  · rw [if_pos halnum, List.mem_singleton]
    intro heq
    have hc := (ofNat_toNat_inj (d := ';') (lt_of_isAlphanum halnum) (by decide)).mp heq.symm
    exact not_isAlphanum_iff (by decide) halnum hc
  rw [if_neg halnum]
  by_cases hascii : c.toNat < 128
  · have hd : (if c = '.' then '/' else c).toNat < 128 := by
      split_ifs
      · decide
      · exact hascii
    have h1 := getHexCharU_ne_semicolon ((if c = '.' then '/' else c).toNat / 16) (by omega)
    have h2 := getHexCharU_ne_semicolon ((if c = '.' then '/' else c).toNat % 16) (by omega)
    rw [if_pos hascii]
    simp [hlit, h1.symm, h2.symm]
  rw [if_neg hascii]
  split_ifs
  · simp [hlit, semicolon_notMem_hexUnit]
  · simp [hlit, semicolon_notMem_hexUnit]

lemma decodeName_flatMap (name rest : List Char) :
    decodeName (name.flatMap mangled) = some (utf8 (name ++ rest)) ↔
      rest = [] ∧ ReadsBack (true, 0) name := by
  have hsemi : ';'.toUInt8 ∉ name.flatMap mangled := by
    rw [List.mem_flatMap]
    rintro ⟨c, -, hc⟩
    exact semicolon_notMem_mangled c hc
  rw [decodeName, if_neg hsemi]
  exact decodeLoop_flatMap (true, 0) name rest

lemma length_flatMap_mangled (name : List Char) :
    (name.flatMap mangled).length = (name.map mangledLength).sum := by
  rw [List.length_flatMap]
  simp only [length_mangled]

/-! ### Reversible names -/

/-- The names that are given back. -/
structure Reversible (name : List Char) : Prop where
  noDot : '.' ∉ name
  short : ∀ c ∈ name, c.toNat < 65536
  bracket : ∀ p q, name = p ++ '[' :: q → StartsType p
  letterA : ∀ p q, name = p ++ 'A' :: q → ¬StartsType p
  starts : (utf8 name.dropLast).length < kMaxCodecbufSize
  fits : name = [] ∨
    (name.map mangledLength).sum < allocCodecBuf (min (utf8 name).length kMaxCodecbufSize)

lemma readsBack_iff_reversible (name : List Char) :
    ReadsBack (true, 0) name ↔ '.' ∉ name ∧ (∀ c ∈ name, c.toNat < 65536) ∧
      (∀ p q, name = p ++ '[' :: q → StartsType p) ∧
      ∀ p q, name = p ++ 'A' :: q → ¬StartsType p := by
  rw [readsBack_iff]
  simp only [readBack_eq_self_iff, readsArray_foldl_scan]
  constructor
  · intro h
    refine ⟨?_, ?_, ?_, ?_⟩
    · intro hmem
      obtain ⟨p, q, heq⟩ := List.append_of_mem hmem
      exact (h p '.' q heq).2.1 rfl
    · intro c hmem
      obtain ⟨p, q, heq⟩ := List.append_of_mem hmem
      exact (h p c q heq).1
    · intro p q heq
      exact (h p '[' q heq).2.2.1 rfl
    · intro p q heq
      exact (h p 'A' q heq).2.2.2 rfl
  · rintro ⟨hdot, hshort, hbracket, hA⟩ p c q heq
    have hmem : c ∈ name := by simp [heq]
    refine ⟨hshort c hmem, ?_, ?_, ?_⟩
    · rintro rfl
      exact hdot hmem
    · rintro rfl
      exact hbracket p q heq
    · rintro rfl
      exact hA p q heq

lemma decodeName_encodeName (name : List Char) :
    (encodeName (utf8 name)).bind decodeName = some (utf8 name) ↔ Reversible name := by
  by_cases hnil : name = []
  · subst hnil
    refine iff_of_true rfl ⟨by simp, by simp, by simp, by simp, by decide, .inl rfl⟩
  · have hlength : 0 < (utf8 name).length := by
      cases name with
      | nil => exact absurd rfl hnil
      | cons c name =>
        have hpos := length_utf8EncodeChar_pos c
        rw [utf8_cons, List.length_append]
        omega
    have hlast : (utf8 name.dropLast).length < (utf8 name).length := by
      have hpos := length_utf8EncodeChar_pos (name.getLast hnil)
      have hconcat := congrArg (fun l => (utf8 l).length) (List.dropLast_append_getLast hnil)
      simp only [utf8_append, utf8_cons, utf8_nil, List.append_nil, List.length_append] at hconcat
      omega
    let nameLen := min (utf8 name).length kMaxCodecbufSize
    have hmax : 0 < kMaxCodecbufSize := by decide
    have hloop := encodeLoop_utf8 nameLen nameLen 0 name (by omega) (by omega)
    obtain ⟨rest, hkept, hrest⟩ := exists_append_kept nameLen 0 name
    have hencode : encodeName (utf8 name) =
        if ((kept nameLen 0 name).flatMap mangled).length < allocCodecBuf nameLen
        then some ((kept nameLen 0 name).flatMap mangled) else none := by
      rw [encodeName, if_neg (by omega), hloop]
    have hdecode := decodeName_flatMap (kept nameLen 0 name) rest
    rw [← hkept] at hdecode
    rw [hencode]
    constructor
    · intro h
      split_ifs at h with hfits
      · obtain ⟨hnone, hread⟩ := hdecode.mp h
        have hstarts := (hrest.mp hnone).resolve_left hnil
        rw [hnone, List.append_nil] at hkept
        rw [← hkept, readsBack_iff_reversible] at hread
        rw [← hkept, length_flatMap_mangled] at hfits
        exact ⟨hread.1, hread.2.1, hread.2.2.1, hread.2.2.2, by omega, .inr hfits⟩
      · cases h
    · rintro ⟨hdot, hshort, hbracket, hA, hstarts, hfits⟩
      have hnone : rest = [] := hrest.mpr (.inr (by omega))
      rw [hnone, List.append_nil] at hkept
      rw [← hkept, hnone] at hdecode
      rw [← hkept, length_flatMap_mangled, if_pos (hfits.resolve_left hnil)]
      exact hdecode.mpr ⟨rfl, (readsBack_iff_reversible name).mpr ⟨hdot, hshort, hbracket, hA⟩⟩

/-- `DecodeName` gives back exactly the reversible names, and `EncodeName` is injective on them. -/
theorem decodeName_encodeName_iff (name : List Char) :
    ((encodeName (utf8 name)).bind decodeName = some (utf8 name) ↔ Reversible name) ∧
      ∀ other, Reversible name → Reversible other →
        encodeName (utf8 name) = encodeName (utf8 other) → name = other := by
  refine ⟨decodeName_encodeName name, ?_⟩
  intro other h h' heq
  have hdecode := (decodeName_encodeName name).mpr h
  have hdecode' := (decodeName_encodeName other).mpr h'
  rw [heq, hdecode', Option.some.injEq] at hdecode
  exact utf8_injective hdecode.symm

/-- A character of four bytes is not read back. -/
theorem decodeName_grinningFace :
    ¬∀ cls method signature : List Char, '|' ∉ cls → '|' ∉ method → '|' ∉ signature →
      '.' ∉ cls ++ method ++ signature → '[' ∉ cls ++ method →
      (encodeName (utf8 (cls ++ '|' :: (method ++ '|' :: signature)))).bind decodeName =
        some (utf8 (cls ++ '|' :: (method ++ '|' :: signature))) := by
  intro h
  exact absurd (h ['L', '😀', ';'] ['f'] ['(', ')', 'V'] (by decide) (by decide) (by decide)
    (by decide) (by decide)) (by decide)

end Namemangler
end Maple
