import Mathlib.Data.List.Basic
import Mathlib.Tactic.Linarith

/-!
# UTF-16 and UTF-8

The conversions of `namemangler` between the units of UTF-16 strings and the bytes of UTF-8, in the
little-endian form without a limit. Every unit is converted alone, with its two bytes exchanged.
-/

namespace Maple
namespace Namemangler

def changeEndian16 (u16 : Nat) : Nat := u16 / 256 % 256 + u16 % 256 * 256

/-- The bytes that `UTF16ToUTF8` adds for one unit. -/
def utf8Bytes (codePoint : Nat) : List UInt8 :=
  if codePoint ≤ 0x7F then [UInt8.ofNat codePoint]
  else if codePoint ≤ 0x7FF then
    [UInt8.ofNat (0xC0 + codePoint / 64), UInt8.ofNat (0x80 + codePoint % 64)]
  else
    [UInt8.ofNat (0xE0 + codePoint / 4096 % 16), UInt8.ofNat (0x80 + codePoint / 64 % 64),
      UInt8.ofNat (0x80 + codePoint % 64)]

/-- The number of conversions after which the counter is back at 0, the limit `num`. -/
def maxCount : Nat := 65536

def utf16ToUtf8 (str16 : List UInt16) : List UInt8 :=
  (str16.take maxCount).flatMap fun u => utf8Bytes (changeEndian16 u.toNat)

/-- `GetCodePoint`, with the bytes that are left. -/
def getCodePoint : List UInt8 → Option (Nat × List UInt8)
  | [] => none
  | a :: rest =>
    if a.toNat ≤ 0x7F then some (a.toNat, rest)
    else if 0xF0 ≤ a.toNat then
      match rest with
      | b :: c :: d :: rest =>
        some (a.toNat % 8 * 262144 + b.toNat % 64 * 4096 + c.toNat % 64 * 64 + d.toNat % 64, rest)
      | _ => none
    else if 0xE0 ≤ a.toNat then
      match rest with
      | b :: c :: rest =>
        some (a.toNat % 16 * 4096 + b.toNat % 64 * 64 + c.toNat % 64, rest)
      | _ => none
    else if 0xC0 ≤ a.toNat then
      match rest with
      | b :: rest => some (a.toNat % 32 * 64 + b.toNat % 64, rest)
      | _ => none
    else none

/-- The units that `UTF8ToUTF16` adds for one code point. -/
def utf16Units (codePoint : Nat) : List UInt16 :=
  if codePoint ≤ 0xFFFF then [UInt16.ofNat (changeEndian16 codePoint)]
  else
    [UInt16.ofNat (changeEndian16 (((codePoint - 0x10000) / 1024) ||| 0xD800)),
      UInt16.ofNat (changeEndian16 (((codePoint - 0x10000) % 1024) ||| 0xDC00))]

/-- `UTF8ToUTF16`, for at most so many code points. -/
def utf8ToUtf16 : Nat → List UInt8 → Option (List UInt16)
  | 0, _ => some []
  | _ + 1, [] => some []
  | n + 1, b :: bs => do
    let (codePoint, rest) ← getCodePoint (b :: bs)
    let units ← utf8ToUtf16 n rest
    pure (utf16Units codePoint ++ units)

lemma changeEndian16_lt (u : Nat) : changeEndian16 u < 65536 := by
  unfold changeEndian16
  omega

lemma changeEndian16_changeEndian16 {u : Nat} (h : u < 65536) :
    changeEndian16 (changeEndian16 u) = u := by
  have hhigh : u / 256 % 256 = u / 256 := Nat.mod_eq_of_lt (by omega)
  have hlow : (u / 256 + u % 256 * 256) / 256 = u % 256 := by omega
  unfold changeEndian16
  rw [hhigh, hlow]
  omega

lemma toNat_ofNat_byte {n : Nat} (h : n < 256) : (UInt8.ofNat n).toNat = n := by
  rw [UInt8.toNat_ofNat', Nat.mod_eq_of_lt h]

lemma utf8Bytes_eq_cons (codePoint : Nat) : ∃ b bs, utf8Bytes codePoint = b :: bs := by
  unfold utf8Bytes
  split_ifs
  · exact ⟨_, _, rfl⟩
  · exact ⟨_, _, rfl⟩
  · exact ⟨_, _, rfl⟩

lemma getCodePoint_utf8Bytes {codePoint : Nat} (h : codePoint < 65536) (rest : List UInt8) :
    getCodePoint (utf8Bytes codePoint ++ rest) = some (codePoint, rest) := by
  unfold utf8Bytes
  split_ifs with h1 h2
  · have ha := toNat_ofNat_byte (n := codePoint) (by omega)
    simp only [List.cons_append, List.nil_append, getCodePoint, ha, if_pos h1]
  · have ha := toNat_ofNat_byte (n := 0xC0 + codePoint / 64) (by omega)
    have hb := toNat_ofNat_byte (n := 0x80 + codePoint % 64) (by omega)
    simp only [List.cons_append, List.nil_append, getCodePoint, ha, hb]
    rw [if_neg (by omega), if_neg (by omega), if_neg (by omega), if_pos (by omega)]
    have hcode : (0xC0 + codePoint / 64) % 32 * 64 + (0x80 + codePoint % 64) % 64 = codePoint := by
      omega
    rw [hcode]
  · have ha := toNat_ofNat_byte (n := 0xE0 + codePoint / 4096 % 16) (by omega)
    have hb := toNat_ofNat_byte (n := 0x80 + codePoint / 64 % 64) (by omega)
    have hc := toNat_ofNat_byte (n := 0x80 + codePoint % 64) (by omega)
    simp only [List.cons_append, List.nil_append, getCodePoint, ha, hb, hc]
    rw [if_neg (by omega), if_neg (by omega), if_pos (by omega)]
    have hcode : (0xE0 + codePoint / 4096 % 16) % 16 * 4096 +
        (0x80 + codePoint / 64 % 64) % 64 * 64 + (0x80 + codePoint % 64) % 64 = codePoint := by
      omega
    rw [hcode]

lemma utf16Units_changeEndian16 (u : UInt16) : utf16Units (changeEndian16 u.toNat) = [u] := by
  have hlt := changeEndian16_lt u.toNat
  rw [utf16Units, if_pos (by omega), changeEndian16_changeEndian16 u.toNat_lt, UInt16.ofNat_toNat]

lemma utf8ToUtf16_flatMap (n : Nat) (units : List UInt16) (h : units.length ≤ n) :
    utf8ToUtf16 n (units.flatMap fun u => utf8Bytes (changeEndian16 u.toNat)) = some units := by
  induction units generalizing n with
  | nil => cases n <;> rfl
  | cons u units ih =>
    cases n with
    | zero => simp at h
    | succ n =>
      have hcode := getCodePoint_utf8Bytes (changeEndian16_lt u.toNat)
        (units.flatMap fun u => utf8Bytes (changeEndian16 u.toNat))
      obtain ⟨b, bs, hbytes⟩ := utf8Bytes_eq_cons (changeEndian16 u.toNat)
      rw [List.flatMap_cons]
      rw [hbytes, List.cons_append] at hcode ⊢
      rw [utf8ToUtf16, hcode]
      simp only [Option.bind_eq_bind, Option.bind_some, ih n (by simpa using h),
        utf16Units_changeEndian16]
      rfl

/-- Read back, a string is cut off where the counter wraps around. -/
theorem utf8ToUtf16_utf16ToUtf8 (str16 : List UInt16) :
    utf8ToUtf16 maxCount (utf16ToUtf8 str16) = some (str16.take maxCount) :=
  utf8ToUtf16_flatMap maxCount _ (List.length_take_le _ _)

lemma length_utf8Bytes_le (codePoint : Nat) : (utf8Bytes codePoint).length ≤ 3 := by
  unfold utf8Bytes
  split_ifs <;> simp

lemma length_utf16ToUtf8_le (str16 : List UInt16) : (utf16ToUtf8 str16).length ≤ 3 * maxCount := by
  have hunits : ∀ units : List UInt16,
      (units.flatMap fun u => utf8Bytes (changeEndian16 u.toNat)).length ≤ 3 * units.length := by
    intro units
    induction units with
    | nil => simp
    | cons u units ih =>
      have hu := length_utf8Bytes_le (changeEndian16 u.toNat)
      rw [List.flatMap_cons, List.length_append, List.length_cons]
      omega
  have htake := List.length_take_le maxCount str16
  exact (hunits _).trans (Nat.mul_le_mul_left 3 htake)

end Namemangler
end Maple
