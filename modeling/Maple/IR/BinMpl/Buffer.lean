import Maple.Lib.Codec
import Maple.Lib.IntFormat
import Mathlib.Tactic.IntervalCases

/-!
# The buffer of binary MIR

Bytes, numbers in LEB128 and strings, as `BinaryMplExport` writes them and `BinaryMplImport` reads
them.
-/

namespace Maple
namespace BinMpl

def int32Format : IntFormat := ⟨32, true⟩
def uint32Format : IntFormat := ⟨32, false⟩
def int64Format : IntFormat := ⟨64, true⟩

/-- Conversions to the integer types of the fields. -/
def int32 (x : Int) : Int := int32Format.wrap x
def uint32 (x : Int) : Int := uint32Format.wrap x
def int64 (x : Int) : Int := int64Format.wrap x
def uint8 (x : Int) : UInt8 := UInt8.ofNat (x % 256).toNat

variable {σ τ : Type}

def write (b : UInt8) : Put σ := Put.bytes [b]

/-- The loop of `WriteNum`, for a number of at most `7 * n + 7` bits. -/
def numBytes : Nat → Int → List UInt8
  | 0, x => [uint8 (x % 128)]
  | n + 1, x =>
    if x < -0x40 ∨ 0x40 ≤ x then uint8 (x % 128 + 0x80) :: numBytes n (x / 128)
    else [uint8 (x % 128)]

/-- `WriteNum`; an `int64` takes at most 10 bytes. -/
def writeNum (x : Int) : Put σ := Put.bytes (numBytes 9 (int64 x))

/-- The bytes of a string (`WriteAsciiStr`). -/
def writeAsciiStr (str : List UInt8) : Put σ := writeNum str.length ++ Put.bytes str

def read : Get τ UInt8 := fun t bs =>
  match bs with
  | [] => none
  | b :: bs => some (b, t, bs)

/-- The loop of `ReadNum` with its variables `n` and `y`. -/
def readNumLoop (n : Nat) (y : Int) : List UInt8 → Option (Int × List UInt8)
  | [] => none
  | b :: bs =>
    if 0x80 ≤ b.toNat then readNumLoop (n + 7) (y + (b.toNat - 0x80) * 2 ^ n) bs
    else some (int64 (y + ((b.toNat &&& 0x3F : Nat) - (b.toNat &&& 0x40 : Nat)) * 2 ^ n), bs)

def readNum : Get τ Int := fun t bs => (readNumLoop 0 0 bs).map fun r => (r.1, t, r.2)

def readAsciiStr : Get τ (List UInt8) := do
  let n ← readNum
  read.many n.toNat

/-! ### Bytes and numbers -/

lemma uint8_toNat {x : Int} (h0 : 0 ≤ x) (h : x < 256) : ((uint8 x).toNat : Int) = x := by
  rw [uint8, Int.emod_eq_of_lt h0 h]
  simp only [UInt8.toNat_ofNat']
  omega

lemma low_bits {b : Nat} (h : b < 128) :
    ((b &&& 0x3F : Nat) : Int) - (b &&& 0x40 : Nat) = if b < 64 then (b : Int) else b - 128 := by
  interval_cases b <;> rfl

lemma readNumLoop_last (n : Nat) (y x : Int) (rest : List UInt8) (hlo : -64 ≤ x) (hhi : x < 64) :
    readNumLoop n y (uint8 (x % 128) :: rest) = some (int64 (y + x * 2 ^ n), rest) := by
  have hb := uint8_toNat (x := x % 128) (by omega) (by omega)
  have hlt : (uint8 (x % 128)).toNat < 128 := by omega
  rw [readNumLoop, if_neg (by omega), low_bits hlt, hb]
  have hx : (if (uint8 (x % 128)).toNat < 64 then x % 128 else x % 128 - 128) = x := by
    split_ifs <;> omega
  rw [hx]

lemma readNumLoop_numBytes (k n : Nat) (y x : Int) (rest : List UInt8)
    (hlo : -2 ^ (7 * k + 6) ≤ x) (hhi : x < 2 ^ (7 * k + 6)) :
    readNumLoop n y (numBytes k x ++ rest) = some (int64 (y + x * 2 ^ n), rest) := by
  induction k generalizing n y x with
  | zero => exact readNumLoop_last n y x rest (by simpa using hlo) (by simpa using hhi)
  | succ k ih =>
    rw [numBytes]
    split_ifs with hbig
    · have hb := uint8_toNat (x := x % 128 + 0x80) (by omega) (by omega)
      rw [List.cons_append, readNumLoop, if_pos (by omega), hb]
      have hpow : (2 : Int) ^ (7 * (k + 1) + 6) = 128 * 2 ^ (7 * k + 6) := by ring
      rw [hpow] at hlo hhi
      rw [ih _ _ _ (by omega) (by omega)]
      have hsum : y + (x % 128 + 128 - 128) * 2 ^ n + x / 128 * 2 ^ (n + 7) = y + x * 2 ^ n := by
        have hx := Int.emod_add_mul_ediv x 128
        rw [pow_add]
        calc y + (x % 128 + 128 - 128) * 2 ^ n + x / 128 * (2 ^ n * 2 ^ 7)
            = y + (x % 128 + 128 * (x / 128)) * 2 ^ n := by ring
          _ = y + x * 2 ^ n := by rw [hx]
      rw [hsum]
    · exact readNumLoop_last n y x rest (by omega) (by omega)

lemma int64_mem (x : Int) : int64Format.Mem (int64 x) := int64Format.wrap_mem x

lemma int64_mem_of_lt {x : Int} (hlo : -2 ^ 63 ≤ x) (hhi : x < 2 ^ 63) : int64Format.Mem x := by
  norm_num at hlo hhi
  constructor
  · norm_num [IntFormat.minValue, IntFormat.modulus, int64Format]
    omega
  · norm_num [IntFormat.maxValue, IntFormat.modulus, int64Format]
    omega

lemma readNum_numBytes (x : Int) (h : int64Format.Mem x) (t : τ) (rest : List UInt8) :
    readNum t (numBytes 9 x ++ rest) = some (x, t, rest) := by
  have hlo : -2 ^ (7 * 9 + 6) ≤ x := le_trans (by norm_num [IntFormat.minValue,
    IntFormat.modulus, int64Format]) h.1
  have hhi : x < 2 ^ (7 * 9 + 6) := lt_of_le_of_lt h.2 (by norm_num [IntFormat.maxValue,
    IntFormat.modulus, int64Format])
  rw [readNum, readNumLoop_numBytes 9 0 0 _ rest hlo hhi]
  simp [int64, int64Format.wrap_of_mem h]

lemma many_read (bs : List UInt8) (t : τ) (rest : List UInt8) :
    read.many bs.length t (bs ++ rest) = some (bs, t, rest) := by
  induction bs with
  | nil => rfl
  | cons b bs ih =>
    have hread : (read : Get τ UInt8) t (b :: bs ++ rest) = some (b, t, bs ++ rest) := rfl
    rw [List.length_cons, Get.many, Get.bind_of_eq hread, Get.bind_of_eq ih, Get.pure_apply]

section ReadsBack

variable [Preorder σ] {Linked : σ → τ → Prop} {F : σ}

lemma grows_write (b : UInt8) : Put.Grows (write b : Put σ) := Put.grows_bytes _

lemma grows_writeNum (x : Int) : Put.Grows (writeNum x : Put σ) := Put.grows_bytes _

lemma grows_writeAsciiStr (str : List UInt8) : Put.Grows (writeAsciiStr str : Put σ) :=
  (grows_writeNum _).append (Put.grows_bytes _)

lemma readsBack_write (b : UInt8) : ReadsBack Linked F (write b) read b := by
  intro s t hl bs s' h _ rest
  cases h
  exact ⟨t, rfl, hl⟩

lemma readsBack_writeNum (x : Int) : ReadsBack Linked F (writeNum x) readNum (int64 x) := by
  intro s t hl bs s' h _ rest
  cases h
  exact ⟨t, readNum_numBytes _ (int64_mem x) t rest, hl⟩

lemma readsBack_bytes (bs : List UInt8) :
    ReadsBack Linked F (Put.bytes bs) (read.many bs.length) bs := by
  intro s t hl bs' s' h _ rest
  cases h
  exact ⟨t, many_read bs t rest, hl⟩

lemma readsBack_writeAsciiStr {str : List UInt8} (h : str.length < 2 ^ 63) :
    ReadsBack Linked F (writeAsciiStr str) readAsciiStr str := by
  apply ReadsBack.bind (readsBack_writeNum _) (Put.grows_bytes _)
  have hlen : (int64 str.length).toNat = str.length := by
    have hmem : int64Format.Mem str.length := int64_mem_of_lt (by omega) (by omega)
    rw [int64, int64Format.wrap_of_mem hmem, Int.toNat_natCast]
  rw [hlen]
  exact readsBack_bytes str

end ReadsBack

end BinMpl
end Maple
