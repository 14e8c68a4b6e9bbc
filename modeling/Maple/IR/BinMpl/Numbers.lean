import Maple.IR.BinMpl.Buffer

/-!
# The numbers of binary MIR

The numbers with a fixed size, and that no encoding of a number is the start of another one.
-/

namespace Maple
namespace BinMpl

variable {σ τ : Type}

/-- `WriteInt`, the lowest byte first. -/
def writeInt (x : Int) : Put σ :=
  write (uint8 (uint32 x % 256)) ++ write (uint8 (uint32 x / 2 ^ 8 % 256)) ++
    write (uint8 (uint32 x / 2 ^ 16 % 256)) ++ write (uint8 (uint32 x / 2 ^ 24 % 256))

/-- `WriteInt64`, the lower half first. -/
def writeInt64 (x : Int) : Put σ :=
  writeInt (int32 (x % 2 ^ 64 % 2 ^ 32)) ++ writeInt (int32 (x % 2 ^ 64 / 2 ^ 32 % 2 ^ 32))

def readInt : Get τ Int := do
  let x0 ← read
  let x1 ← read
  let x2 ← read
  let x3 ← read
  pure (int32 (uint32 (uint32 (uint32 (x3.toNat * 2 ^ 8 + x2.toNat) * 2 ^ 8 + x1.toNat) * 2 ^ 8 +
    x0.toNat)))

def readInt64 : Get τ Int := do
  let x0 ← readInt
  let x1 ← readInt
  pure (int64 (uint32 x1 * 2 ^ 32 + uint32 x0))

/-! ### Numbers of any size -/

lemma length_numBytes_le (n : Nat) (x : Int) : (numBytes n x).length ≤ n + 1 := by
  induction n generalizing x with
  | zero => simp [numBytes]
  | succ n ih =>
    rw [numBytes]
    split_ifs
    · exact Nat.succ_le_succ (ih _)
    · simp

lemma eq_of_prefix_numBytes {x y : Int} (hx : int64Format.Mem x) (hy : int64Format.Mem y)
    (h : numBytes 9 x <+: numBytes 9 y) : numBytes 9 x = numBytes 9 y := by
  obtain ⟨rest, hrest⟩ := h
  have hread := readNum_numBytes y hy () []
  rw [List.append_nil, ← hrest, readNum_numBytes x hx () rest] at hread
  simp only [Option.some.injEq, Prod.mk.injEq] at hread
  rw [hread.1]

/-! ### Numbers with a fixed size -/

lemma read_cons (b : UInt8) (t : τ) (rest : List UInt8) : read t (b :: rest) = some (b, t, rest) :=
  rfl

/-- The bytes of `WriteInt`. -/
def intBytes (x : Int) : List UInt8 :=
  [uint8 (uint32 x % 256), uint8 (uint32 x / 2 ^ 8 % 256), uint8 (uint32 x / 2 ^ 16 % 256),
    uint8 (uint32 x / 2 ^ 24 % 256)]

lemma writeInt_eq (x : Int) (s : σ) : writeInt x s = some (intBytes x, s) := rfl

lemma uint32_eq (x : Int) : uint32 x = x % 2 ^ 32 := rfl

lemma uint32_of_mem {x : Int} (h0 : 0 ≤ x) (h : x < 2 ^ 32) : uint32 x = x :=
  Int.emod_eq_of_lt h0 h

lemma int32_uint32 (x : Int) : int32 (uint32 x) = int32 x := by
  rw [int32, int32, IntFormat.wrap_eq_wrap_iff, uint32_eq]
  exact Int.emod_emod_of_dvd x (dvd_refl _)

lemma uint32_int32 (x : Int) : uint32 (int32 x) = uint32 x :=
  int32Format.wrap_emod x

lemma readInt_intBytes (x : Int) (t : τ) (rest : List UInt8) :
    readInt t (intBytes x ++ rest) = some (int32 x, t, rest) := by
  have h0 : 0 ≤ uint32 x := Int.emod_nonneg _ (by decide)
  have hlt : uint32 x < 2 ^ 32 := Int.emod_lt_of_pos _ (by decide)
  have hx : int32 x = int32 (uint32 x) := (int32_uint32 x).symm
  rw [hx]
  unfold intBytes
  generalize uint32 x = u at h0 hlt
  norm_num at hlt ⊢
  have hb0 := uint8_toNat (x := u % 256) (by omega) (by omega)
  have hb1 := uint8_toNat (x := u / 256 % 256) (by omega) (by omega)
  have hb2 := uint8_toNat (x := u / 65536 % 256) (by omega) (by omega)
  have hb3 := uint8_toNat (x := u / 16777216 % 256) (by omega) (by omega)
  rw [readInt, Get.bind_of_eq (read_cons _ t _), Get.bind_of_eq (read_cons _ t _),
    Get.bind_of_eq (read_cons _ t _), Get.bind_of_eq (read_cons _ t _), Get.pure_apply, hb0, hb1,
    hb2, hb3]
  have hsum3 : uint32 (u / 16777216 % 256 * 2 ^ 8 + u / 65536 % 256) = u / 65536 := by
    rw [uint32_of_mem (by omega) (by omega)]
    omega
  have hsum2 : uint32 (u / 65536 * 2 ^ 8 + u / 256 % 256) = u / 256 := by
    rw [uint32_of_mem (by omega) (by omega)]
    omega
  have hsum1 : uint32 (u / 256 * 2 ^ 8 + u % 256) = u := by
    rw [uint32_of_mem (by omega) (by omega)]
    omega
  rw [hsum3, hsum2, hsum1]

/-- The bytes of `WriteInt64`. -/
def int64Bytes (x : Int) : List UInt8 :=
  intBytes (int32 (x % 2 ^ 64 % 2 ^ 32)) ++ intBytes (int32 (x % 2 ^ 64 / 2 ^ 32 % 2 ^ 32))

lemma writeInt64_eq (x : Int) (s : σ) : writeInt64 x s = some (int64Bytes x, s) := rfl

lemma readInt64_int64Bytes (x : Int) (t : τ) (rest : List UInt8) :
    readInt64 t (int64Bytes x ++ rest) = some (int64 x, t, rest) := by
  have h0 : 0 ≤ x % 2 ^ 64 := Int.emod_nonneg _ (by decide)
  have hlt : x % 2 ^ 64 < 2 ^ 64 := Int.emod_lt_of_pos _ (by decide)
  have hx : int64 x = int64 (x % 2 ^ 64) := by
    rw [int64, int64, IntFormat.wrap_eq_wrap_iff]
    exact (Int.emod_emod_of_dvd x (dvd_refl _)).symm
  rw [hx]
  unfold int64Bytes
  generalize x % 2 ^ 64 = u at h0 hlt
  have hlow : 0 ≤ u % 2 ^ 32 ∧ u % 2 ^ 32 < 2 ^ 32 := by omega
  have hhigh : 0 ≤ u / 2 ^ 32 % 2 ^ 32 ∧ u / 2 ^ 32 % 2 ^ 32 < 2 ^ 32 := by omega
  rw [readInt64, List.append_assoc, Get.bind_of_eq (readInt_intBytes _ t _),
    Get.bind_of_eq (readInt_intBytes _ t rest), Get.pure_apply]
  rw [uint32_int32, uint32_int32, uint32_int32, uint32_int32, uint32_of_mem hlow.1 hlow.2,
    uint32_of_mem hhigh.1 hhigh.2]
  have hsum : u / 2 ^ 32 % 2 ^ 32 * 2 ^ 32 + u % 2 ^ 32 = u := by omega
  rw [hsum]

/-! ### Reading back -/

lemma int64Format_mem (x : Int64) : int64Format.Mem x.toInt :=
  int64_mem_of_lt x.le_toInt (by have hlt := x.toInt_lt; omega)

lemma int32_toInt (y : Int32) : int32 y.toInt = y.toInt := by
  have hlo := y.le_toInt
  have hhi := y.toInt_lt
  apply int32Format.wrap_of_mem
  norm_num [IntFormat.Mem, IntFormat.minValue, IntFormat.maxValue, IntFormat.modulus, int32Format]
  omega

/-- A number with 7 bits in a byte takes at most ten bytes, which say themselves where they end; what
is written is read back, and so are the numbers with a fixed size. -/
theorem readNum_writeNum (x : Int64) (y : Int32) (s : σ) (t : τ) (rest : List UInt8) :
    (∃ bs, writeNum x.toInt s = some (bs, s) ∧ bs.length ≤ 10 ∧
      readNum t (bs ++ rest) = some (x.toInt, t, rest) ∧
      ∀ (x' : Int64) bs', writeNum x'.toInt s = some (bs', s) → bs <+: bs' → bs = bs') ∧
    (∃ bs, writeInt y.toInt s = some (bs, s) ∧ readInt t (bs ++ rest) = some (y.toInt, t, rest)) ∧
    ∃ bs, writeInt64 x.toInt s = some (bs, s) ∧
      readInt64 t (bs ++ rest) = some (x.toInt, t, rest) := by
  have hmem : ∀ x : Int64, int64 x.toInt = x.toInt :=
    fun x => int64Format.wrap_of_mem (int64Format_mem x)
  refine ⟨?_, ?_, ?_⟩
  · refine ⟨numBytes 9 x.toInt, ?_, length_numBytes_le 9 _,
      readNum_numBytes _ (int64Format_mem x) t rest, ?_⟩
    · rw [writeNum, hmem]
      rfl
    · intro x' bs' hwrite hprefix
      rw [writeNum, hmem] at hwrite
      cases hwrite
      exact eq_of_prefix_numBytes (int64Format_mem x) (int64Format_mem x') hprefix
  · refine ⟨intBytes y.toInt, writeInt_eq _ s, ?_⟩
    rw [readInt_intBytes, int32_toInt]
  · refine ⟨int64Bytes x.toInt, writeInt64_eq _ s, ?_⟩
    rw [readInt64_int64Bytes, hmem]

end BinMpl
end Maple
