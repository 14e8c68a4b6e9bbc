import Maple.Util.IntVal.Shift
import Maple.Util.IntVal.Compare
import Maple.Util.IntVal.Typed

/-!
# Shifts in terms of a type

The shift operators of `IntVal`, and `Shl`, `LShr` and `AShr` with a type. Where a number is used as
a pointer, or a pointer as a number, there is no result.
-/

namespace Maple
namespace IntVal

open Words

/-! ### Shift operators -/

/-- `ShiftLeft` of the storage, which is not touched if there is nothing to shift. -/
def shiftLeftInPlace (a : IntVal) (bits : Nat) : Option IntVal :=
  if bits = 0 then some a
  else if a.IsOneWord then none
  else if h : bits / Limb.bits UInt64 ≤ a.words.length then
    some (a.withWords (shiftLeft a.words bits) (length_shiftLeft h))
  else none

/-- `ShiftRight` of the storage. -/
def shiftRightInPlace (a : IntVal) (bits : Nat) (negRemainder : Bool) : Option IntVal :=
  if bits = 0 then some a
  else if a.IsOneWord then none
  else if h : bits / Limb.bits UInt64 ≤ a.words.length then
    some (a.withWords (shiftRight a.words bits negRemainder) (length_shiftRight h negRemainder))
  else none

/-- `WideShl`. The amount is cast to a `uint16`. -/
def wideShl (a : IntVal) (bits : Nat) : Option IntVal := a.copy.shiftLeftInPlace (bits % 2 ^ 16)

def wideAShrInPlace (a : IntVal) (bits : Nat) : Option IntVal :=
  a.shiftRightInPlace (bits % 2 ^ 16) (a.sign && a.getSignBit)

def wideAShr (a : IntVal) (bits : Nat) : Option IntVal := a.copy.wideAShrInPlace bits

def wideLShr (a : IntVal) (bits : Nat) : Option IntVal :=
  a.copy.shiftRightInPlace (bits % 2 ^ 16) false

def shl (a : IntVal) (bits : Nat) : Option IntVal :=
  if a.IsOneWord then some (a.ofWord (a.word <<< UInt64.ofNat bits)) else a.wideShl bits

def shr (a : IntVal) (bits : Nat) : Option IntVal :=
  if a.IsOneWord then
    some (a.ofWord (if a.sign then (a.getSXTValue 0 >>> Int64.ofNat bits).toUInt64
      else a.word >>> UInt64.ofNat bits))
  else a.wideAShr bits

/-! ### Typed shifts -/

/-- The type `PTY_i64`. -/
def i64 : Shape := ⟨64, true, Shape.pos_64, Shape.numWords_64⟩

/-- `Shl` in terms of a type. -/
def shlOf (a : IntVal) (shift : Nat) (t : Shape) : Option IntVal := do
  (← a.truncOrExtend t).shl shift

/-- `LShr` in terms of a type. The storage is chosen by the value, not by the type. -/
def lshrOf (a : IntVal) (shift : Nat) (t : Shape) : Option IntVal := do
  if a.IsOneWord then
    let ret ← a.truncOrExtend t
    if ret.IsOneWord then
      return ret.withWords (ret.words.set 0 (ret.word >>> UInt64.ofNat shift)) List.length_set
    -- the pointer is shifted
    else if shift = 0 then return ret
    else none
  else
    (← a.truncOrExtend t).wideLShr shift

/-- `AShr` in terms of a type. -/
def ashrOf (a : IntVal) (shift : Nat) (t : Shape) : Option IntVal := do
  let ret ← a.truncOrExtend t
  let ret ←
    if a.IsOneWord then
      if ret.IsOneWord then
        let shifted ← (ofNumber i64 (ret.getSXTValue 0).toUInt64).shr shift
        some (ret.withWords (ret.words.set 0 (shifted.getExtValue 0).toUInt64) List.length_set)
      -- the pointer is overwritten
      else none
    else ret.wideAShrInPlace shift
  return ret.copy

/-- The shift amount of the two overloads. -/
inductive ShiftAmount where
  | number (shift : UInt64)
  | value (shift : IntVal)

namespace ShiftAmount

/-- The number that is meant. -/
def toInt : ShiftAmount → Int
  | number shift => shift.toNat
  | value shift => shift.toInt

/-- The amount is one of the type. -/
def Valid (amount : ShiftAmount) (t : Shape) : Prop :=
  (match amount with
    | number _ => True
    | value shift => shift.Canonical ∧ shift.width ≤ shift.storageBits) ∧
  0 ≤ amount.toInt ∧ amount.toInt < t.width

/-- The amount is not stored behind a pointer. -/
def IsWord : ShiftAmount → Prop
  | number _ => True
  | value shift => shift.IsOneWord

end ShiftAmount

/-- The functions with a type. -/
inductive ShiftOp where
  | shl | lshr | ashr
  deriving DecidableEq, Repr

/-- `Shl`, `LShr` and `AShr` of both overloads. `Shl` reads the member of the storage for one word
of any amount. -/
def ShiftOp.run (op : ShiftOp) (a : IntVal) (amount : ShiftAmount) (t : Shape) : Option IntVal :=
  match op, amount with
  | shl, .number shift => a.shlOf shift.toNat t
  | shl, .value shift => if shift.IsOneWord then a.shlOf shift.word.toNat t else none
  | lshr, .number shift => a.lshrOf shift.toNat t
  | lshr, .value shift => a.lshrOf shift.word.toNat t
  | ashr, .number shift => a.ashrOf shift.toNat t
  | ashr, .value shift => a.ashrOf shift.word.toNat t

/-- The bits `v` of a width shifted, the arithmetic shift as those of a signed number. -/
def ShiftOp.exact (op : ShiftOp) (width v s : Nat) : Int :=
  match op with
  | shl => v * 2 ^ s
  | lshr => v / 2 ^ s
  | ashr => (v : Int).bmod (2 ^ width) / 2 ^ s

/-- The result is the shifted value of `TruncOrExtend`, in the type. -/
def ShiftOp.Exact (op : ShiftOp) (a : IntVal) (amount : ShiftAmount) (t : Shape) : Prop :=
  ∃ x r, a.truncOrExtend t = some x ∧ op.run a amount t = some r ∧
    r.Represents t (op.exact t.width x.value amount.toInt.toNat)

/-- Where the storage of the value is of the kind of the type's, and ones are filled in only if they
are needed in a signed type. -/
def ShiftOp.Condition (op : ShiftOp) (a : IntVal) (amount : ShiftAmount) (t : Shape) : Prop :=
  match op with
  | shl => amount.IsWord
  | lshr => (a.IsOneWord ↔ t.IsOneWord) ∨ amount.toInt = 0
  | ashr => a.IsOneWord ∧ t.IsOneWord ∨
      ¬a.IsOneWord ∧ (amount.toInt = 0 ∨
        ¬t.IsOneWord ∧ (t.sign = true ∨ a.value.testBit (a.width - 1) = false))

/-! ### One word -/

section OneWord

variable {x : IntVal} {t : Shape} {n : Int} {s : Nat}

lemma value_set_word (hone : x.IsOneWord) (w : UInt64) :
    (x.withWords (x.words.set 0 w) List.length_set).value = w.toNat := by
  rw [value_withWords, hone.words_eq, List.set_cons_zero, value_singleton]

lemma shl_represents_of_isOneWord (hx : x.Represents t n) (hone : t.IsOneWord) (hs : s < 64) :
    ∃ r, x.shl s = some r ∧ r.Represents t (ShiftOp.exact .shl t.width x.value s) := by
  have hxone : x.IsOneWord := by
    rw [← isOneWord_shape, hx.shape_eq]
    exact hone
  have hwidth : x.width = t.width := congrArg Shape.width hx.shape_eq
  have hle : t.width ≤ 64 := hone
  refine ⟨_, if_pos hxone, hx.shape_eq, hx.width_le, ?_⟩
  have hdvd : 2 ^ t.width ∣ 2 ^ 64 := pow_dvd_pow 2 hle
  rw [hxone.value_ofWord, hwidth, toNat_shiftLeft (by omega), Nat.mod_mod_of_dvd _ hdvd,
    hxone.word_eq, ShiftOp.exact]
  push_cast
  rfl

lemma lshr_represents_of_isOneWord (hx : x.Represents t n) (hone : t.IsOneWord) (hs : s < 64) :
    (x.withWords (x.words.set 0 (x.word >>> UInt64.ofNat s)) List.length_set).Represents t
      (ShiftOp.exact .lshr t.width x.value s) := by
  have hxone : x.IsOneWord := by
    rw [← isOneWord_shape, hx.shape_eq]
    exact hone
  have hwidth : x.width = t.width := congrArg Shape.width hx.shape_eq
  have hle : t.width ≤ 64 := hone
  refine ⟨hx.shape_eq, hx.width_le, ?_⟩
  have hlt : x.value / 2 ^ s < 2 ^ t.width :=
    (Nat.div_le_self _ _).trans_lt (hwidth ▸ hx.canonical)
  have hself : ((x.value / 2 ^ s : Nat) : Int) % 2 ^ t.width = (x.value / 2 ^ s : Nat) :=
    Int.emod_eq_of_lt (Int.natCast_nonneg _) (by exact_mod_cast hlt)
  rw [value_set_word hxone, toNat_shiftRight (by omega), hxone.word_eq, ShiftOp.exact, ← hself]
  push_cast
  rfl

lemma isOneWord_i64 : i64.IsOneWord := by decide

lemma getSXTValue_ofNumber_i64 (y : Int64) : (ofNumber i64 y.toUInt64).getSXTValue 0 = y := by
  have hone : (ofNumber i64 y.toUInt64).IsOneWord := isOneWord_i64
  have hrep := ofNumber_represents (Or.inl isOneWord_i64) y.toUInt64
  have hcast : ((y.toUInt64.toNat : Nat) : Int) = y.toInt % 2 ^ 64 := Int64.asUInt64_eq y
  have hformat : i64.format = ⟨64, true⟩ := rfl
  have hsign : i64.sign = true := rfl
  have hpow : (2 : Int) ^ 64 = (2 ^ 64 : Nat) := by norm_cast
  have hlo := y.le_toInt
  have hhi := y.toInt_lt
  rw [← Int64.toInt_inj, toInt_getSXTValue_eq hone hrep.canonical rfl, hrep.toInt_eq, hformat,
    hsign, IntFormat.wrap_wrap, IntFormat.wrap_signed, hcast, hpow, Int.emod_bmod]
  exact Int.bmod_eq_of_le (by omega) (by omega)

@[simp] lemma shape_ofWord (a : IntVal) (w : UInt64) : (a.ofWord w).shape = a.shape := rfl

lemma ofWord_ofNumber_i64 (v w : UInt64) : (ofNumber i64 v).ofWord w = ofNumber i64 w := by
  have hone : (ofNumber i64 v).IsOneWord := isOneWord_i64
  have hvalue : ((ofNumber i64 v).ofWord w).value = w.toNat % 2 ^ i64.width := hone.value_ofWord w
  apply eq_of_value_eq
  · rw [shape_ofWord, shape_ofNumber, shape_ofNumber]
  · rw [hvalue, value_ofNumber_of_isOneWord isOneWord_i64]

lemma shr_ofNumber_i64 (y : Int64) (s : Nat) :
    (ofNumber i64 y.toUInt64).shr s = some (ofNumber i64 (y >>> Int64.ofNat s).toUInt64) := by
  have hone : (ofNumber i64 y.toUInt64).IsOneWord := isOneWord_i64
  have hsign : (ofNumber i64 y.toUInt64).sign = true := rfl
  rw [shr, if_pos hone, hsign, if_pos rfl, getSXTValue_ofNumber_i64, ofWord_ofNumber_i64]

lemma getExtValue_ofNumber_i64 (y : Int64) : (ofNumber i64 y.toUInt64).getExtValue 0 = y := by
  have hsign : (ofNumber i64 y.toUInt64).sign = true := rfl
  rw [getExtValue, hsign, if_pos rfl, getSXTValue_ofNumber_i64]

lemma ashr_represents_of_isOneWord (hx : x.Represents t n) (hone : t.IsOneWord) (hs : s < 64) :
    ∃ r, (ofNumber i64 (x.getSXTValue 0).toUInt64).shr s = some r ∧
      (x.withWords (x.words.set 0 (r.getExtValue 0).toUInt64) List.length_set).copy.Represents t
        (ShiftOp.exact .ashr t.width x.value s) := by
  have hxone : x.IsOneWord := by
    rw [← isOneWord_shape, hx.shape_eq]
    exact hone
  have hwidth : x.width = t.width := congrArg Shape.width hx.shape_eq
  have hle : t.width ≤ 64 := hone
  refine ⟨_, shr_ofNumber_i64 _ s, hx.shape_eq, hx.width_le, ?_⟩
  have hcopy : ∀ w : UInt64, (x.withWords (x.words.set 0 w) List.length_set).copy = x.ofWord w :=
    fun _ => rfl
  have hdvd : (2 : Int) ^ t.width ∣ 2 ^ 64 := pow_dvd_pow 2 hle
  have hcast : (((x.getSXTValue 0 >>> Int64.ofNat s).toUInt64.toNat : Nat) : Int) =
      (x.getSXTValue 0 >>> Int64.ofNat s).toInt % 2 ^ 64 := Int64.asUInt64_eq _
  rw [getExtValue_ofNumber_i64, hcopy, hxone.value_ofWord, hwidth, Int.natCast_mod, hcast, Nat.cast_pow, Nat.cast_ofNat,
    Int.emod_emod_of_dvd _ hdvd, toInt_int64_shiftRight (by omega),
    toInt_getSXTValue hxone hx.canonical, hwidth, ShiftOp.exact]

end OneWord

/-! ### Several words -/

section Wide

variable {x : IntVal} {t : Shape} {n : Int} {s : Nat}

lemma Represents.wide (hx : x.Represents t n) (ht : t.IsPrim) (hone : ¬t.IsOneWord) :
    x.words.length = 2 ∧ x.width = 128 ∧ t.width = 128 ∧ ¬x.IsOneWord := by
  have hwidth : x.width = t.width := congrArg Shape.width hx.shape_eq
  have h128 := ht.resolve_left hone
  refine ⟨?_, hwidth.trans h128, h128, ?_⟩
  · rw [x.words_length]
    exact (congrArg Shape.numWords hx.shape_eq).trans (ht.numWords_eq hone)
  · rw [← isOneWord_shape, hx.shape_eq]
    exact hone

lemma shl_represents_of_wide (hx : x.Represents t n) (ht : t.IsPrim) (hone : ¬t.IsOneWord)
    (hs : s < t.width) :
    ∃ r, x.shl s = some r ∧ r.Represents t (ShiftOp.exact .shl t.width x.value s) := by
  obtain ⟨hlen, hwidth, h128, hxone⟩ := hx.wide ht hone
  have hs16 : s % 2 ^ 16 = s := Nat.mod_eq_of_lt (by omega)
  have hroom : s / Limb.bits UInt64 ≤ x.words.length := by
    change s / 64 ≤ _
    omega
  rw [shl, if_neg hxone, wideShl, hs16, copy_eq hx.canonical, shiftLeftInPlace]
  by_cases hzero : s = 0
  · refine ⟨x, if_pos hzero, hx.shape_eq, hx.width_le, ?_⟩
    rw [hzero, ShiftOp.exact, pow_zero, mul_one, ← hx.shape_eq]
    exact (value_emod_width hx.canonical).symm
  · refine ⟨_, (if_neg hzero).trans ((if_neg hxone).trans (dif_pos hroom)), hx.shape_eq,
      hx.width_le, ?_⟩
    have hbits : Limb.bits UInt64 * x.words.length = 128 := by
      rw [hlen]
      rfl
    have hvalue := value_shiftLeft hroom
    rw [hbits] at hvalue
    rw [value_withWords, value_eq_limbs, hvalue, ShiftOp.exact, h128]
    push_cast
    rfl

lemma shiftRightInPlace_spec (hx : x.Represents t n) (ht : t.IsPrim) (hone : ¬t.IsOneWord)
    (hs : s < t.width) (neg : Bool) :
    ∃ r, x.shiftRightInPlace s neg = some r ∧ r.shape = t ∧
      r.value = x.value / 2 ^ s + if neg then 2 ^ 128 - 2 ^ (128 - s) else 0 := by
  obtain ⟨hlen, hwidth, h128, hxone⟩ := hx.wide ht hone
  have hbits : Limb.bits UInt64 * x.words.length = 128 := by
    rw [hlen]
    rfl
  rw [shiftRightInPlace]
  by_cases hzero : s = 0
  · refine ⟨x, if_pos hzero, hx.shape_eq, ?_⟩
    rw [hzero, pow_zero, Nat.div_one, Nat.sub_zero, Nat.sub_self, ite_self, Nat.add_zero]
  · have hroom : s / Limb.bits UInt64 ≤ x.words.length := by
      change s / 64 ≤ _
      omega
    refine ⟨_, (if_neg hzero).trans ((if_neg hxone).trans (dif_pos hroom)), hx.shape_eq, ?_⟩
    have hlt : s < Limb.bits UInt64 * x.words.length := by omega
    have hvalue := value_shiftRight hlt neg
    rw [hbits] at hvalue
    rw [value_withWords, value_eq_limbs, hvalue]
    rfl

lemma lshr_represents_of_wide (hx : x.Represents t n) (ht : t.IsPrim) (hone : ¬t.IsOneWord)
    (hs : s < t.width) :
    ∃ r, x.wideLShr s = some r ∧ r.Represents t (ShiftOp.exact .lshr t.width x.value s) := by
  obtain ⟨-, hwidth, h128, -⟩ := hx.wide ht hone
  have hs16 : s % 2 ^ 16 = s := Nat.mod_eq_of_lt (by omega)
  obtain ⟨r, hr, hshape, hvalue⟩ := shiftRightInPlace_spec hx ht hone hs false
  rw [wideLShr, hs16, copy_eq hx.canonical]
  refine ⟨r, hr, hshape, hx.width_le, ?_⟩
  have hlt : x.value / 2 ^ s < 2 ^ t.width :=
    (Nat.div_le_self _ _).trans_lt (hwidth.trans h128.symm ▸ hx.canonical)
  have hself : ((x.value / 2 ^ s : Nat) : Int) % 2 ^ t.width = (x.value / 2 ^ s : Nat) :=
    Int.emod_eq_of_lt (Int.natCast_nonneg _) (by exact_mod_cast hlt)
  rw [hvalue, if_neg Bool.false_ne_true, Nat.add_zero, ShiftOp.exact, ← hself]
  push_cast
  rfl

lemma exact_ashr_emod {v : Nat} (hv : v < 2 ^ 128) (hs : s < 128) :
    ShiftOp.exact .ashr 128 v s % 2 ^ 128 =
      ((v / 2 ^ s + if v.testBit 127 then 2 ^ 128 - 2 ^ (128 - s) else 0 : Nat) : Int) := by
  have hbit := testBit_sub_one_iff (w := 128) (by decide) hv
  have hsplit : 2 ^ 128 = 2 ^ (128 - s) * 2 ^ s := by
    rw [← pow_add, Nat.sub_add_cancel hs.le]
  have hpos : 0 < 2 ^ s := Nat.two_pow_pos _
  have hle : 2 ^ (128 - s) ≤ 2 ^ 128 := Nat.pow_le_pow_right (by decide) (Nat.sub_le _ _)
  have hquot : v / 2 ^ s < 2 ^ (128 - s) := by
    rw [Nat.div_lt_iff_lt_mul hpos, ← hsplit]
    exact hv
  rw [ShiftOp.exact]
  by_cases htop : v.testBit 127 = true
  · have hhigh := hbit.mp htop
    have hmod : (v : Int).bmod (2 ^ 128) = v + -((2 ^ (128 - s) : Nat) : Int) * (2 ^ s : Nat) := by
      rw [Int.neg_mul, ← Nat.cast_mul, ← hsplit, Int.bmod_def]
      split_ifs <;> omega
    have hcast : (2 : Int) ^ s = (2 ^ s : Nat) := by
      push_cast
      rfl
    rw [if_pos htop, hmod, hcast, Int.add_mul_ediv_right _ _ (by exact_mod_cast hpos.ne'),
      ← Int.natCast_div, ← Int.add_emod_right]
    generalize 2 ^ (128 - s) = m at *
    generalize v / 2 ^ s = q at *
    omega
  · have hlow := mt hbit.mpr htop
    have hmod : (v : Int).bmod (2 ^ 128) = v := by
      rw [Int.bmod_def]
      split_ifs <;> omega
    have hcast : (2 : Int) ^ s = (2 ^ s : Nat) := by
      push_cast
      rfl
    rw [if_neg htop, hmod, hcast, ← Int.natCast_div, Nat.add_zero]
    generalize v / 2 ^ s = q at *
    omega

lemma ashr_represents_iff_of_wide (hx : x.Represents t n) (ht : t.IsPrim) (hone : ¬t.IsOneWord)
    (hs : s < t.width) :
    ∃ r, x.wideAShrInPlace s = some r ∧ r.copy.shape = t ∧
      (r.copy.Represents t (ShiftOp.exact .ashr t.width x.value s) ↔
        s = 0 ∨ t.sign = true ∨ x.value.testBit 127 = false) := by
  obtain ⟨-, hwidth, h128, hxone⟩ := hx.wide ht hone
  have hs16 : s % 2 ^ 16 = s := Nat.mod_eq_of_lt (by omega)
  have hsign : x.sign = t.sign := congrArg Shape.sign hx.shape_eq
  have hcap := hx.width_le
  have hbit : x.getSignBit = x.value.testBit 127 := by
    rw [getSignBit, getBit_eq (by rw [← capacity_shape, hx.shape_eq, hwidth, ← h128]; exact hcap)
      (by omega), hwidth]
  obtain ⟨r, hr, hshape, hvalue⟩ :=
    shiftRightInPlace_spec hx ht hone hs (t.sign && x.value.testBit 127)
  have hrone : ¬r.IsOneWord := by
    rw [← isOneWord_shape, hshape]
    exact hone
  have hcopy : r.copy.value = r.value := congrArg Words.value (words_copy hrone)
  have hlt : x.value < 2 ^ 128 := hwidth ▸ hx.canonical
  refine ⟨r, ?_, hshape, ?_⟩
  · rw [wideAShrInPlace, hs16, hsign, hbit]
    exact hr
  have hiff : r.copy.Represents t (ShiftOp.exact .ashr t.width x.value s) ↔
      r.value = x.value / 2 ^ s + if x.value.testBit 127 then 2 ^ 128 - 2 ^ (128 - s) else 0 := by
    rw [h128, ← Nat.cast_inj (R := Int), ← exact_ashr_emod hlt (by omega), ← hcopy]
    constructor
    · intro h
      have := h.value_eq
      rwa [h128] at this
    · intro h
      exact ⟨hshape, hx.width_le, by rw [h128]; exact h⟩
  rw [hiff, hvalue, Nat.add_left_cancel_iff]
  have hpow : 2 ^ (128 - s) = 2 ^ 128 ↔ s = 0 := by
    constructor
    · intro h
      have := Nat.pow_right_injective (le_refl 2) h
      omega
    · rintro rfl
      rfl
  have hle : 2 ^ (128 - s) ≤ 2 ^ 128 := Nat.pow_le_pow_right (by decide) (Nat.sub_le _ _)
  cases t.sign with
  | true => simp
  | false =>
    cases x.value.testBit 127 with
    | false => simp
    | true =>
      simp only [Bool.false_and, Bool.false_eq_true, ↓reduceIte, reduceCtorEq, or_false]
      rw [← hpow]
      omega

end Wide

/-! ### When they are right -/

section Exact

variable {a : IntVal} {amount : ShiftAmount} {t : Shape}

lemma ShiftAmount.Valid.toNat_word {shift : IntVal} (ht : t.IsPrim)
    (h : (ShiftAmount.value shift).Valid t) : shift.word.toNat = shift.toInt.toNat := by
  obtain ⟨⟨hcanon, -⟩, hnonneg, hlt⟩ := h
  have hle : t.width ≤ 128 := by
    rcases ht with hone | h128
    · exact le_trans hone (by decide)
    · exact h128.le
  have hint : shift.toInt = shift.value := toInt_of_nonneg hcanon hnonneg
  rw [ShiftAmount.toInt, hint] at hlt
  rw [IntVal.toNat_word, hint]
  omega

lemma run_shl_eq (ht : t.IsPrim) (hamount : amount.Valid t) (hword : amount.IsWord) :
    ShiftOp.shl.run a amount t = a.shlOf amount.toInt.toNat t := by
  cases amount with
  | number shift => rfl
  | value shift =>
    have hint : (ShiftAmount.value shift).toInt = shift.toInt := rfl
    rw [hint, ← hamount.toNat_word ht]
    exact if_pos hword

lemma run_lshr_eq (ht : t.IsPrim) (hamount : amount.Valid t) :
    ShiftOp.lshr.run a amount t = a.lshrOf amount.toInt.toNat t := by
  cases amount with
  | number shift => rfl
  | value shift =>
    have hint : (ShiftAmount.value shift).toInt = shift.toInt := rfl
    rw [hint, ← hamount.toNat_word ht]
    rfl

lemma run_ashr_eq (ht : t.IsPrim) (hamount : amount.Valid t) :
    ShiftOp.ashr.run a amount t = a.ashrOf amount.toInt.toNat t := by
  cases amount with
  | number shift => rfl
  | value shift =>
    have hint : (ShiftAmount.value shift).toInt = shift.toInt := rfl
    rw [hint, ← hamount.toNat_word ht]
    rfl

lemma lshrOf_eq {x : IntVal} (hx : a.truncOrExtend t = some x) (s : Nat) :
    a.lshrOf s t =
      if a.IsOneWord then
        if x.IsOneWord then
          some (x.withWords (x.words.set 0 (x.word >>> UInt64.ofNat s)) List.length_set)
        else if s = 0 then some x else none
      else x.wideLShr s := by
  rw [lshrOf, hx]
  rfl

lemma ashrOf_eq {x : IntVal} (hx : a.truncOrExtend t = some x) (s : Nat) :
    a.ashrOf s t =
      if a.IsOneWord then
        if x.IsOneWord then
          ((ofNumber i64 (x.getSXTValue 0).toUInt64).shr s).map fun shifted =>
            (x.withWords (x.words.set 0 (shifted.getExtValue 0).toUInt64) List.length_set).copy
        else none
      else (x.wideAShrInPlace s).map copy := by
  rw [ashrOf, hx]
  split_ifs
  · cases h : (ofNumber i64 (x.getSXTValue 0).toUInt64).shr s <;> simp [*]
  · simp [*]
  · cases h : x.wideAShrInPlace s <;> simp [*]

lemma Represents.exact_zero {x : IntVal} {n : Int} (hx : x.Represents t n) (op : ShiftOp) :
    x.Represents t (op.exact t.width x.value 0) := by
  refine ⟨hx.shape_eq, hx.width_le, ?_⟩
  have hself : (x.value : Int) % 2 ^ t.width = x.value := by
    rw [← hx.shape_eq]
    exact value_emod_width hx.canonical
  have hpow : (2 : Int) ^ t.width = (2 ^ t.width : Nat) := by
    push_cast
    rfl
  cases op with
  | shl => rw [ShiftOp.exact, pow_zero, mul_one, hself]
  | lshr => rw [ShiftOp.exact, pow_zero, Int.ediv_one, hself]
  | ashr => rw [ShiftOp.exact, pow_zero, Int.ediv_one, hpow, Int.bmod_emod, ← hpow, hself]

lemma ShiftAmount.Valid.toNat_lt (h : amount.Valid t) : amount.toInt.toNat < t.width := by
  obtain ⟨-, hnonneg, hlt⟩ := h
  omega

lemma ShiftAmount.Valid.toNat_eq_zero_iff (h : amount.Valid t) :
    amount.toInt.toNat = 0 ↔ amount.toInt = 0 := by
  obtain ⟨-, hnonneg, -⟩ := h
  omega

lemma ShiftOp.exact_iff_of_run {op : ShiftOp} {x : IntVal} (hx : a.truncOrExtend t = some x)
    {result : Option IntVal} (hrun : op.run a amount t = result) :
    op.Exact a amount t ↔
      ∃ r, result = some r ∧ r.Represents t (op.exact t.width x.value amount.toInt.toNat) := by
  constructor
  · rintro ⟨x', r, hx', hr, hrep⟩
    obtain rfl := Option.some.inj (hx.symm.trans hx')
    exact ⟨r, hrun.symm.trans hr, hrep⟩
  · rintro ⟨r, hr, hrep⟩
    exact ⟨x, r, hx, hrun.trans hr, hrep⟩

section Cases

variable (ha : a.Canonical) (hap : a.shape.IsPrim) (ht : t.IsPrim) (hamount : amount.Valid t)

include ha hap ht hamount

lemma exact_shl_iff : ShiftOp.shl.Exact a amount t ↔ ShiftOp.shl.Condition a amount t := by
  have hcap : a.width ≤ a.storageBits := by
    rw [← capacity_shape]
    exact hap.width_le
  obtain ⟨x, hx, hrx⟩ := truncOrExtend_represents ha hcap ht
  have hs := hamount.toNat_lt
  constructor
  · rintro ⟨x, r, -, hr, -⟩
    cases amount with
    | number shift => trivial
    | value shift =>
      by_contra hword
      have hnone : ShiftOp.shl.run a (.value shift) t = none := if_neg hword
      rw [hnone] at hr
      exact Option.some_ne_none r hr.symm
  · intro hword
    have hrun := run_shl_eq (a := a) ht hamount hword
    have hshl : a.shlOf amount.toInt.toNat t = x.shl amount.toInt.toNat := by
      rw [shlOf, hx]
      rfl
    by_cases hone : t.IsOneWord
    · obtain ⟨r, hr, hrep⟩ := shl_represents_of_isOneWord hrx hone (hs.trans_le hone)
      exact ⟨x, r, hx, (hrun.trans hshl).trans hr, hrep⟩
    · obtain ⟨r, hr, hrep⟩ := shl_represents_of_wide hrx ht hone hs
      exact ⟨x, r, hx, (hrun.trans hshl).trans hr, hrep⟩

lemma exact_lshr_iff : ShiftOp.lshr.Exact a amount t ↔ ShiftOp.lshr.Condition a amount t := by
  have hcap : a.width ≤ a.storageBits := by
    rw [← capacity_shape]
    exact hap.width_le
  obtain ⟨x, hx, hrx⟩ := truncOrExtend_represents ha hcap ht
  have hxone : x.IsOneWord ↔ t.IsOneWord := by rw [← isOneWord_shape, hrx.shape_eq]
  have hs := hamount.toNat_lt
  rw [ShiftOp.exact_iff_of_run hx ((run_lshr_eq ht hamount).trans (lshrOf_eq hx _)),
    ShiftOp.Condition, ← hamount.toNat_eq_zero_iff]
  generalize amount.toInt.toNat = s at *
  by_cases haone : a.IsOneWord
  · rw [if_pos haone]
    by_cases hone : t.IsOneWord
    · rw [if_pos (hxone.mpr hone)]
      exact iff_of_true ⟨_, rfl, lshr_represents_of_isOneWord hrx hone (hs.trans_le hone)⟩
        (Or.inl (iff_of_true haone hone))
    · rw [if_neg (mt hxone.mp hone)]
      by_cases hzero : s = 0
      · subst hzero
        exact iff_of_true ⟨x, if_pos rfl, hrx.exact_zero .lshr⟩ (Or.inr rfl)
      · rw [if_neg hzero]
        refine iff_of_false (fun ⟨r, hr, _⟩ => Option.some_ne_none r hr.symm) ?_
        rintro (h | h)
        · exact hone (h.mp haone)
        · exact hzero h
  · rw [if_neg haone]
    by_cases hone : t.IsOneWord
    · rw [wideLShr, copy_eq hrx.canonical, shiftRightInPlace]
      by_cases hzero : s = 0
      · subst hzero
        exact iff_of_true ⟨x, if_pos rfl, hrx.exact_zero .lshr⟩ (Or.inr rfl)
      · have hs16 : s % 2 ^ 16 = s := Nat.mod_eq_of_lt (hs.trans_le (le_trans hone (by decide)))
        rw [hs16, if_neg hzero, if_pos (hxone.mpr hone)]
        refine iff_of_false (fun ⟨r, hr, _⟩ => Option.some_ne_none r hr.symm) ?_
        rintro (h | h)
        · exact haone (h.mpr hone)
        · exact hzero h
    · exact iff_of_true (lshr_represents_of_wide hrx ht hone hs) (Or.inl (iff_of_false haone hone))

lemma exact_ashr_iff : ShiftOp.ashr.Exact a amount t ↔ ShiftOp.ashr.Condition a amount t := by
  have hcap : a.width ≤ a.storageBits := by
    rw [← capacity_shape]
    exact hap.width_le
  obtain ⟨x, hx, hrx⟩ := truncOrExtend_represents ha hcap ht
  have hxone : x.IsOneWord ↔ t.IsOneWord := by rw [← isOneWord_shape, hrx.shape_eq]
  have hs := hamount.toNat_lt
  rw [ShiftOp.exact_iff_of_run hx ((run_ashr_eq ht hamount).trans (ashrOf_eq hx _)),
    ShiftOp.Condition, ← hamount.toNat_eq_zero_iff]
  generalize amount.toInt.toNat = s at *
  by_cases haone : a.IsOneWord
  · rw [if_pos haone]
    by_cases hone : t.IsOneWord
    · obtain ⟨r, hr, hrep⟩ := ashr_represents_of_isOneWord hrx hone (hs.trans_le hone)
      rw [if_pos (hxone.mpr hone), hr]
      exact iff_of_true ⟨_, rfl, hrep⟩ (Or.inl ⟨haone, hone⟩)
    · rw [if_neg (mt hxone.mp hone)]
      refine iff_of_false (fun ⟨r, hr, _⟩ => Option.some_ne_none r hr.symm) ?_
      rintro (h | h)
      · exact hone h.2
      · exact h.1 haone
  · rw [if_neg haone, or_iff_right fun h => haone h.1, and_iff_right haone]
    by_cases hone : t.IsOneWord
    · rw [or_iff_left fun h => h.1 hone, wideAShrInPlace, shiftRightInPlace]
      have hs16 : s % 2 ^ 16 = s := Nat.mod_eq_of_lt (hs.trans_le (le_trans hone (by decide)))
      rw [hs16]
      by_cases hzero : s = 0
      · subst hzero
        have hrep := hrx.exact_zero .ashr
        rw [if_pos rfl]
        refine iff_of_true ⟨x.copy, rfl, ?_⟩ rfl
        rw [copy_eq hrx.canonical]
        exact hrep
      · rw [if_neg hzero, if_pos (hxone.mpr hone)]
        exact iff_of_false (fun ⟨r, hr, _⟩ => Option.some_ne_none r hr.symm) hzero
    · obtain ⟨r, hr, -, hiff⟩ := ashr_represents_iff_of_wide hrx ht hone hs
      have h128 := ht.resolve_left hone
      have ha128 : a.width = 128 := hap.resolve_left haone
      have hvalue : x.value = a.value := by
        have hint := hrx.value_eq
        rw [h128, ← ha128, toInt_emod ha] at hint
        exact_mod_cast hint
      rw [hr, ha128, and_iff_right hone, ← hvalue, ← hiff]
      constructor
      · rintro ⟨y, hy, hrep⟩
        obtain rfl := Option.some.inj hy
        exact hrep
      · intro hrep
        exact ⟨_, rfl, hrep⟩

/-- A typed shift is exact if the storage of the value is of the kind of the type's and an amount of
`Shl` is in one word; and `AShr` fills an unsigned type of 128 bits with zeros. -/
theorem shiftOp_exact_iff (op : ShiftOp) : op.Exact a amount t ↔ op.Condition a amount t := by
  cases op with
  | shl => exact exact_shl_iff ha hap ht hamount
  | lshr => exact exact_lshr_iff ha hap ht hamount
  | ashr => exact exact_ashr_iff ha hap ht hamount

end Cases

end Exact

theorem shiftOp_exact_iff_i64 :
    ShiftOp.ashr.Exact (ofNumber i64 12) (.number 2) i64 ↔
      ShiftOp.ashr.Condition (ofNumber i64 12) (.number 2) i64 :=
  shiftOp_exact_iff (by unfold Canonical; decide) (by decide) (by decide)
    ⟨trivial, by decide, by decide⟩ .ashr

/-- The type `PTY_u128`. -/
def u128 : Shape := ⟨128, false, Shape.pos_128, Shape.numWords_128⟩

/-- A number of 64 bits is not shifted right in 128 bits, and the highest bit of an unsigned one of
128 bits is not filled in. -/
theorem not_shiftOp_exact_128 :
    ¬ShiftOp.lshr.Exact (ofNumber i64 5) (.number 1) u128 ∧
      ¬ShiftOp.ashr.Exact (ofNumber i64 5) (.number 0) u128 ∧
      ¬ShiftOp.ashr.Exact ⟨128, false, [0, 9223372036854775808], by decide, by decide, by decide⟩
        (.number 1) u128 ∧
      ¬ShiftOp.shl.Exact (ofNumber i64 5) (.value (ofNumber u128 1)) i64 := by
  refine ⟨?_, ?_, ?_, ?_⟩
  · rw [exact_lshr_iff (by unfold Canonical; decide) (by decide) (by decide)
      ⟨trivial, by decide, by decide⟩]
    unfold ShiftOp.Condition
    decide
  · rw [exact_ashr_iff (by unfold Canonical; decide) (by decide) (by decide)
      ⟨trivial, by decide, by decide⟩]
    unfold ShiftOp.Condition
    decide
  · rw [exact_ashr_iff (by unfold Canonical; decide) (by decide) (by decide)
      ⟨trivial, by decide, by decide⟩]
    unfold ShiftOp.Condition
    decide
  · have hvalid : (ShiftAmount.value (ofNumber u128 1)).Valid i64 :=
      ⟨⟨by unfold Canonical; decide, by decide⟩, by decide, by decide⟩
    rw [exact_shl_iff (by unfold Canonical; decide) (by decide) (by decide) hvalid]
    unfold ShiftOp.Condition ShiftAmount.IsWord
    decide

end IntVal
end Maple
