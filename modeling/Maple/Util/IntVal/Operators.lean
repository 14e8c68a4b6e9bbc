import Maple.Util.IntVal.Mul
import Mathlib.Data.List.Basic

/-!
# Operators of `IntVal`

A value of up to 64 bits is stored in one word, any other one in as many words as its width needs.
-/

namespace Maple

open Words

/-- `IntVal`, with the words of its storage. The constructors fail when the cast of the number of
words leaves none. -/
structure IntVal where
  width : Nat
  sign : Bool
  words : List UInt64
  width_pos : 0 < width
  words_length : words.length = IntVal.getNumWords width
  words_ne_nil : words ≠ []

namespace IntVal

def IsOneWord (a : IntVal) : Prop := a.width ≤ kWordBitSize

instance (a : IntVal) : Decidable a.IsOneWord := inferInstanceAs (Decidable (_ ≤ _))

/-- The words that `IntVal::TruncInPlace` leaves. -/
def truncInPlace (width bitWidth : Nat) (words : List UInt64) : List UInt64 :=
  if width ≤ kWordBitSize then
    let truncWidth := if bitWidth ≠ 0 then bitWidth else width
    words.modify 0 fun value => value &&& (kAllOnes >>> UInt64.ofNat (kWordBitSize - truncWidth))
  else
    -- without a width in the call this is no width, and all bits are kept
    let truncWidth := if bitWidth = 0 then bitWidth else width
    let lastWord := getNumWords width - 1
    words.modify lastWord fun value =>
      value &&& (kAllOnes >>> UInt64.ofNat (truncWidth % kWordBitSize))

@[simp] lemma length_truncInPlace (width bitWidth : Nat) (words : List UInt64) :
    (truncInPlace width bitWidth words).length = words.length := by
  unfold truncInPlace
  split
  · exact List.length_modify ..
  · exact List.length_modify ..

/-- A value with the width and the sign of `a` and other words. -/
def withWords (a : IntVal) (words : List UInt64) (h : words.length = a.words.length) : IntVal where
  width := a.width
  sign := a.sign
  words := words
  width_pos := a.width_pos
  words_length := h.trans a.words_length
  words_ne_nil := List.ne_nil_of_length_pos (h ▸ List.length_pos_of_ne_nil a.words_ne_nil)

/-- The constructor from words with the width and the sign of `a`. -/
def ofWords (a : IntVal) (words : List UInt64) (h : words.length = a.words.length) : IntVal :=
  a.withWords (truncInPlace a.width 0 words) ((length_truncInPlace _ _ _).trans h)

/-- The copy constructor. -/
def copy (a : IntVal) : IntVal := a.ofWords a.words rfl

/-- `u.value` of a value in one word. -/
def word (a : IntVal) : UInt64 := a.words.head a.words_ne_nil

/-- The constructor from a number for a value in one word, with the width and the sign of `a`. -/
def ofWord (a : IntVal) (val : UInt64) : IntVal := a.ofWords (a.words.set 0 val) List.length_set

def add (a b : IntVal) : IntVal :=
  if a.IsOneWord then a.ofWord (a.word + b.word)
  else a.copy.withWords (wideAddInPlace false a.copy.words b.words) (length_wideAddInPlace ..)

def sub (a b : IntVal) : IntVal :=
  if a.IsOneWord then a.ofWord (a.word - b.word)
  else a.copy.withWords (wideSubInPlace false a.copy.words b.words) (length_wideSubInPlace ..)

def preInc (a : IntVal) : IntVal :=
  if a.IsOneWord then a.ofWord (a.word + 1)
  else a.ofWords (wideAddScalarInPlace 1 a.words) (length_wideAddScalarInPlace ..)

def preDec (a : IntVal) : IntVal :=
  if a.IsOneWord then a.ofWord (a.word - 1)
  else a.ofWords (wideSubScalarInPlace 1 a.words) (length_wideSubScalarInPlace ..)

/-- `IntVal::operator++(int)`: the result and the new value of the variable. -/
def postInc (a : IntVal) : IntVal × IntVal := (a.copy, a.preInc)

def postDec (a : IntVal) : IntVal × IntVal := (a.copy, a.preDec)

/-- `IntVal::operator*` of two values of one width. -/
def mul (a b : IntVal) (h : a.width = b.width) : IntVal :=
  if a.IsOneWord then a.ofWord (a.word * b.word)
  else a.ofWords (wideMul a.words b.words)
    (value_wideMul (a.words_length.trans (h ▸ b.words_length.symm))).1

/-- `operator&`, `operator|` and `operator^`. -/
def bitwise (f : UInt64 → UInt64 → UInt64) (a b : IntVal) (h : a.width = b.width) : IntVal :=
  if a.IsOneWord then a.ofWord (f a.word b.word)
  else a.copy.withWords (List.zipWith f a.copy.words b.words) (by
    rw [List.length_zipWith, b.words_length, a.copy.words_length]
    exact (congrArg (min _) (congrArg getNumWords h.symm)).trans (min_self _))

def not (a : IntVal) : IntVal :=
  if a.IsOneWord then a.ofWord (~~~a.word)
  else a.copy.withWords (wideNotInPlace a.copy.words) (length_wideNotInPlace _)

/-- `IntVal::operator-` of one operand. -/
def neg (a : IntVal) : IntVal :=
  if a.IsOneWord then a.ofWord (~~~a.word + 1)
  else a.copy.withWords (wideNegInPlace a.copy.words) (length_wideNegInPlace _)

def eq (a b : IntVal) : Bool :=
  if a.IsOneWord then a.word == b.word else a.words == b.words

/-! ### Values -/

/-- The number in the storage. -/
def value (a : IntVal) : Nat := Words.value a.words

/-- The bits of the storage. -/
def storageBits (a : IntVal) : Nat := kWordBitSize * a.words.length

/-- All bits at the positions from the width on are zero. -/
def Canonical (a : IntVal) : Prop := a.value < 2 ^ a.width

lemma value_lt (a : IntVal) : a.value < 2 ^ a.storageBits := Words.value_lt a.words

lemma IsOneWord.words_eq {a : IntVal} (h : a.IsOneWord) : a.words = [a.word] := by
  have hpos := a.width_pos
  have hlen : a.words.length = 1 := by
    have hle : a.width ≤ 64 := h
    rw [a.words_length]
    change (a.width + 64 - 1) / 64 % 2 ^ 8 = 1
    omega
  obtain ⟨w, hw⟩ := List.length_eq_one_iff.mp hlen
  simp only [word, hw, List.head_cons]

lemma IsOneWord.value_eq {a : IntVal} (h : a.IsOneWord) : a.value = a.word.toNat := by
  rw [value, h.words_eq, value_cons, value_nil]
  rfl

lemma IsOneWord.value_ofWord {a : IntVal} (h : a.IsOneWord) (val : UInt64) :
    (a.ofWord val).value = val.toNat % 2 ^ a.width := by
  have hpos := a.width_pos
  have hle : a.width ≤ 64 := h
  have hmask : (kAllOnes >>> UInt64.ofNat (kWordBitSize - a.width)).toNat = 2 ^ a.width - 1 :=
    toNat_ones_shiftRight hpos hle
  have hwords : (a.ofWord val).words =
      [val &&& (kAllOnes >>> UInt64.ofNat (kWordBitSize - a.width))] := by
    have hle' : a.width ≤ kWordBitSize := h
    simp only [ofWord, ofWords, withWords, truncInPlace, h.words_eq, List.set_cons_zero, hle',
      ↓reduceIte, ne_eq, not_true_eq_false]
    rfl
  rw [value, hwords, value_cons, value_nil, UInt64.toNat_and, hmask, Nat.and_two_pow_sub_one_eq_mod]
  rfl

lemma value_ofWords {a : IntVal} (h : ¬a.IsOneWord) (words : List UInt64)
    (hlen : words.length = a.words.length) :
    (a.ofWords words hlen).value = Words.value words := by
  have hgt : ¬a.width ≤ kWordBitSize := h
  have hmask : (fun value : UInt64 => value &&& (kAllOnes >>> UInt64.ofNat (0 % kWordBitSize))) =
      id := by
    funext w
    exact UInt64.and_neg_one
  have hwords : (a.ofWords words hlen).words = words := by
    simp only [ofWords, withWords, truncInPlace, hgt, ↓reduceIte, hmask]
    exact List.modify_id _ _
  rw [value, hwords]

lemma value_withWords (a : IntVal) (words : List UInt64) (hlen : words.length = a.words.length) :
    (a.withWords words hlen).value = Words.value words := rfl

lemma words_copy {a : IntVal} (h : ¬a.IsOneWord) : a.copy.words = a.words := by
  have hvalue : a.copy.value = a.value := value_ofWords h a.words rfl
  exact (value_inj (a.copy.words_length.trans a.words_length.symm)).mp hvalue

lemma value_copy {a : IntVal} (hcanon : a.Canonical) : a.copy.value = a.value := by
  by_cases h : a.IsOneWord
  · have hcopy : a.copy = a.ofWord a.word := by
      simp only [copy, ofWord, h.words_eq, List.set_cons_zero]
    rw [hcopy, h.value_ofWord, ← h.value_eq, Nat.mod_eq_of_lt hcanon]
  · rw [value, words_copy h]
    rfl

/-! ### The results of the operators -/

/-- The operators of the class that compute modulo the width. -/
inductive Op where
  | add | sub | mul | and | or | xor | neg | not | preInc | preDec | postInc | postDec
  deriving DecidableEq, Repr

/-- The results of an operator: the value that is returned, and for the postfix operators the new
value of the variable, too. -/
def Op.results (op : Op) (a b : IntVal) (h : a.width = b.width) : List IntVal :=
  match op with
  | add => [a.add b]
  | sub => [a.sub b]
  | mul => [a.mul b h]
  | and => [bitwise (· &&& ·) a b h]
  | or => [bitwise (· ||| ·) a b h]
  | xor => [bitwise (· ^^^ ·) a b h]
  | neg => [a.neg]
  | not => [a.not]
  | preInc => [a.preInc]
  | preDec => [a.preDec]
  | postInc => [a.postInc.1, a.postInc.2]
  | postDec => [a.postDec.1, a.postDec.2]

/-- The mathematical results. -/
def Op.exact (op : Op) (x y : Nat) : List Int :=
  match op with
  | add => [x + y]
  | sub => [x - y]
  | mul => [x * y]
  | and => [(x &&& y : Nat)]
  | or => [(x ||| y : Nat)]
  | xor => [(x ^^^ y : Nat)]
  | neg => [-x]
  | not => [-1 - x]
  | preInc => [x + 1]
  | preDec => [x - 1]
  | postInc => [(x : Int), x + 1]
  | postDec => [(x : Int), x - 1]

/-- The results are the mathematical ones modulo the width. They are canonical, and their
comparison is that of the values. -/
structure Op.Correct (op : Op) (a b : IntVal) (h : a.width = b.width) : Prop where
  values : (op.results a b h).map (fun r => (r.value : Int)) =
    (op.exact a.value b.value).map (· % 2 ^ a.width)
  canonical : ∀ r ∈ op.results a b h, r.Canonical
  eq_iff : ∀ r ∈ op.results a b h, ∀ c : IntVal, c.width = a.width → c.Canonical →
    (r.eq c ↔ (r.value : Int) % 2 ^ a.width = c.value % 2 ^ a.width)

/-- The storage has no bits above the width and none below it are missing, or the result does not
reach them. -/
def Op.Fits (op : Op) (a b : IntVal) : Prop :=
  match op with
  | and | or | xor => True
  | add => a.storageBits = a.width ∨ a.value + b.value < 2 ^ min a.storageBits a.width
  | sub => a.storageBits = a.width ∨ b.value ≤ a.value
  | mul => a.value * b.value % 2 ^ a.storageBits = a.value * b.value % 2 ^ a.width
  | neg => a.storageBits = a.width ∨ a.value = 0
  | not => a.storageBits = a.width
  | preInc | postInc => a.storageBits = a.width ∨ a.value + 1 < 2 ^ min a.storageBits a.width
  | preDec | postDec => (a.storageBits = a.width ∨ 0 < a.value) ∧ DecrementStops a.words

end IntVal
end Maple
