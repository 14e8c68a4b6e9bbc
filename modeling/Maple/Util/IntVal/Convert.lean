import Maple.Lib.Limbs
import Maple.Lib.Int64Cast
import Maple.Util.IntVal.Operators

/-!
# Conversions of `IntVal`

The constructors from numbers, pointers and other values, the extended values of 64 bits, and
`TruncOrExtend`. What reads beyond an array or ends the compilation has no result.
-/

namespace Maple
namespace IntVal

/-- A width and a sign that the class can make values of: the number of words, which is cast to a
`uint8`, is not zero. -/
structure Shape where
  width : Nat
  sign : Bool
  width_pos : 0 < width
  numWords_ne_zero : getNumWords width ≠ 0

namespace Shape

lemma pos_32 : 0 < 32 := by decide

lemma pos_64 : 0 < 64 := by decide

lemma pos_128 : 0 < 128 := by decide

lemma numWords_32 : getNumWords 32 ≠ 0 := by decide

lemma numWords_64 : getNumWords 64 ≠ 0 := by decide

lemma numWords_128 : getNumWords 128 ≠ 0 := by decide

/-- A value of this shape is stored in one word. -/
def IsOneWord (s : Shape) : Prop := s.width ≤ kWordBitSize

instance (s : Shape) : Decidable s.IsOneWord := inferInstanceAs (Decidable (_ ≤ _))

/-- The words of a value of this shape. -/
def numWords (s : Shape) : Nat := getNumWords s.width

def format (s : Shape) : IntFormat := ⟨s.width, s.sign⟩

end Shape

def shape (a : IntVal) : Shape where
  width := a.width
  sign := a.sign
  width_pos := a.width_pos
  numWords_ne_zero := by
    rw [← a.words_length]
    exact fun h => a.words_ne_nil (List.length_eq_zero_iff.mp h)

/-- The number that the bits stand for: of two's complement for a signed value. -/
def toInt (a : IntVal) : Int := a.shape.format.wrap a.value

/-! ### Constructors -/

/-- A value of the given shape, truncated. -/
def ofShape (s : Shape) (words : List UInt64) (h : words.length = s.numWords) : IntVal where
  width := s.width
  sign := s.sign
  words := truncInPlace s.width 0 words
  width_pos := s.width_pos
  words_length := (length_truncInPlace _ _ _).trans h
  words_ne_nil := List.ne_nil_of_length_pos (by
    rw [length_truncInPlace, h]
    exact Nat.pos_of_ne_zero s.numWords_ne_zero)

/-- `Init` and `WideInit` of a number, whose sign fills the further words of a signed value. -/
def initNumber (s : Shape) (val : UInt64) : List UInt64 :=
  val :: List.replicate (s.numWords - 1) (if s.sign && decide (val.toInt64 < 0) then kAllOnes else 0)

lemma length_initNumber (s : Shape) (val : UInt64) : (initNumber s val).length = s.numWords := by
  have hpos := Nat.pos_of_ne_zero s.numWords_ne_zero
  rw [initNumber, List.length_cons, List.length_replicate]
  exact Nat.sub_add_cancel hpos

/-- `IntVal(T val, uint16 bitWidth, bool isSigned)` of a number. -/
def ofNumber (s : Shape) (val : UInt64) : IntVal :=
  ofShape s (initNumber s val) (length_initNumber s val)

/-- The same constructor of a pointer to words: `Init` and `WideInit` copy as many words as the
width needs. -/
def ofPointer (s : Shape) (pVal : List UInt64) : Option IntVal :=
  if h : s.numWords ≤ pVal.length then
    some (ofShape s (pVal.take s.numWords) (List.length_take_of_le h))
  else none

/-- `IntVal(const IntVal &val, uint16 bitWidth, bool isSigned)`, and the one with a type. -/
def convert (s : Shape) (val : IntVal) : Option IntVal :=
  if val.IsOneWord then some (ofNumber s val.word) else ofPointer s val.words

/-- `IntVal(const IntVal &val, bool isSigned)`, which does not truncate. -/
def withSign (val : IntVal) (isSigned : Bool) : IntVal := { val with sign := isSigned }

/-! ### Bits and extended values -/

/-- `GetBit`. The number of a word is cast to a `uint8`. -/
def getBit (a : IntVal) (bit : Nat) : Bool :=
  if a.IsOneWord then (a.word &&& (1 <<< UInt64.ofNat bit)) != 0
  else
    let word := (getNumWords (bit + 1) + 2 ^ 8 - 1) % 2 ^ 8
    let wordOffset := bit % kWordBitSize
    (a.words.getD word 0 &&& (1 <<< UInt64.ofNat wordOffset)) != 0

def getSignBit (a : IntVal) : Bool := a.getBit (a.width - 1)

def getZXTValue (a : IntVal) (size : Nat) : UInt64 :=
  let value := a.word
  if size ≠ 0 then
    (value <<< UInt64.ofNat (kWordBitSize - size)) >>> UInt64.ofNat (kWordBitSize - size)
  else value

/-- `GetSXTValue`. The width and the shift are cast to a `uint8`. -/
def getSXTValue (a : IntVal) (size : Nat) : Int64 :=
  let value := a.word
  let bitWidth := if size ≠ 0 then size else a.width % 2 ^ 8
  let shift := UInt64.ofNat ((kWordBitSize + 2 ^ 8 - bitWidth) % 2 ^ 8)
  let value := value <<< shift
  let leadingOnes := kAllOnes <<< UInt64.ofNat (if bitWidth < kWordBitSize then bitWidth
    else kWordBitSize - 1)
  if bitWidth ≠ 0 then
    (if a.getBit (bitWidth - 1) then (value >>> shift) ||| leadingOnes else value >>> shift).toInt64
  else 0

def getExtValue (a : IntVal) (size : Nat) : Int64 :=
  if a.sign then a.getSXTValue size else (a.getZXTValue size).toInt64

/-! ### Truncation and extension -/

def trunc (a : IntVal) (s : Shape) : Option IntVal :=
  if a.IsOneWord then some (ofNumber s a.word) else ofPointer s a.words

/-- The words `newValue` of `ExtendToWideInt`. -/
def extendedWords (a : IntVal) (s : Shape) : List UInt64 :=
  let oldNumWords := a.words.length
  let numExtendBits := (s.width - a.width) % kWordBitSize
  let filler := a.sign && a.getSignBit
  let newValue := if numExtendBits ≠ 0 ∧ filler then
      a.words.modify (oldNumWords - 1)
        (· ||| (kAllOnes <<< UInt64.ofNat (kWordBitSize - numExtendBits)))
    else a.words
  newValue ++ List.replicate (s.numWords - oldNumWords) (if filler then kAllOnes else 0)

/-- `ExtendToWideInt`. The copy of the words fails if the new array is smaller. -/
def extendToWideInt (a : IntVal) (s : Shape) : Option IntVal :=
  if a.words.length ≤ s.numWords then ofPointer s (a.extendedWords s) else none

def extend (a : IntVal) (s : Shape) : Option IntVal :=
  if a.IsOneWord ∧ s.IsOneWord then some (ofNumber s (a.getExtValue 0).toUInt64)
  else a.extendToWideInt s

def truncOrExtend (a : IntVal) (s : Shape) : Option IntVal :=
  if s.width ≤ a.width then a.trunc s else a.extend s

end IntVal
end Maple
