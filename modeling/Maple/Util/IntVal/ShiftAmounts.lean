import Maple.Lib.Logged
import Maple.Util.IntVal.Extremal
import Maple.Util.IntVal.TypedShift

/-!
# The amounts of the shifts of `IntVal`

The operations of the class with a record of the amounts by which they shift words of 64 bits.
-/

namespace Maple
namespace IntVal

open Words

/-! ### Operations with a record -/

def getBitLogged (a : IntVal) (bit : Nat) : Logged Bool := do
  if a.IsOneWord then return (a.word &&& (← Logged.shl 1 bit)) != 0
  else
    let word := (getNumWords (bit + 1) + 2 ^ 8 - 1) % 2 ^ 8
    let wordOffset := bit % kWordBitSize
    return (a.words.getD word 0 &&& (← Logged.shl 1 wordOffset)) != 0

def getSignBitLogged (a : IntVal) : Logged Bool := a.getBitLogged (a.width - 1)

def getSXTValueLogged (a : IntVal) (size : Nat) : Logged Int64 := do
  let bitWidth := if size ≠ 0 then size else a.width % 2 ^ 8
  let shift := (kWordBitSize + 2 ^ 8 - bitWidth) % 2 ^ 8
  let value ← Logged.shl a.word shift
  let leadingOnes ← Logged.shl kAllOnes (if bitWidth < kWordBitSize then bitWidth
    else kWordBitSize - 1)
  if bitWidth ≠ 0 then
    if ← a.getBitLogged (bitWidth - 1) then return ((← Logged.shr value shift) ||| leadingOnes).toInt64
    else return (← Logged.shr value shift).toInt64
  else return 0

def areAllBitsOneLogged (a : IntVal) : Logged Bool := do
  if a.IsOneWord then return a.word == (← Logged.shr kAllOnes (kWordBitSize - a.width))
  else return a.countTrallingOnes == a.width

/-- The words that `TruncInPlace` leaves. -/
def truncInPlaceLogged (width bitWidth : Nat) (words : List UInt64) : Logged (List UInt64) := do
  if width ≤ kWordBitSize then
    let truncWidth := if bitWidth ≠ 0 then bitWidth else width
    let mask ← Logged.shr kAllOnes (kWordBitSize - truncWidth)
    return words.modify 0 (· &&& mask)
  else
    let truncWidth := if bitWidth = 0 then bitWidth else width
    let mask ← Logged.shr kAllOnes (truncWidth % kWordBitSize)
    return words.modify (getNumWords width - 1) (· &&& mask)

/-- The body of the loop of `ShiftLeft`. -/
def shiftLeftStepLogged (shiftWords shiftBits : Nat) (dst : List UInt64) (i : Nat) :
    Logged (List UInt64) := do
  let dst := dst.set i (← Logged.shl (dst.getD (i - shiftWords) 0) shiftBits)
  if i > shiftWords then
    let low ← Logged.shr (dst.getD (i - (shiftWords + 1)) 0) (kWordBitSize - shiftBits)
    return dst.set i (dst.getD i 0 ||| low)
  else return dst

/-- `ShiftLeft` of words of 64 bits. -/
def shiftLeftLogged (dst : List UInt64) (bits : Nat) : Logged (List UInt64) := do
  if bits = 0 then return dst
  else
    let numWords := dst.length
    let shiftWords := bits / kWordBitSize
    let shiftBits := bits % kWordBitSize
    let indices := List.range' shiftWords (numWords - shiftWords)
    let dst ←
      if shiftBits = 0 then pure (dst.take shiftWords ++ dst.take (numWords - shiftWords))
      else List.foldlM (shiftLeftStepLogged shiftWords shiftBits) dst indices.reverse
    return List.replicate shiftWords 0 ++ dst.drop shiftWords

/-- The body of the loop of `ShiftRight`. -/
def shiftRightStepLogged (shiftWords shiftBits : Nat) (dst : List UInt64) (i : Nat) :
    Logged (List UInt64) := do
  let tmp := dst.getD i 0
  let dst := dst.set (i - shiftWords) (← Logged.shr (dst.getD i 0) shiftBits)
  if shiftWords + 1 ≤ i then
    let high ← Logged.shl tmp (kWordBitSize - shiftBits)
    return dst.set (i - (shiftWords + 1)) (dst.getD (i - (shiftWords + 1)) 0 ||| high)
  else return dst

/-- `ShiftRight` of words of 64 bits. -/
def shiftRightLogged (dst : List UInt64) (bits : Nat) (negRemainder : Bool) :
    Logged (List UInt64) := do
  if bits = 0 then return dst
  else
    let numWords := dst.length
    let shiftWords := bits / kWordBitSize
    let shiftBits := bits % kWordBitSize
    let indices := List.range' shiftWords (numWords - shiftWords)
    let dst ←
      if shiftBits = 0 then pure (dst.drop shiftWords ++ dst.drop (numWords - shiftWords))
      else List.foldlM (shiftRightStepLogged shiftWords shiftBits) dst indices
    let filler : UInt64 := if negRemainder then kAllOnes else 0
    let dst := dst.take (numWords - shiftWords) ++ List.replicate shiftWords filler
    if shiftBits ≠ 0 then
      let high ← Logged.shl filler (kWordBitSize - shiftBits)
      return dst.modify (numWords - (shiftWords + 1)) (· ||| high)
    else return dst

/-- The words of `operator<<`. In one word the constructor truncates the shifted word, in several
words the words of a copy are shifted. -/
def shlLogged (a : IntVal) (bits : Nat) : Logged (List UInt64) := do
  if a.IsOneWord then
    truncInPlaceLogged a.width 0 (a.words.set 0 (← Logged.shl a.word bits))
  else
    shiftLeftLogged (← truncInPlaceLogged a.width 0 a.words) (bits % 2 ^ 16)

/-- Whether `WideAShrInPlace` fills in ones. -/
def negRemainderLogged (a : IntVal) : Logged Bool :=
  if a.sign then a.getSignBitLogged else pure false

/-- The words of `operator>>`. -/
def shrLogged (a : IntVal) (bits : Nat) : Logged (List UInt64) := do
  if a.IsOneWord then
    let word ←
      if a.sign then
        let value ← a.getSXTValueLogged 0
        let shifted ← Logged.sar value bits
        pure shifted.toUInt64
      else Logged.shr a.word bits
    truncInPlaceLogged a.width 0 (a.words.set 0 word)
  else
    let res ← truncInPlaceLogged a.width 0 a.words
    let negRemainder ← a.negRemainderLogged
    shiftRightLogged res (bits % 2 ^ 16) negRemainder

/-- `BitwiseCompare` of words of 64 bits. -/
def bitwiseCompareLogged (lhs rhs : List UInt64) (comparedWidth : Nat) : Logged Int := do
  let remain := comparedWidth % kWordBitSize
  let numWords := (comparedWidth + kWordBitSize - 1) % 2 ^ 16 / kWordBitSize
  let i := numWords - 1
  let mask ← Logged.shr kAllOnes (kWordBitSize - remain)
  let l := (lhs.getD i 0).toNat &&& mask.toNat
  let r := (rhs.getD i 0).toNat &&& mask.toNat
  if l ≠ r then return if l < r then -1 else 1
  else return compareLoop (lhs.take i).reverse (rhs.take i).reverse

def wideCompareLogged (lhs rhs : IntVal) : Logged Int := do
  if lhs.sign then
    let lhsSign ← lhs.getSignBitLogged
    let rhsSign ← rhs.getSignBitLogged
    if lhsSign ≠ rhsSign then return if lhsSign then -1 else 1
    else bitwiseCompareLogged lhs.words rhs.words lhs.width
  else bitwiseCompareLogged lhs.words rhs.words lhs.width

/-- The words of `SetMaxValue`. -/
def setMaxValueLogged (a : IntVal) : Logged (List UInt64) := do
  if a.IsOneWord then
    if a.sign then return a.words.set 0 ((← Logged.shl 1 (a.width - 1)) - 1)
    else return a.words.set 0 (← Logged.shr kAllOnes (kWordBitSize - a.width))
  else
    let words := List.replicate a.words.length kAllOnes
    let words ←
      if a.sign then
        pure (words.set (a.words.length - 1)
          (← Logged.shr kAllOnes (a.width % kWordBitSize + 1)))
      else pure words
    truncInPlaceLogged a.width 0 words

/-- The words of `SetMinValue`. -/
def setMinValueLogged (a : IntVal) : Logged (List UInt64) := do
  if a.IsOneWord then
    if a.sign then return a.words.set 0 (← Logged.shl 1 (a.width - 1)) else return a.words.set 0 0
  else
    let words := List.replicate a.words.length 0
    let words ←
      if a.sign then
        let shift := (((kWordBitSize : Int) - (a.width + 1)).tmod kWordBitSize % 2 ^ 8).toNat
        pure (words.set (a.words.length - 1) (← Logged.shl 1 shift))
      else pure words
    truncInPlaceLogged a.width 0 words

/-! ### The record changes nothing -/

section Values

variable (a : IntVal)

lemma val_getBitLogged (bit : Nat) : (a.getBitLogged bit).val = a.getBit bit := by
  rw [getBitLogged, getBit]
  split_ifs <;> rfl

lemma val_getSignBitLogged : a.getSignBitLogged.val = a.getSignBit := a.val_getBitLogged _

lemma val_getSXTValueLogged (size : Nat) : (a.getSXTValueLogged size).val = a.getSXTValue size := by
  simp only [getSXTValueLogged, getSXTValue, Logged.val_bind, Logged.val_shl, Logged.val_ite,
    Logged.val_shr, Logged.val_pure, val_getBitLogged]
  split_ifs <;> rfl

lemma val_areAllBitsOneLogged : a.areAllBitsOneLogged.val = a.areAllBitsOne := by
  rw [areAllBitsOneLogged, areAllBitsOne]
  split_ifs <;> rfl

lemma val_truncInPlaceLogged (width bitWidth : Nat) (words : List UInt64) :
    (truncInPlaceLogged width bitWidth words).val = truncInPlace width bitWidth words := by
  rw [truncInPlaceLogged, truncInPlace]
  split_ifs <;> rfl

lemma val_bitwiseCompareLogged (lhs rhs : List UInt64) (comparedWidth : Nat) :
    (bitwiseCompareLogged lhs rhs comparedWidth).val = bitwiseCompare lhs rhs comparedWidth :=
  apply_ite Logged.val ..

lemma val_wideCompareLogged (lhs rhs : IntVal) :
    (wideCompareLogged lhs rhs).val = wideCompare lhs rhs := by
  simp only [wideCompareLogged, wideCompare, Logged.val_bind, Logged.val_ite, Logged.val_pure,
    val_getSignBitLogged, val_bitwiseCompareLogged]
  split_ifs <;> simp_all

lemma val_setMaxValueLogged : a.setMaxValueLogged.val = a.setMaxValue.words := by
  rw [setMaxValueLogged, setMaxValue]
  by_cases hone : a.IsOneWord
  · rw [if_pos hone, if_pos hone]
    split_ifs <;> rfl
  · rw [if_neg hone, if_neg hone]
    change _ = truncInPlace a.width 0 a.maxWords
    rw [maxWords]
    split_ifs <;> exact val_truncInPlaceLogged ..

lemma val_setMinValueLogged : a.setMinValueLogged.val = a.setMinValue.words := by
  rw [setMinValueLogged, setMinValue]
  by_cases hone : a.IsOneWord
  · rw [if_pos hone, if_pos hone]
    split_ifs <;> rfl
  · rw [if_neg hone, if_neg hone]
    change _ = truncInPlace a.width 0 a.minWords
    rw [minWords]
    split_ifs <;> exact val_truncInPlaceLogged ..

/-! The shifts of the templates are those of the words. -/

lemma limb_shl {k : Nat} (h : k < 64) (w : UInt64) : Limb.shl w k = w <<< UInt64.ofNat k := by
  apply Limb.toNat_inj.mp
  rw [Limb.toNat_shl]
  exact (toNat_shiftLeft h w).symm

lemma limb_shr {k : Nat} (h : k < 64) (w : UInt64) : Limb.shr w k = w >>> UInt64.ofNat k := by
  apply Limb.toNat_inj.mp
  rw [Limb.toNat_shr]
  exact (toNat_shiftRight h w).symm

lemma limb_or (w x : UInt64) : Limb.or w x = w ||| x := by
  apply Limb.toNat_inj.mp
  rw [Limb.or, Limb.toNat_ofNat]
  exact Nat.mod_eq_of_lt (Nat.or_lt_two_pow w.toNat_lt x.toNat_lt)

lemma limb_zero : (Limb.zero : UInt64) = 0 := rfl

lemma limb_ones : (Limb.ones : UInt64) = kAllOnes := by decide

lemma limb_bits : Limb.bits UInt64 = kWordBitSize := rfl

variable {shiftWords shiftBits : Nat} (hpos : shiftBits ≠ 0) (hlt : shiftBits < kWordBitSize)

include hpos hlt in
lemma val_shiftLeftStepLogged (dst : List UInt64) (i : Nat) :
    (shiftLeftStepLogged shiftWords shiftBits dst i).val =
      shiftLeftStep shiftWords shiftBits dst i := by
  have hrest : kWordBitSize - shiftBits < 64 := by
    rw [kWordBitSize]
    omega
  simp only [shiftLeftStepLogged, shiftLeftStep, limb_bits, limb_shl hlt, limb_shr hrest, limb_or,
    limb_zero, Logged.val_bind, Logged.val_shl]
  split_ifs <;> rfl

include hpos hlt in
lemma val_shiftRightStepLogged (dst : List UInt64) (i : Nat) :
    (shiftRightStepLogged shiftWords shiftBits dst i).val =
      shiftRightStep shiftWords shiftBits dst i := by
  have hrest : kWordBitSize - shiftBits < 64 := by
    rw [kWordBitSize]
    omega
  simp only [shiftRightStepLogged, shiftRightStep, limb_bits, limb_shl hrest, limb_shr hlt, limb_or,
    limb_zero, Logged.val_bind, Logged.val_shr]
  split_ifs <;> rfl

lemma val_shiftLeftLogged (dst : List UInt64) (bits : Nat) :
    (shiftLeftLogged dst bits).val = shiftLeft dst bits := by
  have hmod : bits % kWordBitSize < kWordBitSize := Nat.mod_lt _ (by decide)
  rw [shiftLeftLogged, shiftLeft, limb_bits]
  by_cases hbits : bits = 0
  · rw [if_pos hbits, if_pos hbits]
    rfl
  rw [if_neg hbits, if_neg hbits]
  dsimp only
  by_cases hzero : bits % kWordBitSize = 0
  · rw [if_pos hzero, if_pos hzero]
    rfl
  · rw [if_neg hzero, if_neg hzero, Logged.val_bind,
      Logged.val_foldlM fun s x _ => val_shiftLeftStepLogged hzero hmod s x]
    rfl

lemma val_shiftRightLogged (dst : List UInt64) (bits : Nat) (negRemainder : Bool) :
    (shiftRightLogged dst bits negRemainder).val = shiftRight dst bits negRemainder := by
  have hmod : bits % kWordBitSize < kWordBitSize := Nat.mod_lt _ (by decide)
  have hrest : bits % kWordBitSize ≠ 0 → kWordBitSize - bits % kWordBitSize < 64 := by
    intro hne
    rw [kWordBitSize] at hne ⊢
    omega
  have hfill : (remainderFiller negRemainder : UInt64) = if negRemainder then kAllOnes else 0 := by
    rw [remainderFiller, limb_ones]
    rfl
  rw [shiftRightLogged, shiftRight, limb_bits]
  by_cases hbits : bits = 0
  · rw [if_pos hbits, if_pos hbits]
    rfl
  rw [if_neg hbits, if_neg hbits]
  dsimp only
  by_cases hzero : bits % kWordBitSize = 0
  · rw [if_pos hzero, if_pos hzero, if_neg (not_not.mpr hzero), Logged.val_bind,
      if_neg (not_not.mpr hzero), hfill]
    rfl
  · rw [if_neg hzero, if_neg hzero, if_pos hzero, Logged.val_bind,
      Logged.val_foldlM fun s x _ => val_shiftRightStepLogged hzero hmod s x, hfill, if_pos hzero,
      limb_shl (hrest hzero), Logged.val_bind, Logged.val_shl, Logged.val_pure]
    congr 1
    funext w
    exact (limb_or w _).symm

lemma val_shlLogged {a : IntVal} {bits : Nat} {r : IntVal} (h : a.shl bits = some r) :
    (a.shlLogged bits).val = r.words := by
  rw [shl] at h
  rw [shlLogged]
  by_cases hone : a.IsOneWord
  · rw [if_pos hone] at h ⊢
    obtain rfl := Option.some.inj h
    exact val_truncInPlaceLogged ..
  · have hcopy : a.copy.words = truncInPlace a.width 0 a.words := rfl
    have hcone : ¬a.copy.IsOneWord := hone
    rw [if_neg hone, wideShl, shiftLeftInPlace, if_neg hcone] at h
    rw [if_neg hone, Logged.val_bind, val_truncInPlaceLogged, val_shiftLeftLogged, ← hcopy]
    split_ifs at h with hzero hroom
    · obtain rfl := Option.some.inj h
      rw [hzero, shiftLeft, if_pos rfl]
    · obtain rfl := Option.some.inj h
      rfl

lemma val_shrLogged {a : IntVal} {bits : Nat} {r : IntVal} (h : a.shr bits = some r) :
    (a.shrLogged bits).val = r.words := by
  rw [shr] at h
  rw [shrLogged]
  by_cases hone : a.IsOneWord
  · rw [if_pos hone] at h ⊢
    obtain rfl := Option.some.inj h
    change _ = truncInPlace a.width 0 _
    split_ifs
    · simp only [Logged.val_bind, val_truncInPlaceLogged, val_getSXTValueLogged, Logged.val_sar,
        Logged.val_pure]
    · simp only [Logged.val_bind, val_truncInPlaceLogged, Logged.val_shr]
  · have hcopy : a.copy.words = truncInPlace a.width 0 a.words := rfl
    have hcone : ¬a.copy.IsOneWord := hone
    have hsign : (a.copy.sign && a.copy.getSignBit) = (a.sign && a.getSignBit) := by
      have hbit : a.copy.getSignBit = a.getSignBit := by
        have hone' : ¬a.IsOneWord := hone
        rw [getSignBit, getSignBit, getBit, getBit, if_neg hcone, if_neg hone', words_copy hone']
        rfl
      rw [hbit]
      rfl
    rw [if_neg hone, wideAShr, wideAShrInPlace, shiftRightInPlace, if_neg hcone, hsign] at h
    have hvalue : a.negRemainderLogged.val = (a.sign && a.getSignBit) := by
      rw [negRemainderLogged, Logged.val_ite, val_getSignBitLogged]
      cases a.sign <;> rfl
    rw [if_neg hone, Logged.val_bind, Logged.val_bind, val_truncInPlaceLogged, hvalue,
      val_shiftRightLogged, ← hcopy]
    split_ifs at h with hzero hroom
    · obtain rfl := Option.some.inj h
      rw [hzero, shiftRight, if_pos rfl]
    · obtain rfl := Option.some.inj h
      rfl

end Values

/-! ### Calls -/

/-- The calls of the operations. -/
inductive Call where
  | getSXTValue (size : Nat)
  | areAllBitsOne
  | truncInPlace (bitWidth : Nat)
  | shl (bits : Nat)
  | shlBy (bits : IntVal)
  | shr (bits : Nat)
  | shrBy (bits : IntVal)
  | wideCompare (rhs : IntVal)
  | setMaxValue
  | setMinValue

namespace Call

/-- The arguments have their types and the assertions of the operation admit them. -/
def Admitted (a : IntVal) : Call → Prop
  | getSXTValue size => size < 2 ^ 8 ∧ a.IsOneSignificantWord ∧ size ≤ a.width
  | areAllBitsOne => True
  | truncInPlace bitWidth =>
    bitWidth = 0 ∨ bitWidth ≤ a.width ∧ getNumWords a.width = getNumWords bitWidth
  | shl bits => bits ≤ a.width
  | shlBy bits =>
    bits.getSignBit = false ∧ bits.IsOneSignificantWord ∧ bits.word.toNat ≤ a.width
  | shr bits => bits ≤ a.width
  | shrBy bits => bits.IsOneSignificantWord ∧ bits.word.toNat ≤ a.width
  | wideCompare rhs => ¬a.IsOneWord ∧ a.shape = rhs.shape
  | setMaxValue | setMinValue => True

/-- All shifts of words in the operation are defined. -/
def InRange (a : IntVal) : Call → Prop
  | getSXTValue size => (a.getSXTValueLogged size).InRange
  | areAllBitsOne => a.areAllBitsOneLogged.InRange
  | truncInPlace bitWidth => (truncInPlaceLogged a.width bitWidth a.words).InRange
  | shl bits => (a.shlLogged bits).InRange
  | shlBy bits => (a.shlLogged bits.word.toNat).InRange
  | shr bits => (a.shrLogged bits).InRange
  | shrBy bits => (a.shrLogged bits.word.toNat).InRange
  | wideCompare rhs => (wideCompareLogged a rhs).InRange
  | setMaxValue => a.setMaxValueLogged.InRange
  | setMinValue => a.setMinValueLogged.InRange

/-- The width that `GetSXTValue` works with. -/
def sxtWidth (a : IntVal) (size : Nat) : Nat := if size ≠ 0 then size else a.width % 2 ^ 8

/-- Where the shifts are defined. -/
def Condition (a : IntVal) : Call → Prop
  | getSXTValue size => 1 ≤ sxtWidth a size ∧ sxtWidth a size ≤ 64
  | areAllBitsOne | truncInPlace _ => True
  | shl bits | shr bits => ¬(a.width = 64 ∧ bits = 64)
  | shlBy bits | shrBy bits => ¬(a.width = 64 ∧ bits.word.toNat = 64)
  | wideCompare rhs => a.width % 64 ≠ 0 ∨ a.sign = true ∧ a.getSignBit ≠ rhs.getSignBit
  | setMaxValue => a.IsOneWord ∨ a.sign = false ∨ a.width % 64 ≠ 63
  | setMinValue => a.IsOneWord ∨ a.sign = false ∨ a.width % 64 = 63

end Call

section Ranges

variable {a : IntVal}

lemma inRange_getBitLogged {bit : Nat} (h : bit < a.width) : (a.getBitLogged bit).InRange := by
  rw [getBitLogged]
  split_ifs with hone
  · have hle : a.width ≤ 64 := hone
    rw [Logged.inRange_bind, Logged.inRange_shl]
    exact ⟨by omega, Logged.inRange_pure _⟩
  · rw [Logged.inRange_bind, Logged.inRange_shl]
    exact ⟨Nat.mod_lt _ (by decide), Logged.inRange_pure _⟩

lemma inRange_getSignBitLogged (a : IntVal) : a.getSignBitLogged.InRange :=
  inRange_getBitLogged (Nat.sub_lt a.width_pos Nat.one_pos)

lemma inRange_truncInPlaceLogged {width : Nat} (hpos : 0 < width) (bitWidth : Nat)
    (words : List UInt64) : (truncInPlaceLogged width bitWidth words).InRange := by
  rw [truncInPlaceLogged]
  by_cases hone : width ≤ kWordBitSize
  · rw [if_pos hone, Logged.inRange_bind, Logged.inRange_shr]
    refine ⟨?_, Logged.inRange_pure _⟩
    rw [kWordBitSize]
    split_ifs <;> omega
  · rw [if_neg hone, Logged.inRange_bind, Logged.inRange_shr]
    exact ⟨Nat.mod_lt _ (by decide), Logged.inRange_pure _⟩

lemma inRange_getSXTValueLogged_iff {size : Nat} (hlt : size < 2 ^ 8) (hle : size ≤ a.width) :
    (a.getSXTValueLogged size).InRange ↔
      1 ≤ Call.sxtWidth a size ∧ Call.sxtWidth a size ≤ 64 := by
  have hwidth : (if size ≠ 0 then size else a.width % 2 ^ 8) = Call.sxtWidth a size := rfl
  have hbw : Call.sxtWidth a size < 2 ^ 8 ∧ Call.sxtWidth a size ≤ a.width := by
    rw [Call.sxtWidth]
    split_ifs
    · exact ⟨hlt, hle⟩
    · exact ⟨Nat.mod_lt _ (by decide), Nat.mod_le _ _⟩
  have hiff : (kWordBitSize + 2 ^ 8 - Call.sxtWidth a size) % 2 ^ 8 < 64 ↔
      1 ≤ Call.sxtWidth a size ∧ Call.sxtWidth a size ≤ 64 := by
    rw [kWordBitSize]
    omega
  rw [getSXTValueLogged, hwidth, Logged.inRange_bind, Logged.inRange_shl, hiff]
  refine ⟨And.left, fun h => ⟨h, ?_⟩⟩
  have hshift := hiff.mpr h
  have hbit : (a.getBitLogged (Call.sxtWidth a size - 1)).InRange := inRange_getBitLogged (by omega)
  have hones : (if Call.sxtWidth a size < kWordBitSize then Call.sxtWidth a size
      else kWordBitSize - 1) < 64 := by
    rw [kWordBitSize]
    split_ifs <;> omega
  rw [Logged.inRange_bind, Logged.inRange_shl]
  refine ⟨hones, ?_⟩
  rw [if_pos (Nat.ne_of_gt h.1), Logged.inRange_bind]
  refine ⟨hbit, Logged.inRange_ite.mpr ⟨fun _ => ?_, fun _ => ?_⟩⟩
  · rw [Logged.inRange_bind, Logged.inRange_shr]
    exact ⟨hshift, Logged.inRange_pure _⟩
  · rw [Logged.inRange_bind, Logged.inRange_shr]
    exact ⟨hshift, Logged.inRange_pure _⟩

lemma inRange_getSXTValueLogged_of_isOneWord (hone : a.IsOneWord) :
    (a.getSXTValueLogged 0).InRange := by
  have hle : a.width ≤ 64 := hone
  have hpos := a.width_pos
  have hwidth : Call.sxtWidth a 0 = a.width := Nat.mod_eq_of_lt (by omega)
  rw [inRange_getSXTValueLogged_iff (by decide) (Nat.zero_le _), hwidth]
  exact ⟨hpos, hle⟩

lemma inRange_areAllBitsOneLogged (a : IntVal) : a.areAllBitsOneLogged.InRange := by
  have hpos := a.width_pos
  rw [areAllBitsOneLogged]
  split_ifs with hone
  · rw [Logged.inRange_bind, Logged.inRange_shr, kWordBitSize]
    exact ⟨by omega, Logged.inRange_pure _⟩
  · exact Logged.inRange_pure _

lemma inRange_shiftLeftLogged (dst : List UInt64) (bits : Nat) :
    (shiftLeftLogged dst bits).InRange := by
  have hmod : bits % kWordBitSize < kWordBitSize := Nat.mod_lt _ (by decide)
  rw [shiftLeftLogged]
  by_cases hbits : bits = 0
  · rw [if_pos hbits]
    exact Logged.inRange_pure _
  rw [if_neg hbits]
  dsimp only
  by_cases hzero : bits % kWordBitSize = 0
  · rw [if_pos hzero]
    simp
  · have hrest : kWordBitSize - bits % kWordBitSize < 64 := by
      rw [kWordBitSize] at hzero ⊢
      omega
    rw [if_neg hzero, Logged.inRange_bind]
    refine ⟨Logged.inRange_foldlM (fun s x _ => ?_) dst, Logged.inRange_pure _⟩
    rw [shiftLeftStepLogged, Logged.inRange_bind, Logged.inRange_shl]
    refine ⟨hmod, ?_⟩
    dsimp only
    split_ifs <;> simp [hrest]

lemma inRange_shiftRightLogged (dst : List UInt64) (bits : Nat) (negRemainder : Bool) :
    (shiftRightLogged dst bits negRemainder).InRange := by
  have hmod : bits % kWordBitSize < kWordBitSize := Nat.mod_lt _ (by decide)
  rw [shiftRightLogged]
  by_cases hbits : bits = 0
  · rw [if_pos hbits]
    exact Logged.inRange_pure _
  rw [if_neg hbits]
  dsimp only
  by_cases hzero : bits % kWordBitSize = 0
  · rw [if_pos hzero, Logged.inRange_bind, if_neg (not_not.mpr hzero)]
    exact ⟨Logged.inRange_pure _, Logged.inRange_pure _⟩
  · have hrest : kWordBitSize - bits % kWordBitSize < 64 := by
      rw [kWordBitSize] at hzero ⊢
      omega
    rw [if_neg hzero, Logged.inRange_bind, if_pos hzero, Logged.inRange_bind, Logged.inRange_shl]
    refine ⟨Logged.inRange_foldlM (fun s x _ => ?_) dst, hrest, Logged.inRange_pure _⟩
    rw [shiftRightStepLogged]
    dsimp only
    rw [Logged.inRange_bind, Logged.inRange_shr]
    refine ⟨hmod, ?_⟩
    split_ifs <;> simp [hrest]

lemma inRange_shlLogged_iff {bits : Nat} (h : bits ≤ a.width) :
    (a.shlLogged bits).InRange ↔ ¬(a.width = 64 ∧ bits = 64) := by
  have htrunc := fun words => inRange_truncInPlaceLogged a.width_pos 0 words
  rw [shlLogged]
  by_cases hone : a.IsOneWord
  · have hle : a.width ≤ 64 := hone
    rw [if_pos hone, Logged.inRange_bind, Logged.inRange_shl, and_iff_left (htrunc _)]
    omega
  · have hgt : 64 < a.width := not_le.mp hone
    rw [if_neg hone, Logged.inRange_bind]
    exact iff_of_true ⟨htrunc _, inRange_shiftLeftLogged _ _⟩ (by omega)

lemma inRange_negRemainderLogged (a : IntVal) : a.negRemainderLogged.InRange := by
  rw [negRemainderLogged]
  split_ifs
  · exact inRange_getSignBitLogged a
  · exact Logged.inRange_pure _

lemma inRange_shrLogged_iff {bits : Nat} (h : bits ≤ a.width) :
    (a.shrLogged bits).InRange ↔ ¬(a.width = 64 ∧ bits = 64) := by
  have htrunc := fun words => inRange_truncInPlaceLogged a.width_pos 0 words
  rw [shrLogged]
  by_cases hone : a.IsOneWord
  · have hle : a.width ≤ 64 := hone
    have hsxt := inRange_getSXTValueLogged_of_isOneWord hone
    have hlt : bits < 64 ↔ ¬(a.width = 64 ∧ bits = 64) := by omega
    rw [if_pos hone, ← hlt]
    split_ifs
    · simp [hsxt, htrunc]
    · simp [htrunc]
  · have hgt : 64 < a.width := not_le.mp hone
    rw [if_neg hone, Logged.inRange_bind, Logged.inRange_bind]
    exact iff_of_true ⟨htrunc _, inRange_negRemainderLogged a, inRange_shiftRightLogged _ _ _⟩
      (by omega)

lemma inRange_bitwiseCompareLogged_iff (lhs rhs : List UInt64) (comparedWidth : Nat) :
    (bitwiseCompareLogged lhs rhs comparedWidth).InRange ↔ comparedWidth % 64 ≠ 0 := by
  rw [bitwiseCompareLogged]
  dsimp only
  rw [Logged.inRange_bind, Logged.inRange_shr, kWordBitSize, and_iff_left]
  · omega
  · split_ifs <;> exact Logged.inRange_pure _

lemma inRange_wideCompareLogged_iff (lhs rhs : IntVal) :
    (wideCompareLogged lhs rhs).InRange ↔
      lhs.width % 64 ≠ 0 ∨ lhs.sign = true ∧ lhs.getSignBit ≠ rhs.getSignBit := by
  have hl := inRange_getSignBitLogged lhs
  have hr := inRange_getSignBitLogged rhs
  rw [wideCompareLogged]
  by_cases hsign : lhs.sign = true
  · rw [if_pos hsign, Logged.inRange_bind, Logged.inRange_bind, and_iff_right hl, and_iff_right hr,
      and_iff_right hsign, val_getSignBitLogged, val_getSignBitLogged]
    split_ifs with hne
    · exact iff_of_true (Logged.inRange_pure _) (Or.inr hne)
    · exact iff_of_true (Logged.inRange_pure _) (Or.inr hne)
    · rw [inRange_bitwiseCompareLogged_iff, or_iff_left hne]
  · rw [if_neg hsign, inRange_bitwiseCompareLogged_iff, or_iff_left fun h => hsign h.1]

lemma inRange_setMaxValueLogged_iff (a : IntVal) :
    a.setMaxValueLogged.InRange ↔ a.IsOneWord ∨ a.sign = false ∨ a.width % 64 ≠ 63 := by
  have hpos := a.width_pos
  have htrunc := fun words => inRange_truncInPlaceLogged a.width_pos 0 words
  rw [setMaxValueLogged]
  by_cases hone : a.IsOneWord
  · have hle : a.width ≤ 64 := hone
    rw [if_pos hone]
    refine iff_of_true (Logged.inRange_ite.mpr ⟨fun _ => ?_, fun _ => ?_⟩) (Or.inl hone)
    · rw [Logged.inRange_bind, Logged.inRange_shl]
      exact ⟨by omega, Logged.inRange_pure _⟩
    · rw [Logged.inRange_bind, Logged.inRange_shr, kWordBitSize]
      exact ⟨by omega, Logged.inRange_pure _⟩
  · rw [if_neg hone, or_iff_right hone]
    cases a.sign with
    | false => exact iff_of_true (by simp [htrunc]) (Or.inl rfl)
    | true =>
      have hlt : a.width % kWordBitSize + 1 < 64 ↔ a.width % 64 ≠ 63 := by
        rw [kWordBitSize]
        omega
      simp [htrunc, hlt]

lemma inRange_setMinValueLogged_iff (a : IntVal) :
    a.setMinValueLogged.InRange ↔ a.IsOneWord ∨ a.sign = false ∨ a.width % 64 = 63 := by
  have hpos := a.width_pos
  have htrunc := fun words => inRange_truncInPlaceLogged a.width_pos 0 words
  rw [setMinValueLogged]
  by_cases hone : a.IsOneWord
  · have hle : a.width ≤ 64 := hone
    rw [if_pos hone]
    refine iff_of_true (Logged.inRange_ite.mpr ⟨fun _ => ?_, fun _ => Logged.inRange_pure _⟩)
      (Or.inl hone)
    rw [Logged.inRange_bind, Logged.inRange_shl]
    exact ⟨by omega, Logged.inRange_pure _⟩
  · rw [if_neg hone, or_iff_right hone]
    cases a.sign with
    | false => exact iff_of_true (by simp [htrunc]) (Or.inl rfl)
    | true =>
      have hshift := minShift_eq (not_le.mp hone)
      have hlt : (((kWordBitSize : Int) - (a.width + 1)).tmod kWordBitSize % 2 ^ 8).toNat < 64 ↔
          a.width % 64 = 63 := by
        rw [hshift]
        split_ifs <;> omega
      rw [if_pos rfl]
      dsimp only
      rw [Logged.inRange_bind, Logged.inRange_bind, Logged.inRange_shl, hlt]
      simp [htrunc]

end Ranges

/-- The amounts of the shifts are less than 64 but in these calls: `GetSXTValue` of a width whose
remainder modulo 256 is not between 1 and 64, a shift of all 64 bits of a word, a comparison of full
words, and the extremal values of signed numbers in several words. -/
theorem inRange_iff (a : IntVal) (call : Call) (h : call.Admitted a) :
    call.InRange a ↔ call.Condition a := by
  cases call with
  | getSXTValue size => exact inRange_getSXTValueLogged_iff h.1 h.2.2
  | areAllBitsOne => exact iff_of_true (inRange_areAllBitsOneLogged a) trivial
  | truncInPlace bitWidth => exact iff_of_true (inRange_truncInPlaceLogged a.width_pos _ _) trivial
  | shl bits => exact inRange_shlLogged_iff h
  | shlBy bits => exact inRange_shlLogged_iff h.2.2
  | shr bits => exact inRange_shrLogged_iff h
  | shrBy bits => exact inRange_shrLogged_iff h.2
  | wideCompare rhs => exact inRange_wideCompareLogged_iff a rhs
  | setMaxValue => exact inRange_setMaxValueLogged_iff a
  | setMinValue => exact inRange_setMinValueLogged_iff a

theorem inRange_iff_i64 :
    (Call.shl 3).InRange (ofNumber i64 5) ↔ (Call.shl 3).Condition (ofNumber i64 5) :=
  inRange_iff (ofNumber i64 5) (.shl 3) (by unfold Call.Admitted; decide)

/-- Zero of 128 bits is read with a shift by 192, and compared with one by 64. -/
theorem not_inRange_zero :
    (Call.getSXTValue 0).Admitted (ofNumber u128 0) ∧
      ¬(Call.getSXTValue 0).InRange (ofNumber u128 0) ∧
      ((ofNumber u128 0).getSXTValueLogged 0).amounts.head? = some 192 ∧
      ¬(Call.wideCompare (ofNumber u128 0)).InRange (ofNumber u128 0) := by
  have hadmitted : (Call.getSXTValue 0).Admitted (ofNumber u128 0) := by
    unfold Call.Admitted
    decide
  refine ⟨hadmitted, fun h => ?_, by decide, fun h => ?_⟩
  · have hwidth := (inRange_getSXTValueLogged_iff hadmitted.1 hadmitted.2.2).mp h
    revert hwidth
    decide
  · have hwidth := (inRange_wideCompareLogged_iff (ofNumber u128 0) (ofNumber u128 0)).mp h
    revert hwidth
    decide

end IntVal
end Maple
