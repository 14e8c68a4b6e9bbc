import Maple.IR.StringLiteral
import Maple.Util.IntVal.TypedShift
import Mathlib.Data.Nat.Digits.Defs
import Mathlib.Tactic.Ring

/-!
# Integer literals

`MIRLexer::GetConstVal` with `GetHexConst`, `GetLongHexConst` and `GetIntConst` (`lexer.cpp`).
Numbers with a fraction or an exponent are not followed, and the floating-point members of the lexer
are left out.
-/

namespace Maple

open IntVal

/-! ### Characters -/

def isDigit (c : UInt8) : Bool := decide (ch '0' ≤ c ∧ c ≤ ch '9')

def isXDigit (c : UInt8) : Bool :=
  isDigit c || decide (ch 'a' ≤ c ∧ c ≤ ch 'f') || decide (ch 'A' ≤ c ∧ c ≤ ch 'F')

def isAlnum (c : UInt8) : Bool :=
  isDigit c || decide (ch 'a' ≤ c ∧ c ≤ ch 'z') || decide (ch 'A' ≤ c ∧ c ≤ ch 'Z')

def hexCharToDigit (c : UInt8) : UInt8 := if toDigit16 c ≠ 255 then toDigit16 c else 0

/-- A character of the suffixes `u` and `l`. -/
def isSuffix (c : UInt8) : Bool := c == ch 'u' || c == ch 'U' || c == ch 'l' || c == ch 'L'

/-- A character that makes a number one with a fraction or an exponent. -/
def isFloating (c : UInt8) : Bool :=
  c == ch '.' || c == ch 'f' || c == ch 'F' || c == ch 'e' || c == ch 'E'

/-- `"0x"`. -/
def hexPrefix : List UInt8 := [ch '0', ch 'x']

/-! ### The lexer -/

/-- The token kinds of `GetConstVal`; `floating` stands for `TK_floatconst` and `TK_doubleconst`,
and for `TK_invalid` behind an incomplete exponent. -/
inductive ConstKind
  | intconst
  | invalid
  | floating
deriving DecidableEq

/-- `MIRLexer` with the members for numbers; `theInt128Val` has no width before it is assigned. -/
structure ConstLexer extends MIRLexer where
  theIntVal : UInt64
  theInt128Val : Option IntVal
  theLongDoubleVal : UInt64 × UInt64

/-- The shape of a value of 128 bits. -/
def int128 (sign : Bool) : Shape := ⟨128, sign, Shape.pos_128, Shape.numWords_128⟩

/-- The shape of a value of 64 bits. -/
def int64 (sign : Bool) : Shape := ⟨64, sign, Shape.pos_64, Shape.numWords_64⟩

namespace ConstLexer

def charAt (lx : ConstLexer) (idx : UInt32) : UInt8 :=
  MIRLexer.currentChar lx.currentLineSize lx.line idx

/-- `line.compare(idx, text.size(), text) == 0`. -/
def compareAt (lx : ConstLexer) (idx : UInt32) (text : List UInt8) : Bool :=
  (lx.line.drop idx.toNat).take text.length == text

/-- `line.substr(valStart, curIdx - valStart)`. -/
def nameFrom (lx : ConstLexer) (valStart curIdx : UInt32) : List UInt8 :=
  (lx.line.drop valStart.toNat).take (curIdx - valStart).toNat

/-- `while (p(c)) { s = f(s, c); c = GetNextCurrentCharWithUpperCheck(); }`. -/
def scan {σ : Type} (lx : ConstLexer) (p : UInt8 → Bool) (f : σ → UInt8 → Option σ) (fuel : Nat)
    (s : σ) (idx : UInt32) : Outcome (σ × UInt32) :=
  whileLoop (fun x => p (lx.charAt x.2))
    (fun x => (f x.1 (lx.charAt x.2)).map fun s => (s, x.2 + 1)) fuel (s, idx)

/-- The token of a number, from its digits: `theIntVal` is read in the given type. -/
def setInt (lx : ConstLexer) (t : Shape) (negative : Bool) (tmp : IntVal) :
    Outcome (ConstKind × ConstLexer) :=
  let tmp := if negative then tmp.neg else tmp
  .ofOption ((tmp.trunc t).map fun low =>
    (.intconst, { lx with theIntVal := (low.getExtValue 0).toUInt64, theInt128Val := some tmp }))

/-- `(tmp << 4) + digit`. -/
def hexRound (tmp : IntVal) (c : UInt8) : Option IntVal :=
  (tmp.shl 4).map fun shifted =>
    shifted.add (ofNumber shifted.shape (hexCharToDigit c).toUInt64)

def getHexConst (fuel : Nat) (lx : ConstLexer) (valStart : UInt32) (negative : Bool) :
    Outcome (ConstKind × ConstLexer) :=
  let c := lx.charAt lx.curIdx
  if !isXDigit c then .done (.invalid, { lx with name := lx.nameFrom valStart lx.curIdx })
  else
    let tmp := ofNumber (int128 negative) (hexCharToDigit c).toUInt64
    (lx.scan isXDigit hexRound fuel tmp (lx.curIdx + 1)).bind fun (tmp, idx) =>
      { lx with curIdx := idx, name := lx.nameFrom valStart idx }.setInt (int64 true) negative tmp

/-- `GetLongHexConst`. It does not set `theInt128Val`. -/
def getLongHexConst (fuel : Nat) (lx : ConstLexer) (valStart : UInt32) (negative : Bool) :
    Outcome (ConstKind × ConstLexer) :=
  if !isXDigit (lx.charAt lx.curIdx) then
    .done (.invalid, { lx with name := lx.nameFrom valStart lx.curIdx })
  else
    (lx.scan isXDigit (fun (tmp : BitVec 128) c =>
        some ((tmp <<< 4) + BitVec.ofNat 128 (hexCharToDigit c).toNat)) fuel 0 lx.curIdx).bind
      fun (tmp, idx) =>
        let low := UInt64.ofNat tmp.toNat
        let high := UInt64.ofNat (tmp >>> 64).toNat
        .done (.intconst, { lx with
          curIdx := idx
          name := lx.nameFrom valStart idx
          theIntVal := if negative then -low else low
          theLongDoubleVal := (high, low) })

/-- `(tmp * radix) + digit`. -/
def intRound (radix : UInt64) (tmp : IntVal) (c : UInt8) : IntVal :=
  let product := tmp.mul (ofNumber tmp.shape radix) rfl
  product.add (ofNumber product.shape (hexCharToDigit c).toUInt64)

/-- The position behind the suffix of a number. -/
def skipSuffix (lx : ConstLexer) (idx : UInt32) : UInt32 :=
  let isU (c : UInt8) : Bool := c == ch 'u' || c == ch 'U'
  let isL (c : UInt8) : Bool := c == ch 'l' || c == ch 'L'
  let idx :=
    if isU (lx.charAt idx) then
      if isL (lx.charAt (idx + 1)) then idx + 2 else idx + 1
    else idx
  if isL (lx.charAt idx) then
    if isL (lx.charAt (idx + 1)) || isU (lx.charAt (idx + 1)) then idx + 2 else idx + 1
  else idx

def getIntConst (fuel : Nat) (lx : ConstLexer) (valStart : UInt32) (negative : Bool) :
    Outcome (ConstKind × ConstLexer) :=
  let c := lx.charAt lx.curIdx
  if !isXDigit c then .done (.invalid, { lx with name := lx.nameFrom valStart lx.curIdx })
  else
    let radix := if hexCharToDigit c = 0 then 8 else 10
    let tmp := ofNumber (int128 negative) 0
    (lx.scan isDigit (fun tmp c => some (intRound radix tmp c)) fuel tmp lx.curIdx).bind
      fun (tmp, idx) =>
        let idx := lx.skipSuffix idx
        { lx with curIdx := idx, name := lx.nameFrom valStart idx }.setInt (int64 false) negative
          tmp

/-- `GetSpecialFloatConst`: the position behind the literal. -/
def getSpecialFloatConst (lx : ConstLexer) : Option UInt32 :=
  ["inff", "inf", "nanf", "nan"].findSome? fun text =>
    let behind := lx.curIdx + UInt32.ofNat text.length
    if lx.compareAt lx.curIdx (text.toList.map ch) && !isAlnum (lx.charAt behind) then some behind
    else none

/-- `GetConstVal`, behind the sign. -/
def getUnsigned (fuel : Nat) (lx : ConstLexer) (valStart : UInt32) (negative : Bool) :
    Outcome (ConstKind × ConstLexer) :=
  if lx.compareAt lx.curIdx (hexPrefix ++ [ch 'L']) then
    { lx with curIdx := lx.curIdx + 3 }.getLongHexConst fuel valStart negative
  else if lx.compareAt lx.curIdx hexPrefix then
    let idx := lx.curIdx + 2
    let idx := if lx.compareAt idx [ch 'L'] then idx + 2 else idx
    { lx with curIdx := idx }.getHexConst fuel valStart negative
  else
    (lx.scan isDigit (fun s _ => some s) fuel () lx.curIdx).bind fun (_, idx) =>
      let c := lx.charAt idx
      if !isDigit (lx.charAt lx.curIdx) && c != ch '.' then
        .done (.invalid, { lx with curIdx := idx })
      else if !isFloating c then lx.getIntConst fuel valStart negative
      else .done (.floating, { lx with curIdx := idx })

def getConstVal (fuel : Nat) (lx : ConstLexer) : Outcome (ConstKind × ConstLexer) :=
  let valStart := lx.curIdx
  if lx.charAt lx.curIdx = ch '-' then
    let lx := { lx with curIdx := lx.curIdx + 1 }
    match lx.getSpecialFloatConst with
    | some idx => .done (.floating, { lx with curIdx := idx })
    | none => lx.getUnsigned fuel valStart true
  else lx.getUnsigned fuel valStart false

end ConstLexer

/-! ### The number of a literal -/

/-- The number that digits write, the highest digit first. -/
def readDigits (radix : Nat) (ds : List UInt8) : Nat :=
  Nat.ofDigits radix (ds.map fun c => (hexCharToDigit c).toNat).reverse

/-- The number that a literal without a sign writes: hexadecimal behind `0x`, octal from a zero on,
and decimal otherwise. -/
def unsignedNumber (body : List UInt8) : Option Nat :=
  if body.take 2 = hexPrefix then
    if body.drop 2 ≠ [] ∧ (body.drop 2).all isXDigit then some (readDigits 16 (body.drop 2))
    else none
  else if body = [] ∨ ¬body.all isDigit then none
  else if body.head? = some (ch '0') then
    if body.all fun c => decide (c < ch '8') then some (readDigits 8 body) else none
  else some (readDigits 10 body)

/-- The literal behind its sign. -/
def unsigned (text : List UInt8) : List UInt8 :=
  if text.head? = some (ch '-') then text.tail else text

/-- The number that a literal writes. -/
def literalNumber (text : List UInt8) : Option Int :=
  (unsignedNumber (unsigned text)).map fun (n : Nat) =>
    if text.head? = some (ch '-') then -(n : Int) else n

/-- A literal without a sign ends before the character `c`. -/
def endsBefore (body : List UInt8) (c : UInt8) : Bool :=
  if body.take 2 = hexPrefix then !isXDigit c
  else !isDigit c && !isFloating c && !(body == [ch '0'] && c == ch 'x')

namespace ConstLexer

/-- The values of a token are those of the number, modulo `2 ^ 128` and modulo `2 ^ 64`. -/
structure Denotes (lx : ConstLexer) (n : Int) : Prop where
  wide : ∃ v sign, lx.theInt128Val = some v ∧ v.Represents (int128 sign) n
  word : (lx.theIntVal.toNat : Int) = n % 2 ^ 64

/-! ### Texts in the line -/

/-- The text is at the position, in the part of the line that the size counts. -/
structure Sees (lx : ConstLexer) (idx : UInt32) (text : List UInt8) : Prop where
  fits : idx.toNat + text.length ≤ lx.currentLineSize.toNat
  starts : text <+: lx.line.drop idx.toNat

variable {lx : ConstLexer} {idx : UInt32} {text front rest ds : List UInt8} {c : UInt8}

lemma toNat_add {n : Nat} (h : idx.toNat + n < 2 ^ 32) :
    (idx + UInt32.ofNat n).toNat = idx.toNat + n := by
  have hn : n < 2 ^ 32 := by omega
  rw [UInt32.toNat_add, UInt32.toNat_ofNat_of_lt' hn, Nat.mod_eq_of_lt h]

lemma Sees.lt (h : lx.Sees idx text) : idx.toNat + text.length < 2 ^ 32 :=
  Nat.lt_of_le_of_lt h.fits lx.currentLineSize.toNat_lt

lemma Sees.left (rest : List UInt8) (h : lx.Sees idx (front ++ rest)) : lx.Sees idx front where
  fits := by
    have hfits := h.fits
    rw [List.length_append] at hfits
    omega
  starts := (List.prefix_append front rest).trans h.starts

lemma Sees.right (front : List UInt8) (h : lx.Sees idx (front ++ rest)) :
    lx.Sees (idx + UInt32.ofNat front.length) rest := by
  have hfits := h.fits
  have hlt := h.lt
  rw [List.length_append] at hfits hlt
  have hadd : (idx + UInt32.ofNat front.length).toNat = idx.toNat + front.length :=
    toNat_add (by omega)
  obtain ⟨post, hpost⟩ := h.starts
  refine ⟨?_, post, ?_⟩
  · rw [hadd]
    omega
  · rw [hadd, ← List.drop_drop, ← hpost, List.append_assoc, List.drop_left]

lemma Sees.tail (h : lx.Sees idx (c :: rest)) : lx.Sees (idx + 1) rest :=
  Sees.right [c] h

lemma add_one_add_length (idx : UInt32) (c : UInt8) (ds : List UInt8) :
    idx + 1 + UInt32.ofNat ds.length = idx + UInt32.ofNat (c :: ds).length := by
  rw [List.length_cons, Nat.add_comm, UInt32.ofNat_add, ← UInt32.add_assoc]
  rfl

lemma Sees.charAt (h : lx.Sees idx (c :: rest)) : lx.charAt idx = c := by
  have hfits := h.fits
  have hlt : idx < lx.currentLineSize := by
    rw [UInt32.lt_iff_toNat_lt]
    simp only [List.length_cons] at hfits
    omega
  obtain ⟨post, hpost⟩ := h.starts
  have hget := congrArg List.head? hpost
  rw [List.cons_append, List.head?_cons, List.head?_drop] at hget
  rw [ConstLexer.charAt, MIRLexer.currentChar, if_pos hlt, MIRLexer.getCharAt,
    List.getD_eq_getElem?_getD, ← hget, Option.getD_some]

lemma compareAt_iff : lx.compareAt idx text = true ↔ text <+: lx.line.drop idx.toNat := by
  rw [compareAt, beq_iff_eq, List.prefix_iff_eq_take, eq_comm]

lemma Sees.nameFrom (h : lx.Sees idx text) :
    lx.nameFrom idx (idx + UInt32.ofNat text.length) = text := by
  have hlt := h.lt
  have hsub : (idx + UInt32.ofNat text.length - idx).toNat = text.length := by
    rw [UInt32.add_comm, UInt32.add_sub_cancel,
      UInt32.toNat_ofNat_of_lt' (show _ < 2 ^ 32 by omega)]
  rw [ConstLexer.nameFrom, hsub]
  exact (List.prefix_iff_eq_take.mp h.starts).symm

end ConstLexer

/-! ### Digits -/

lemma readDigits_cons (radix : Nat) (c : UInt8) (ds : List UInt8) :
    readDigits radix (c :: ds) =
      (hexCharToDigit c).toNat * radix ^ ds.length + readDigits radix ds := by
  simp only [readDigits, List.map_cons, List.reverse_cons, Nat.ofDigits_append,
    List.length_reverse, List.length_map, Nat.ofDigits_singleton]
  ring

namespace ConstLexer

variable (lx : ConstLexer) {σ : Type} {p : UInt8 → Bool} {f : σ → UInt8 → Option σ}
  {R : σ → Nat → Prop} {r : Nat}

lemma settles_scan
    (hround : ∀ s n c, p c = true → R s n →
      ∃ s', f s c = some s' ∧ R s' (n * r + (hexCharToDigit c).toNat))
    (ds : List UInt8) : ∀ {s : σ} {n : Nat} {idx : UInt32}, lx.Sees idx ds →
      (∀ c ∈ ds, p c = true) →
      p (lx.charAt (idx + UInt32.ofNat ds.length)) = false → R s n →
      ∃ s', Outcome.Settles (fun fuel => lx.scan p f fuel s idx)
        (.done (s', idx + UInt32.ofNat ds.length)) ∧
        R s' (n * r ^ ds.length + readDigits r ds) := by
  induction ds with
  | nil =>
    intro s n idx _ _ hend hs
    refine ⟨s, ?_, by simpa [readDigits] using hs⟩
    have hzero : idx + UInt32.ofNat ([] : List UInt8).length = idx := UInt32.add_zero idx
    rw [hzero] at hend ⊢
    apply Outcome.Settles.of_succ
    simp only [scan, whileLoop, hend, Bool.false_eq_true, if_false]
    exact Outcome.settles_const (by simp)
  | cons c ds ih =>
    intro s n idx hsees hp hend hs
    have hc : p c = true := hp c List.mem_cons_self
    obtain ⟨s₁, hf, hs₁⟩ := hround s n c hc hs
    rw [← add_one_add_length] at hend ⊢
    obtain ⟨s', hsettles, hs'⟩ :=
      ih hsees.tail (fun d hd => hp d (List.mem_cons_of_mem c hd)) hend hs₁
    refine ⟨s', ?_, ?_⟩
    · apply Outcome.Settles.of_succ
      simp only [scan, whileLoop, hsees.charAt, hc, hf, Option.map_some, if_true]
      exact hsettles
    · have hsum : n * r ^ (c :: ds).length + readDigits r (c :: ds) =
          (n * r + (hexCharToDigit c).toNat) * r ^ ds.length + readDigits r ds := by
        rw [readDigits_cons, List.length_cons, Nat.pow_succ]
        ring
      rw [hsum]
      exact hs'

end ConstLexer

/-! ### Rounds -/

lemma isPrim_int128 (sign : Bool) : (int128 sign).IsPrim := Or.inr rfl

lemma not_isOneWord_int128 (sign : Bool) : ¬(int128 sign).IsOneWord := by
  cases sign <;> decide

lemma ofNumber_represents_of_lt {s : Shape} (hs : s.IsPrim) {w : UInt64} (h : w.toNat < 2 ^ 63) :
    (ofNumber s w).Represents s w.toNat := by
  have hrep := ofNumber_represents hs w
  have hlt := w.toNat_lt
  cases hsign : s.sign with
  | false =>
    rw [hsign, wrap_word_eq_of_unsigned hlt] at hrep
    exact hrep
  | true =>
    rw [hsign, wrap_word_eq hlt, if_neg (by omega)] at hrep
    exact hrep

lemma toNat_hexCharToDigit_lt (c : UInt8) : (hexCharToDigit c).toUInt64.toNat < 2 ^ 63 := by
  have hlt := (hexCharToDigit c).toNat_lt
  rw [UInt8.toNat_toUInt64]
  omega

section Rounds

variable {negative : Bool} {tmp : IntVal} {n : Nat}

lemma intRound_represents {radix : UInt64} (hradix : radix.toNat < 2 ^ 63) (c : UInt8)
    (h : tmp.Represents (int128 negative) n) :
    (ConstLexer.intRound radix tmp c).Represents (int128 negative)
      (n * radix.toNat + (hexCharToDigit c).toNat : Nat) := by
  have hprim := isPrim_int128 negative
  have hfactor : (ofNumber tmp.shape radix).Represents (int128 negative) radix.toNat := by
    rw [h.shape_eq]
    exact ofNumber_represents_of_lt hprim hradix
  have hproduct := h.mul hprim hfactor rfl
  have hdigit := ofNumber_represents_of_lt hprim (toNat_hexCharToDigit_lt c)
  rw [UInt8.toNat_toUInt64] at hdigit
  have hsum := hproduct.add hprim hdigit
  rw [ConstLexer.intRound]
  simp only [hproduct.shape_eq]
  push_cast
  exact hsum

lemma hexRound_represents (c : UInt8) (h : tmp.Represents (int128 negative) n) :
    ∃ tmp', ConstLexer.hexRound tmp c = some tmp' ∧
      tmp'.Represents (int128 negative) (n * 16 + (hexCharToDigit c).toNat : Nat) := by
  have hprim := isPrim_int128 negative
  obtain ⟨r, hr, hshifted⟩ := shl_represents_of_wide h hprim (not_isOneWord_int128 negative)
    (show 4 < 128 by decide)
  have hvalue : (tmp.value : Int) = n % 2 ^ 128 := h.value_eq
  have htimes : r.Represents (int128 negative) (n * 16 : Int) := by
    apply hshifted.of_emod_eq
    change (tmp.value : Int) * 2 ^ 4 % 2 ^ 128 = n * 16 % 2 ^ 128
    rw [hvalue]
    omega
  have hdigit := ofNumber_represents_of_lt hprim (toNat_hexCharToDigit_lt c)
  rw [UInt8.toNat_toUInt64] at hdigit
  have hsum := htimes.add hprim hdigit
  refine ⟨r.add (ofNumber r.shape (hexCharToDigit c).toUInt64), ?_, ?_⟩
  · rw [ConstLexer.hexRound, hr, Option.map_some]
  · rw [hshifted.shape_eq]
    push_cast
    exact hsum

end Rounds

namespace ConstLexer

lemma setInt_denotes (lx : ConstLexer) (t : Shape) (ht : t.width = 64) {negative : Bool}
    {tmp : IntVal} {n : Nat} (h : tmp.Represents (int128 negative) n) :
    ∃ lx', lx.setInt t negative tmp = .done (.intconst, lx') ∧ lx'.name = lx.name ∧
      lx'.Denotes (if negative then -(n : Int) else n) := by
  have hprim := isPrim_int128 negative
  have hsigned : (if negative then tmp.neg else tmp).Represents (int128 negative)
      (if negative then -(n : Int) else n) := by
    cases negative with
    | false => exact h
    | true => exact h.neg hprim
  generalize hv : (if negative then tmp.neg else tmp) = v at hsigned
  generalize (if negative then -(n : Int) else n) = x at hsigned ⊢
  have hwidth : v.width = 128 := congrArg Shape.width hsigned.shape_eq
  obtain ⟨low, hlow, hshape, hvalue⟩ := trunc_spec (s := t) hsigned.width_le_storageBits (by omega)
  have hone : t.IsOneWord := ht.le
  rw [Shape.kept, if_pos hone, ht] at hvalue
  have hlowWidth : low.width = 64 := (congrArg Shape.width hshape).trans ht
  refine ⟨{ lx with theIntVal := (low.getExtValue 0).toUInt64, theInt128Val := some v }, ?_, rfl,
    ⟨v, negative, rfl, hsigned⟩, ?_⟩
  · simp only [setInt, hv, hlow, Option.map_some, Outcome.ofOption]
  · have hext := toNat_getExtValue_mod (a := low) hlowWidth.le
    have hlt := (low.getExtValue 0).toUInt64.toNat_lt
    have hwide : (v.value : Int) = x % 2 ^ 128 := hsigned.value_eq
    rw [hlowWidth, hvalue] at hext
    change ((low.getExtValue 0).toUInt64.toNat : Int) = x % 2 ^ 64
    omega

/-! ### The literals -/

/-- A number with its sign. -/
def signed (negative : Bool) (n : Nat) : Int := if negative then -(n : Int) else n

variable {idx : UInt32} {text ds body : List UInt8} {c : UInt8} {n : Nat} (negative : Bool)
  (valStart : UInt32) (lx : ConstLexer)

variable {lx} in
lemma Sees.eq_of_compareAt (h : lx.Sees idx ds) (hlen : ds.length = text.length)
    (hcompare : lx.compareAt idx text = true) : ds = text := by
  have hprefix := compareAt_iff.mp hcompare
  exact (List.prefix_of_prefix_length_le h.starts hprefix hlen.le).eq_of_length hlen

lemma settles_getHexConst (hsees : lx.Sees lx.curIdx (c :: ds))
    (hall : ∀ d ∈ c :: ds, isXDigit d = true)
    (hend : isXDigit (lx.charAt (lx.curIdx + UInt32.ofNat (c :: ds).length)) = false) :
    ∃ lx', Outcome.Settles (fun fuel => lx.getHexConst fuel valStart negative)
        (.done (.intconst, lx')) ∧
      lx'.name = lx.nameFrom valStart (lx.curIdx + UInt32.ofNat (c :: ds).length) ∧
      lx'.Denotes (signed negative (readDigits 16 (c :: ds))) := by
  have hc : isXDigit c = true := hall c List.mem_cons_self
  have hfirst := ofNumber_represents_of_lt (isPrim_int128 negative) (toNat_hexCharToDigit_lt c)
  rw [UInt8.toNat_toUInt64] at hfirst
  rw [← add_one_add_length] at hend ⊢
  obtain ⟨tmp, hscan, htmp⟩ := settles_scan lx (p := isXDigit) (f := hexRound)
    (R := fun tmp n => tmp.Represents (int128 negative) n)
    (fun _ _ d _ h => hexRound_represents d h)
    ds hsees.tail (fun d hd => hall d (List.mem_cons_of_mem c hd)) hend hfirst
  rw [← readDigits_cons] at htmp
  obtain ⟨lx', hset, hname, hdenotes⟩ := setInt_denotes
    { lx with
      curIdx := lx.curIdx + 1 + UInt32.ofNat ds.length
      name := lx.nameFrom valStart (lx.curIdx + 1 + UInt32.ofNat ds.length) }
    (int64 true) rfl htmp
  refine ⟨lx', ?_, hname, hdenotes⟩
  have hbind := hscan.bind (f := fun x _ =>
    { lx with curIdx := x.2, name := lx.nameFrom valStart x.2 }.setInt (int64 true) negative x.1)
    (by rw [hset]; exact Outcome.settles_const (by simp))
  simp only [getHexConst, hsees.charAt, hc, Bool.not_true, Bool.false_eq_true, if_false]
  exact hbind

lemma exists_of_isDigit (h : isDigit c = true) : ∃ d < 10, c = UInt8.ofNat (48 + d) := by
  rw [isDigit, decide_eq_true_eq, UInt8.le_iff_toNat_le, UInt8.le_iff_toNat_le] at h
  obtain ⟨hlow, hhigh⟩ := h
  change 48 ≤ c.toNat at hlow
  change c.toNat ≤ 57 at hhigh
  refine ⟨c.toNat - 48, by omega, ?_⟩
  rw [Nat.add_sub_cancel' hlow, UInt8.ofNat_toNat]

lemma hexCharToDigit_eq_zero_iff (h : isDigit c = true) : hexCharToDigit c = 0 ↔ c = ch '0' := by
  have hall : ∀ d < 10,
      hexCharToDigit (UInt8.ofNat (48 + d)) = 0 ↔ UInt8.ofNat (48 + d) = ch '0' := by decide
  obtain ⟨d, hd, rfl⟩ := exists_of_isDigit h
  exact hall d hd

lemma settles_getIntConst (hsees : lx.Sees lx.curIdx (c :: ds))
    (hall : ∀ d ∈ c :: ds, isDigit d = true)
    (hend : isDigit (lx.charAt (lx.curIdx + UInt32.ofNat (c :: ds).length)) = false) :
    ∃ lx', Outcome.Settles (fun fuel => lx.getIntConst fuel valStart negative)
        (.done (.intconst, lx')) ∧
      lx'.name = lx.nameFrom valStart
        (lx.skipSuffix (lx.curIdx + UInt32.ofNat (c :: ds).length)) ∧
      lx'.Denotes (signed negative (readDigits (if c = ch '0' then 8 else 10) (c :: ds))) := by
  have hc : isDigit c = true := hall c List.mem_cons_self
  have hx : isXDigit c = true := by simp [isXDigit, hc]
  have hzero : (ofNumber (int128 negative) 0).Represents (int128 negative) (0 : Nat) :=
    ofNumber_represents_of_lt (isPrim_int128 negative) (by decide)
  have hradix : (if hexCharToDigit c = 0 then (8 : UInt64) else 10).toNat =
      if c = ch '0' then 8 else 10 := by
    simp only [hexCharToDigit_eq_zero_iff hc]
    split_ifs <;> rfl
  generalize hr : (if hexCharToDigit c = 0 then (8 : UInt64) else 10) = radix at hradix
  have hlt : radix.toNat < 2 ^ 63 := by
    rw [hradix]
    split_ifs <;> norm_num
  obtain ⟨tmp, hscan, htmp⟩ := settles_scan lx (p := isDigit)
    (f := fun tmp c => some (intRound radix tmp c))
    (R := fun tmp n => tmp.Represents (int128 negative) n)
    (fun _ _ d _ h => ⟨_, rfl, intRound_represents hlt d h⟩) (c :: ds) hsees hall hend hzero
  rw [Nat.zero_mul, Nat.zero_add, hradix] at htmp
  generalize lx.curIdx + UInt32.ofNat (c :: ds).length = idx at hscan ⊢
  obtain ⟨lx', hset, hname, hdenotes⟩ := setInt_denotes
    { lx with curIdx := lx.skipSuffix idx, name := lx.nameFrom valStart (lx.skipSuffix idx) }
    (int64 false) rfl htmp
  refine ⟨lx', ?_, hname, hdenotes⟩
  have hbind := hscan.bind (f := fun x _ =>
    { lx with
      curIdx := lx.skipSuffix x.2
      name := lx.nameFrom valStart (lx.skipSuffix x.2) }.setInt (int64 false) negative x.1)
    (by rw [hset]; exact Outcome.settles_const (by simp))
  simp only [getIntConst, hsees.charAt, hx, hr, Bool.not_true, Bool.false_eq_true, if_false]
  exact hbind

lemma skipSuffix_eq (h : isSuffix (lx.charAt idx) = false) : lx.skipSuffix idx = idx := by
  simp only [isSuffix, Bool.or_eq_false_iff] at h
  simp [skipSuffix, h]

lemma cases_of_unsignedNumber (h : unsignedNumber body = some n) :
    (∃ c ds, body = hexPrefix ++ c :: ds ∧ (∀ d ∈ c :: ds, isXDigit d = true) ∧
      n = readDigits 16 (c :: ds)) ∨
    (∃ c ds, body = c :: ds ∧ (∀ d ∈ c :: ds, isDigit d = true) ∧
      n = readDigits (if c = ch '0' then 8 else 10) (c :: ds)) := by
  rw [unsignedNumber] at h
  by_cases hhex : body.take 2 = hexPrefix
  · left
    rw [if_pos hhex] at h
    split_ifs at h with hdigits
    obtain ⟨hne, hall⟩ := hdigits
    have hbody : body = hexPrefix ++ body.drop 2 := by
      rw [← hhex, List.take_append_drop]
    generalize body.drop 2 = digits at h hne hall hbody
    cases digits with
    | nil => exact absurd rfl hne
    | cons c ds =>
      refine ⟨c, ds, hbody, ?_, ?_⟩
      · simpa only [List.all_eq_true] using hall
      · simpa using h.symm
  · right
    rw [if_neg hhex] at h
    cases body with
    | nil => simp at h
    | cons c ds =>
      simp only [List.cons_ne_nil, false_or, List.head?_cons, Option.some.injEq] at h
      split_ifs at h with hall hzero hoctal
      · refine ⟨c, ds, rfl, ?_, ?_⟩
        · simpa only [List.all_eq_true, not_not] using hall
        · simpa [hzero] using h.symm
      · refine ⟨c, ds, rfl, ?_, ?_⟩
        · simpa only [List.all_eq_true, not_not] using hall
        · simpa [hzero] using h.symm

lemma compareAt_hexPrefix (hsees : lx.Sees idx (c :: ds)) (hall : ∀ d ∈ c :: ds, isDigit d = true)
    (hzero : c :: ds = [ch '0'] → lx.compareAt idx hexPrefix = false) :
    lx.compareAt idx hexPrefix = false := by
  by_contra hne
  have hcompare : lx.compareAt idx hexPrefix = true := by simpa using hne
  cases ds with
  | nil =>
    have hone : lx.compareAt idx [ch '0'] = true :=
      compareAt_iff.mpr ((List.prefix_append [ch '0'] [ch 'x']).trans (compareAt_iff.mp hcompare))
    have hc : [c] = [ch '0'] := hsees.eq_of_compareAt rfl hone
    rw [hzero hc] at hcompare
    exact Bool.false_ne_true hcompare
  | cons d ds =>
    have htwo : lx.Sees idx [c, d] := Sees.left ds hsees
    have heq : [c, d] = hexPrefix := htwo.eq_of_compareAt rfl hcompare
    have hd : d = ch 'x' := by simpa [hexPrefix] using congrArg List.getLast? heq
    have hdigit := hall d (by simp)
    rw [hd] at hdigit
    exact absurd hdigit (by decide)

lemma compareAt_append_eq_false (h : lx.compareAt idx text = false) (rest : List UInt8) :
    lx.compareAt idx (text ++ rest) = false := by
  by_contra hne
  have hcompare : lx.compareAt idx (text ++ rest) = true := by simpa using hne
  have hshort :=
    compareAt_iff.mpr ((List.prefix_append text rest).trans (compareAt_iff.mp hcompare))
  rw [h] at hshort
  exact Bool.false_ne_true hshort

lemma settles_getUnsigned (hsees : lx.Sees lx.curIdx body) (hn : unsignedNumber body = some n)
    (hend : endsBefore body (lx.charAt (lx.curIdx + UInt32.ofNat body.length)) = true)
    (hzero : body = [ch '0'] → lx.compareAt lx.curIdx hexPrefix = false) :
    ∃ lx', Outcome.Settles (fun fuel => lx.getUnsigned fuel valStart negative)
        (.done (.intconst, lx')) ∧
      lx'.Denotes (signed negative n) ∧
      (isSuffix (lx.charAt (lx.curIdx + UInt32.ofNat body.length)) = false →
        lx'.name = lx.nameFrom valStart (lx.curIdx + UInt32.ofNat body.length)) := by
  obtain ⟨c, ds, rfl, hall, rfl⟩ | ⟨c, ds, rfl, hall, rfl⟩ := cases_of_unsignedNumber hn
  · have hdigits : lx.Sees (lx.curIdx + 2) (c :: ds) := Sees.right hexPrefix hsees
    have hcompare : lx.compareAt lx.curIdx hexPrefix = true :=
      compareAt_iff.mpr (Sees.left _ hsees).starts
    have hlong : lx.compareAt lx.curIdx (hexPrefix ++ [ch 'L']) = false := by
      by_contra hne
      have hthree : lx.Sees lx.curIdx (hexPrefix ++ [c]) := by
        apply Sees.left ds
        simpa using hsees
      have heq : hexPrefix ++ [c] = hexPrefix ++ [ch 'L'] :=
        hthree.eq_of_compareAt rfl (by simpa using hne)
      have hdigit := hall c List.mem_cons_self
      rw [List.singleton_inj.mp (List.append_cancel_left heq)] at hdigit
      exact absurd hdigit (by decide)
    have hL : lx.compareAt (lx.curIdx + 2) [ch 'L'] = false := by
      by_contra hne
      have hone : lx.Sees (lx.curIdx + 2) [c] := Sees.left ds hdigits
      have heq : [c] = [ch 'L'] := hone.eq_of_compareAt rfl (by simpa using hne)
      have hdigit := hall c List.mem_cons_self
      rw [List.singleton_inj.mp heq] at hdigit
      exact absurd hdigit (by decide)
    have hidx : lx.curIdx + UInt32.ofNat (hexPrefix ++ c :: ds).length =
        lx.curIdx + 2 + UInt32.ofNat (c :: ds).length := by
      rw [List.length_append, UInt32.ofNat_add, ← UInt32.add_assoc]
      rfl
    rw [hidx] at hend ⊢
    have hnext : isXDigit (lx.charAt (lx.curIdx + 2 + UInt32.ofNat (c :: ds).length)) = false := by
      have hprefix : (hexPrefix ++ c :: ds).take 2 = hexPrefix := rfl
      rw [endsBefore, if_pos hprefix, Bool.not_eq_true'] at hend
      exact hend
    obtain ⟨lx', hsettles, hname, hdenotes⟩ := settles_getHexConst negative valStart
      { lx with curIdx := lx.curIdx + 2 } ⟨hdigits.fits, hdigits.starts⟩ hall hnext
    refine ⟨lx', ?_, hdenotes, fun _ => hname⟩
    simp only [getUnsigned, hlong, hcompare, hL, Bool.false_eq_true, if_false, if_true]
    exact hsettles
  · have hcompare := compareAt_hexPrefix lx hsees hall hzero
    have hlong := compareAt_append_eq_false lx hcompare [ch 'L']
    have hprefix : (c :: ds).take 2 ≠ hexPrefix := by
      intro h
      have hmem : ch 'x' ∈ (c :: ds).take 2 := by
        rw [h]
        decide
      exact absurd (hall _ (List.mem_of_mem_take hmem)) (by decide)
    rw [endsBefore, if_neg hprefix] at hend
    simp only [Bool.and_eq_true, Bool.not_eq_true'] at hend
    obtain ⟨⟨hdigit, hfloating⟩, -⟩ := hend
    obtain ⟨_, hscan, -⟩ := settles_scan lx (p := isDigit) (f := fun s _ => some s)
      (R := fun _ _ => True) (r := 10) (s := ()) (n := 0) (fun _ _ _ _ _ => ⟨(), rfl, trivial⟩)
      (c :: ds) hsees hall hdigit trivial
    obtain ⟨lx', hsettles, hname, hdenotes⟩ :=
      settles_getIntConst negative valStart lx hsees hall hdigit
    refine ⟨lx', ?_, hdenotes, ?_⟩
    · simp only [getUnsigned, hlong, hcompare, Bool.false_eq_true, if_false]
      have hc : isDigit c = true := hall c List.mem_cons_self
      have hbind := hscan.bind (f := fun x fuel =>
        if !isDigit (lx.charAt lx.curIdx) && lx.charAt x.2 != ch '.' then
          Outcome.done (ConstKind.invalid, { lx with curIdx := x.2 })
        else if !isFloating (lx.charAt x.2) then lx.getIntConst fuel valStart negative
        else .done (.floating, { lx with curIdx := x.2 })) (o := .done (.intconst, lx')) (by
          simpa only [hsees.charAt, hc, hfloating, Bool.not_true, Bool.false_and,
            Bool.false_eq_true, if_false, Bool.not_false, if_true] using hsettles)
      exact hbind
    · intro hsuffix
      rw [hname, skipSuffix_eq lx hsuffix]

lemma exists_cons_of_unsignedNumber (h : unsignedNumber body = some n) :
    ∃ c ds, body = c :: ds ∧ isDigit c = true := by
  obtain ⟨c, ds, rfl, -, -⟩ | ⟨c, ds, rfl, hall, -⟩ := cases_of_unsignedNumber h
  · exact ⟨ch '0', _, rfl, by decide⟩
  · exact ⟨c, ds, rfl, hall c List.mem_cons_self⟩

lemma getSpecialFloatConst_eq_none (hsees : lx.Sees lx.curIdx (c :: ds)) (hc : isDigit c = true) :
    lx.getSpecialFloatConst = none := by
  have hne (d : UInt8) (hd : isDigit d = false) (rest : List UInt8) :
      lx.compareAt lx.curIdx (d :: rest) = false := by
    have hshort : lx.compareAt lx.curIdx [d] = false := by
      by_contra hcompare
      have hone : lx.Sees lx.curIdx [c] := Sees.left ds hsees
      have heq : [c] = [d] := hone.eq_of_compareAt rfl (by simpa using hcompare)
      rw [← List.singleton_inj.mp heq, hc] at hd
      exact Bool.false_ne_true hd.symm
    exact compareAt_append_eq_false lx hshort rest
  have hi := hne (ch 'i') (by decide)
  have hn := hne (ch 'n') (by decide)
  simp [getSpecialFloatConst, hi, hn]

variable {lx}

lemma settles_getConstVal {n : Int} (hsees : lx.Sees lx.curIdx text)
    (hn : literalNumber text = some n)
    (hend : endsBefore (unsigned text) (lx.charAt (lx.curIdx + UInt32.ofNat text.length)) = true)
    (hzero : unsigned text = [ch '0'] → ∀ idx : UInt32,
      idx + 1 = lx.curIdx + UInt32.ofNat text.length → lx.compareAt idx hexPrefix = false) :
    ∃ lx', Outcome.Settles (fun fuel => lx.getConstVal fuel) (.done (.intconst, lx')) ∧
      lx'.Denotes n ∧
      (isSuffix (lx.charAt (lx.curIdx + UInt32.ofNat text.length)) = false → lx'.name = text) := by
  obtain ⟨k, hk, rfl⟩ := Option.map_eq_some_iff.mp hn
  obtain ⟨c, ds, hbody, hc⟩ := exists_cons_of_unsignedNumber hk
  by_cases hsign : text.head? = some (ch '-')
  · have htext : text = ch '-' :: unsigned text := by
      rw [unsigned, if_pos hsign]
      exact (List.cons_head?_tail hsign).symm
    rw [if_pos hsign]
    generalize unsigned text = body at *
    subst htext
    have htail : { lx with curIdx := lx.curIdx + 1 }.Sees (lx.curIdx + 1) body :=
      ⟨hsees.tail.fits, hsees.tail.starts⟩
    have hspecial := getSpecialFloatConst_eq_none { lx with curIdx := lx.curIdx + 1 }
      (hbody ▸ htail) hc
    rw [← add_one_add_length] at hend hzero ⊢
    obtain ⟨lx', hsettles, hdenotes, hname⟩ := settles_getUnsigned true lx.curIdx
      { lx with curIdx := lx.curIdx + 1 } htail hk hend
      (fun h => hzero h _ (by rw [h]; rfl))
    refine ⟨lx', ?_, hdenotes, ?_⟩
    · simp only [getConstVal, hsees.charAt, if_true, hspecial]
      exact hsettles
    · intro hsuffix
      rw [hname hsuffix, add_one_add_length]
      exact hsees.nameFrom
  · have htext : unsigned text = text := by rw [unsigned, if_neg hsign]
    rw [if_neg hsign]
    rw [htext] at hk hend hzero hbody
    have hchar : lx.charAt lx.curIdx = c := Sees.charAt (hbody ▸ hsees)
    have hminus : c ≠ ch '-' := by
      rintro rfl
      exact absurd hc (by decide)
    obtain ⟨lx', hsettles, hdenotes, hname⟩ := settles_getUnsigned false lx.curIdx lx hsees hk hend
      (fun h => hzero h _ (by rw [h]; rfl))
    refine ⟨lx', ?_, hdenotes, ?_⟩
    · simp only [getConstVal, hchar, hminus, if_false]
      exact hsettles
    · intro hsuffix
      rw [hname hsuffix]
      exact hsees.nameFrom

end ConstLexer
end Maple
