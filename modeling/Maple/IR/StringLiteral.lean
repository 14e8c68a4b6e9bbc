import Maple.Lib.While
import Mathlib.Data.List.GetD
import Mathlib.Data.Nat.Basic
import Mathlib.Tactic.NormNum.Basic
import Mathlib.Tactic.NormNum.Pow

/-!
# String literals

`PrintString` (`printing.cpp`) and the part of `MIRLexer` (`lexer.cpp`) that reads the literal back.
The lexer decodes a literal inside of the buffer of the line, at positions of 32 bits.
-/

namespace Maple

/-- The byte of a character. -/
def ch (c : Char) : UInt8 := UInt8.ofNat c.toNat

/-! ### Printing -/

/-- A digit of `std::hex`. -/
def hexDigit (n : UInt8) : UInt8 := if n < 10 then ch '0' + n else ch 'a' + (n - 10)

/-- The text of one character. -/
def printChar (c : UInt8) : List UInt8 :=
  if 0x20 ≤ c ∧ c ≤ 0x7e then
    if c = ch '"' then [ch '\\', ch '"']
    else if c = ch '\\' then [ch '\\', ch '\\']
    else [c]
  else [ch '\\', ch 'x', hexDigit (c / 16), hexDigit (c % 16)]

def printString (str : List UInt8) : List UInt8 :=
  [ch ' ', ch '"'] ++ str.flatMap printChar ++ [ch '"']

/-! ### The lexer -/

def toDigit16 (c : UInt8) : UInt8 :=
  if ch '0' ≤ c ∧ c ≤ ch '9' then c - ch '0'
  else if ch 'a' ≤ c ∧ c ≤ ch 'f' then c - 97 + 10
  else if ch 'A' ≤ c ∧ c ≤ ch 'F' then c - 65 + 10
  else 255

def char2num (c : UInt8) : UInt8 := toDigit16 c

/-- The token kinds that matter here; `other` stands for all other tokens, and for the next line. -/
inductive TokenKind
  | string
  | invalid
  | other
deriving DecidableEq

/-- `MIRLexer`: the line, the position in it, and the name of the last token. -/
structure MIRLexer where
  line : List UInt8
  currentLineSize : UInt32
  curIdx : UInt32
  name : List UInt8

namespace MIRLexer

/-- The state behind `ReadALine`, before the position `curIdx`. -/
def ofLine (line : List UInt8) (curIdx : UInt32) : MIRLexer where
  line := line
  currentLineSize := UInt32.ofNat line.length
  curIdx := curIdx
  name := []

def getCharAt (line : List UInt8) (idx : UInt32) : UInt8 := line.getD idx.toNat 0

def currentChar (size : UInt32) (line : List UInt8) (curIdx : UInt32) : UInt8 :=
  if curIdx < size then getCharAt line curIdx else 0

/-- The variables of the loop of `GetTokenWithPrefixDoubleQuotation`. -/
structure Scan where
  line : List UInt8
  curIdx : UInt32
  shift : UInt32

namespace Scan

/-- `line[curIdx - shift] = c`. -/
def write (s : Scan) (c : UInt8) : Scan := { s with line := s.line.set (s.curIdx - s.shift).toNat c }

/-- The character in front of the current one is a backslash. -/
def escaped (s : Scan) : Bool := getCharAt s.line (s.curIdx - 1) == ch '\\'

/-- The condition of the loop. -/
def goesOn (size : UInt32) (s : Scan) : Bool :=
  let c := currentChar size s.line s.curIdx
  c != 0 && (c != ch '"' || s.escaped)

/-- `\xNN`. -/
def hexEscape (s : Scan) : Scan :=
  let c1 := char2num (getCharAt s.line (s.curIdx + 1))
  let c2 := char2num (getCharAt s.line (s.curIdx + 2))
  let s := s.write ((c1 <<< 4) + c2)
  { s with curIdx := s.curIdx + 2, shift := s.shift + 2 }

/-- `\NNN`. -/
def octEscape (s : Scan) : Scan :=
  let digit (k : UInt32) : UInt32 := (getCharAt s.line (s.curIdx + k) - ch '0').toUInt32
  let s := s.write ((digit 1 <<< 6) + (digit 2 <<< 3) + digit 3).toUInt8
  { s with curIdx := s.curIdx + 3, shift := s.shift + 3 }

/-- The `switch` for the character behind a backslash. -/
def escape (s : Scan) (c : UInt8) : Scan :=
  if c = ch '"' then s.write c
  else if c = ch '\\' then
    -- a third backslash is not an escaped one
    let s := s.write c
    { s with line := s.line.set s.curIdx.toNat 0 }
  else if c = ch 'a' then s.write 7
  else if c = ch 'b' then s.write 8
  else if c = ch 't' then s.write 9
  else if c = ch 'n' then s.write 10
  else if c = ch 'v' then s.write 11
  else if c = ch 'f' then s.write 12
  else if c = ch 'r' then s.write 13
  else if c = ch 'x' then s.hexEscape
  else if ch '0' ≤ c ∧ c ≤ ch '9' then s.octEscape
  else
    let s := s.write (ch '\\')
    { s with shift := s.shift - 1 }.write c

/-- A round of the loop. -/
def round (size : UInt32) (s : Scan) : Scan :=
  let c := currentChar size s.line s.curIdx
  let s :=
    if s.escaped then { s with shift := s.shift + 1 }.escape c
    else if s.shift ≠ 0 then s.write c
    else s
  { s with curIdx := s.curIdx + 1 }

end Scan

/-- The rest of `GetTokenWithPrefixDoubleQuotation`, behind its loop. -/
def finishString (lx : MIRLexer) (s : Scan) : TokenKind × MIRLexer :=
  if currentChar lx.currentLineSize s.line s.curIdx ≠ ch '"' then
    (.invalid, { lx with line := s.line, curIdx := s.curIdx })
  else
    let name := if lx.curIdx = s.curIdx then []
      else (s.line.drop lx.curIdx.toNat).take (s.curIdx - lx.curIdx - s.shift).toNat
    (.string, { lx with line := s.line, curIdx := s.curIdx + 1, name := name })

def getTokenWithPrefixDoubleQuotation (fuel : Nat) (lx : MIRLexer) :
    Outcome (TokenKind × MIRLexer) :=
  (whileLoop (Scan.goesOn lx.currentLineSize) (fun s => some (s.round lx.currentLineSize)) fuel
    ⟨lx.line, lx.curIdx, 0⟩).bind fun s => .done (lx.finishString s)

/-- `LexToken`, up to the first token of the line that is no string. -/
def lexToken (fuel : Nat) (lx : MIRLexer) : Outcome (TokenKind × MIRLexer) :=
  let blank (idx : UInt32) : Bool :=
    let c := currentChar lx.currentLineSize lx.line idx
    c == ch ' ' || c == ch '\t'
  (whileLoop blank (fun idx => some (idx + 1)) fuel lx.curIdx).bind fun idx =>
    if currentChar lx.currentLineSize lx.line idx = ch '"' then
      getTokenWithPrefixDoubleQuotation fuel { lx with curIdx := idx + 1 }
    else .done (.other, { lx with curIdx := idx })

/-! ### The buffer of a scan -/

namespace Scan

/-- The characters `X` of the buffer are final, `K` are left over, and `R` are still to be read. -/
def at' (X K R : List UInt8) : Scan :=
  ⟨X ++ (K ++ R), UInt32.ofNat (X.length + K.length), UInt32.ofNat K.length⟩

variable {X K R : List UInt8} {size : UInt32} {c v k : UInt8}

lemma toNat_ofNat_of_le {n : Nat} (h : n ≤ size.toNat) : (UInt32.ofNat n).toNat = n :=
  UInt32.toNat_ofNat_of_lt' (lt_of_le_of_lt h size.toNat_lt)

lemma getCharAt_add {Y : List UInt8} (i : Nat) (h : Y.length + i < 2 ^ 32) :
    getCharAt (Y ++ R) (UInt32.ofNat Y.length + UInt32.ofNat i) = R.getD i 0 := by
  rw [getCharAt, ← UInt32.ofNat_add, UInt32.toNat_ofNat_of_lt' h,
    List.getD_append_right _ _ _ _ (Nat.le_add_right _ _), Nat.add_sub_cancel_left]

lemma currentChar_at (h : X.length + K.length < size.toNat) :
    currentChar size (at' X K (c :: R)).line (at' X K (c :: R)).curIdx = c := by
  have hlt : (at' X K (c :: R)).curIdx < size := by
    rw [UInt32.lt_iff_toNat_lt, at', toNat_ofNat_of_le h.le]
    exact h
  have hchar := getCharAt_add (Y := X ++ K) (R := c :: R) 0
    (by rw [List.length_append]; exact h.trans size.toNat_lt)
  rw [currentChar, if_pos hlt]
  simpa [at'] using hchar

lemma escaped_at (hle : X.length + K.length < 2 ^ 32) (hne : X ++ K ≠ []) :
    (at' X K R).escaped = true ↔ (X ++ K).getLast? = some (ch '\\') := by
  obtain ⟨Y, y, hY⟩ := List.eq_nil_or_concat (X ++ K) |>.resolve_left hne
  rw [List.concat_eq_append] at hY
  have hlen : X.length + K.length = Y.length + 1 := by
    rw [← List.length_append, hY, List.length_append, List.length_singleton]
  have hidx : UInt32.ofNat (X.length + K.length) - 1 = UInt32.ofNat Y.length := by
    rw [hlen, UInt32.ofNat_add]
    simp
  have hchar := getCharAt_add (Y := Y) (R := y :: R) 0 (by omega)
  have hzero : UInt32.ofNat Y.length + UInt32.ofNat 0 = UInt32.ofNat Y.length := UInt32.add_zero _
  rw [hzero, List.getD_cons_zero] at hchar
  rw [escaped, at', hidx, ← List.append_assoc, hY, List.append_assoc, List.singleton_append]
  simp only [hchar]
  rw [beq_iff_eq, List.getLast?_concat, Option.some_inj]

lemma write_at (h : X.length + (K.length + 1) < 2 ^ 32) :
    (at' X (k :: K) R).write v =
      ⟨X ++ v :: (K ++ R), (at' X (k :: K) R).curIdx, (at' X (k :: K) R).shift⟩ := by
  have hidx : UInt32.ofNat (X.length + (k :: K).length) - UInt32.ofNat (k :: K).length =
      UInt32.ofNat X.length := by
    rw [UInt32.ofNat_add]
    simp
  rw [write, at', hidx, UInt32.toNat_ofNat_of_lt' (show _ < 2 ^ 32 by omega), List.set_append_right _ _ le_rfl,
    Nat.sub_self]
  rfl

lemma at_succ (X L : List UInt8) (v d : UInt8) :
    UInt32.ofNat (X.length + (L.length + 1)) + 1 =
      UInt32.ofNat ((X ++ [v]).length + (L ++ [d]).length) := by
  rw [List.length_append, List.length_append, List.length_singleton, List.length_singleton,
    Nat.add_right_comm X.length 1, UInt32.ofNat_add _ 1]
  rfl

lemma round_plain (h : X.length + K.length < size.toNat) (hne : X ++ K ≠ [])
    (hlast : (X ++ K).getLast? ≠ some (ch '\\')) :
    (at' X K (c :: R)).round size = at' (X ++ [c]) (K ++ [c]).tail R := by
  have hsize := size.toNat_lt
  have hescaped : (at' X K (c :: R)).escaped = false := by
    rw [← Bool.not_eq_true, escaped_at (by omega) hne]
    exact hlast
  rw [round, currentChar_at h, hescaped, if_neg Bool.false_ne_true]
  cases K with
  | nil =>
    have hzero : ¬(at' X [] (c :: R)).shift ≠ 0 := not_not.mpr rfl
    rw [if_neg hzero]
    simp [at', UInt32.ofNat_add]
  | cons k K =>
    have hpos : (at' X (k :: K) (c :: R)).shift ≠ 0 := by
      rw [ne_eq, ← UInt32.toNat_inj, at', UInt32.toNat_ofNat_of_lt' (show _ < 2 ^ 32 by
        rw [List.length_cons] at h ⊢; omega)]
      exact Nat.succ_ne_zero _
    rw [if_pos hpos, write_at (by rw [List.length_cons] at h; omega)]
    simp only [at', List.length_cons]
    rw [at_succ X K c c]
    simp

lemma round_escaped {L : List UInt8} (h : X.length + (L.length + 1) < size.toNat)
    (hlast : (ch '\\' :: L).getLast? = some (ch '\\')) :
    (at' (X ++ [ch '\\']) L (c :: R)).round size =
      { (at' X (ch '\\' :: L) (c :: R)).escape c with
        curIdx := ((at' X (ch '\\' :: L) (c :: R)).escape c).curIdx + 1 } := by
  have hsize := size.toNat_lt
  have hlen : (X ++ [ch '\\']).length + L.length = X.length + (L.length + 1) := by
    rw [List.length_append, List.length_singleton]
    omega
  have hescaped : (at' (X ++ [ch '\\']) L (c :: R)).escaped = true := by
    rw [escaped_at (by omega) (by simp), List.append_assoc, List.singleton_append,
      List.getLast?_append, hlast]
    rfl
  have hat : { at' (X ++ [ch '\\']) L (c :: R) with
      shift := (at' (X ++ [ch '\\']) L (c :: R)).shift + 1 } =
        at' X (ch '\\' :: L) (c :: R) := by
    rw [at', at', hlen, List.length_cons, UInt32.ofNat_add L.length 1]
    simp
  rw [round, currentChar_at (by omega), hescaped, if_pos rfl, hat]

lemma escape_quote {L : List UInt8} (h : X.length + (L.length + 1) < 2 ^ 32) :
    { (at' X (k :: L) (c :: R)).escape (ch '"') with
      curIdx := ((at' X (k :: L) (c :: R)).escape (ch '"')).curIdx + 1 } =
        at' (X ++ [ch '"']) (L ++ [c]) R := by
  rw [escape, if_pos rfl, write_at h]
  simp only [at', List.length_cons]
  rw [at_succ X L (ch '"') c]
  simp

lemma escape_backslash {L : List UInt8} (h : X.length + (L.length + 1) < 2 ^ 32) :
    { (at' X (k :: L) (c :: R)).escape (ch '\\') with
      curIdx := ((at' X (k :: L) (c :: R)).escape (ch '\\')).curIdx + 1 } =
        at' (X ++ [ch '\\']) (L ++ [0]) R := by
  have hset : (X ++ ch '\\' :: (L ++ c :: R)).set (X.length + (L.length + 1)) 0 =
      X ++ ch '\\' :: (L ++ 0 :: R) := by
    rw [List.set_append_right _ _ (Nat.le_add_right _ _), Nat.add_sub_cancel_left,
      List.set_cons_succ, List.set_append_right _ _ le_rfl, Nat.sub_self, List.set_cons_zero]
  rw [escape, if_neg (by decide), if_pos rfl, write_at h]
  simp only [at', List.length_cons]
  rw [UInt32.toNat_ofNat_of_lt' h, hset, at_succ X L (ch '\\') 0]
  simp

lemma escape_hex {L : List UInt8} {h₁ h₂ : UInt8} (h : X.length + (L.length + 3) < 2 ^ 32) :
    { (at' X (k :: L) (ch 'x' :: h₁ :: h₂ :: R)).escape (ch 'x') with
      curIdx := ((at' X (k :: L) (ch 'x' :: h₁ :: h₂ :: R)).escape (ch 'x')).curIdx + 1 } =
        at' (X ++ [(char2num h₁ <<< 4) + char2num h₂]) (L ++ [ch 'x', h₁, h₂]) R := by
  have hchar (i : Nat) (hi : i ≤ 2) : getCharAt (at' X (k :: L) (ch 'x' :: h₁ :: h₂ :: R)).line
      ((at' X (k :: L) (ch 'x' :: h₁ :: h₂ :: R)).curIdx + UInt32.ofNat i) =
        (ch 'x' :: h₁ :: h₂ :: R).getD i 0 := by
    have hget := getCharAt_add (Y := X ++ k :: L) (R := ch 'x' :: h₁ :: h₂ :: R) i (by
      rw [List.length_append, List.length_cons]; omega)
    rw [List.length_append, List.append_assoc] at hget
    exact hget
  have hone : getCharAt _ (_ + 1) = h₁ := hchar 1 (by decide)
  have htwo : getCharAt _ (_ + 2) = h₂ := hchar 2 (by decide)
  have hidx : UInt32.ofNat (X.length + (L.length + 1)) + 2 + 1 =
      UInt32.ofNat (X.length + 1 + (L.length + 3)) := by
    rw [show X.length + 1 + (L.length + 3) = X.length + (L.length + 1) + 3 by omega,
      UInt32.ofNat_add _ 3, UInt32.add_assoc]
    rfl
  have hshift : UInt32.ofNat (L.length + 1) + 2 = UInt32.ofNat (L.length + 3) := by
    rw [UInt32.ofNat_add, UInt32.ofNat_add L.length 3, UInt32.add_assoc]
    rfl
  have hescape : (at' X (k :: L) (ch 'x' :: h₁ :: h₂ :: R)).escape (ch 'x') =
      (at' X (k :: L) (ch 'x' :: h₁ :: h₂ :: R)).hexEscape := by
    rw [escape]
    iterate 9 rw [if_neg (by decide)]
    rw [if_pos rfl]
  rw [hescape, hexEscape]
  simp only [hone, htwo, write_at (show X.length + (L.length + 1) < 2 ^ 32 by omega)]
  simp only [at', List.length_cons, List.length_append, List.length_nil, Nat.zero_add, hidx, hshift]
  simp

/-! ### The loop over a literal -/

/-- The loop ends in `o`. -/
def Ends (size : UInt32) (s o : Scan) : Prop :=
  Outcome.Settles (fun fuel => whileLoop (goesOn size) (fun s => some (s.round size)) fuel s)
    (.done o)

lemma Ends.of_round {s o : Scan} (hgo : s.goesOn size = true) (h : Ends size (s.round size) o) :
    Ends size s o := by
  apply Outcome.Settles.of_succ
  simp only [whileLoop, hgo, if_true]
  exact h

lemma ends_self {s : Scan} (hgo : s.goesOn size = false) : Ends size s s := by
  apply Outcome.Settles.of_succ
  simp only [whileLoop, hgo, Bool.false_eq_true, if_false]
  exact Outcome.settles_const (by simp)

lemma goesOn_at (h : X.length + K.length < size.toNat) (hc : c ≠ 0)
    (hquote : c ≠ ch '"' ∨ (at' X K (c :: R)).escaped = true) :
    (at' X K (c :: R)).goesOn size = true := by
  rw [goesOn, currentChar_at h, Bool.and_eq_true, Bool.or_eq_true, bne_iff_ne, bne_iff_ne]
  exact ⟨hc, hquote⟩

lemma Ends.plain {o : Scan} (h : X.length + K.length < size.toNat) (hne : X ++ K ≠ [])
    (hlast : (X ++ K).getLast? ≠ some (ch '\\')) (hc : c ≠ 0) (hquote : c ≠ ch '"')
    (hends : Ends size (at' (X ++ [c]) (K ++ [c]).tail R) o) : Ends size (at' X K (c :: R)) o := by
  apply Ends.of_round (goesOn_at h hc (Or.inl hquote))
  rw [round_plain h hne hlast]
  exact hends

lemma Ends.escaped {o s : Scan} (h : X.length + K.length + 1 < size.toNat) (hne : X ++ K ≠ [])
    (hlast : (X ++ K).getLast? ≠ some (ch '\\')) (hc : c ≠ 0)
    (hs : { (at' X (ch '\\' :: (K ++ [ch '\\']).tail) (c :: R)).escape c with
      curIdx := ((at' X (ch '\\' :: (K ++ [ch '\\']).tail) (c :: R)).escape c).curIdx + 1 } = s)
    (hends : Ends size s o) : Ends size (at' X K (ch '\\' :: c :: R)) o := by
  have hsize := size.toNat_lt
  have hlen : (K ++ [ch '\\']).tail.length = K.length := by
    rw [List.length_tail, List.length_append]
    rfl
  have hback : (ch '\\' :: (K ++ [ch '\\']).tail).getLast? = some (ch '\\') := by
    cases K with
    | nil => rfl
    | cons k K => rw [List.cons_append, List.tail_cons, ← List.cons_append, List.getLast?_concat]
  apply Ends.plain (by omega) hne hlast (by decide) (by decide)
  have hescaped : (at' (X ++ [ch '\\']) (K ++ [ch '\\']).tail (c :: R)).escaped = true := by
    rw [escaped_at (by rw [List.length_append, hlen, List.length_singleton]; omega) (by simp),
      List.append_assoc, List.singleton_append, List.getLast?_append, hback]
    rfl
  apply Ends.of_round (goesOn_at (by
    rw [List.length_append, hlen, List.length_singleton]; omega) hc (Or.inr hescaped))
  rw [round_escaped (by rw [hlen]; omega) hback, hs]
  exact hends

/-! ### The characters of a literal -/

lemma char2num_hexDigit : ∀ n : UInt8, n < 16 → char2num (hexDigit n) = n := by
  have h : ∀ n < 16, char2num (hexDigit (UInt8.ofNat n)) = UInt8.ofNat n := by decide
  intro n hn
  have := h n.toNat (UInt8.lt_iff_toNat_lt.mp hn)
  rwa [UInt8.ofNat_toNat] at this

lemma digits_eq (c : UInt8) :
    (char2num (hexDigit (c / 16)) <<< 4) + char2num (hexDigit (c % 16)) = c := by
  have hc := c.toNat_lt
  have hdiv : c / 16 < 16 := by
    rw [UInt8.lt_iff_toNat_lt, UInt8.toNat_div]
    change c.toNat / 16 < 16
    omega
  have hmod : c % 16 < 16 := by
    rw [UInt8.lt_iff_toNat_lt, UInt8.toNat_mod]
    exact Nat.mod_lt _ (by decide)
  rw [char2num_hexDigit _ hdiv, char2num_hexDigit _ hmod, ← UInt8.toNat_inj, UInt8.toNat_add,
    UInt8.toNat_shiftLeft, UInt8.toNat_div, UInt8.toNat_mod]
  change ((c.toNat / 16) <<< 4 % 2 ^ 8 + c.toNat % 16) % 2 ^ 8 = c.toNat
  rw [Nat.shiftLeft_eq]
  omega

lemma hexDigit_ne (n : UInt8) (h : n < 16) : hexDigit n ≠ ch '\\' := by
  have hall : ∀ n < 16, hexDigit (UInt8.ofNat n) ≠ ch '\\' := by decide
  have := hall n.toNat (UInt8.lt_iff_toNat_lt.mp h)
  rwa [UInt8.ofNat_toNat] at this

lemma exists_ends_printChar (size : UInt32) (c : UInt8)
    (h : X.length + K.length + (printChar c).length ≤ size.toNat) (hne : X ++ K ≠ [])
    (hlast : (X ++ K).getLast? ≠ some (ch '\\')) :
    ∃ K', (X ++ [c] ++ K').getLast? ≠ some (ch '\\') ∧
      K'.length + 1 = K.length + (printChar c).length ∧
      ∀ o, Ends size (at' (X ++ [c]) K' R) o → Ends size (at' X K (printChar c ++ R)) o := by
  have hsize := size.toNat_lt
  have hlen (v : UInt8) : (K ++ [v]).tail.length = K.length := by
    rw [List.length_tail, List.length_append]
    rfl
  rw [printChar] at h ⊢
  split_ifs at h ⊢ with hprint hquote hback
  · subst hquote
    simp only [List.length_cons, List.length_nil] at h
    refine ⟨(K ++ [ch '\\']).tail ++ [ch '"'], ?_, by simp [hlen], fun o ho => ?_⟩
    · rw [← List.append_assoc, List.getLast?_concat]
      decide
    · exact Ends.escaped (by omega) hne hlast (by decide)
        (escape_quote (by rw [hlen]; omega)) ho
  · subst hback
    simp only [List.length_cons, List.length_nil] at h
    refine ⟨(K ++ [ch '\\']).tail ++ [0], ?_, by simp [hlen], fun o ho => ?_⟩
    · rw [← List.append_assoc, List.getLast?_concat]
      decide
    · exact Ends.escaped (by omega) hne hlast (by decide)
        (escape_backslash (by rw [hlen]; omega)) ho
  · simp only [List.length_singleton] at h
    have hc : c ≠ 0 := by
      rintro rfl
      exact absurd hprint.1 (by decide)
    refine ⟨(K ++ [c]).tail, ?_, by simp, fun o ho => ?_⟩
    · cases K with
      | nil => simpa using hback
      | cons k K =>
        rw [List.cons_append, List.tail_cons, ← List.append_assoc, List.getLast?_concat,
          ne_eq, Option.some_inj]
        exact hback
    · exact Ends.plain (by omega) hne hlast hc hquote ho
  · simp only [List.length_cons, List.length_nil] at h
    have hmod : c % 16 < 16 := by
      rw [UInt8.lt_iff_toNat_lt, UInt8.toNat_mod]
      exact Nat.mod_lt _ (by decide)
    refine ⟨(K ++ [ch '\\']).tail ++ [ch 'x', hexDigit (c / 16), hexDigit (c % 16)], ?_,
      by simp [hlen], fun o ho => ?_⟩
    · rw [← List.append_assoc, List.getLast?_append]
      simpa using hexDigit_ne _ hmod
    · refine Ends.escaped (by omega) hne hlast (by decide) (escape_hex (by rw [hlen]; omega)) ?_
      rw [digits_eq]
      exact ho

lemma exists_ends_flatMap (size : UInt32) (str : List UInt8)
    (h : X.length + K.length + (str.flatMap printChar).length ≤ size.toNat) (hne : X ++ K ≠ [])
    (hlast : (X ++ K).getLast? ≠ some (ch '\\')) :
    ∃ K', (X ++ str ++ K').getLast? ≠ some (ch '\\') ∧
      K'.length + str.length = K.length + (str.flatMap printChar).length ∧
      ∀ o, Ends size (at' (X ++ str) K' R) o →
        Ends size (at' X K (str.flatMap printChar ++ R)) o := by
  induction str generalizing X K with
  | nil => exact ⟨K, by simpa using hlast, by simp, fun o ho => by simpa using ho⟩
  | cons c str ih =>
    rw [List.flatMap_cons, List.length_append] at h
    obtain ⟨K₁, hlast₁, hlen₁, hends₁⟩ := exists_ends_printChar
      (R := str.flatMap printChar ++ R) size c (by omega) hne hlast
    obtain ⟨K₂, hlast₂, hlen₂, hends₂⟩ := ih (X := X ++ [c]) (K := K₁)
      (by rw [List.length_append, List.length_singleton]; omega) (by simp) hlast₁
    refine ⟨K₂, by simpa using hlast₂, ?_, fun o ho => ?_⟩
    · rw [List.flatMap_cons, List.length_append, List.length_cons]
      omega
    · rw [List.flatMap_cons, List.append_assoc]
      exact hends₁ o (hends₂ o (by simpa using ho))

end Scan

/-! ### The token -/

variable {pre str post : List UInt8}

open Scan

lemma finishString_at (lx : MIRLexer) {A K : List UInt8} (hidx : lx.curIdx = UInt32.ofNat A.length)
    (hfit : A.length + str.length + K.length < lx.currentLineSize.toNat) :
    lx.finishString (at' (A ++ str) K (ch '"' :: post)) =
      (.string, ⟨A ++ str ++ (K ++ ch '"' :: post), lx.currentLineSize,
        UInt32.ofNat (A.length + str.length + K.length + 1), str⟩) := by
  have hsize := lx.currentLineSize.toNat_lt
  have hchar : currentChar lx.currentLineSize (at' (A ++ str) K (ch '"' :: post)).line
      (at' (A ++ str) K (ch '"' :: post)).curIdx = ch '"' :=
    currentChar_at (by rw [List.length_append]; exact hfit)
  have hcur : (at' (A ++ str) K (ch '"' :: post)).curIdx =
      UInt32.ofNat (A.length + str.length + K.length) := by rw [at', List.length_append]
  have htoNat : lx.curIdx.toNat = A.length := by
    rw [hidx, UInt32.toNat_ofNat_of_lt' (show _ < 2 ^ 32 by omega)]
  have hsub : (at' (A ++ str) K (ch '"' :: post)).curIdx - lx.curIdx -
      (at' (A ++ str) K (ch '"' :: post)).shift = UInt32.ofNat str.length := by
    rw [hcur, at', hidx, UInt32.ofNat_add, UInt32.ofNat_add, UInt32.add_assoc, UInt32.add_comm,
      UInt32.add_sub_cancel, UInt32.add_sub_cancel]
  have hname : (if lx.curIdx = (at' (A ++ str) K (ch '"' :: post)).curIdx then []
      else ((at' (A ++ str) K (ch '"' :: post)).line.drop lx.curIdx.toNat).take
        ((at' (A ++ str) K (ch '"' :: post)).curIdx - lx.curIdx -
          (at' (A ++ str) K (ch '"' :: post)).shift).toNat) = str := by
    rw [hsub, htoNat, UInt32.toNat_ofNat_of_lt' (show _ < 2 ^ 32 by omega)]
    split_ifs with heq
    · rw [hidx, hcur, ← UInt32.toNat_inj, UInt32.toNat_ofNat_of_lt' (show _ < 2 ^ 32 by omega),
        UInt32.toNat_ofNat_of_lt' (show _ < 2 ^ 32 by omega)] at heq
      exact (List.eq_nil_of_length_eq_zero (by omega)).symm
    · rw [at', List.append_assoc, List.drop_left, List.take_left]
  rw [finishString, if_neg (not_not.mpr hchar), hname, hcur, UInt32.ofNat_add _ 1]
  rfl

lemma settles_getToken (lx : MIRLexer) {A : List UInt8} (hA : A.getLast? = some (ch '"'))
    (hline : lx.line = A ++ (str.flatMap printChar ++ ch '"' :: post))
    (hidx : lx.curIdx = UInt32.ofNat A.length)
    (hfit : A.length + (str.flatMap printChar).length < lx.currentLineSize.toNat) :
    ∃ line', Outcome.Settles (fun fuel => lx.getTokenWithPrefixDoubleQuotation fuel)
        (.done (.string, ⟨line', lx.currentLineSize,
          UInt32.ofNat (A.length + (str.flatMap printChar).length + 1), str⟩)) ∧
      line'.drop (A.length + (str.flatMap printChar).length + 1) = post := by
  have hsize := lx.currentLineSize.toNat_lt
  have hne : A ≠ [] := by
    rintro rfl
    simp at hA
  have hlast : (A ++ []).getLast? ≠ some (ch '\\') := by
    rw [List.append_nil, hA]
    decide
  obtain ⟨K, hlastK, hlenK, hends⟩ := exists_ends_flatMap (R := ch '"' :: post) lx.currentLineSize
    str (by simpa using hfit.le) (by simpa using hne) hlast
  rw [List.length_nil, Nat.zero_add, Nat.add_comm] at hlenK
  rw [← hlenK, ← Nat.add_assoc] at hfit ⊢
  have hstop : (at' (A ++ str) K (ch '"' :: post)).goesOn lx.currentLineSize = false := by
    have hescaped : (at' (A ++ str) K (ch '"' :: post)).escaped = false := by
      rw [← Bool.not_eq_true, escaped_at (by rw [List.length_append]; omega) (by simp [hne])]
      exact hlastK
    rw [goesOn, currentChar_at (by rw [List.length_append]; exact hfit), hescaped]
    decide
  have hstart : (⟨lx.line, lx.curIdx, 0⟩ : Scan) =
      at' A [] (str.flatMap printChar ++ ch '"' :: post) := by
    rw [hline, hidx]
    rfl
  have hloop := hends _ (ends_self hstop)
  rw [← hstart] at hloop
  refine ⟨A ++ str ++ (K ++ ch '"' :: post), ?_, ?_⟩
  · have hbind := hloop.bind (f := fun s _ => .done (lx.finishString s))
      (Outcome.settles_const (by simp))
    rw [finishString_at lx hidx hfit] at hbind
    exact hbind
  · have hlen : (A ++ str ++ K ++ [ch '"']).length = A.length + str.length + K.length + 1 := by
      simp only [List.length_append, List.length_singleton]
    have hsplit : A ++ str ++ (K ++ ch '"' :: post) = A ++ str ++ K ++ [ch '"'] ++ post := by simp
    rw [hsplit, ← hlen, List.drop_left]

lemma settles_lexToken_of_blank {line line' : List UInt8} {idx : UInt32} {r : TokenKind × MIRLexer}
    (hline : line = pre ++ ch ' ' :: ch '"' :: line') (hidx : idx = UInt32.ofNat pre.length)
    (hfit : pre.length + 1 < (UInt32.ofNat line.length).toNat)
    (h : Outcome.Settles
      (fun fuel => (ofLine line (idx + 1 + 1)).getTokenWithPrefixDoubleQuotation fuel) (.done r)) :
    Outcome.Settles (fun fuel => (ofLine line idx).lexToken fuel) (.done r) := by
  have hspace : currentChar (UInt32.ofNat line.length) line idx = ch ' ' := by
    have hat : currentChar (UInt32.ofNat line.length) (at' pre [] (ch ' ' :: ch '"' :: line')).line
        (at' pre [] (ch ' ' :: ch '"' :: line')).curIdx = ch ' ' :=
      currentChar_at (by simpa using Nat.lt_of_succ_lt hfit)
    rw [hline] at hat ⊢
    rw [hidx]
    exact hat
  have hquote : currentChar (UInt32.ofNat line.length) line (idx + 1) = ch '"' := by
    have hat : currentChar (UInt32.ofNat line.length)
        (at' (pre ++ [ch ' ']) [] (ch '"' :: line')).line
        (at' (pre ++ [ch ' ']) [] (ch '"' :: line')).curIdx = ch '"' :=
      currentChar_at (by simpa using hfit)
    rw [hline] at hat ⊢
    rw [hidx]
    simpa [at', UInt32.ofNat_add] using hat
  have hblank : Outcome.Settles (fun fuel => whileLoop
      (fun idx => currentChar (UInt32.ofNat line.length) line idx == ch ' ' ||
        currentChar (UInt32.ofNat line.length) line idx == ch '\t')
      (fun idx => some (idx + 1)) fuel idx) (.done (idx + 1)) := by
    apply Outcome.Settles.of_succ
    simp only [whileLoop, hspace, beq_self_eq_true, Bool.true_or, if_true]
    apply Outcome.Settles.of_succ
    simp only [whileLoop, hquote]
    exact Outcome.settles_const (by simp)
  refine hblank.bind (f := fun idx fuel =>
    if currentChar (UInt32.ofNat line.length) line idx = ch '"' then
      (ofLine line (idx + 1)).getTokenWithPrefixDoubleQuotation fuel
    else .done (.other, ofLine line idx)) ?_
  simp only [hquote, if_true]
  exact h

/-- The lexer in front of the text of a string reads the string and stops behind the closing quote,
where the text ends in the part of the line that the size of 32 bits counts. -/
theorem settles_lexToken_printString
    (hfit : pre.length + (printString str).length ≤
      (pre ++ printString str ++ post).length % 2 ^ 32) :
    ∃ lx', Outcome.Settles (fun fuel =>
        (ofLine (pre ++ printString str ++ post) (UInt32.ofNat pre.length)).lexToken fuel)
        (.done (.string, lx')) ∧
      lx'.name = str ∧ lx'.curIdx.toNat = pre.length + (printString str).length ∧
      lx'.line.drop (pre.length + (printString str).length) = post := by
  have hlen : (printString str).length = (str.flatMap printChar).length + 3 := by
    simp [printString]
  have hmod : (pre ++ printString str ++ post).length % 2 ^ 32 < 2 ^ 32 :=
    Nat.mod_lt _ (Nat.two_pow_pos 32)
  have hsize : (UInt32.ofNat (pre ++ printString str ++ post).length).toNat =
      (pre ++ printString str ++ post).length % 2 ^ 32 := UInt32.toNat_ofNat
  have hline : pre ++ printString str ++ post =
      pre ++ [ch ' ', ch '"'] ++ (str.flatMap printChar ++ ch '"' :: post) := by
    simp [printString]
  have hA : (pre ++ [ch ' ', ch '"']).length = pre.length + 2 := by
    rw [List.length_append]
    rfl
  obtain ⟨line', hsettles, hdrop⟩ := settles_getToken
    (ofLine (pre ++ printString str ++ post) (UInt32.ofNat (pre ++ [ch ' ', ch '"']).length))
    (by simp) hline rfl (by
      rw [hA]
      change _ < (UInt32.ofNat (pre ++ printString str ++ post).length).toNat
      omega)
  have hidx : UInt32.ofNat pre.length + 1 + 1 =
      UInt32.ofNat (pre ++ [ch ' ', ch '"']).length := by
    rw [hA, UInt32.ofNat_add, UInt32.add_assoc]
    rfl
  have hend : (pre ++ [ch ' ', ch '"']).length + (str.flatMap printChar).length + 1 =
      pre.length + (printString str).length := by
    rw [hA, hlen]
    omega
  rw [hend] at hsettles hdrop
  refine ⟨⟨line', UInt32.ofNat (pre ++ printString str ++ post).length,
    UInt32.ofNat (pre.length + (printString str).length), str⟩,
    settles_lexToken_of_blank (by simpa using hline) rfl (by omega) ?_, rfl, ?_, hdrop⟩
  · rw [hidx]
    exact hsettles
  · exact UInt32.toNat_ofNat_of_lt' (show _ < 2 ^ 32 by omega)

/-- The text of a quote, a zero and a digit, in front of another quote. -/
theorem settles_lexToken_printString_quote :
    ∃ lx', Outcome.Settles (fun fuel =>
        (ofLine ([] ++ printString [ch '"', 0, ch '1'] ++ [ch '"']) (UInt32.ofNat 0)).lexToken fuel)
        (.done (.string, lx')) ∧
      lx'.name = [ch '"', 0, ch '1'] ∧ lx'.curIdx.toNat = 10 ∧ lx'.line.drop 10 = [ch '"'] :=
  settles_lexToken_printString (by decide)

lemma length_flatMap_printChar (n : Nat) :
    ((List.replicate n (ch 'a')).flatMap printChar).length = n := by
  have hchar : printChar (ch 'a') = [ch 'a'] := by decide
  induction n with
  | zero => rfl
  | succ n ih =>
    rw [List.replicate_succ, List.flatMap_cons, List.length_append, ih, hchar,
      List.length_singleton, Nat.add_comm]

lemma settles_lexToken_of_size_eq_zero {line : List UInt8} (h : UInt32.ofNat line.length = 0) :
    Outcome.Settles (fun fuel => (ofLine line 0).lexToken fuel) (.done (.other, ofLine line 0)) := by
  have hchar : currentChar (UInt32.ofNat line.length) line 0 = 0 := by
    rw [currentChar, h, if_neg (by decide)]
  have hblank : Outcome.Settles (fun fuel => whileLoop
      (fun idx => currentChar (UInt32.ofNat line.length) line idx == ch ' ' ||
        currentChar (UInt32.ofNat line.length) line idx == ch '\t')
      (fun idx => some (idx + 1)) fuel 0) (.done 0) := by
    apply Outcome.Settles.of_succ
    simp only [whileLoop, hchar]
    exact Outcome.settles_const (by simp)
  refine hblank.bind (f := fun idx fuel =>
    if currentChar (UInt32.ofNat line.length) line idx = ch '"' then
      (ofLine line (idx + 1)).getTokenWithPrefixDoubleQuotation fuel
    else .done (.other, ofLine line idx)) ?_
  have hquote : (0 : UInt8) ≠ ch '"' := by decide
  simp only [hchar, if_neg hquote]
  exact Outcome.settles_const (by simp)

/-- A literal of more than `2 ^ 32 - 4` letters is not read back. -/
theorem not_settles_lexToken_printString : ¬∀ str : List UInt8, ∃ lx',
    Outcome.Settles (fun fuel => (ofLine (printString str) 0).lexToken fuel) (.done (.string, lx')) ∧
      lx'.name = str := by
  intro h
  obtain ⟨n, hn⟩ : ∃ n, n + 3 = 2 ^ 32 := ⟨2 ^ 32 - 3, by norm_num⟩
  obtain ⟨lx', hsettles, -⟩ := h (List.replicate n (ch 'a'))
  have hlen : (printString (List.replicate n (ch 'a'))).length = 2 ^ 32 := by
    have hflat := length_flatMap_printChar n
    have hblank : [ch ' ', ch '"'].length = 2 := rfl
    have hquote : [ch '"'].length = 1 := rfl
    rw [printString, List.length_append, List.length_append, hflat, hblank, hquote]
    omega
  have hzero : UInt32.ofNat (printString (List.replicate n (ch 'a'))).length = 0 := by
    rw [hlen]
    rfl
  have hother := settles_lexToken_of_size_eq_zero hzero
  cases hsettles.unique hother

end MIRLexer
end Maple
