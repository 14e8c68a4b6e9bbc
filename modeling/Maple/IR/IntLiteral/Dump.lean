import Maple.IR.IntLiteral.Lexer
import Maple.Util.IntVal.Count
import Mathlib.Data.Nat.Digits.Lemmas

/-!
# Printed integer constants

`IntVal::Dump` (`mpl_int_val.cpp`), by which `MIRIntConst::Dump` prints. The lexer reads the text
back.
-/

namespace Maple

open IntVal

/-! ### Printing -/

/-- A number on a stream, in the base of the stream. -/
def printNat (radix n : Nat) : List UInt8 :=
  if n = 0 then [ch '0'] else (Nat.digits radix n).reverse.map fun d => hexDigit (UInt8.ofNat d)

/-- A word in the hexadecimal base, filled up with zeros to 16 characters. -/
def printWord (w : UInt64) : List UInt8 :=
  let text := printNat 16 w.toNat
  List.replicate (16 - text.length) (ch '0') ++ text

def IntVal.dump (a : IntVal) : List UInt8 :=
  if a.IsOneWord then
    let val := a.getExtValue 0
    let valThreshold : Int64 := 1024
    if val ≤ valThreshold then
      if val < 0 then ch '-' :: printNat 10 val.toInt.natAbs else printNat 10 val.toInt.natAbs
    else hexPrefix ++ printNat 16 val.toUInt64.toNat
  else
    let numZeroWords := a.countLeadingZeros / kWordBitSize
    let numWords := getNumWords a.width
    hexPrefix ++
      if numWords = numZeroWords then [ch '0']
      else (a.words.take (numWords - numZeroWords)).reverse.flatMap printWord

/-! ### Printed numbers -/

section Printing

variable {radix n : Nat}

lemma hexCharToDigit_hexDigit {d : Nat} (h : d < 16) :
    (hexCharToDigit (hexDigit (UInt8.ofNat d))).toNat = d := by
  have hall : ∀ d < 16, (hexCharToDigit (hexDigit (UInt8.ofNat d))).toNat = d := by decide
  exact hall d h

lemma isDigit_hexDigit {d : Nat} (h : d < 10) : isDigit (hexDigit (UInt8.ofNat d)) = true := by
  have hall : ∀ d < 10, isDigit (hexDigit (UInt8.ofNat d)) = true := by decide
  exact hall d h

lemma isXDigit_hexDigit {d : Nat} (h : d < 16) : isXDigit (hexDigit (UInt8.ofNat d)) = true := by
  have hall : ∀ d < 16, isXDigit (hexDigit (UInt8.ofNat d)) = true := by decide
  exact hall d h

lemma readDigits_append (front ds : List UInt8) :
    readDigits radix (front ++ ds) =
      readDigits radix front * radix ^ ds.length + readDigits radix ds := by
  simp only [readDigits, List.map_append, List.reverse_append, Nat.ofDigits_append,
    List.length_reverse, List.length_map]
  ring

lemma readDigits_replicate_zero (k : Nat) : readDigits radix (List.replicate k (ch '0')) = 0 := by
  have hzero : (hexCharToDigit (ch '0')).toNat = 0 := by decide
  induction k with
  | zero => rfl
  | succ k ih => rw [List.replicate_succ, readDigits_cons, ih, hzero, Nat.zero_mul]

lemma exists_of_mem_printNat (hradix : 1 < radix) {c : UInt8} (h : c ∈ printNat radix n) :
    ∃ d < radix, c = hexDigit (UInt8.ofNat d) := by
  rw [printNat] at h
  split_ifs at h with hzero
  · obtain rfl : c = ch '0' := by simpa using h
    exact ⟨0, by omega, by decide⟩
  · obtain ⟨d, hd, rfl⟩ := List.mem_map.mp h
    exact ⟨d, Nat.digits_lt_base hradix (List.mem_reverse.mp hd), rfl⟩

lemma readDigits_printNat (hradix : 1 < radix) (hle : radix ≤ 16) :
    readDigits radix (printNat radix n) = n := by
  rw [printNat]
  split_ifs with hzero
  · have hdigit : (hexCharToDigit (ch '0')).toNat = 0 := by decide
    simp [readDigits, hdigit, hzero]
  · have hmap : ((Nat.digits radix n).reverse.map fun d => hexDigit (UInt8.ofNat d)).map
        (fun c => (hexCharToDigit c).toNat) = (Nat.digits radix n).reverse := by
      rw [List.map_map]
      have hid : ∀ d ∈ (Nat.digits radix n).reverse,
          (hexCharToDigit (hexDigit (UInt8.ofNat d))).toNat = id d := by
        intro d hd
        have hlt := Nat.digits_lt_base hradix (List.mem_reverse.mp hd)
        exact hexCharToDigit_hexDigit (by omega)
      exact (List.map_congr_left hid).trans (List.map_id _)
    rw [readDigits, hmap, List.reverse_reverse, Nat.ofDigits_digits]

lemma printNat_ne_nil : printNat radix n ≠ [] := by
  rw [printNat]
  split_ifs with hzero
  · simp
  · simpa using Nat.digits_ne_nil_iff_ne_zero.mpr hzero

lemma length_printNat_le (k : Nat) (hradix : 1 < radix) (hn : n < radix ^ (k + 1)) :
    (printNat radix n).length ≤ k + 1 := by
  rw [printNat]
  split_ifs with hzero
  · simp
  · rw [List.length_map, List.length_reverse]
    exact (Nat.digits_length_le_iff hradix n).mpr hn

lemma head?_printNat (hradix : 1 < radix) (hle : radix ≤ 16) (hn : n ≠ 0) :
    (printNat radix n).head? ≠ some (ch '0') := by
  rw [printNat, if_neg hn]
  intro h
  rw [List.head?_map, List.head?_reverse,
    List.getLast?_eq_some_getLast (Nat.digits_ne_nil_iff_ne_zero.mpr hn), Option.map_some] at h
  have hlast := Nat.getLast_digit_ne_zero radix hn
  have hlt := Nat.digits_lt_base hradix (List.getLast_mem (Nat.digits_ne_nil_iff_ne_zero.mpr hn))
  have hdigit := hexCharToDigit_hexDigit (lt_of_lt_of_le hlt hle)
  rw [Option.some.inj h] at hdigit
  exact hlast (hdigit.symm.trans (by decide))

lemma length_printWord (w : UInt64) : (printWord w).length = 16 := by
  have hle : (printNat 16 w.toNat).length ≤ 16 := length_printNat_le 15 (by decide) w.toNat_lt
  simp only [printWord, List.length_append, List.length_replicate]
  omega

lemma readDigits_printWord (w : UInt64) : readDigits 16 (printWord w) = w.toNat := by
  rw [printWord, readDigits_append, readDigits_replicate_zero, Nat.zero_mul, Nat.zero_add,
    readDigits_printNat (by decide) (by decide)]

lemma isXDigit_of_mem_printWord {w : UInt64} {c : UInt8} (h : c ∈ printWord w) :
    isXDigit c = true := by
  rw [printWord, List.mem_append] at h
  obtain h | h := h
  · rw [(List.mem_replicate.mp h).2]
    decide
  · obtain ⟨d, hd, rfl⟩ := exists_of_mem_printNat (by decide) h
    exact isXDigit_hexDigit hd

/-! ### The text of a value -/

lemma unsignedNumber_decimal : unsignedNumber (printNat 10 n) = some n := by
  by_cases hzero : n = 0
  · subst hzero
    decide
  have hall : ∀ c ∈ printNat 10 n, isDigit c = true := by
    intro c hc
    obtain ⟨d, hd, rfl⟩ := exists_of_mem_printNat (by decide) hc
    exact isDigit_hexDigit hd
  have hprefix : (printNat 10 n).take 2 ≠ hexPrefix := by
    intro h
    have hmem : ch 'x' ∈ (printNat 10 n).take 2 := by
      rw [h]
      decide
    exact absurd (hall _ (List.mem_of_mem_take hmem)) (by decide)
  have hdigits : ¬(printNat 10 n = [] ∨ ¬(printNat 10 n).all isDigit = true) := by
    simp only [not_or, not_not, List.all_eq_true]
    exact ⟨printNat_ne_nil, hall⟩
  rw [unsignedNumber, if_neg hprefix, if_neg hdigits,
    if_neg (head?_printNat (by decide) (by decide) hzero),
    readDigits_printNat (by decide) (by decide)]

lemma unsignedNumber_hex {ds : List UInt8} (hne : ds ≠ []) (hall : ∀ c ∈ ds, isXDigit c = true) :
    unsignedNumber (hexPrefix ++ ds) = some (readDigits 16 ds) := by
  have htake : (hexPrefix ++ ds).take 2 = hexPrefix := rfl
  have hdrop : (hexPrefix ++ ds).drop 2 = ds := rfl
  rw [unsignedNumber, if_pos htake, hdrop, if_pos ⟨hne, List.all_eq_true.mpr hall⟩]

lemma isXDigit_of_mem_printNat {c : UInt8} (h : c ∈ printNat 16 n) : isXDigit c = true := by
  obtain ⟨d, hd, rfl⟩ := exists_of_mem_printNat (by decide) h
  exact isXDigit_hexDigit hd

lemma literalNumber_of_unsignedNumber {body : List UInt8} (h : unsignedNumber body = some n) :
    literalNumber body = some (n : Int) := by
  obtain ⟨c, ds, rfl, hc⟩ := ConstLexer.exists_cons_of_unsignedNumber h
  have hminus : (c :: ds).head? ≠ some (ch '-') := by
    rintro ⟨⟩
    exact absurd hc (by decide)
  rw [literalNumber, unsigned, if_neg hminus, h, Option.map_some, if_neg hminus]

lemma literalNumber_neg {body : List UInt8} (h : unsignedNumber body = some n) :
    literalNumber (ch '-' :: body) = some (-(n : Int)) := by
  have hminus : (ch '-' :: body).head? = some (ch '-') := rfl
  rw [literalNumber, unsigned, if_pos hminus, List.tail_cons, h, Option.map_some, if_pos hminus]

end Printing

namespace IntVal

variable {a : IntVal}

lemma literalNumber_dump_of_isOneWord (hone : a.IsOneWord) :
    literalNumber a.dump = some (a.getExtValue 0).toInt ∧ a.dump.length ≤ 40 := by
  have hlow := (a.getExtValue 0).le_toInt
  have hhigh := (a.getExtValue 0).toInt_lt
  rw [dump, if_pos hone]
  generalize a.getExtValue 0 = val at *
  simp only
  split_ifs with hsmall hneg
  · rw [Int64.lt_iff_toInt_lt] at hneg
    change val.toInt < 0 at hneg
    have hlen : (printNat 10 val.toInt.natAbs).length ≤ 39 :=
      length_printNat_le 38 (by decide) (by omega)
    refine ⟨?_, Nat.succ_le_succ hlen⟩
    rw [literalNumber_neg unsignedNumber_decimal]
    congr 1
    omega
  · rw [Int64.lt_iff_toInt_lt] at hneg
    change ¬val.toInt < 0 at hneg
    have hlen : (printNat 10 val.toInt.natAbs).length ≤ 40 :=
      length_printNat_le 39 (by decide) (by omega)
    refine ⟨?_, hlen⟩
    rw [literalNumber_of_unsignedNumber unsignedNumber_decimal]
    congr 1
    omega
  · rw [Int64.le_iff_toInt_le] at hsmall
    change ¬val.toInt ≤ 1024 at hsmall
    have hword : (val.toUInt64.toNat : Int) = val.toInt := by
      have heq := Int64.asUInt64_eq val
      rw [Int64.asUInt64] at heq
      omega
    have hlen : (printNat 16 val.toUInt64.toNat).length ≤ 38 :=
      length_printNat_le 37 (by decide) (by omega)
    refine ⟨?_, Nat.succ_le_succ (Nat.succ_le_succ hlen)⟩
    rw [literalNumber_of_unsignedNumber
      (unsignedNumber_hex printNat_ne_nil fun c hc => isXDigit_of_mem_printNat hc),
      readDigits_printNat (by decide) (by decide), hword]

lemma literalNumber_dump_of_wide (hwidth : a.width = 128) (hcanon : a.Canonical) :
    literalNumber a.dump = some (a.value : Int) ∧ a.dump.length ≤ 40 := by
  obtain ⟨lo, hi, hwords⟩ := exists_words_eq hwidth
  have hone : ¬a.IsOneWord := by
    rw [IsOneWord, hwidth]
    decide
  have hcap : a.width ≤ a.storageBits := by
    rw [storageBits, hwords, hwidth]
    exact le_refl 128
  have hvalue := value_of_words hwords
  have hlo := lo.toNat_lt
  have hclz := countLeadingZeros_eq hcanon hcap
  rw [hwidth] at hclz
  have hlt : a.value < 2 ^ 128 := hwidth ▸ hcanon
  have hle := Nat.leadingRun_le false 128 a.value
  have hhalf := Nat.le_leadingRun_false_iff (show 64 ≤ 128 by decide) hlt
  have hfull := Nat.le_leadingRun_false_iff (le_refl 128) hlt
  have hnum : getNumWords 128 = 2 := rfl
  rw [dump, if_neg hone, hwidth, hnum, hclz, hwords]
  generalize Nat.leadingRun false 128 a.value = clz at *
  have hsize : clz / kWordBitSize = clz / 64 := rfl
  simp only [hsize]
  by_cases hzero : a.value = 0
  · obtain rfl : clz = 128 := by omega
    have hall : literalNumber (hexPrefix ++ [ch '0']) = some ((0 : Nat) : Int) ∧
        (hexPrefix ++ [ch '0']).length ≤ 40 := by decide
    rw [hzero]
    exact hall
  by_cases hword : a.value < 2 ^ 64
  · have hone : clz / 64 = 1 := by omega
    have hhi : hi.toNat = 0 := by omega
    have htext : [lo].reverse.flatMap printWord = printWord lo := List.append_nil _
    rw [hone, if_neg (by decide)]
    change literalNumber (hexPrefix ++ [lo].reverse.flatMap printWord) = _ ∧
      (hexPrefix ++ [lo].reverse.flatMap printWord).length ≤ 40
    rw [htext]
    refine ⟨?_, ?_⟩
    · have hne : printWord lo ≠ [] := List.ne_nil_of_length_pos (by rw [length_printWord]; decide)
      rw [literalNumber_of_unsignedNumber
        (unsignedNumber_hex hne fun c hc => isXDigit_of_mem_printWord hc), readDigits_printWord]
      congr 2
      omega
    · rw [List.length_append, length_printWord]
      decide
  · have hnone : clz / 64 = 0 := by omega
    have htext : [lo, hi].reverse.flatMap printWord = printWord hi ++ printWord lo := by
      change printWord hi ++ (printWord lo ++ []) = _
      rw [List.append_nil]
    rw [hnone, if_neg (by decide)]
    change literalNumber (hexPrefix ++ [lo, hi].reverse.flatMap printWord) = _ ∧
      (hexPrefix ++ [lo, hi].reverse.flatMap printWord).length ≤ 40
    rw [htext]
    have hlen : (printWord hi ++ printWord lo).length = 32 := by
      rw [List.length_append, length_printWord, length_printWord]
    refine ⟨?_, ?_⟩
    · have hall : ∀ c ∈ printWord hi ++ printWord lo, isXDigit c = true := by
        intro c hc
        obtain hc | hc := List.mem_append.mp hc
        · exact isXDigit_of_mem_printWord hc
        · exact isXDigit_of_mem_printWord hc
      have hne : printWord hi ++ printWord lo ≠ [] :=
        List.ne_nil_of_length_pos (by rw [hlen]; decide)
      rw [literalNumber_of_unsignedNumber (unsignedNumber_hex hne hall), readDigits_append,
        readDigits_printWord, readDigits_printWord, length_printWord]
      congr 2
      omega
    · rw [List.length_append, hlen]
      decide

lemma exists_literalNumber_dump (hprim : a.shape.IsPrim) (hcanon : a.Canonical) :
    ∃ n : Int, literalNumber a.dump = some n ∧ n % 2 ^ a.width = a.value ∧ a.dump.length ≤ 40 := by
  have hlt : (a.value : Int) < 2 ^ a.width := by exact_mod_cast hcanon
  have hmod : (a.value : Int) % 2 ^ a.width = a.value :=
    Int.emod_eq_of_lt (Int.natCast_nonneg _) hlt
  by_cases hone : a.IsOneWord
  · obtain ⟨hnumber, hlen⟩ := literalNumber_dump_of_isOneWord hone
    refine ⟨_, hnumber, ?_, hlen⟩
    have hext := toNat_getExtValue_mod hone
    have hword := Int64.asUInt64_eq (a.getExtValue 0)
    have hdvd : (2 : Int) ^ a.width ∣ 2 ^ 64 := pow_dvd_pow 2 hone
    rw [← Int.emod_emod_of_dvd _ hdvd, ← hword, Int64.asUInt64, ← hmod]
    exact_mod_cast hext
  · have hwidth : a.width = 128 := hprim.resolve_left hone
    obtain ⟨hnumber, hlen⟩ := literalNumber_dump_of_wide hwidth hcanon
    exact ⟨_, hnumber, hmod, hlen⟩

end IntVal

namespace ConstLexer

/-- The lexer is in front of `text` in a line. -/
structure At (lx : ConstLexer) (pre text post : List UInt8) : Prop where
  line : lx.line = pre ++ text ++ post
  currentLineSize : lx.currentLineSize = UInt32.ofNat lx.line.length
  curIdx : lx.curIdx = UInt32.ofNat pre.length

variable {lx : ConstLexer} {pre text post : List UInt8} {n : Int}

lemma endsBefore_zero (body : List UInt8) : endsBefore body 0 = true := by
  have hx : ((0 : UInt8) == ch 'x') = false := by decide
  rw [endsBefore]
  split_ifs
  · decide
  · rw [hx, Bool.and_false, Bool.not_false, Bool.and_true]
    decide

lemma At.sees (h : lx.At pre text post)
    (hfit : pre.length + text.length ≤ lx.line.length % 2 ^ 32) :
    lx.Sees lx.curIdx text := by
  have hmod : lx.line.length % 2 ^ 32 < 2 ^ 32 := Nat.mod_lt _ (Nat.two_pow_pos 32)
  have hidx : lx.curIdx.toNat = pre.length := by
    rw [h.curIdx, UInt32.toNat_ofNat_of_lt' (show _ < 2 ^ 32 by omega)]
  refine ⟨?_, post, ?_⟩
  · rw [hidx, h.currentLineSize, UInt32.toNat_ofNat']
    exact hfit
  · rw [hidx, h.line, List.append_assoc, List.drop_left]

lemma At.charAt (h : lx.At pre text post)
    (hfit : pre.length + text.length ≤ lx.line.length % 2 ^ 32) :
    lx.charAt (lx.curIdx + UInt32.ofNat text.length) = 0 ∨
      lx.charAt (lx.curIdx + UInt32.ofNat text.length) ∈ post.head? := by
  rw [ConstLexer.charAt, MIRLexer.currentChar]
  split_ifs with hlt
  · right
    have hmod : lx.line.length % 2 ^ 32 < 2 ^ 32 := Nat.mod_lt _ (Nat.two_pow_pos 32)
    have hidx : (lx.curIdx + UInt32.ofNat text.length).toNat = pre.length + text.length := by
      rw [h.curIdx, ← UInt32.ofNat_add, UInt32.toNat_ofNat_of_lt' (show _ < 2 ^ 32 by omega)]
    rw [UInt32.lt_iff_toNat_lt, hidx, h.currentLineSize, UInt32.toNat_ofNat'] at hlt
    have hle := Nat.mod_le lx.line.length (2 ^ 32)
    have hpost : 0 < post.length := by
      have hlen := congrArg List.length h.line
      rw [List.length_append, List.length_append] at hlen
      omega
    obtain ⟨c, rest, rfl⟩ := List.exists_cons_of_length_pos hpost
    rw [MIRLexer.getCharAt, hidx, h.line, ← List.length_append,
      List.getD_append_right _ _ _ _ (le_refl _), Nat.sub_self]
    exact rfl
  · exact Or.inl rfl

lemma exists_append_of_unsigned (h : unsigned text = [ch '0']) :
    ∃ front, text = front ++ [ch '0'] := by
  rw [unsigned] at h
  split_ifs at h with hsign
  · refine ⟨[ch '-'], ?_⟩
    rw [← List.cons_head?_tail hsign, h]
    rfl
  · exact ⟨[], h⟩

lemma At.settles_getConstVal (h : lx.At pre text post)
    (hfit : pre.length + text.length ≤ lx.line.length % 2 ^ 32) (hn : literalNumber text = some n)
    (hend : ∀ c ∈ post.head?, endsBefore (unsigned text) c = true) :
    ∃ lx', Outcome.Settles (fun fuel => lx.getConstVal fuel) (.done (.intconst, lx')) ∧
      lx'.Denotes n ∧ ((∀ c ∈ post.head?, isSuffix c = false) → lx'.name = text) := by
  have hchar := h.charAt hfit
  have hends : endsBefore (unsigned text)
      (lx.charAt (lx.curIdx + UInt32.ofNat text.length)) = true := by
    obtain hchar | hchar := hchar
    · rw [hchar]
      exact endsBefore_zero _
    · exact hend _ hchar
  have hzero : unsigned text = [ch '0'] → ∀ idx : UInt32,
      idx + 1 = lx.curIdx + UInt32.ofNat text.length → lx.compareAt idx hexPrefix = false := by
    intro hbody idx hidx
    obtain ⟨front, rfl⟩ := exists_append_of_unsigned hbody
    have hlen : (front ++ [ch '0']).length = front.length + 1 := by
      rw [List.length_append, List.length_singleton]
    have hmod : lx.line.length % 2 ^ 32 < 2 ^ 32 := Nat.mod_lt _ (Nat.two_pow_pos 32)
    have hfront : idx = UInt32.ofNat (pre.length + front.length) := by
      rw [hlen, UInt32.ofNat_add, ← UInt32.add_assoc, h.curIdx, ← UInt32.ofNat_add] at hidx
      exact (UInt32.add_left_inj 1).mp hidx
    have hdrop : lx.line.drop idx.toNat = ch '0' :: post := by
      rw [hfront, UInt32.toNat_ofNat_of_lt' (show _ < 2 ^ 32 by omega), h.line,
        ← List.length_append, ← List.append_assoc, List.append_assoc, List.drop_left]
      rfl
    by_contra hne
    have hcompare : lx.compareAt idx hexPrefix = true := by simpa using hne
    rw [compareAt_iff, hdrop] at hcompare
    obtain ⟨rest, hrest⟩ := hcompare
    have hpost : post = ch 'x' :: rest := (List.cons.inj hrest).2.symm
    have hx := hend (ch 'x') (by rw [hpost]; rfl)
    rw [hbody] at hx
    exact absurd hx (by decide)
  obtain ⟨lx', hsettles, hdenotes, hname⟩ :=
    ConstLexer.settles_getConstVal (h.sees hfit) hn hends hzero
  refine ⟨lx', hsettles, hdenotes, ?_⟩
  intro hsuffix
  apply hname
  obtain hchar | hchar := hchar
  · rw [hchar]
    decide
  · exact hsuffix _ hchar

lemma At.settles_dump {a : IntVal} (hprim : a.shape.IsPrim) (hcanon : a.Canonical)
    (h : lx.At [] a.dump []) :
    ∃ lx' v, Outcome.Settles (fun fuel => lx.getConstVal fuel) (.done (.intconst, lx')) ∧
      lx'.name = a.dump ∧ lx'.theInt128Val = some v ∧ v.truncOrExtend a.shape = some a := by
  obtain ⟨n, hnumber, hmod, hlen⟩ := exists_literalNumber_dump hprim hcanon
  have hline : lx.line.length = a.dump.length := by rw [h.line, List.append_nil, List.nil_append]
  have hfit : ([] : List UInt8).length + a.dump.length ≤ lx.line.length % 2 ^ 32 := by
    rw [hline, List.length_nil, Nat.zero_add, Nat.mod_eq_of_lt (by omega)]
  obtain ⟨lx', hsettles, ⟨⟨v, sign, hv, hrep⟩, -⟩, hname⟩ :=
    h.settles_getConstVal hfit hnumber (by simp)
  have hcap : a.width ≤ a.storageBits := by
    rw [← capacity_shape]
    exact hprim.width_le
  obtain ⟨r, hr, hrepr⟩ := truncOrExtend_represents hrep.canonical hrep.width_le_storageBits hprim
  refine ⟨lx', v, hsettles, hname (by simp), hv, hr.trans (congrArg some ?_)⟩
  apply eq_of_value_eq hrepr.shape_eq
  have hvalue : (r.value : Int) = v.toInt % 2 ^ a.width := hrepr.value_eq
  have hwide : v.toInt % 2 ^ 128 = n % 2 ^ 128 := by
    have htoInt := toInt_emod hrep.canonical
    have hwidth : v.width = 128 := congrArg Shape.width hrep.shape_eq
    rw [hwidth] at htoInt
    exact htoInt.trans hrep.value_eq
  have hle : a.width ≤ 128 := by
    obtain hone | hwidth := hprim
    · exact le_trans hone (by decide)
    · exact hwidth.le
  have hdvd : (2 : Int) ^ a.width ∣ 2 ^ 128 := pow_dvd_pow 2 hle
  rw [← Int.emod_emod_of_dvd _ hdvd, hwide, Int.emod_emod_of_dvd _ hdvd, hmod] at hvalue
  exact_mod_cast hvalue

/-- Literals give their number modulo `2 ^ 128` and modulo `2 ^ 64`, and every integer constant is
read back from its text. -/
theorem literals_denote :
    (∀ (lx : ConstLexer) (pre text post : List UInt8) (n : Int), lx.At pre text post →
      pre.length + text.length ≤ lx.line.length % 2 ^ 32 → literalNumber text = some n →
      (∀ c ∈ post.head?, endsBefore (unsigned text) c = true) →
      ∃ lx', Outcome.Settles (fun fuel => lx.getConstVal fuel) (.done (.intconst, lx')) ∧
        lx'.Denotes n ∧ ((∀ c ∈ post.head?, isSuffix c = false) → lx'.name = text)) ∧
    (∀ (lx : ConstLexer) (a : IntVal), a.shape.IsPrim → a.Canonical → lx.At [] a.dump [] →
      ∃ lx' v, Outcome.Settles (fun fuel => lx.getConstVal fuel) (.done (.intconst, lx')) ∧
        lx'.name = a.dump ∧ lx'.theInt128Val = some v ∧ v.truncOrExtend a.shape = some a) :=
  ⟨fun _ _ _ _ _ h hfit hn hend => h.settles_getConstVal hfit hn hend,
    fun _ _ hprim hcanon h => h.settles_dump hprim hcanon⟩

/-- The lexer at the beginning of a line. -/
def ofLine (line : List UInt8) : ConstLexer where
  toMIRLexer := MIRLexer.ofLine line 0
  theIntVal := 0
  theInt128Val := none
  theLongDoubleVal := (0, 0)

lemma at_ofLine (text post : List UInt8) : (ofLine (text ++ post)).At [] text post :=
  ⟨rfl, rfl, rfl⟩

/-- A negative literal in front of a bracket, and the constant `-1` of 128 bits. -/
theorem literals_denote_neg :
    (∃ lx', Outcome.Settles
        (fun fuel =>
          (ofLine ([ch '-', ch '0', ch 'x', ch '1', ch 'F'] ++ [ch ')'])).getConstVal fuel)
        (.done (.intconst, lx')) ∧ lx'.Denotes (-31)) ∧
    ∃ lx' v, Outcome.Settles
        (fun fuel => (ofLine (((ofNumber (int128 true) (-1)).dump ++ []))).getConstVal fuel)
        (.done (.intconst, lx')) ∧ lx'.theInt128Val = some v ∧
      v.truncOrExtend (int128 true) = some (ofNumber (int128 true) (-1)) := by
  obtain ⟨lx₁, hfirst, hdenotes, -⟩ := literals_denote.1 _ _ _ _ (-31)
    (at_ofLine [ch '-', ch '0', ch 'x', ch '1', ch 'F'] [ch ')']) (by decide) (by decide)
    (by rintro _ ⟨⟩; decide)
  obtain ⟨lx₂, v, hsecond, -, hv, hconvert⟩ := literals_denote.2 _ (ofNumber (int128 true) (-1))
    (isPrim_int128 true) (ofNumber_represents (isPrim_int128 true) (-1)).canonical (at_ofLine _ [])
  exact ⟨⟨lx₁, hfirst, hdenotes⟩, lx₂, v, hsecond, hv, hconvert⟩

lemma literalNumber_power (k : Nat) :
    literalNumber (ch '1' :: List.replicate (k + 1) (ch '0')) =
      some ((10 ^ (k + 1) : Nat) : Int) := by
  apply literalNumber_of_unsignedNumber
  have hprefix : (ch '1' :: List.replicate (k + 1) (ch '0')).take 2 ≠ hexPrefix := by
    rw [List.replicate_succ]
    change [ch '1', ch '0'] ≠ hexPrefix
    decide
  have hall : (ch '1' :: List.replicate (k + 1) (ch '0')).all isDigit = true := by
    rw [List.all_eq_true]
    intro c hc
    obtain rfl | hc := List.mem_cons.mp hc
    · decide
    · rw [(List.mem_replicate.mp hc).2]
      decide
  have hone : (hexCharToDigit (ch '1')).toNat = 1 := by decide
  rw [unsignedNumber, if_neg hprefix, if_neg (by simp [hall]), List.head?_cons, if_neg (by decide),
    readDigits_cons, readDigits_replicate_zero, List.length_replicate, hone, Nat.one_mul,
    Nat.add_zero]

/-- In a line of `2 ^ 32 + 1` digits the lexer counts one character and takes it for the literal. -/
theorem not_literals_denote : ¬∀ (text : List UInt8) (n : Int), literalNumber text = some n →
    ∀ lx', Outcome.Settles (fun fuel => (ofLine text).getConstVal fuel) (.done (.intconst, lx')) →
      lx'.Denotes n := by
  intro h
  obtain ⟨k, hk⟩ : ∃ k, k + 1 = 2 ^ 32 := ⟨2 ^ 32 - 1, by norm_num⟩
  have hsize : (ofLine (ch '1' :: List.replicate (k + 1) (ch '0'))).currentLineSize = 1 := by
    change UInt32.ofNat (ch '1' :: List.replicate (k + 1) (ch '0')).length = 1
    rw [List.length_cons, List.length_replicate, hk]
    rfl
  have hsees : (ofLine (ch '1' :: List.replicate (k + 1) (ch '0'))).Sees 0 [ch '1'] := by
    refine ⟨?_, List.replicate (k + 1) (ch '0'), rfl⟩
    rw [hsize]
    decide
  have hends : endsBefore (unsigned [ch '1'])
      ((ofLine (ch '1' :: List.replicate (k + 1) (ch '0'))).charAt
        (0 + UInt32.ofNat [ch '1'].length)) = true := by
    rw [ConstLexer.charAt, MIRLexer.currentChar, hsize, if_neg (by decide)]
    exact endsBefore_zero _
  obtain ⟨lx', hsettles, hdenotes, -⟩ := ConstLexer.settles_getConstVal hsees
    (n := 1) (by decide) hends (fun h => absurd h (by decide))
  have hword := hdenotes.word
  have hpower := (h _ _ (literalNumber_power k) lx' hsettles).word
  have hdvd : 2 ^ 64 ∣ 10 ^ (k + 1) :=
    (pow_dvd_pow 2 (by omega)).trans (pow_dvd_pow_of_dvd (by decide) (k + 1))
  have hzero : ((10 ^ (k + 1) : Nat) : Int) % 2 ^ 64 = 0 := by
    exact_mod_cast Nat.mod_eq_zero_of_dvd hdvd
  rw [hzero, hword] at hpower
  exact absurd hpower (by decide)

end ConstLexer

end Maple
