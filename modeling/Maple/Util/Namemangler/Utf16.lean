import Maple.Util.Namemangler.EncodeName

/-!
# UTF-16 and UTF-8 with both byte orders

`UTF16ToUTF8` and `UTF8ToUTF16` with their limit and the flag for the byte order, for any bytes. A
string ends with a zero, and what stands in memory behind it is a parameter.
-/

namespace Maple
namespace Namemangler

/-! ### UTF16ToUTF8 -/

/-- The bytes that `UTF16ToUTF8` adds for a code point. -/
def utf8Char (codePoint : Nat) : List UInt8 :=
  if codePoint ≤ 0x7F then [UInt8.ofNat codePoint]
  else if codePoint ≤ 0x7FF then
    [UInt8.ofNat (0xC0 + codePoint / 64), UInt8.ofNat (0x80 + codePoint % 64)]
  else if codePoint ≤ 0xFFFF then
    [UInt8.ofNat (0xE0 + codePoint / 4096 % 16), UInt8.ofNat (0x80 + codePoint / 64 % 64),
      UInt8.ofNat (0x80 + codePoint % 64)]
  else
    [UInt8.ofNat (0xF0 + codePoint / 262144 % 8), UInt8.ofNat (0x80 + codePoint / 4096 % 64),
      UInt8.ofNat (0x80 + codePoint / 64 % 64), UInt8.ofNat (0x80 + codePoint % 64)]

/-- The value of both functions when they stop at the limit. -/
def packCounts (retNum : UInt16) (i : Nat) : Nat := retNum.toNat * 65536 ||| i

/-- A unit in the order of bytes that is asked for. A single unit keeps its order. -/
def orderUnit (num : UInt16) (isBigEndian : Bool) (unit : Nat) : Nat :=
  if isBigEndian || num == 1 then unit else changeEndian16 unit

/-- The code point at the start of the units, and how many units it takes. Behind the units stands
a zero. -/
def readUnits (num : UInt16) (isBigEndian : Bool) (str16 : List UInt16) : Nat × Nat :=
  let codePoint := orderUnit num isBigEndian (str16.getD 0 0).toNat
  if codePoint > 0xFFFF then
    let low := (str16.getD 1 0).toNat
    (codePoint % 1024 * 1024 + (if isBigEndian then low % 1024 else changeEndian16 low % 1024), 2)
  else (codePoint, 1)

lemma one_le_readUnits (num : UInt16) (isBigEndian : Bool) (str16 : List UInt16) :
    1 ≤ (readUnits num isBigEndian str16).2 := by
  simp only [readUnits]
  by_cases h : orderUnit num isBigEndian (str16.getD 0 0).toNat > 0xFFFF
  · rw [if_pos h]
    omega
  · rw [if_neg h]

/-- The loop of `UTF16ToUTF8` from the unit `i` on: the bytes and the value that is returned. -/
def utf16ToUtf8Loop (num : UInt16) (isBigEndian : Bool) (str16 : List UInt16) (i : Nat)
    (count retNum : UInt16) : List UInt8 × Nat :=
  if str16 = [] then ([], i)
  else
    let read := readUnits num isBigEndian str16
    let str := utf8Char read.1
    let retNum := retNum + UInt16.ofNat str.length
    if num = count + 1 then (str, packCounts retNum (i + read.2))
    else
      let rest :=
        utf16ToUtf8Loop num isBigEndian (str16.drop read.2) (i + read.2) (count + 1) retNum
      (str ++ rest.1, rest.2)
termination_by str16.length
decreasing_by
  have hread := one_le_readUnits num isBigEndian str16
  rename_i hne _
  have hpos := List.length_pos_iff.mpr hne
  rw [List.length_drop]
  omega

/-- `UTF16ToUTF8`: the bytes and the value that is returned. -/
def utf16ToUtf8With (num : UInt16) (isBigEndian : Bool) (str16 : List UInt16) : List UInt8 × Nat :=
  utf16ToUtf8Loop num isBigEndian str16 0 0 0

/-! ### UTF8ToUTF16 -/

/-- The byte `str8[k]`. Behind the string stands a zero, and behind that unknown memory. -/
def byteAt (memory : Nat → UInt8) (str8 : List UInt8) (k : Nat) : Nat :=
  ((str8 ++ [0]).getD k (memory k)).toNat

/-- `GetCodePoint`: the code point and the number of bytes that are read. -/
def readBytes (memory : Nat → UInt8) (str8 : List UInt8) : Nat × Nat :=
  let a := byteAt memory str8 0
  let b := byteAt memory str8 1
  let c := byteAt memory str8 2
  let d := byteAt memory str8 3
  if a ≤ 0x7F then (a, 1)
  else if a ≥ 0xF0 then (a % 8 * 262144 + b % 64 * 4096 + c % 64 * 64 + d % 64, 4)
  else if a ≥ 0xE0 then (a % 16 * 4096 + b % 64 * 64 + c % 64, 3)
  else if a ≥ 0xC0 then (a % 32 * 64 + b % 64, 2)
  -- invalid UTF-8
  else (0, 1)

lemma one_le_readBytes (memory : Nat → UInt8) (str8 : List UInt8) :
    1 ≤ (readBytes memory str8).2 := by
  simp only [readBytes]
  split_ifs <;> simp

/-- The units that `UTF8ToUTF16` adds for a code point, before they are ordered. -/
def unitsOf (codePoint : Nat) : List Nat :=
  if codePoint ≤ 0xFFFF then [codePoint]
  else [((codePoint - 0x10000) / 1024) ||| 0xD800, ((codePoint - 0x10000) % 1024) ||| 0xDC00]

/-- The loop of `UTF8ToUTF16` from the byte `i` on: the units and the value that is returned. -/
def utf8ToUtf16Loop (num : UInt16) (isBigEndian : Bool) (memory : Nat → UInt8)
    (str8 : List UInt8) (i : Nat) (count retNum : UInt16) : List UInt16 × Nat :=
  if str8 = [] then ([], i)
  else
    let read := readBytes memory str8
    let units := (unitsOf read.1).map fun u => UInt16.ofNat (orderUnit num isBigEndian u)
    let retNum := retNum + UInt16.ofNat units.length
    if num = count + 1 then (units, packCounts retNum (i + read.2))
    else
      let rest := utf8ToUtf16Loop num isBigEndian memory (str8.drop read.2) (i + read.2) (count + 1)
        retNum
      (units ++ rest.1, rest.2)
termination_by str8.length
decreasing_by
  have hread := one_le_readBytes memory str8
  rename_i hne _
  have hpos := List.length_pos_iff.mpr hne
  rw [List.length_drop]
  omega

/-- `UTF8ToUTF16`: the units and the value that is returned. -/
def utf8ToUtf16With (num : UInt16) (isBigEndian : Bool) (memory : Nat → UInt8)
    (str8 : List UInt8) : List UInt16 × Nat :=
  utf8ToUtf16Loop num isBigEndian memory str8 0 0 0

/-! ### The limit -/

/-- How many conversions are left. The counter wraps around before it comes to the limit 0. -/
def turnsLeft (num count : UInt16) : Nat := (num - (count + 1)).toNat + 1

lemma turnsLeft_zero : turnsLeft 0 0 = maxCount := rfl

lemma turnsLeft_eq (num count : UInt16) :
    turnsLeft num count = (65536 - (count.toNat + 1) % 65536 + num.toNat) % 65536 + 1 := by
  rw [turnsLeft, UInt16.toNat_sub, UInt16.toNat_add]
  rfl

lemma toNat_add_one (count : UInt16) : (count + 1).toNat = (count.toNat + 1) % 65536 := by
  rw [UInt16.toNat_add]
  rfl

lemma eq_add_one_iff (num count : UInt16) : num = count + 1 ↔ turnsLeft num count = 1 := by
  have hnum := num.toNat_lt
  rw [turnsLeft_eq, ← UInt16.toNat_inj, toNat_add_one]
  omega

lemma turnsLeft_succ {num count : UInt16} (h : num ≠ count + 1) :
    turnsLeft num count = turnsLeft num (count + 1) + 1 := by
  have hnum := num.toNat_lt
  have hne : turnsLeft num count ≠ 1 := fun hturns => h ((eq_add_one_iff num count).mpr hturns)
  rw [turnsLeft_eq] at hne
  rw [turnsLeft_eq, turnsLeft_eq, toNat_add_one]
  omega

/-! ### Units to bytes -/

variable {num : UInt16} {isBigEndian : Bool}

lemma orderUnit_lt {u : Nat} (h : u < 65536) : orderUnit num isBigEndian u < 65536 := by
  unfold orderUnit
  split_ifs
  · exact h
  · exact changeEndian16_lt u

lemma orderUnit_orderUnit {u : Nat} (h : u < 65536) :
    orderUnit num isBigEndian (orderUnit num isBigEndian u) = u := by
  unfold orderUnit
  split_ifs
  · rfl
  · exact changeEndian16_changeEndian16 h

lemma readUnits_cons (u : UInt16) (str16 : List UInt16) :
    readUnits num isBigEndian (u :: str16) = (orderUnit num isBigEndian u.toNat, 1) := by
  have hlt : orderUnit num isBigEndian u.toNat < 65536 := orderUnit_lt u.toNat_lt
  simp only [readUnits, List.getD_cons_zero]
  rw [if_neg (by omega)]

lemma utf16ToUtf8Loop_fst (str16 : List UInt16) (i : Nat) (count retNum : UInt16) :
    (utf16ToUtf8Loop num isBigEndian str16 i count retNum).1 =
      (str16.take (turnsLeft num count)).flatMap
        fun u => utf8Char (orderUnit num isBigEndian u.toNat) := by
  induction str16 generalizing i count retNum with
  | nil => simp [utf16ToUtf8Loop]
  | cons u str16 ih =>
    rw [utf16ToUtf8Loop, if_neg (by simp)]
    simp only [readUnits_cons, List.drop_succ_cons, List.drop_zero]
    by_cases h : num = count + 1
    · rw [if_pos h, (eq_add_one_iff num count).mp h]
      simp
    · rw [if_neg h, ih, turnsLeft_succ h]
      simp

lemma utf16ToUtf8With_fst (str16 : List UInt16) :
    (utf16ToUtf8With 0 isBigEndian str16).1 =
      (str16.take maxCount).flatMap fun u => utf8Char (orderUnit 0 isBigEndian u.toNat) :=
  utf16ToUtf8Loop_fst str16 0 0 0

/-! ### Bytes to units -/

lemma byteAt_zero (memory : Nat → UInt8) (b : UInt8) (str8 : List UInt8) :
    byteAt memory (b :: str8) 0 = b.toNat := rfl

lemma byteAt_succ (memory : Nat → UInt8) (b : UInt8) (str8 : List UInt8) (k : Nat) :
    byteAt memory (b :: str8) (k + 1) = byteAt (fun k => memory (k + 1)) str8 k := rfl

lemma readBytes_utf8Char (memory : Nat → UInt8) {codePoint : Nat} (h : codePoint < 2097152)
    (rest : List UInt8) :
    readBytes memory (utf8Char codePoint ++ rest) = (codePoint, (utf8Char codePoint).length) := by
  unfold utf8Char
  split_ifs with h1 h2 h3
  · have ha := toNat_ofNat_byte (n := codePoint) (by omega)
    simp only [readBytes, List.cons_append, List.nil_append, byteAt_zero, ha, if_pos h1]
    rfl
  · have ha := toNat_ofNat_byte (n := 0xC0 + codePoint / 64) (by omega)
    have hb := toNat_ofNat_byte (n := 0x80 + codePoint % 64) (by omega)
    simp only [readBytes, List.cons_append, List.nil_append, byteAt_zero, byteAt_succ, ha, hb]
    rw [if_neg (by omega), if_neg (by omega), if_neg (by omega), if_pos (by omega)]
    simp only [Prod.mk.injEq, List.length_cons, List.length_nil, and_true]
    omega
  · have ha := toNat_ofNat_byte (n := 0xE0 + codePoint / 4096 % 16) (by omega)
    have hb := toNat_ofNat_byte (n := 0x80 + codePoint / 64 % 64) (by omega)
    have hc := toNat_ofNat_byte (n := 0x80 + codePoint % 64) (by omega)
    simp only [readBytes, List.cons_append, List.nil_append, byteAt_zero, byteAt_succ, ha, hb, hc]
    rw [if_neg (by omega), if_neg (by omega), if_pos (by omega)]
    simp only [Prod.mk.injEq, List.length_cons, List.length_nil, and_true]
    omega
  · have ha := toNat_ofNat_byte (n := 0xF0 + codePoint / 262144 % 8) (by omega)
    have hb := toNat_ofNat_byte (n := 0x80 + codePoint / 4096 % 64) (by omega)
    have hc := toNat_ofNat_byte (n := 0x80 + codePoint / 64 % 64) (by omega)
    have hd := toNat_ofNat_byte (n := 0x80 + codePoint % 64) (by omega)
    simp only [readBytes, List.cons_append, List.nil_append, byteAt_zero, byteAt_succ, ha, hb, hc,
      hd]
    rw [if_neg (by omega), if_pos (by omega)]
    simp only [Prod.mk.injEq, List.length_cons, List.length_nil, and_true]
    omega

lemma utf8Char_ne_nil (codePoint : Nat) : utf8Char codePoint ≠ [] := by
  unfold utf8Char
  split_ifs <;> simp

lemma utf8ToUtf16Loop_fst (memory : Nat → UInt8) (cs : List Nat) (hcs : ∀ c ∈ cs, c < 2097152)
    (i : Nat) (count retNum : UInt16) :
    (utf8ToUtf16Loop num isBigEndian memory (cs.flatMap utf8Char) i count retNum).1 =
      (cs.take (turnsLeft num count)).flatMap
        fun c => (unitsOf c).map fun u => UInt16.ofNat (orderUnit num isBigEndian u) := by
  induction cs generalizing i count retNum with
  | nil => simp [utf8ToUtf16Loop]
  | cons c cs ih =>
    rw [List.forall_mem_cons] at hcs
    rw [utf8ToUtf16Loop, List.flatMap_cons, if_neg (by simp [utf8Char_ne_nil])]
    simp only [readBytes_utf8Char memory hcs.1, List.drop_left]
    by_cases h : num = count + 1
    · rw [if_pos h, (eq_add_one_iff num count).mp h]
      simp
    · rw [if_neg h, ih hcs.2, turnsLeft_succ h]
      simp

lemma utf8ToUtf16With_fst (isBigEndian : Bool) (memory : Nat → UInt8) (cs : List Nat)
    (hcs : ∀ c ∈ cs, c < 2097152) :
    (utf8ToUtf16With 0 isBigEndian memory (cs.flatMap utf8Char)).1 =
      (cs.take maxCount).flatMap
        fun c => (unitsOf c).map fun u => UInt16.ofNat (orderUnit 0 isBigEndian u) :=
  utf8ToUtf16Loop_fst memory cs hcs 0 0 0

lemma flatMap_utf8Char_inj {as bs : List Nat} (has : ∀ c ∈ as, c < 2097152)
    (hbs : ∀ c ∈ bs, c < 2097152) (h : as.flatMap utf8Char = bs.flatMap utf8Char) : as = bs := by
  induction as generalizing bs with
  | nil =>
    cases bs with
    | nil => rfl
    | cons b bs =>
      rw [List.flatMap_cons] at h
      simp [utf8Char_ne_nil] at h
  | cons a as ih =>
    cases bs with
    | nil =>
      rw [List.flatMap_cons] at h
      simp [utf8Char_ne_nil] at h
    | cons b bs =>
      rw [List.forall_mem_cons] at has hbs
      rw [List.flatMap_cons, List.flatMap_cons] at h
      have hread := congrArg (readBytes fun _ => 0) h
      rw [readBytes_utf8Char _ has.1, readBytes_utf8Char _ hbs.1, Prod.mk.injEq] at hread
      obtain ⟨rfl, -⟩ := hread
      rw [ih has.2 hbs.2 (List.append_cancel_left h)]

/-! ### Back again -/

lemma unitsOf_of_lt {u : Nat} (h : u < 65536) :
    (unitsOf u).map (fun u => UInt16.ofNat (orderUnit num isBigEndian u)) =
      [UInt16.ofNat (orderUnit num isBigEndian u)] := by
  rw [unitsOf, if_pos (by omega)]
  rfl

lemma toNat_ofNat_orderUnit {u : Nat} (h : u < 65536) :
    (UInt16.ofNat (orderUnit num isBigEndian u)).toNat = orderUnit num isBigEndian u := by
  have hlt : orderUnit num isBigEndian u < 65536 := orderUnit_lt h
  rw [UInt16.toNat_ofNat', Nat.mod_eq_of_lt hlt]

lemma flatMap_unitsOf {cs : List Nat} (h : ∀ c ∈ cs, c < 65536) :
    (cs.flatMap fun c => (unitsOf c).map fun u => UInt16.ofNat (orderUnit num isBigEndian u)) =
      cs.map fun c => UInt16.ofNat (orderUnit num isBigEndian c) := by
  induction cs with
  | nil => rfl
  | cons c cs ih =>
    rw [List.forall_mem_cons] at h
    rw [List.flatMap_cons, List.map_cons, unitsOf_of_lt h.1, ih h.2, List.singleton_append]

lemma utf8ToUtf16With_utf16ToUtf8With (memory : Nat → UInt8) (str16 : List UInt16) :
    (utf8ToUtf16With 0 isBigEndian memory (utf16ToUtf8With 0 isBigEndian str16).1).1 =
      str16.take maxCount := by
  have hlt : ∀ u : UInt16, orderUnit 0 isBigEndian u.toNat < 65536 := fun u =>
    orderUnit_lt u.toNat_lt
  have hback : ∀ u : UInt16, (unitsOf (orderUnit 0 isBigEndian u.toNat)).map
      (fun u => UInt16.ofNat (orderUnit 0 isBigEndian u)) = [u] := by
    intro u
    rw [unitsOf_of_lt (hlt u), orderUnit_orderUnit u.toNat_lt, UInt16.ofNat_toNat]
  rw [utf16ToUtf8With_fst]
  have hbytes := utf8ToUtf16With_fst isBigEndian memory
    ((str16.take maxCount).map fun u => orderUnit 0 isBigEndian u.toNat) (by
      intro c hc
      obtain ⟨u, -, rfl⟩ := List.mem_map.mp hc
      exact (hlt u).trans (by omega))
  rw [List.flatMap_map, ← List.map_take, List.flatMap_map, List.take_take, min_self] at hbytes
  rw [hbytes]
  simp only [hback]
  exact List.flatMap_singleton' _

/-- Units that have gone through UTF-8 come back if there are not too many of them. -/
theorem utf8ToUtf16With_utf16ToUtf8With_iff (memory : Nat → UInt8) (isBigEndian : Bool)
    (str16 : List UInt16) :
    (utf8ToUtf16With 0 isBigEndian memory (utf16ToUtf8With 0 isBigEndian str16).1).1 = str16 ↔
      str16.length ≤ maxCount := by
  rw [utf8ToUtf16With_utf16ToUtf8With]
  constructor
  · intro h
    rw [← h]
    exact List.length_take_le _ _
  · exact List.take_of_length_le

/-- The last one of 65537 units is lost. -/
theorem utf8ToUtf16With_utf16ToUtf8With_long :
    let str16 : List UInt16 := List.replicate 65537 0
    (utf8ToUtf16With 0 true (fun _ => 0) (utf16ToUtf8With 0 true str16).1).1 ≠ str16 := by
  intro str16 h
  rw [utf8ToUtf16With_utf16ToUtf8With] at h
  have hlength := congrArg List.length h
  rw [List.length_take, List.length_replicate] at hlength
  exact absurd hlength (by decide)

lemma toNat_lt (c : Char) : c.toNat < 1114112 := by
  rcases c.valid with h | h
  · exact h.trans (by omega)
  · exact h.2

lemma utf8EncodeChar_eq (c : Char) : String.utf8EncodeChar c = utf8Char c.toNat := by
  have htwo : c.toNat ≤ 0x7FF → c.toNat / 64 % 32 = c.toNat / 64 := fun h =>
    Nat.mod_eq_of_lt (by omega)
  have hval : c.val.toNat = c.toNat := rfl
  simp only [String.utf8EncodeChar, utf8Char, hval]
  split_ifs with h1 h2 h3
  · rfl
  · rw [htwo h2, Nat.add_comm 0xC0, Nat.add_comm 0x80]
  · rw [Nat.add_comm 0xE0, Nat.add_comm 0x80, Nat.add_comm 0x80]
  · rw [Nat.add_comm 0xF0, Nat.add_comm 0x80, Nat.add_comm 0x80, Nat.add_comm 0x80]

/-- A text that has gone through UTF-16 comes back if all its characters are in the basic plane and
there are not too many of them. -/
theorem utf16ToUtf8With_utf8ToUtf16With_iff (memory : Nat → UInt8) (isBigEndian : Bool)
    (text : List Char) :
    (utf16ToUtf8With 0 isBigEndian (utf8ToUtf16With 0 isBigEndian memory
        (text.flatMap String.utf8EncodeChar)).1).1 = text.flatMap String.utf8EncodeChar ↔
      (∀ c ∈ text, c.toNat ≤ 0xFFFF) ∧ text.length ≤ maxCount := by
  have hchar : ∀ c ∈ text.map Char.toNat, c < 2097152 := by
    intro n hn
    obtain ⟨c, -, rfl⟩ := List.mem_map.mp hn
    exact (toNat_lt c).trans (by omega)
  have hbytes : text.flatMap String.utf8EncodeChar = (text.map Char.toNat).flatMap utf8Char := by
    have hfun : String.utf8EncodeChar = fun c => utf8Char c.toNat := funext utf8EncodeChar_eq
    rw [List.flatMap_map, hfun]
  rw [hbytes, utf8ToUtf16With_fst isBigEndian memory _ hchar, utf16ToUtf8With_fst]
  set units := ((text.map Char.toNat).take maxCount).flatMap fun c =>
    (unitsOf c).map fun u => UInt16.ofNat (orderUnit 0 isBigEndian u) with hunits
  have hmap : ((units.take maxCount).flatMap fun u => utf8Char (orderUnit 0 isBigEndian u.toNat)) =
      ((units.take maxCount).map fun u => orderUnit 0 isBigEndian u.toNat).flatMap utf8Char := by
    rw [List.flatMap_map]
  have hlt : ∀ c ∈ (units.take maxCount).map fun u => orderUnit 0 isBigEndian u.toNat,
      c < 65536 := by
    intro c hc
    obtain ⟨u, -, rfl⟩ := List.mem_map.mp hc
    exact orderUnit_lt u.toNat_lt
  rw [hmap]
  constructor
  · intro h
    have heq := flatMap_utf8Char_inj (fun c hc => (hlt c hc).trans (by omega)) hchar h
    constructor
    · intro c hc
      have hmem := heq ▸ List.mem_map_of_mem hc
      have := hlt _ hmem
      omega
    · have hlength := congrArg List.length heq
      rw [List.length_map, List.length_map] at hlength
      rw [← hlength]
      exact List.length_take_le _ _
  · rintro ⟨hplane, hlength⟩
    have hbasic : ∀ c ∈ text.map Char.toNat, c < 65536 := by
      intro n hn
      obtain ⟨c, hc, rfl⟩ := List.mem_map.mp hn
      exact Nat.lt_succ_of_le (hplane c hc)
    have htake : (text.map Char.toNat).take maxCount = text.map Char.toNat :=
      List.take_of_length_le (by rwa [List.length_map])
    have hsame : units = (text.map Char.toNat).map
        fun c => UInt16.ofNat (orderUnit 0 isBigEndian c) := by
      rw [hunits, htake, flatMap_unitsOf hbasic]
    have hcut : units.take maxCount = units := by
      apply List.take_of_length_le
      rwa [hsame, List.length_map, List.length_map]
    rw [hcut, hsame, List.map_map]
    have hid : ∀ c ∈ text.map Char.toNat, orderUnit 0 isBigEndian
        (UInt16.ofNat (orderUnit 0 isBigEndian c)).toNat = c := by
      intro c hc
      rw [toNat_ofNat_orderUnit (hbasic c hc), orderUnit_orderUnit (hbasic c hc)]
    congr 1
    exact (List.map_congr_left hid).trans (List.map_id' _)

/-- A character outside of the basic plane comes back as two characters of three bytes each. -/
theorem utf16ToUtf8With_utf8ToUtf16With_emoji :
    let bytes := String.utf8EncodeChar (Char.ofNat 0x1F600)
    bytes = [0xF0, 0x9F, 0x98, 0x80] ∧
      (utf16ToUtf8With 0 true (utf8ToUtf16With 0 true (fun _ => 0) bytes).1).1 =
        [0xED, 0xA0, 0xBD, 0xED, 0xB8, 0x80] := by
  decide +kernel

lemma utf16ToUtf8With_eq (str16 : List UInt16) :
    (utf16ToUtf8With 0 false str16).1 = utf16ToUtf8 str16 := by
  have hbytes : ∀ u : UInt16, utf8Char (orderUnit 0 false u.toNat) =
      utf8Bytes (changeEndian16 u.toNat) := by
    intro u
    have hlt := changeEndian16_lt u.toNat
    have horder : orderUnit 0 false u.toNat = changeEndian16 u.toNat := rfl
    rw [horder, utf8Char, utf8Bytes, if_pos (show changeEndian16 u.toNat ≤ 0xFFFF by omega)]
  rw [utf16ToUtf8With_fst, utf16ToUtf8]
  simp only [hbytes]

end Namemangler
end Maple
