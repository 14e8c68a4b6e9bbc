import Maple.Util.IntVal.Compare
import Maple.Util.IntVal.Typed

/-!
# Minimum and maximum in terms of a type
-/

namespace Maple
namespace IntVal

open Words

/-- `Less` of two values in terms of a type. -/
def less (a b : IntVal) (t : Shape) : Option Bool := do
  return (← a.truncOrExtend t).lt (← b.truncOrExtend t)

/-- `operator==` of values that may differ in the width and the sign, which only an assertion
excludes. A number and a pointer are not compared with a result. -/
def eqStorage (a b : IntVal) : Option Bool :=
  if a.IsOneWord then
    if b.IsOneWord then some (a.word == b.word) else none
  else if b.IsOneWord then none
  else if a.words.length ≤ b.words.length then some (a.words == b.words.take a.words.length)
  else none

/-- `Min` in terms of a type. -/
def minOf (a b : IntVal) (t : Shape) : Option IntVal := do
  if ← a.less b t then convert t a else convert t b

/-- `Max` in terms of a type. -/
def maxOf (a b : IntVal) (t : Shape) : Option IntVal := do
  let m ← a.minOf b t
  if ← m.eqStorage a then return b.copy else return a.copy

/-- `Min` and `Max` are the two values in the type, in its order. -/
def MinMaxAgree (a b : IntVal) (t : Shape) : Prop :=
  ∃ m M x y, a.minOf b t = some m ∧ a.maxOf b t = some M ∧
    a.truncOrExtend t = some x ∧ b.truncOrExtend t = some y ∧
    m.shape = t ∧ M.shape = t ∧ (m = x ∧ M = y ∨ m = y ∧ M = x) ∧ m.toInt ≤ M.toInt

/-- The converting constructor reads the number of the value: it is not extended, or it is not
negative; only a word with its highest bit is extended as a signed one, if the new value is. -/
def ReadsNumber (a : IntVal) (t : Shape) : Prop :=
  t.width ≤ a.width ∨
    if a.IsOneWord ∧ ¬t.IsOneWord ∧ t.sign = true ∧ 2 ^ 63 ≤ a.value then a.sign = true
    else 0 ≤ a.toInt

/-- The value in the type has the words of the value. -/
def KeepsWords (a : IntVal) (t : Shape) : Prop :=
  (a.IsOneWord ↔ t.IsOneWord) ∧ (a.width = t.width ∨ 0 ≤ a.toInt ∧ a.value < 2 ^ t.width ∨
    ¬t.IsOneWord ∧ t.width ≤ a.width)

section Conversions

variable {a : IntVal} (hcanon : a.Canonical) (hcap : a.width ≤ a.storageBits) {t : Shape}
  (ht : t.IsPrim)

include hcanon

lemma cast_value_lt : (a.value : Int) < 2 ^ a.width := by exact_mod_cast hcanon

lemma value_eq_toInt_emod_iff (h : a.width < t.width) :
    (a.value : Int) = a.toInt % 2 ^ t.width ↔ 0 ≤ a.toInt := by
  constructor
  · intro heq
    by_contra hneg
    have hpow : (2 : Int) ^ a.width < 2 ^ t.width := pow_lt_pow_right₀ (by decide) h
    rw [toInt_emod_of_neg hcanon (not_le.mp hneg) h.le] at heq
    omega
  · intro hsign
    exact (toInt_emod_of_nonneg hcanon hsign h.le).symm

lemma width_eq_of_le (hone : a.IsOneWord) (h : 2 ^ 63 ≤ a.value) : a.width = 64 := by
  have hle : a.width ≤ 64 := hone
  by_contra hne
  have hpow : 2 ^ a.width ≤ 2 ^ 63 := Nat.pow_le_pow_right (by decide) (by omega)
  exact absurd (lt_of_lt_of_le hcanon (hpow.trans h)) (lt_irrefl _)

lemma toInt_emod_eq_value_iff (w : Nat) :
    a.toInt % 2 ^ w = a.value ↔ a.width = w ∨ 0 ≤ a.toInt ∧ a.value < 2 ^ w := by
  have hbound : a.value < 2 ^ a.width := hcanon
  constructor
  · intro heq
    have hlt : a.value < 2 ^ w := by
      have := Int.emod_lt_of_pos a.toInt (by positivity : (0 : Int) < 2 ^ w)
      rw [heq] at this
      exact_mod_cast this
    by_cases hsign : 0 ≤ a.toInt
    · exact Or.inr ⟨hsign, hlt⟩
    have hneg := not_le.mp hsign
    have hint := toInt_of_neg hcanon hneg
    left
    rcases lt_trichotomy a.width w with h | h | h
    · rw [toInt_emod_of_neg hcanon hneg h.le] at heq
      have hpow : (2 : Int) ^ a.width < 2 ^ w := pow_lt_pow_right₀ (by decide) h
      omega
    · exact h
    · -- the sign bit of a wider value is above the type
      have hbit : 2 ^ (a.width - 1) ≤ a.value := by
        apply (testBit_sub_one_iff a.width_pos hcanon).mp
        by_contra hbit
        rw [toInt_eq hcanon, if_neg fun h => hbit h.2] at hneg
        omega
      have hpow : 2 ^ w ≤ 2 ^ (a.width - 1) := Nat.pow_le_pow_right (by decide) (by omega)
      omega
  · rintro (rfl | ⟨hsign, hlt⟩)
    · exact toInt_emod hcanon
    · rw [toInt_of_nonneg hcanon hsign]
      exact Int.emod_eq_of_lt (Int.natCast_nonneg _) (by exact_mod_cast hlt)

include ht in
lemma readNumber_emod_eq_iff :
    a.readNumber t % 2 ^ t.width = a.toInt % 2 ^ t.width ↔ a.ReadsNumber t := by
  rw [ReadsNumber]
  by_cases hle : t.width ≤ a.width
  · refine iff_of_true ?_ (Or.inl hle)
    rw [toInt_emod_of_le hcanon hle, readNumber]
    split_ifs with hone
    · exact wrap_word_emod _ _ (hle.trans hone)
    · rfl
  have hlt : a.width < t.width := not_le.mp hle
  have hvalue := value_eq_toInt_emod_iff hcanon hlt
  have hbound := cast_value_lt hcanon
  rw [or_iff_right hle]
  by_cases hone : a.IsOneWord
  swap
  · have hself : (a.value : Int) % 2 ^ t.width = a.value :=
      Int.emod_eq_of_lt (Int.natCast_nonneg _)
        (hbound.trans (pow_lt_pow_right₀ (by decide) hlt))
    rw [readNumber, if_neg hone, if_neg fun h => hone h.1, hself, hvalue]
  have hword : a.value < 2 ^ 64 := hone.value_eq ▸ a.word.toNat_lt
  rw [readNumber, if_pos hone]
  by_cases htone : t.IsOneWord
  · have hself : (a.value : Int) % 2 ^ t.width = a.value :=
      Int.emod_eq_of_lt (Int.natCast_nonneg _)
        (hbound.trans (pow_lt_pow_right₀ (by decide) hlt))
    rw [wrap_word_emod _ _ htone, hself, hvalue, if_neg fun h => h.2.1 htone]
  have hwidth : t.width = 128 := ht.resolve_left htone
  rw [hwidth] at hvalue ⊢
  by_cases hfill : t.sign = true ∧ 2 ^ 63 ≤ a.value
  · obtain ⟨hsign, hhigh⟩ := hfill
    have h64 := width_eq_of_le hcanon hone hhigh
    have hbit : a.value.testBit (a.width - 1) = true :=
      (testBit_sub_one_iff a.width_pos hcanon).mpr (by rw [h64]; exact hhigh)
    rw [if_pos ⟨hone, htone, hsign, hhigh⟩, toInt_eq hcanon, hbit, h64, hsign,
      wrap_word_eq hword, if_pos hhigh]
    cases a.sign with
    | false =>
      simp only [Bool.false_eq_true, false_and, ↓reduceIte, iff_false]
      omega
    | true => simp
  · have hread : (⟨64, t.sign⟩ : IntFormat).wrap a.value = a.value := by
      cases hsign : t.sign with
      | false => exact wrap_word_eq_of_unsigned hword
      | true => rw [wrap_word_eq hword, if_neg fun h => hfill ⟨hsign, h⟩]
    rw [hread, if_neg fun h => hfill h.2.2, ← hvalue]
    omega

include hcap ht in
lemma eqStorage_eq_some_true_iff {r : IntVal} (hr : r.Represents t a.toInt) :
    r.eqStorage a = some true ↔ a.KeepsWords t := by
  have hrone : r.IsOneWord ↔ t.IsOneWord := by
    rw [← isOneWord_shape, hr.shape_eq]
  have hvalue := hr.value_eq
  rw [eqStorage, KeepsWords]
  by_cases htone : t.IsOneWord
  · rw [if_pos (hrone.mpr htone)]
    by_cases hone : a.IsOneWord
    · have hword : (r.word == a.word) = true ↔ r.value = a.value := by
        rw [beq_iff_eq, ← UInt64.toNat_inj, (hrone.mpr htone).word_eq, hone.word_eq]
      rw [if_pos hone, Option.some_inj, hword, and_iff_right (iff_of_true hone htone),
        ← Nat.cast_inj (R := Int), hvalue]
      simp only [htone, not_true_eq_false, false_and, or_false]
      exact toInt_emod_eq_value_iff hcanon t.width
    · rw [if_neg hone]
      simp [hone, htone]
  · rw [if_neg (mt hrone.mp htone)]
    by_cases hone : a.IsOneWord
    · rw [if_pos hone]
      simp [hone, htone]
    · have hlen := numWords_shape hcap
      have hgt : 64 < a.width := not_le.mp hone
      have hrlen : r.words.length = 2 := by
        rw [r.words_length]
        exact (congrArg Shape.numWords hr.shape_eq).trans (ht.numWords_eq htone)
      have hwidth : t.width = 128 := ht.resolve_left htone
      have hle : 2 ≤ a.words.length := by omega
      have htake : (a.words.take 2).length = 2 := List.length_take_of_le hle
      have hwords : (r.words == a.words.take 2) = true ↔ r.value = a.value % 2 ^ 128 := by
        rw [beq_iff_eq, ← value_inj (hrlen.trans htake.symm), value_take _ hle]
        rfl
      rw [if_neg hone, hrlen, if_pos hle, Option.some_inj, hwords,
        and_iff_right (iff_of_false hone htone), ← Nat.cast_inj (R := Int), hvalue, Int.natCast_mod,
        ← hwidth, Nat.cast_pow, Nat.cast_ofNat]
      by_cases hle' : t.width ≤ a.width
      · exact iff_of_true (toInt_emod_of_le hcanon hle') (Or.inr (Or.inr ⟨htone, hle'⟩))
      · have hlt : a.width < t.width := not_le.mp hle'
        have hbound := cast_value_lt hcanon
        have hpow : (2 : Int) ^ a.width < 2 ^ t.width := pow_lt_pow_right₀ (by decide) hlt
        have hself : (a.value : Int) % 2 ^ t.width = a.value :=
          Int.emod_eq_of_lt (Int.natCast_nonneg _) (hbound.trans hpow)
        rw [hself, eq_comm, value_eq_toInt_emod_iff hcanon hlt]
        have hnat : a.value < 2 ^ t.width := by exact_mod_cast hbound.trans hpow
        constructor
        · intro h
          exact Or.inr (Or.inl ⟨h, hnat⟩)
        · rintro (h | ⟨h, -⟩ | ⟨-, h⟩)
          · exact absurd h hlt.ne
          · exact h
          · exact absurd hlt (not_lt.mpr h)

end Conversions

/-! ### When they agree -/

lemma eqStorage_of_shape_eq {a b : IntVal} (hshape : a.shape = b.shape) :
    a.eqStorage b = some (a.eq b) := by
  have hwidth : a.width = b.width := congrArg Shape.width hshape
  have hlen := length_eq_of_width hwidth
  rw [eqStorage, eq]
  by_cases hone : a.IsOneWord
  · have hone' : b.IsOneWord := hwidth.symm.trans_le hone
    rw [if_pos hone, if_pos hone, if_pos hone']
  · have hone' : ¬b.IsOneWord := fun h => hone (hwidth.trans_le h)
    rw [if_neg hone, if_neg hone, if_neg hone', if_pos hlen.le, hlen, List.take_length]

lemma eq_iff_eq {a b : IntVal} (hshape : a.shape = b.shape) : a.eq b = true ↔ a = b := by
  have hwidth : a.width = b.width := congrArg Shape.width hshape
  rw [eq_iff_value_eq hwidth]
  constructor
  · exact eq_of_value_eq hshape
  · rintro rfl
    rfl

section Agree

variable {a b : IntVal} {t : Shape}

lemma minOf_eq {x y cx cy : IntVal} {p q : Int} (hx : a.truncOrExtend t = some x)
    (hy : b.truncOrExtend t = some y) (hrx : x.Represents t p) (hry : y.Represents t q)
    (hcx : convert t a = some cx) (hcy : convert t b = some cy) :
    a.minOf b t = some (if x.toInt < y.toInt then cx else cy) := by
  have hlt := lt_iff (hrx.shape_eq.trans hry.shape_eq.symm) hrx.canonical hry.canonical
    hrx.width_le_storageBits
  have hless : a.less b t = some (x.lt y) := by
    rw [less, hx, hy]
    rfl
  rw [minOf, hless]
  simp only [Option.bind_eq_bind, Option.bind_some, hlt]
  split_ifs
  · exact hcx
  · exact hcy

lemma maxOf_eq_some_iff {m M : IntVal} (ha : a.Canonical) (hb : b.Canonical)
    (hm : a.minOf b t = some m) :
    a.maxOf b t = some M ↔
      m.eqStorage a = some true ∧ M = b ∨ m.eqStorage a = some false ∧ M = a := by
  rw [maxOf, hm]
  cases h : m.eqStorage a with
  | none => simp [h]
  | some e => cases e <;> simp [h, copy_eq ha, copy_eq hb, eq_comm]

/-- One of the operands has the type, and the other one is returned as it is or is the smaller
one. -/
def MinMaxCondition (a b : IntVal) (t : Shape) : Prop :=
  a.shape = t ∧ (b.shape = t ∨ b.ReadsNumber t ∧ t.format.wrap b.toInt < a.toInt) ∨
    b.shape = t ∧ a.KeepsWords t ∧ t.format.wrap a.toInt ≤ b.toInt

lemma KeepsWords.readsNumber (h : a.KeepsWords t) : a.ReadsNumber t := by
  obtain ⟨hone, hwidth | ⟨hsign, -⟩ | ⟨-, hle⟩⟩ := h
  · exact Or.inl hwidth.ge
  · right
    rw [if_neg fun h => h.2.1 (hone.mp h.1)]
    exact hsign
  · exact Or.inl hle

lemma minMaxAgree_iff (ha : a.Canonical) (hb : b.Canonical) (hacap : a.width ≤ a.storageBits)
    (hbcap : b.width ≤ b.storageBits) (ht : t.IsPrim) :
    a.MinMaxAgree b t ↔ a.MinMaxCondition b t := by
  obtain ⟨x, hx, hrx⟩ := truncOrExtend_represents ha hacap ht
  obtain ⟨y, hy, hry⟩ := truncOrExtend_represents hb hbcap ht
  obtain ⟨cx, hcx, hrcx⟩ := convert_represents hacap ht
  obtain ⟨cy, hcy, hrcy⟩ := convert_represents hbcap ht
  have hmin := minOf_eq hx hy hrx hry hcx hcy
  have hreadx : cx = x ↔ a.ReadsNumber t := (hrcx.eq_iff hrx).trans (readNumber_emod_eq_iff ha ht)
  have hready : cy = y ↔ b.ReadsNumber t := (hrcy.eq_iff hry).trans (readNumber_emod_eq_iff hb ht)
  have hkeep := eqStorage_eq_some_true_iff ha hacap ht hrx
  have hxint := hrx.toInt_eq
  have hyint := hry.toInt_eq
  have hinj := hrx.toInt_inj hry
  -- an operand of the type is its value in the type
  have hxself : a.shape = t → x = a := by
    rintro rfl
    exact (hrx.eq_iff (represents_self ha hacap)).mpr rfl
  have hyself : b.shape = t → y = b := by
    rintro rfl
    exact (hry.eq_iff (represents_self hb hbcap)).mpr rfl
  rw [MinMaxCondition, ← hxint, ← hyint, ← hready]
  constructor
  · rintro ⟨m, M, x', y', hm, hM, hx', hy', hms, hMs, hset, hle⟩
    obtain rfl : x = x' := Option.some.inj (hx.symm.trans hx')
    obtain rfl : y = y' := Option.some.inj (hy.symm.trans hy')
    rw [maxOf_eq_some_iff ha hb hm] at hM
    obtain rfl := Option.some.inj (hmin.symm.trans hm)
    by_cases hlt : x.toInt < y.toInt
    · rw [if_pos hlt] at hM hms hset hle
      obtain ⟨rfl, rfl⟩ : cx = x ∧ M = y := by
        rcases hset with hset | ⟨rfl, rfl⟩
        · exact hset
        · omega
      rcases hM with ⟨heq, rfl⟩ | ⟨heq, rfl⟩
      · exact Or.inr ⟨hMs, hkeep.mp heq, hlt.le⟩
      · rw [hxself hMs] at hlt
        omega
    · rw [if_neg hlt] at hM hms hset hle
      obtain ⟨rfl, rfl⟩ : cy = y ∧ M = x := by
        rcases hset with ⟨rfl, rfl⟩ | hset
        · have heq : cy = M := hinj.mp (by omega)
          exact ⟨heq, heq.symm⟩
        · exact hset
      rcases hM with ⟨heq, rfl⟩ | ⟨heq, rfl⟩
      · obtain rfl := hyself hMs
        exact Or.inr ⟨hMs, hkeep.mp heq, le_refl _⟩
      · refine Or.inl ⟨hMs, Or.inr ⟨rfl, ?_⟩⟩
        have hne : cy ≠ M := by
          rintro rfl
          rw [eqStorage_of_shape_eq rfl, Option.some_inj, ← Bool.not_eq_true, eq_iff_eq rfl] at heq
          exact heq rfl
        rw [ne_eq, eq_comm, ← hinj] at hne
        omega
  · intro h
    -- it is enough that the operands are not converted otherwise and the right one is returned
    suffices hsuff : cx = x ∧ x.toInt < y.toInt ∧ a.maxOf b t = some y ∨
        cy = y ∧ y.toInt ≤ x.toInt ∧ a.maxOf b t = some x by
      rcases hsuff with ⟨rfl, hlt, hM⟩ | ⟨rfl, hle, hM⟩
      · rw [if_pos hlt] at hmin
        exact ⟨_, _, _, _, hmin, hM, hx, hy, hrx.shape_eq, hry.shape_eq, Or.inl ⟨rfl, rfl⟩, hlt.le⟩
      · rw [if_neg (not_lt.mpr hle)] at hmin
        exact ⟨_, _, _, _, hmin, hM, hx, hy, hry.shape_eq, hrx.shape_eq, Or.inr ⟨rfl, rfl⟩, hle⟩
    rcases h with ⟨hat, hb'⟩ | ⟨hbt, hkeeps, hle⟩
    · obtain rfl := hxself hat
      obtain rfl : cx = x := hreadx.mpr (Or.inl (congrArg Shape.width hat).ge)
      by_cases hlt : cx.toInt < y.toInt
      · have hbt : b.shape = t := hb'.resolve_right fun h => absurd hlt (not_lt.mpr h.2.le)
        rw [if_pos hlt] at hmin
        refine Or.inl ⟨rfl, hlt, (maxOf_eq_some_iff ha hb hmin).mpr (Or.inl ⟨?_, hyself hbt⟩)⟩
        rw [eqStorage_of_shape_eq rfl, (eq_iff_eq rfl).mpr rfl]
      · have hself : cy = y := by
          rcases hb' with hbt | ⟨hread, -⟩
          · exact hready.mpr (Or.inl (congrArg Shape.width hbt).ge)
          · exact hread
        have hshape : y.shape = cx.shape := hry.shape_eq.trans hrx.shape_eq.symm
        rw [if_neg hlt, hself] at hmin
        refine Or.inr ⟨hself, not_lt.mp hlt, (maxOf_eq_some_iff ha hb hmin).mpr ?_⟩
        rw [eqStorage_of_shape_eq hshape, Option.some_inj, Option.some_inj, eq_iff_eq hshape,
          ← Bool.not_eq_true, eq_iff_eq hshape]
        by_cases heq : y = cx
        · rcases hb' with hbt | ⟨-, hlt'⟩
          · exact Or.inl ⟨heq, heq.symm.trans (hyself hbt)⟩
          · rw [heq] at hlt'
            exact absurd hlt' (lt_irrefl _)
        · exact Or.inr ⟨heq, rfl⟩
    · obtain rfl := hyself hbt
      have hread := hreadx.mpr hkeeps.readsNumber
      by_cases hlt : x.toInt < y.toInt
      · rw [if_pos hlt, hread] at hmin
        exact Or.inl ⟨hread, hlt, (maxOf_eq_some_iff ha hb hmin).mpr (Or.inl ⟨hkeep.mpr hkeeps, rfl⟩)⟩
      · have hxy : x = y := hinj.mp (by omega)
        have hself : cy = y := hready.mpr (Or.inl (congrArg Shape.width hbt).ge)
        rw [if_neg hlt, hself] at hmin
        refine Or.inr ⟨hself, not_lt.mp hlt, (maxOf_eq_some_iff ha hb hmin).mpr (Or.inl ⟨?_, hxy⟩)⟩
        rw [← hxy]
        exact hkeep.mpr hkeeps

end Agree

end IntVal
end Maple
