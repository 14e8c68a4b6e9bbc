import Maple.IR.StructLayout.Basic

/-!
# Fields do not overlap

A field is placed behind the bits that are in use, unless it is smaller than its alignment and fits
into the unit in which the last bit-field ends: then it is placed at the start of that unit.
-/

namespace Maple
namespace StructLayout

lemma u32_eq {n : Nat} (h : n < 2 ^ 32) : u32 n = n := Nat.mod_eq_of_lt h

lemma roundUp_eq_up {n a : Nat} (ha : 0 < a) (h : n + a ≤ 2 ^ 32) : roundUp n a = up n a := by
  rw [roundUp, if_neg (by omega), u32_eq (by omega), up]
  have := Nat.div_add_mod (n + a - 1) a
  rw [Nat.mul_comm]
  omega

lemma dvd_roundUp (n : Nat) {a : Nat} (ha : a ≠ 0) : a ∣ roundUp n a := by
  rw [roundUp, if_neg ha]
  exact Nat.dvd_sub_mod _

lemma mul_up_div (n a : Nat) : 8 * (up n (8 * a) / 8) = up n (8 * a) := by
  obtain ⟨m, hm⟩ := dvd_up n (8 * a)
  rw [hm, Nat.mul_assoc, Nat.mul_div_cancel_left _ (by decide)]

/-! ### Ranges -/

/-- Consecutive bits of the struct. -/
structure BitRange where
  start : Nat
  length : Nat
  deriving DecidableEq, Repr

def BitRange.Contains (r : BitRange) (b : Nat) : Prop := r.start ≤ b ∧ b < r.start + r.length

instance (r : BitRange) (b : Nat) : Decidable (r.Contains b) :=
  inferInstanceAs (Decidable (_ ∧ _))

def BitRange.Disjoint (r s : BitRange) : Prop := ∀ b, ¬ (r.Contains b ∧ s.Contains b)

/-- The number of bits that a field occupies. -/
def FieldType.bitLength : FieldType → Nat
  | bitField _ fieldSize => fieldSize
  | plain size _ _ => 8 * size

/-- The bits that a field occupies. -/
def bitRange (f : Field) (p : OffsetPair) : BitRange :=
  ⟨8 * p.byteOffset + p.bitOffset, f.type.bitLength⟩

/-- The layout is right: no two fields overlap, all are within the struct, other fields than
bit-fields are aligned, and the size is a multiple of the alignment. -/
structure LayoutOk (attrs : TypeAttrs) (fields : List Field) (pairs : List OffsetPair)
    (size align : Nat) : Prop where
  length_eq : pairs.length = fields.length
  disjoint : (List.zipWith bitRange fields pairs).Pairwise BitRange.Disjoint
  inside : ∀ r ∈ List.zipWith bitRange fields pairs, r.start + r.length ≤ 8 * size
  aligned : ∀ fp ∈ fields.zip pairs, ∀ size align incomplete,
    fp.1.type = .plain size align incomplete →
      getFieldTypeAlign attrs fp.1 ∣ fp.2.byteOffset ∧ fp.2.bitOffset = 0
  size_dvd : align ∣ size

/-- The field is placed at the start of the unit in which the bits before it end: it is smaller
than its alignment, and fits into the rest of the unit. -/
def Misplaces (attrs : TypeAttrs) (c : Cursor) (f : Field) : Prop :=
  match f.type with
  | .bitField _ _ => False
  | .plain size _ _ =>
    c.allocedBitSize ≠ 8 * c.allocedSize ∧ 0 < size ∧
      c.allocedBitSize % (8 * getFieldTypeAlign attrs f) ≠ 0 ∧
      c.allocedBitSize / (8 * getFieldTypeAlign attrs f) =
        (c.allocedBitSize + 8 * size - 1) / (8 * getFieldTypeAlign attrs f)

instance (attrs : TypeAttrs) (c : Cursor) : ∀ f, Decidable (Misplaces attrs c f)
  | ⟨_, .bitField _ _⟩ => isFalse id
  | ⟨_, .plain _ _ _⟩ => inferInstanceAs (Decidable (_ ∧ _))

/-- No field is misplaced. -/
def NoneMisplaced (attrs : TypeAttrs) : Cursor → List Field → Prop
  | _, [] => True
  | c, f :: fs => ¬ Misplaces attrs c f ∧ NoneMisplaced attrs (place attrs c f).2 fs

instance decidableNoneMisplaced (attrs : TypeAttrs) :
    ∀ c fs, Decidable (NoneMisplaced attrs c fs)
  | _, [] => isTrue trivial
  | c, f :: fs =>
    have := decidableNoneMisplaced attrs (place attrs c f).2 fs
    inferInstanceAs (Decidable (_ ∧ _))

/-- The bytes that a field may need, without its alignment. -/
def FieldType.span : FieldType → Nat
  | bitField baseLog fieldSize => 2 ^ baseLog + fieldSize
  | plain size _ _ => size

/-- The numbers of the layout are within `uint32`. -/
def Fits (attrs : TypeAttrs) (structAlign : Nat) : Cursor → List Field → Prop
  | c, [] => c.allocedSize + structAlign ≤ 2 ^ 32
  | c, f :: fs =>
    8 * (c.allocedSize + 2 * getFieldTypeAlign attrs f + f.type.span) < 2 ^ 32 ∧
      Fits attrs structAlign (place attrs c f).2 fs

instance decidableFits (attrs : TypeAttrs) (structAlign : Nat) :
    ∀ c fs, Decidable (Fits attrs structAlign c fs)
  | _, [] => inferInstanceAs (Decidable (_ ≤ _))
  | c, f :: fs =>
    have := decidableFits attrs structAlign (place attrs c f).2 fs
    inferInstanceAs (Decidable (_ ∧ _))

/-- A field with an alignment that is a power of two, and no incomplete array. -/
structure ValidField (attrs : TypeAttrs) (f : Field) : Prop where
  align : ∃ k, getFieldTypeAlign attrs f = 2 ^ k
  complete : f.type.isIncomplete = false

/-! ### One field -/

section Place

variable {attrs : TypeAttrs} {f : Field} {c : Cursor}

/-- The field is placed behind the bits in use, rounded up to a power of two. -/
structure Placed (c : Cursor) (f : Field) (p : OffsetPair) (c' : Cursor) : Prop where
  start : ∃ j, (bitRange f p).start = up c.allocedBitSize (2 ^ j)
  bits : c'.allocedBitSize = (bitRange f p).start + f.type.bitLength
  bits_le : c'.allocedBitSize ≤ 8 * c'.allocedSize

lemma bitFieldStart_eq_up {baseLog w k : Nat} (hk : getFieldTypeAlign attrs f = 2 ^ k)
    (hfit : 8 * (c.allocedSize + 2 * getFieldTypeAlign attrs f + (2 ^ baseLog + w)) < 2 ^ 32)
    (hbits : c.allocedBitSize ≤ 8 * c.allocedSize) :
    ∃ j, 2 ^ j ≤ 8 * (getFieldTypeAlign attrs f + 2 ^ baseLog) ∧
      bitFieldStart attrs f baseLog w c = up c.allocedBitSize (2 ^ j) := by
  have height : (8 : Nat) = 2 ^ 3 := rfl
  have hpos := Nat.two_pow_pos baseLog
  simp only [bitFieldStart]
  split_ifs with haligned hless hcross
  · have hlt := hless.1
    refine ⟨f.attrs.alignLog + 3, ?_, ?_⟩
    · rw [pow_add, ← height, ← FieldAttrs.getAlign]
      omega
    · rw [pow_add, ← height, ← FieldAttrs.getAlign, u32_eq (by omega),
        roundUp_eq_up (by unfold FieldAttrs.getAlign; positivity) (by omega)]
  · refine ⟨k + 3, ?_, ?_⟩
    · rw [pow_add, ← height, ← hk]
      omega
    · have : 0 < getFieldTypeAlign attrs f := hk ▸ Nat.two_pow_pos k
      rw [pow_add, ← height, ← hk, u32_eq (by omega), roundUp_eq_up (by omega) (by omega)]
  · refine ⟨baseLog + 3, ?_, ?_⟩
    · rw [pow_add, ← height]
      omega
    · rw [pow_add, ← height, roundUp_eq_up (by omega) (by omega)]
  · refine ⟨0, ?_, by simp⟩
    omega

lemma placeBitField_placed {baseLog w : Nat} (hf : f.type = .bitField baseLog w)
    (hvalid : ValidField attrs f) (hbits : c.allocedBitSize ≤ 8 * c.allocedSize)
    (hfit : 8 * (c.allocedSize + 2 * getFieldTypeAlign attrs f + f.type.span) < 2 ^ 32) :
    Placed c f (placeBitField attrs f baseLog w c).1 (placeBitField attrs f baseLog w c).2 := by
  obtain ⟨k, hk⟩ := hvalid.align
  rw [hf, FieldType.span] at hfit
  have hpos : 0 < getFieldTypeAlign attrs f := hk ▸ Nat.two_pow_pos k
  obtain ⟨j, hj, hstart⟩ := bitFieldStart_eq_up hk hfit hbits
  have hup : bitFieldStart attrs f baseLog w c < c.allocedBitSize + 2 ^ j :=
    hstart ▸ up_lt (Nat.two_pow_pos j)
  have halign : u32 (getFieldTypeAlign attrs f * 8) = 8 * getFieldTypeAlign attrs f := by
    rw [u32_eq (by omega), Nat.mul_comm]
  simp only [placeBitField, halign]
  rw [if_pos (by omega)]
  generalize bitFieldStart attrs f baseLog w c = start at hstart hup ⊢
  have hdiv := Nat.div_add_mod start (8 * getFieldTypeAlign attrs f)
  have hmul : 8 * (start / (8 * getFieldTypeAlign attrs f) * getFieldTypeAlign attrs f) =
      8 * getFieldTypeAlign attrs f * (start / (8 * getFieldTypeAlign attrs f)) := by ring
  have hend : u32 (start + w) = start + w := u32_eq (by omega)
  have hround : roundUp (start + w) (8 * getFieldTypeAlign attrs f) =
      up (start + w) (8 * getFieldTypeAlign attrs f) := roundUp_eq_up (by omega) (by omega)
  have hle := le_up (n := start + w) (u := 8 * getFieldTypeAlign attrs f) (by omega)
  have hbyte : u32 (start / (8 * getFieldTypeAlign attrs f) * getFieldTypeAlign attrs f) =
      start / (8 * getFieldTypeAlign attrs f) * getFieldTypeAlign attrs f := u32_eq (by omega)
  have heq : (bitRange f ⟨u32 (start / (8 * getFieldTypeAlign attrs f) * getFieldTypeAlign attrs f),
      start % (8 * getFieldTypeAlign attrs f)⟩).start = start := by
    simp only [bitRange, hbyte]
    omega
  refine ⟨⟨j, heq.trans hstart⟩, ?_, ?_⟩
  · rw [heq, hf, FieldType.bitLength, hend]
  · simp only [hend, hround]
    have := mul_up_div (start + w) (getFieldTypeAlign attrs f)
    omega

section Plain

variable {size : Nat} (hpos : 0 < getFieldTypeAlign attrs f)
variable (hbits : c.allocedBitSize ≤ 8 * c.allocedSize)
variable (hfit : 8 * (c.allocedSize + 2 * getFieldTypeAlign attrs f + size) < 2 ^ 32)

include hpos hbits hfit

omit hbits in
lemma placePlain_of_eq (heq : c.allocedBitSize = 8 * c.allocedSize) :
    placePlain attrs f size false c = (⟨up c.allocedSize (getFieldTypeAlign attrs f), 0⟩,
      ⟨up c.allocedSize (getFieldTypeAlign attrs f) + size,
        8 * (up c.allocedSize (getFieldTypeAlign attrs f) + size)⟩) := by
  have hup := up_lt (n := c.allocedSize) hpos
  have hS : u32 (c.allocedSize * 8) = 8 * c.allocedSize := by rw [u32_eq (by omega), Nat.mul_comm]
  have hend : u32 (up c.allocedSize (getFieldTypeAlign attrs f) + size) =
      up c.allocedSize (getFieldTypeAlign attrs f) + size := u32_eq (by omega)
  simp only [placePlain, hS, if_pos heq, u32_eq (show size < 2 ^ 32 by omega),
    roundUp_eq_up hpos (show c.allocedSize + getFieldTypeAlign attrs f ≤ 2 ^ 32 by omega), hend,
    Bool.false_eq_true, if_false]
  rw [u32_eq (by omega), Nat.mul_comm]

/-- The start of a field behind bits left over. -/
def leftOverStart (attrs : TypeAttrs) (c : Cursor) (f : Field) (size : Nat) : Nat :=
  if c.allocedBitSize / (8 * getFieldTypeAlign attrs f) ≠
      (c.allocedBitSize + 8 * size - 1) / (8 * getFieldTypeAlign attrs f) ∨ size = 0 then
    up c.allocedBitSize (8 * getFieldTypeAlign attrs f)
  else c.allocedBitSize

lemma placePlain_of_ne (hne : c.allocedBitSize ≠ 8 * c.allocedSize) :
    (placePlain attrs f size false c).1 =
      ⟨leftOverStart attrs c f size / (8 * getFieldTypeAlign attrs f) * getFieldTypeAlign attrs f,
        0⟩ ∧
    (placePlain attrs f size false c).2.allocedBitSize = leftOverStart attrs c f size + 8 * size ∧
    (placePlain attrs f size false c).2.allocedBitSize ≤
      8 * (placePlain attrs f size false c).2.allocedSize := by
  have halign : u32 (getFieldTypeAlign attrs f * 8) = 8 * getFieldTypeAlign attrs f := by
    rw [u32_eq (by omega), Nat.mul_comm]
  have hS : u32 (c.allocedSize * 8) = 8 * c.allocedSize := by rw [u32_eq (by omega), Nat.mul_comm]
  have hsize : u32 (size * 8) = 8 * size := by rw [u32_eq (by omega), Nat.mul_comm]
  have hround : roundUp c.allocedBitSize (8 * getFieldTypeAlign attrs f) =
      up c.allocedBitSize (8 * getFieldTypeAlign attrs f) := roundUp_eq_up (by omega) (by omega)
  have hupB := up_lt (n := c.allocedBitSize) (u := 8 * getFieldTypeAlign attrs f) (by omega)
  have hstart : (if c.allocedBitSize / (8 * getFieldTypeAlign attrs f) ≠
      u32 (c.allocedBitSize + 8 * size + 2 ^ 32 - 1) / (8 * getFieldTypeAlign attrs f) ∨ size = 0
      then up c.allocedBitSize (8 * getFieldTypeAlign attrs f) else c.allocedBitSize) =
        leftOverStart attrs c f size := by
    unfold leftOverStart
    rcases Nat.eq_zero_or_pos size with hzero | hlt
    · rw [if_pos (Or.inr hzero), if_pos (Or.inr hzero)]
    · have hu32 : u32 (c.allocedBitSize + 8 * size + 2 ^ 32 - 1) =
          c.allocedBitSize + 8 * size - 1 := by
        unfold u32
        omega
      rw [hu32]
  have hle : leftOverStart attrs c f size < c.allocedBitSize + 8 * getFieldTypeAlign attrs f := by
    unfold leftOverStart
    split_ifs <;> omega
  have hend : u32 (leftOverStart attrs c f size + 8 * size) =
      leftOverStart attrs c f size + 8 * size := u32_eq (by omega)
  have hdiv := Nat.div_mul_le_self (leftOverStart attrs c f size) (8 * getFieldTypeAlign attrs f)
  have hmul : 8 * (leftOverStart attrs c f size / (8 * getFieldTypeAlign attrs f) *
      getFieldTypeAlign attrs f) = leftOverStart attrs c f size /
        (8 * getFieldTypeAlign attrs f) * (8 * getFieldTypeAlign attrs f) := by ring
  simp only [placePlain, halign, hS, if_neg hne, u32_eq (show size < 2 ^ 32 by omega), hsize,
    hround, hstart, hend, roundUp_eq_up (show 0 < 8 * getFieldTypeAlign attrs f by omega)
      (show leftOverStart attrs c f size + 8 * size + 8 * getFieldTypeAlign attrs f ≤ 2 ^ 32 by omega)]
  refine ⟨by rw [u32_eq (by omega)], trivial, ?_⟩
  have hup := le_up (n := leftOverStart attrs c f size + 8 * size)
    (u := 8 * getFieldTypeAlign attrs f) (by omega)
  have := mul_up_div (leftOverStart attrs c f size + 8 * size) (getFieldTypeAlign attrs f)
  omega

end Plain

lemma placePlain_spec {size align : Nat} (hf : f.type = .plain size align false)
    (hvalid : ValidField attrs f) (hbits : c.allocedBitSize ≤ 8 * c.allocedSize)
    (hfit : 8 * (c.allocedSize + 2 * getFieldTypeAlign attrs f + f.type.span) < 2 ^ 32) :
    getFieldTypeAlign attrs f ∣ (placePlain attrs f size false c).1.byteOffset ∧
    (placePlain attrs f size false c).1.bitOffset = 0 ∧
    (¬ Misplaces attrs c f →
      Placed c f (placePlain attrs f size false c).1 (placePlain attrs f size false c).2) ∧
    (Misplaces attrs c f → ∃ k, c.allocedBitSize % 2 ^ k ≠ 0 ∧ 0 < f.type.bitLength ∧
      (bitRange f (placePlain attrs f size false c).1).start =
        blockStart c.allocedBitSize k) := by
  obtain ⟨k, hk⟩ := hvalid.align
  rw [hf, FieldType.span] at hfit
  have hpos : 0 < getFieldTypeAlign attrs f := hk ▸ Nat.two_pow_pos k
  have hk3 : 8 * getFieldTypeAlign attrs f = 2 ^ (k + 3) := by
    rw [hk, pow_add]
    ring
  simp only [Misplaces, hf]
  by_cases heq : c.allocedBitSize = 8 * c.allocedSize
  · rw [placePlain_of_eq hpos hfit heq]
    refine ⟨dvd_up _ _, rfl, ?_, fun h => absurd heq h.1⟩
    intro _
    refine ⟨⟨k + 3, ?_⟩, ?_, le_refl _⟩
    · simp only [bitRange]
      rw [← hk3, heq, up_mul _ (by decide), Nat.add_zero]
    · simp only [bitRange, hf, FieldType.bitLength]
      omega
  · obtain ⟨hpair, hend, hle⟩ := placePlain_of_ne hpos hbits hfit heq
    have hrange : (bitRange f (placePlain attrs f size false c).1).start =
        blockStart (leftOverStart attrs c f size) (k + 3) := by
      have hdiv := Nat.div_add_mod (leftOverStart attrs c f size) (2 ^ (k + 3))
      rw [hpair, bitRange, hk3, blockStart]
      have hmul : 8 * (leftOverStart attrs c f size / 2 ^ (k + 3) * getFieldTypeAlign attrs f) =
          2 ^ (k + 3) * (leftOverStart attrs c f size / 2 ^ (k + 3)) := by
        rw [← hk3]
        ring
      simp only [hmul]
      omega
    rw [hpair]
    refine ⟨Nat.dvd_mul_left _ _, rfl, ?_, ?_⟩
    · intro hmis
      have hstart : ∃ j, leftOverStart attrs c f size = up c.allocedBitSize (2 ^ j) ∧
          leftOverStart attrs c f size % 2 ^ (k + 3) = 0 := by
        unfold leftOverStart
        split_ifs with hcross
        · exact ⟨k + 3, by rw [hk3], Nat.mod_eq_zero_of_dvd (hk3 ▸ dvd_up _ _)⟩
        · refine ⟨0, by simp, ?_⟩
          rw [not_or, not_ne_iff] at hcross
          by_contra hmod
          exact hmis ⟨heq, by omega, hk3 ▸ hmod, hcross.1⟩
      obtain ⟨j, hj, hmod⟩ := hstart
      rw [hpair] at hrange
      rw [blockStart, hmod, Nat.sub_zero] at hrange
      refine ⟨⟨j, hrange.trans hj⟩, ?_, hle⟩
      rw [hrange, hend, hf, FieldType.bitLength]
    · rintro ⟨-, hsize, hmod, hdiv⟩
      have hstart : leftOverStart attrs c f size = c.allocedBitSize := by
        rw [leftOverStart, if_neg]
        rw [not_or, not_ne_iff]
        exact ⟨hdiv, by omega⟩
      refine ⟨k + 3, hk3 ▸ hmod, by simp only [FieldType.bitLength]; omega, ?_⟩
      rw [← hpair, hrange, hstart]

lemma place_spec (hvalid : ValidField attrs f) (hbits : c.allocedBitSize ≤ 8 * c.allocedSize)
    (hfit : 8 * (c.allocedSize + 2 * getFieldTypeAlign attrs f + f.type.span) < 2 ^ 32) :
    (¬ Misplaces attrs c f → Placed c f (place attrs c f).1 (place attrs c f).2) ∧
    (Misplaces attrs c f → ∃ k, c.allocedBitSize % 2 ^ k ≠ 0 ∧ 0 < f.type.bitLength ∧
      (bitRange f (place attrs c f).1).start = blockStart c.allocedBitSize k) := by
  unfold place
  split
  case h_1 baseLog w hf =>
    refine ⟨fun _ => placeBitField_placed hf hvalid hbits hfit, ?_⟩
    intro hmis
    simp only [Misplaces, hf] at hmis
  case h_2 size align incomplete hf =>
    cases incomplete with
    | true => exact absurd hvalid.complete (by simp [hf, FieldType.isIncomplete])
    | false => exact (placePlain_spec hf hvalid hbits hfit).2.2

lemma place_aligned (hvalid : ValidField attrs f) (hbits : c.allocedBitSize ≤ 8 * c.allocedSize)
    (hfit : 8 * (c.allocedSize + 2 * getFieldTypeAlign attrs f + f.type.span) < 2 ^ 32)
    {size align : Nat} {incomplete : Bool} (hf : f.type = .plain size align incomplete) :
    getFieldTypeAlign attrs f ∣ (place attrs c f).1.byteOffset ∧
      (place attrs c f).1.bitOffset = 0 := by
  cases incomplete with
  | true => exact absurd hvalid.complete (by simp [hf, FieldType.isIncomplete])
  | false =>
    simp only [place, hf]
    obtain ⟨hdvd, hbit, -⟩ := placePlain_spec hf hvalid hbits hfit
    exact ⟨hdvd, hbit⟩

end Place

/-! ### All fields -/

section PlaceAll

variable {attrs : TypeAttrs} {structAlign : Nat}

/-- Without misplaced fields everything is placed in order behind the bits in use. -/
structure PlacedAll (attrs : TypeAttrs) (structAlign : Nat) (c : Cursor) (fs : List Field)
    (ps : List OffsetPair)
    (c' : Cursor) : Prop where
  length_eq : ps.length = fs.length
  ordered : (List.zipWith bitRange fs ps).Pairwise fun r s => r.start + r.length ≤ s.start
  behind : ∀ r ∈ List.zipWith bitRange fs ps,
    c.allocedBitSize ≤ r.start ∧ r.start + r.length ≤ c'.allocedBitSize
  aligned : ∀ fp ∈ fs.zip ps, ∀ size align incomplete, fp.1.type = .plain size align incomplete →
    getFieldTypeAlign attrs fp.1 ∣ fp.2.byteOffset ∧ fp.2.bitOffset = 0
  bits_le : c'.allocedBitSize ≤ 8 * c'.allocedSize
  le_bits : c.allocedBitSize ≤ c'.allocedBitSize
  fits : c'.allocedSize + structAlign ≤ 2 ^ 32

lemma placeAll_placed {fs : List Field} {c : Cursor} (hvalid : ∀ f ∈ fs, ValidField attrs f)
    (hbits : c.allocedBitSize ≤ 8 * c.allocedSize) (hfits : Fits attrs structAlign c fs)
    (hnone : NoneMisplaced attrs c fs) :
    PlacedAll attrs structAlign c fs (placeAll attrs c fs).1 (placeAll attrs c fs).2 := by
  induction fs generalizing c with
  | nil => exact ⟨rfl, by simp, by simp, by simp, hbits, le_refl _, hfits⟩
  | cons f fs ih =>
    rw [List.forall_mem_cons] at hvalid
    obtain ⟨⟨j, hstart⟩, hend, hle⟩ := (place_spec hvalid.1 hbits hfits.1).1 hnone.1
    have hrest := ih hvalid.2 hle hfits.2 hnone.2
    have hbehind := le_up (n := c.allocedBitSize) (Nat.two_pow_pos j)
    simp only [placeAll]
    refine ⟨by simp [hrest.length_eq], ?_, ?_, ?_, hrest.bits_le, ?_, hrest.fits⟩
    · rw [List.zipWith_cons_cons, List.pairwise_cons]
      refine ⟨?_, hrest.ordered⟩
      intro s hs
      have := (hrest.behind s hs).1
      rw [hend] at this
      exact this
    · rw [List.zipWith_cons_cons, List.forall_mem_cons]
      refine ⟨⟨hstart ▸ hbehind, ?_⟩, ?_⟩
      · have := hrest.le_bits
        rw [hend] at this
        exact this
      · intro r hr
        have := hrest.behind r hr
        exact ⟨by omega, this.2⟩
    · rw [List.zip_cons_cons, List.forall_mem_cons]
      exact ⟨fun _ _ _ hf => place_aligned hvalid.1 hbits hfits.1 hf, hrest.aligned⟩
    · have := hrest.le_bits
      omega

lemma placeAll_overlap {fs : List Field} {c : Cursor} {occupied : Nat → Prop}
    (hvalid : ∀ f ∈ fs, ValidField attrs f) (hbits : c.allocedBitSize ≤ 8 * c.allocedSize)
    (hfits : Fits attrs structAlign c fs) (hbegun : BlocksBegun occupied c.allocedBitSize)
    (hdisjoint : (List.zipWith bitRange fs (placeAll attrs c fs).1).Pairwise BitRange.Disjoint)
    (hfree : ∀ r ∈ List.zipWith bitRange fs (placeAll attrs c fs).1, ∀ b, r.Contains b →
      ¬ occupied b) : NoneMisplaced attrs c fs := by
  induction fs generalizing c occupied with
  | nil => trivial
  | cons f fs ih =>
    rw [List.forall_mem_cons] at hvalid
    obtain ⟨hplaced, hmisplaced⟩ := place_spec hvalid.1 hbits hfits.1
    simp only [placeAll, List.zipWith_cons_cons, List.pairwise_cons, List.forall_mem_cons]
      at hdisjoint hfree
    have hnot : ¬ Misplaces attrs c f := by
      intro hmis
      obtain ⟨k, hmod, hlength, hstart⟩ := hmisplaced hmis
      refine hfree.1 (blockStart c.allocedBitSize k) ?_ (hbegun k hmod)
      rw [BitRange.Contains, hstart]
      simp only [bitRange]
      omega
    obtain ⟨⟨j, hstart⟩, hend, hle⟩ := hplaced hnot
    have hbegun' : BlocksBegun (fun b => occupied b ∨ (bitRange f (place attrs c f).1).Contains b)
        (place attrs c f).2.allocedBitSize := by
      rw [hend]
      simp only [BitRange.Contains]
      rw [hstart]
      exact (hbegun.up j).add f.type.bitLength
    refine ⟨hnot, ih hvalid.2 hle hfits.2 hbegun' hdisjoint.2 ?_⟩
    · intro r hr b hb hor
      rcases hor with hocc | hcontains
      · exact hfree.2 r hr b hb hocc
      · exact hdisjoint.1 r hr b ⟨hcontains, hb⟩

end PlaceAll

lemma getAlign_ne_zero (targAArch64 : Bool) (attrs : TypeAttrs) (fields : List Field) :
    getAlign targAArch64 attrs fields ≠ 0 := by
  have hpos : 0 < attrs.getAlign := Nat.two_pow_pos _
  unfold getAlign
  split
  · omega
  · simp only
    split_ifs <;> omega

lemma computeLayout_ok_iff (targAArch64 : Bool) (attrs : TypeAttrs) {fields : List Field}
    (hvalid : ∀ f ∈ fields, ValidField attrs f)
    (hfits : Fits attrs (getAlign targAArch64 attrs fields) {} fields) :
    LayoutOk attrs fields (computeLayout targAArch64 attrs fields).fieldLayout
      (computeLayout targAArch64 attrs fields).size (getAlign targAArch64 attrs fields) ↔
    NoneMisplaced attrs {} fields := by
  have halign := getAlign_ne_zero targAArch64 attrs fields
  constructor
  · intro h
    exact placeAll_overlap hvalid (le_refl _) hfits (blocksBegun_zero fun _ => False) h.disjoint
      (fun _ _ _ _ h => h)
  · intro h
    have hplaced := placeAll_placed hvalid (le_refl _) hfits h
    refine ⟨hplaced.length_eq, ?_, ?_, hplaced.aligned, dvd_roundUp _ halign⟩
    · refine hplaced.ordered.imp ?_
      intro r s hrs b hb
      simp only [BitRange.Contains] at hb
      omega
    · intro r hr
      have hend := (hplaced.behind r hr).2
      have hbits := hplaced.bits_le
      have hsize : (computeLayout targAArch64 attrs fields).size =
          up (placeAll attrs {} fields).2.allocedSize (getAlign targAArch64 attrs fields) :=
        roundUp_eq_up (by omega) hplaced.fits
      have hle := le_up (n := (placeAll attrs {} fields).2.allocedSize)
        (u := getAlign targAArch64 attrs fields) (by omega)
      omega

/-! ### Structs -/

/-- A power of two. -/
def IsPow (n : Nat) : Prop := ∃ k, n = 2 ^ k

lemma IsPow.max {m n : Nat} (hm : IsPow m) (hn : IsPow n) : IsPow (max m n) := by
  rcases le_total m n with h | h
  · rwa [max_eq_right h]
  · rwa [max_eq_left h]

lemma IsPow.min {m n : Nat} (hm : IsPow m) (hn : IsPow n) : IsPow (min m n) := by
  rcases le_total m n with h | h
  · rwa [min_eq_left h]
  · rwa [min_eq_right h]

lemma isPow_one : IsPow 1 := ⟨0, rfl⟩

lemma isPow_foldl_max {ns : List Nat} (h : ∀ n ∈ ns, IsPow n) {m : Nat} (hm : IsPow m) :
    IsPow (ns.foldl max m) := by
  induction ns generalizing m with
  | nil => exact hm
  | cons n ns ih =>
    rw [List.forall_mem_cons] at h
    exact ih h.2 (hm.max h.1)

section IsPow

variable {attrs : TypeAttrs} {f : Field}

lemma isPow_attrs {n : Nat} (hn : IsPow n) :
    IsPow (match attrs.pack with
      | some pack => min (2 ^ pack) (if f.attrs.hasAligned then max n f.attrs.getAlign else n)
      | none => if f.attrs.hasAligned then max n f.attrs.getAlign else n) := by
  have haligned : IsPow (if f.attrs.hasAligned then max n f.attrs.getAlign else n) := by
    split_ifs
    · exact hn.max ⟨_, rfl⟩
    · exact hn
  split
  · exact IsPow.min ⟨_, rfl⟩ haligned
  · exact haligned

variable (h : IsPow f.type.originAlign)

include h

lemma isPow_getFieldTypeAlign : IsPow (getFieldTypeAlign attrs f) := by
  apply isPow_attrs
  split_ifs
  · exact isPow_one
  · exact h

lemma isPow_fieldAlignOf : IsPow (fieldAlignOf attrs f) := by
  apply isPow_attrs
  split_ifs
  · exact isPow_one
  · split
    · exact h.min ⟨_, rfl⟩
    · exact h

end IsPow

lemma isPow_getAlign (targAArch64 : Bool) (attrs : TypeAttrs) {fields : List Field}
    (h : ∀ f ∈ fields, IsPow f.type.originAlign) : IsPow (getAlign targAArch64 attrs fields) := by
  have hattrs : IsPow attrs.getAlign := ⟨_, rfl⟩
  have hfields : IsPow ((fields.map (fieldAlignOf attrs)).foldl max 1) := by
    refine isPow_foldl_max ?_ isPow_one
    intro n hn
    obtain ⟨f, hf, rfl⟩ := List.mem_map.mp hn
    exact isPow_fieldAlignOf (h f hf)
  have hzero : IsPow ((fields.filterMap zeroBitFieldAlign).foldl max 1) := by
    refine isPow_foldl_max ?_ isPow_one
    intro n hn
    obtain ⟨f, hf, hn⟩ := List.mem_filterMap.mp hn
    unfold zeroBitFieldAlign at hn
    split at hn
    · cases hn
      exact ⟨_, rfl⟩
    · cases hn
  unfold getAlign
  split
  · exact isPow_one.max hattrs
  · simp only
    split_ifs
    · exact hattrs.max (hzero.max hfields)
    · exact hattrs.max hfields

mutual

lemma MIRType.isPow_getAlign (targAArch64 : Bool) (t : MIRType) :
    (∃ baseLog w, t = .bitField baseLog w) ∨ IsPow (t.getAlign targAArch64) := by
  match t with
  | .prim sizeLog =>
    rw [MIRType.getAlign]
    exact Or.inr ⟨_, rfl⟩
  | .array alignLog _ _ elem _ =>
    rw [MIRType.getAlign]
    right
    rcases MIRType.isPow_getAlign targAArch64 elem with ⟨baseLog, w, rfl⟩ | h
    · rw [MIRType.getAlign, Nat.zero_max]
      exact ⟨_, rfl⟩
    · exact h.max ⟨_, rfl⟩
  | .struct _ attrs fields =>
    rw [MIRType.getAlign]
    exact Or.inr (StructLayout.isPow_getAlign _ _ (Fields.isPow_originAlign targAArch64 fields))
  | .union _ attrs fields =>
    rw [MIRType.getAlign]
    exact Or.inr (StructLayout.isPow_getAlign _ _ (Fields.isPow_originAlign targAArch64 fields))
  | .bitField baseLog w => exact Or.inl ⟨baseLog, w, rfl⟩

lemma Fields.isPow_originAlign (targAArch64 : Bool) (fields : Fields) :
    ∀ f ∈ fields.list targAArch64, IsPow f.type.originAlign := by
  match fields with
  | .nil =>
    rw [Fields.list]
    simp
  | .cons attrs type rest =>
    have hrest := Fields.isPow_originAlign targAArch64 rest
    rcases MIRType.isPow_getAlign targAArch64 type with ⟨baseLog, w, rfl⟩ | h
    · rw [Fields.list, List.forall_mem_cons]
      exact ⟨⟨_, rfl⟩, hrest⟩
    · cases type with
      | bitField baseLog w =>
        rw [Fields.list, List.forall_mem_cons]
        exact ⟨⟨_, rfl⟩, hrest⟩
      | _ =>
        rw [Fields.list, List.forall_mem_cons]
        · exact ⟨h, hrest⟩
        · rintro _ _ ⟨⟩

end

/-- The layout of the fields of a struct. A struct without fields has none. -/
def Fields.layout (targAArch64 : Bool) (attrs : TypeAttrs) (fields : Fields) : List OffsetPair :=
  match fields.list targAArch64 with
  | [] => []
  | fs => (computeLayout targAArch64 attrs fs).fieldLayout

end StructLayout
end Maple
