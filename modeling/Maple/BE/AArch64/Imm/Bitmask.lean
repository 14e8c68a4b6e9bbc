import Maple.Lib.BitRuns
import Maple.BE.AArch64.Imm.Basic

/-!
# Logical immediates

What `IsBitmaskImmediate` decides: whether a value repeats, with a period that is a power of two, a
rotated run of ones. The table `valid_bitmask_imm.txt` is a parameter, assumed to hold exactly the
logical immediates of 64 bits.
-/

namespace Maple
namespace AArch64

open BitRuns

/-- The lowest `bitLen` bits repeat a rotated run of ones that neither is empty nor fills the
period. -/
def IsLogicalImmediate (bitLen : Nat) (v : BitVec 64) : Prop :=
  ∃ period ∈ [2, 4, 8, 16, 32, 64], period ∣ bitLen ∧
    ∃ run < period, ∃ rot < period, 0 < run ∧ IsRotatedRun period run rot bitLen v.getLsbD

instance (bitLen : Nat) (v : BitVec 64) : Decidable (IsLogicalImmediate bitLen v) :=
  inferInstanceAs (Decidable (∃ period ∈ [2, 4, 8, 16, 32, 64], _))

/-! ### The code in parts -/

/-- A value of 32 bits is put into both halves. -/
def widen (bitLen : Nat) (x : BitVec 64) : BitVec 64 :=
  if bitLen = 32 then (x <<< 32) ||| (x &&& 0xffffffff#64) else x

/-- The word without its lowest run of ones. -/
def afterLowestRun (x : BitVec 64) : BitVec 64 :=
  let tmpVal := x + (x &&& (BitVec.allOnes 64 - x + 1#64))
  tmpVal &&& (tmpVal - 1#64)

/-- The word whose runs are looked at: its lowest bit is zero. -/
def evenWord (val : BitVec 64) (bitLen : Nat) : BitVec 64 :=
  widen bitLen (if val.getLsbD 0 then ~~~val else val)

/-- An access to `kBitmaskImmMultTable`. -/
def multTableAt (index : Nat) : Option (BitVec 64) :=
  if index < 5 then some (kBitmaskImmMultTable index) else none

/-- The comparison at the end, where `diff` is the distance between the two lowest runs. -/
def matchesPattern (val diff : BitVec 64) : Option Bool :=
  if diff &&& (diff - 1#64) ≠ 0#64 then some false
  else
    let logDiff := ctzll diff
    let pattern := val &&& ((1#64 <<< diff.toNat) - 1#64)
    (multTableAt ((5 + 2 ^ 32 - logDiff) % 2 ^ 32)).map fun mult => val = pattern * mult

section

variable (validBitmaskImmSet : BitVec 64 → Bool)

/-- `IsBitmaskImmediate` where an access to the table may be out of bounds; the index is a
`uint32`. -/
def isBitmaskImmediateChecked (val : BitVec 64) (bitLen : Nat) : Option Bool :=
  if bitLen = 32 ∧ val.setWidth 32 = BitVec.allOnes 32 then some false
  else
    let word := evenWord val bitLen
    if afterLowestRun word = 0#64 then some (validBitmaskImmSet (widen bitLen val))
    else matchesPattern word (BitVec.ofInt 64 (ctzll (afterLowestRun word) - ctzll word))

end

/-! ### Complements and halves -/

lemma IsLogicalImmediate.compl {bitLen : Nat} {v : BitVec 64} (h : IsLogicalImmediate bitLen v)
    (hlen : bitLen ≤ 64) : IsLogicalImmediate bitLen (~~~v) := by
  obtain ⟨period, hperiod, hdvd, run, hrun, rot, hrot, hpos, hbits⟩ := h
  refine ⟨period, hperiod, hdvd, period - run, by omega, (rot + (period - run)) % period,
    Nat.mod_lt _ (by omega), by omega, (hbits.compl hrun).congr fun i hi => ?_⟩
  rw [BitVec.getLsbD_not, decide_eq_true (by omega), Bool.true_and]

lemma isLogicalImmediate_compl_iff {bitLen : Nat} {v : BitVec 64} (hlen : bitLen ≤ 64) :
    IsLogicalImmediate bitLen (~~~v) ↔ IsLogicalImmediate bitLen v := by
  constructor
  · intro h
    have := h.compl hlen
    rwa [BitVec.not_not] at this
  · intro h
    exact h.compl hlen

lemma widen_getLsbD (x : BitVec 64) {i : Nat} (hi : i < 64) :
    (widen 32 x).getLsbD i = x.getLsbD (i % 32) := by
  have hmask : (0xffffffff#64).getLsbD i = decide (i < 32) := by
    have : (0xffffffff : Nat) = 2 ^ 32 - 1 := rfl
    rw [BitVec.getLsbD_ofNat, this, Nat.testBit_two_pow_sub_one, decide_eq_true hi, Bool.true_and]
  simp only [widen, if_true, BitVec.getLsbD_or, BitVec.getLsbD_and, BitVec.getLsbD_shiftLeft, hmask]
  by_cases hlow : i < 32
  · simp [hlow, Nat.mod_eq_of_lt hlow]
  · rw [Nat.mod_eq_sub_mod (by omega), Nat.mod_eq_of_lt (by omega)]
    simp [hlow, hi]

lemma widen_getLsbD_zero (bitLen : Nat) (x : BitVec 64) :
    (widen bitLen x).getLsbD 0 = x.getLsbD 0 := by
  by_cases h : bitLen = 32
  · rw [h, widen_getLsbD x (by decide)]
  · rw [widen, if_neg h]

lemma isLogicalImmediate_widen_iff (v : BitVec 64) :
    IsLogicalImmediate 64 (widen 32 v) ↔ IsLogicalImmediate 32 v := by
  constructor
  · rintro ⟨period, hperiod, hdvd, run, hrun, rot, hrot, hpos, hbits⟩
    have hbits' : ∀ i < 64, v.getLsbD (i % 32) = decide ((i + rot) % period < run) := by
      intro i hi
      rw [← widen_getLsbD v hi]
      exact hbits i hi
    have hne : period ≠ 64 := by
      rintro rfl
      have hlast : ∀ i < 64, ∀ j < 64, i % 32 = j % 32 →
          ((i + rot) % 64 < run ↔ (j + rot) % 64 < run) := by
        intro i hi j hj hij
        rw [← decide_eq_decide, ← hbits' i hi, ← hbits' j hj, hij]
      -- the place where the run starts and the one before it, and the same in the other half
      have hfirst := hlast ((64 - rot) % 64) (by omega) ((96 - rot) % 64) (by omega) (by omega)
      have hbefore := hlast ((127 - rot) % 64) (by omega) ((95 - rot) % 64) (by omega) (by omega)
      omega
    refine ⟨period, hperiod, ?_, run, hrun, rot, hrot, hpos, fun i hi => ?_⟩
    · simp only [List.mem_cons, List.not_mem_nil, or_false] at hperiod
      obtain rfl | rfl | rfl | rfl | rfl | rfl := hperiod <;> first | decide | contradiction
    · rw [← hbits' i (by omega), Nat.mod_eq_of_lt hi]
  · rintro ⟨period, hperiod, hdvd, run, hrun, rot, hrot, hpos, hbits⟩
    refine ⟨period, hperiod, Dvd.dvd.trans hdvd (by decide), run, hrun, rot, hrot, hpos,
      fun i hi => ?_⟩
    have hmod : (i % 32 + rot) % period = (i + rot) % period := by
      rw [Nat.add_mod, Nat.mod_mod_of_dvd i hdvd, ← Nat.add_mod]
    rw [widen_getLsbD v hi, hbits _ (Nat.mod_lt i (by decide)), hmod]

lemma isLogicalImmediate_evenWord_iff {bitLen : Nat} (hlen : bitLen = 32 ∨ bitLen = 64)
    (val : BitVec 64) :
    IsLogicalImmediate 64 (evenWord val bitLen) ↔ IsLogicalImmediate bitLen val := by
  have hodd : IsLogicalImmediate bitLen (if val.getLsbD 0 then ~~~val else val) ↔
      IsLogicalImmediate bitLen val := by
    split
    · exact isLogicalImmediate_compl_iff (by omega)
    · exact Iff.rfl
  rw [evenWord, ← hodd]
  obtain rfl | rfl := hlen
  · exact isLogicalImmediate_widen_iff _
  · rfl

lemma isLogicalImmediate_widen_iff' {bitLen : Nat} (hlen : bitLen = 32 ∨ bitLen = 64)
    (val : BitVec 64) :
    IsLogicalImmediate 64 (widen bitLen val) ↔ IsLogicalImmediate bitLen val := by
  obtain rfl | rfl := hlen
  · exact isLogicalImmediate_widen_iff val
  · rfl

lemma evenWord_getLsbD_zero (val : BitVec 64) (bitLen : Nat) :
    (evenWord val bitLen).getLsbD 0 = false := by
  rw [evenWord, widen_getLsbD_zero]
  cases h : val.getLsbD 0 with
  | true => rw [if_pos rfl, BitVec.getLsbD_not, h, Bool.not_true, Bool.and_false]
  | false => rw [if_neg (by decide), h]

/-! ### The runs of the word -/

lemma ctzll_eq {x : BitVec 64} {t : Nat} (ht : t < 64) (hset : x.getLsbD t = true)
    (hbelow : ∀ i < t, x.getLsbD i = false) : ctzll x = t := by
  have hfind : ((List.range 64).find? fun i => x.getLsbD i) = some t := by
    rw [List.find?_range_eq_some]
    exact ⟨hset, List.mem_range.mpr ht, fun i hi => by rw [hbelow i hi]; rfl⟩
  rw [ctzll, hfind]
  rfl

section

variable {w : BitVec 64} {start stop rest : Nat}

lemma lowestRun_bound (h : LowestRun w.toNat start stop rest) :
    stop < 64 ∧ 2 ^ stop + 2 ^ (stop + 1) * rest < 2 ^ 64 ∨ stop = 64 ∧ rest = 0 := by
  have hlt := w.isLt
  have heq := h.eq
  have hpow : 2 ^ start ≤ 2 ^ (stop - 1) :=
    Nat.pow_le_pow_right (by decide) (by have := h.lt; omega)
  have hhalf : 2 ^ stop = 2 * 2 ^ (stop - 1) := by
    rw [← pow_succ']
    congr 1
    have := h.lt
    omega
  obtain hstop | hstop | hstop : stop < 64 ∨ stop = 64 ∨ 64 < stop := by omega
  · left
    have hsplit : 2 ^ 64 = 2 ^ (stop + 1) * 2 ^ (63 - stop) := by
      rw [← pow_add]
      congr 1
      omega
    have hrest : rest < 2 ^ (63 - stop) := by
      apply Nat.lt_of_mul_lt_mul_left (a := 2 ^ (stop + 1))
      rw [← hsplit]
      omega
    have hmul : 2 ^ (stop + 1) * (rest + 1) ≤ 2 ^ 64 := by
      rw [hsplit]
      exact Nat.mul_le_mul_left _ hrest
    rw [Nat.mul_succ, pow_succ] at hmul
    rw [pow_succ]
    have := Nat.two_pow_pos stop
    omega
  · right
    subst hstop
    refine ⟨rfl, ?_⟩
    omega
  · exfalso
    have hbig : 2 ^ 64 ≤ 2 ^ (stop - 1) := Nat.pow_le_pow_right (by decide) (by omega)
    have := Nat.zero_le (2 ^ (stop + 1) * rest)
    omega

lemma afterLowestRun_toNat (h : LowestRun w.toNat start stop rest) :
    (afterLowestRun w).toNat = 2 ^ (stop + 1) * rest := by
  obtain ⟨k, hk⟩ := h.eq_odd
  have hadd := toNat_add_lowest hk
  rw [h.eq] at hadd
  obtain ⟨-, hlt⟩ | ⟨rfl, rfl⟩ := lowestRun_bound h
  · rw [Nat.mod_eq_of_lt hlt] at hadd
    apply toNat_and_sub_one (k := rest)
    rw [hadd]
    ring
  · have hzero : w + (w &&& (BitVec.allOnes 64 - w + 1#64)) = 0#64 := by
      apply BitVec.eq_of_toNat_eq
      rw [hadd]
      rfl
    simp only [afterLowestRun, hzero]
    rfl

lemma getLsbD_start (h : LowestRun w.toNat start stop rest) :
    start < 64 ∧ ctzll w = start := by
  have hlt : start < 64 := by
    have := h.lt
    have := lowestRun_bound h
    omega
  exact ⟨hlt, ctzll_eq hlt h.start_set fun i hi => h.below_start hi⟩

lemma ctzll_afterLowestRun {start' stop' rest' : Nat} (h : LowestRun w.toNat start stop rest)
    (hnext : LowestRun rest start' stop' rest') :
    stop + 1 + start' < 64 ∧ ctzll (afterLowestRun w) = stop + 1 + start' := by
  have hbit : ∀ i, (afterLowestRun w).getLsbD i =
      (decide (stop + 1 ≤ i) && rest.testBit (i - (stop + 1))) := by
    intro i
    rw [BitVec.getLsbD, afterLowestRun_toNat h, Nat.testBit_two_pow_mul]
  have hset : (afterLowestRun w).getLsbD (stop + 1 + start') = true := by
    rw [hbit, Nat.add_sub_cancel_left, hnext.start_set, decide_eq_true (by omega), Bool.true_and]
  have hlt : stop + 1 + start' < 64 := by
    by_contra hge
    rw [BitVec.getLsbD_of_ge _ _ (by omega)] at hset
    exact absurd hset (by decide)
  refine ⟨hlt, ctzll_eq hlt hset fun i hi => ?_⟩
  rw [hbit, Bool.and_eq_false_imp]
  intro hle
  rw [decide_eq_true_eq] at hle
  exact hnext.below_start (by omega)

end

/-! ### The distance as a period -/

lemma powerOfTwo_or (d : Nat) (hd : d < 64) (hpos : 2 ≤ d) :
    (d ∉ [2, 4, 8, 16, 32] ∧ BitVec.ofNat 64 d &&& (BitVec.ofNat 64 d - 1#64) ≠ 0#64) ∨
      (d ∈ [2, 4, 8, 16, 32] ∧ BitVec.ofNat 64 d &&& (BitVec.ofNat 64 d - 1#64) = 0#64) := by
  have hall : ∀ d < 64, 2 ≤ d →
      (d ∉ [2, 4, 8, 16, 32] ∧ BitVec.ofNat 64 d &&& (BitVec.ofNat 64 d - 1#64) ≠ 0#64) ∨
        (d ∈ [2, 4, 8, 16, 32] ∧ BitVec.ofNat 64 d &&& (BitVec.ofNat 64 d - 1#64) = 0#64) := by
    decide
  exact hall d hd hpos

lemma multTableAt_period {d : Nat} (hd : d ∈ [2, 4, 8, 16, 32]) :
    multTableAt ((5 + 2 ^ 32 - ctzll (BitVec.ofNat 64 d)) % 2 ^ 32) =
        some (BitVec.ofNat 64 (repunit d (64 / d))) ∧
      repunit d (64 / d) < 2 ^ 64 ∧ d * (64 / d) = 64 := by
  simp only [List.mem_cons, List.not_mem_nil, or_false] at hd
  obtain rfl | rfl | rfl | rfl | rfl := hd <;> decide +kernel

lemma pattern_toNat (w : BitVec 64) {d : Nat} (hd : d < 64) :
    (w &&& ((1#64 <<< d) - 1#64)).toNat = w.toNat % 2 ^ d := by
  have hpow : 2 ^ d < 2 ^ 64 := Nat.pow_lt_pow_right (by decide) hd
  have hpos := Nat.two_pow_pos d
  have hone : (1#64 <<< d).toNat = 2 ^ d := by
    rw [BitVec.toNat_shiftLeft, Nat.shiftLeft_eq, BitVec.toNat_ofNat,
      Nat.mod_eq_of_lt (by decide : 1 < 2 ^ 64), one_mul, Nat.mod_eq_of_lt hpow]
  have hmask : ((1#64 <<< d) - 1#64).toNat = 2 ^ d - 1 := by
    rw [BitVec.toNat_sub_of_le, hone]
    · rfl
    · rw [BitVec.le_def, hone]
      exact hpos
  rw [BitVec.toNat_and, hmask, Nat.and_two_pow_sub_one_eq_mod]

lemma matchesPattern_eq {w : BitVec 64} {start stop rest start' stop' rest' : Nat}
    (h : LowestRun w.toNat start stop rest) (hnext : LowestRun rest start' stop' rest')
    (hzero : w.getLsbD 0 = false) :
    ∃ b, matchesPattern w (BitVec.ofInt 64 (ctzll (afterLowestRun w) - ctzll w)) = some b ∧
      (b = true ↔ IsLogicalImmediate 64 w) := by
  obtain ⟨hp, hctz⟩ := getLsbD_start h
  obtain ⟨hq, hctz'⟩ := ctzll_afterLowestRun h hnext
  have hlt := h.lt
  have hpos : 0 < start := by
    by_contra hstart
    have hset := h.start_set
    rw [show start = 0 by omega] at hset
    rw [BitVec.getLsbD, hset] at hzero
    exact absurd hzero (by decide)
  obtain ⟨d, hd⟩ : ∃ d, stop + 1 + start' = start + d := ⟨stop + 1 + start' - start, by omega⟩
  have hdiff : BitVec.ofInt 64 (ctzll (afterLowestRun w) - ctzll w) = BitVec.ofNat 64 d := by
    rw [hctz, hctz', ← BitVec.ofInt_natCast]
    congr 1
    omega
  have hperiod : IsLogicalImmediate 64 w →
      d ∈ [2, 4, 8, 16, 32] ∧ ∃ run rot, IsRotatedRun d run rot 64 w.toNat.testBit := by
    rintro ⟨period, hmem, hdvd, run, hrun, rot, hrot, hrunpos, hbits⟩
    obtain ⟨heq, hlt'⟩ := h.next_of_rotated hnext w.isLt hbits hrot hrunpos hdvd (by decide) hzero
    obtain rfl : d = period := by omega
    refine ⟨?_, run, rot, hbits⟩
    simp only [List.mem_cons, List.not_mem_nil, or_false] at hmem ⊢
    omega
  rw [hdiff, matchesPattern]
  obtain ⟨hmem, hne⟩ | ⟨hmem, heq⟩ := powerOfTwo_or d (by omega) (by omega)
  · exact ⟨false, by rw [if_pos hne], by simpa using fun himm => hmem (hperiod himm).1⟩
  · obtain ⟨htable, hunit, hcount⟩ := multTableAt_period hmem
    have hmod : w.toNat % 2 ^ d < 2 ^ d := Nat.mod_lt _ (Nat.two_pow_pos d)
    have hprod := mul_repunit_lt hmod (64 / d)
    rw [hcount] at hprod
    have hcopies : w = (w &&& ((1#64 <<< d) - 1#64)) * BitVec.ofNat 64 (repunit d (64 / d)) ↔
        w.toNat = w.toNat % 2 ^ d * repunit d (64 / d) := by
      rw [← BitVec.toNat_inj, BitVec.toNat_mul, pattern_toNat w (by omega), BitVec.toNat_ofNat,
        Nat.mod_eq_of_lt hunit, Nat.mod_eq_of_lt hprod]
    have hw : w.toNat < 2 ^ (d * (64 / d)) := by
      rw [hcount]
      exact w.isLt
    simp only [heq, ne_eq, not_true_eq_false, if_false, htable, Option.map_some]
    refine ⟨_, rfl, ?_⟩
    rw [decide_eq_true_eq, BitVec.toNat_ofNat, Nat.mod_eq_of_lt (by omega), hcopies]
    constructor
    · intro hmul
      obtain ⟨hstart, hrot⟩ := h.rotated_of_next hnext hd hpos hw hmul
      rw [hcount] at hrot
      refine ⟨d, ?_, ⟨64 / d, hcount.symm⟩, min stop d - start, by omega, d - start, by omega,
        by omega, hrot⟩
      simp only [List.mem_cons, List.not_mem_nil, or_false] at hmem ⊢
      omega
    · intro himm
      obtain ⟨-, run, rot, hbits⟩ := hperiod himm
      rw [eq_mul_repunit_iff hmod hw]
      intro i hi
      rw [hcount] at hi
      have hpos' : 0 < d := by omega
      have hmodi := Nat.mod_lt i hpos'
      rw [Nat.testBit_mod_two_pow, decide_eq_true hmodi, Bool.true_and, hbits i hi,
        hbits (i % d) (by omega), Nat.mod_add_mod]

/-! ### The theorem -/

lemma not_isLogicalImmediate_of_ones {v : BitVec 64} (h : v.setWidth 32 = BitVec.allOnes 32) :
    ¬ IsLogicalImmediate 32 v := by
  rintro ⟨period, -, hdvd, run, hrun, rot, hrot, -, hbits⟩
  have hle := Nat.le_of_dvd (by decide) hdvd
  -- the place before the run starts again
  obtain ⟨i, hi, hmod⟩ : ∃ i < period, (i + rot) % period = period - 1 := by
    refine ⟨period - 1 - rot, by omega, ?_⟩
    rw [Nat.sub_add_cancel (by omega), Nat.mod_eq_of_lt (by omega)]
  have hclear := hbits i (by omega)
  have hset := congrArg (fun x => x.getLsbD i) h
  simp only [BitVec.getLsbD_setWidth, BitVec.getLsbD_allOnes] at hset
  rw [hmod, decide_eq_false (by omega)] at hclear
  simp [hclear, show i < 32 by omega] at hset

section

variable {validBitmaskImmSet : BitVec 64 → Bool}

lemma ctzll_le (x : BitVec 64) : ctzll x ≤ 64 := by
  unfold ctzll
  cases h : (List.range 64).find? fun i => x.getLsbD i with
  | none => exact Nat.le_refl 64
  | some i => exact Nat.le_of_lt (List.mem_range.mp (List.mem_of_find?_eq_some h))

lemma multTableAt_eq_some {x mult : BitVec 64}
    (h : multTableAt ((5 + 2 ^ 32 - ctzll x) % 2 ^ 32) = some mult) :
    kBitmaskImmMultTable (5 - ctzll x) = mult := by
  have hle := ctzll_le x
  unfold multTableAt at h
  split at h
  case isTrue hlt =>
    have hindex : (5 + 2 ^ 32 - ctzll x) % 2 ^ 32 = 5 - ctzll x := by omega
    rw [hindex] at h
    exact Option.some.inj h
  case isFalse => contradiction

lemma of_matchesPattern {val diff : BitVec 64} {b : Bool} (h : matchesPattern val diff = some b) :
    (if diff &&& (diff - 1#64) ≠ 0#64 then false
      else decide (val = (val &&& ((1#64 <<< diff.toNat) - 1#64)) *
        kBitmaskImmMultTable (5 - ctzll diff))) = b := by
  unfold matchesPattern at h
  split at h
  case isTrue hne => rw [if_pos hne]; exact Option.some.inj h
  case isFalse heq =>
    rw [if_neg heq]
    obtain ⟨mult, hmult, hb⟩ := Option.map_eq_some_iff.mp h
    rw [multTableAt_eq_some hmult]
    exact hb

lemma isBitmaskImmediate_of_checked {val : BitVec 64} {bitLen : Nat} {b : Bool}
    (h : isBitmaskImmediateChecked validBitmaskImmSet val bitLen = some b) :
    isBitmaskImmediate validBitmaskImmSet val bitLen = b := by
  unfold isBitmaskImmediateChecked at h
  unfold isBitmaskImmediate
  split at h
  case isTrue hones => rw [if_pos hones]; exact Option.some.inj h
  case isFalse hones =>
    rw [if_neg hones]
    dsimp only at h
    change (if afterLowestRun (evenWord val bitLen) = 0#64
      then validBitmaskImmSet (widen bitLen val) else _) = b
    split at h
    case isTrue hzero => rw [if_pos hzero]; exact Option.some.inj h
    case isFalse hrest => rw [if_neg hrest]; exact of_matchesPattern h

/-- `IsBitmaskImmediate` recognizes exactly the logical immediates and stays within its table. -/
theorem isBitmaskImmediate_exact
    (hset : ∀ v, validBitmaskImmSet v = true ↔ IsLogicalImmediate 64 v)
    (val : BitVec 64) {bitLen : Nat} (hlen : bitLen = 32 ∨ bitLen = 64) :
    isBitmaskImmediateChecked validBitmaskImmSet val bitLen =
        some (isBitmaskImmediate validBitmaskImmSet val bitLen) ∧
      (isBitmaskImmediate validBitmaskImmSet val bitLen = true ↔ IsLogicalImmediate bitLen val) := by
  suffices h : ∃ b, isBitmaskImmediateChecked validBitmaskImmSet val bitLen = some b ∧
      (b = true ↔ IsLogicalImmediate bitLen val) by
    obtain ⟨b, hb, hiff⟩ := h
    rw [isBitmaskImmediate_of_checked hb]
    exact ⟨hb, hiff⟩
  unfold isBitmaskImmediateChecked
  split
  case isTrue hones =>
    obtain ⟨rfl, hones⟩ := hones
    exact ⟨false, rfl, by simpa using not_isLogicalImmediate_of_ones hones⟩
  case isFalse =>
    have hiff := isLogicalImmediate_evenWord_iff hlen val
    have hzero := evenWord_getLsbD_zero val bitLen
    dsimp only
    split
    case isTrue => exact ⟨_, rfl, (hset _).trans (isLogicalImmediate_widen_iff' hlen val)⟩
    case isFalse hrest =>
      have hpos : 0 < (evenWord val bitLen).toNat := by
        by_contra hnot
        apply hrest
        have hword : evenWord val bitLen = 0#64 := by
          apply BitVec.eq_of_toNat_eq
          rw [BitVec.toNat_ofNat]
          omega
        rw [hword]
        rfl
      obtain ⟨start, stop, rest, h, -⟩ := exists_lowestRun hpos
      have hrestpos : 0 < rest := by
        by_contra hnot
        apply hrest
        apply BitVec.eq_of_toNat_eq
        rw [afterLowestRun_toNat h, show rest = 0 by omega]
        rfl
      obtain ⟨start', stop', rest', hnext, -⟩ := exists_lowestRun hrestpos
      obtain ⟨b, hb, hbiff⟩ := matchesPattern_eq h hnext hzero
      exact ⟨b, hb, hbiff.trans hiff⟩

/-- A run that is rotated around the end of its period of 8 bits, and a value that is none. -/
theorem isBitmaskImmediate_exact_examples :
    let set : BitVec 64 → Bool := fun v => decide (IsLogicalImmediate 64 v)
    (isBitmaskImmediateChecked set 0xc3c3c3c3#64 32 = some (isBitmaskImmediate set 0xc3c3c3c3#64 32) ∧
        (isBitmaskImmediate set 0xc3c3c3c3#64 32 = true ↔ IsLogicalImmediate 32 0xc3c3c3c3#64)) ∧
      (isBitmaskImmediateChecked set 0x1234#64 64 = some (isBitmaskImmediate set 0x1234#64 64) ∧
        (isBitmaskImmediate set 0x1234#64 64 = true ↔ IsLogicalImmediate 64 0x1234#64)) :=
  ⟨isBitmaskImmediate_exact (fun _ => decide_eq_true_iff) _ (.inl rfl),
    isBitmaskImmediate_exact (fun _ => decide_eq_true_iff) _ (.inr rfl)⟩

end

end AArch64
end Maple
