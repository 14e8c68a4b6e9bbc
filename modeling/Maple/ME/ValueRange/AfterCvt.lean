import Maple.ME.ValueRange.BrStmt

/-!
# Ranges after a conversion

`GetVRAfterCvt` decides whether the range of a value is also a range of the value converted to
another type. The range is returned as it is, so that its constants are read in the new type.
-/

namespace Maple
namespace ValueRangePropagation

variable {Var : Type} [Target]

def getVRAfterCvt (vr : ValueRange Var) (pty : PrimType) : Option (ValueRange Var) :=
  let ptyOfVR := vr.getPrimType
  let maxOfPty : Bound Var := ⟨none, pty.maxNumber, pty⟩
  let minOfPty : Bound Var := ⟨none, pty.minNumber, pty⟩
  if pty = ptyOfVR then some vr
  else if !vr.getUpper.isEqualAfterCVT ptyOfVR pty || !vr.getLower.isEqualAfterCVT ptyOfVR pty then
    none
  else
    let ptyIsUnsigned := pty.isUnsignedInteger
    let ptyOfVRIsUnsigned := ptyOfVR.isUnsignedInteger
    if ptyIsUnsigned = ptyOfVRIsUnsigned then
      if ptyOfVR.size ≤ pty.size then some vr
      else if vr.getUpper.isGreaterThan maxOfPty ptyOfVR ||
          vr.getLower.isLessThan minOfPty ptyOfVR then none
      else some vr
    else if ptyOfVRIsUnsigned then
      if ptyOfVR.size ≤ pty.size then some vr
      else if vr.getUpper.isGreaterThan maxOfPty ptyOfVR then none
      else some vr
    else if ptyIsUnsigned then
      let comparePty := if ptyOfVR.size ≤ pty.size then pty else ptyOfVR
      if vr.getUpper.isGreaterThan maxOfPty comparePty ||
          vr.getLower.isLessThan minOfPty comparePty then none
      else some vr
    else none

/-! ### Meaning -/

/-- The values of a range of constants when these are read in the type. -/
def ContainsAs (t : PrimType) (vr : ValueRange Var) (v : Int) : Prop :=
  t.format.Mem v ∧
    match vr.range with
    | .lowerAndUpper lower upper => t.read lower.constant ≤ v ∧ v ≤ t.read upper.constant
    | .onlyHasLowerBound b => t.read b.constant ≤ v
    | .onlyHasUpperBound b => v ≤ t.read b.constant
    | .notEqual b => v ≠ t.read b.constant
    | .equal b => v = t.read b.constant

/-- A value other than the excluded one becomes that one: the range is `kNotEqual` and the type has
fewer bits, unless the conversion to `u1` excludes zero. -/
def ExcludedReappears (vr : ValueRange Var) (pty : PrimType) : Prop :=
  match vr.range with
  | .notEqual b =>
    pty.actualBitSize < b.primType.actualBitSize ∧ ¬(pty = .u1 ∧ b.constant = 0)
  | _ => False

/-! ### What the checks say -/

variable {vr r : ValueRange Var} {s pty : PrimType}

lemma getVRAfterCvt_cases (h : getVRAfterCvt vr pty = some r) :
    r = vr ∧ (pty = vr.getPrimType ∨
      vr.getUpper.isEqualAfterCVT vr.getPrimType pty = true ∧
        vr.getLower.isEqualAfterCVT vr.getPrimType pty = true) := by
  unfold getVRAfterCvt at h
  by_cases hsame : pty = vr.getPrimType
  · rw [if_pos hsame] at h
    exact ⟨(Option.some.inj h).symm, Or.inl hsame⟩
  · rw [if_neg hsame] at h
    by_cases hends : (!vr.getUpper.isEqualAfterCVT vr.getPrimType pty ||
        !vr.getLower.isEqualAfterCVT vr.getPrimType pty) = true
    · rw [if_pos hends] at h
      cases h
    · rw [if_neg hends] at h
      refine ⟨?_, Or.inr (by simpa using hends)⟩
      simp only at h
      split_ifs at h <;> exact (Option.some.inj h).symm

lemma isConst_ends (hn : s.isNeeded) (htype : vr.OfType s) (hconst : vr.isNotConstantVR = false) :
    vr.getLower.IsConst s ∧ vr.getUpper.IsConst s := by
  obtain ⟨hl, hu⟩ : vr.getLower.var = none ∧ vr.getUpper.var = none := by
    simpa [ValueRange.isNotConstantVR] using hconst
  obtain ⟨range, stride, accurate⟩ := vr
  cases range with
  | lowerAndUpper lower upper => exact ⟨⟨hl, htype.1⟩, ⟨hu, htype.2⟩⟩
  | onlyHasLowerBound b =>
    have hb : b.IsConst s := ⟨hl, htype⟩
    refine ⟨hb, ?_⟩
    simpa [ValueRange.getUpper, hb.ofType.primType_eq] using Bound.isConst_maxBound hn
  | onlyHasUpperBound b =>
    have hb : b.IsConst s := ⟨hu, htype⟩
    refine ⟨?_, hb⟩
    simpa [ValueRange.getLower, hb.ofType.primType_eq] using Bound.isConst_minBound hn
  | notEqual b => exact ⟨⟨hl, htype⟩, ⟨hu, htype⟩⟩
  | equal b => exact ⟨⟨hl, htype⟩, ⟨hu, htype⟩⟩

lemma ends_unchanged (hn : s.isNeeded) (htype : vr.OfType s) (hconst : vr.isNotConstantVR = false)
    (h : getVRAfterCvt vr pty = some r) :
    pty.isNeeded ∧ pty.read vr.getLower.constant = s.read vr.getLower.constant ∧
      pty.read vr.getUpper.constant = s.read vr.getUpper.constant := by
  obtain ⟨hl, hu⟩ := isConst_ends hn htype hconst
  rcases (getVRAfterCvt_cases h).2 with hsame | ⟨hupper, hlower⟩
  · rw [htype.getPrimType_eq] at hsame
    subst hsame
    exact ⟨hn, rfl, rfl⟩
  · rw [htype.getPrimType_eq] at hupper hlower
    have hp : pty.isNeeded := by
      by_contra hp
      simp [Bound.isEqualAfterCVT, hp] at hlower
    rw [Bound.isEqualAfterCVT_iff hn hp hl.inType] at hlower
    rw [Bound.isEqualAfterCVT_iff hn hp hu.inType] at hupper
    exact ⟨hp, hlower, hupper⟩

lemma cvt_of_between (hp : pty.isNeeded) {a b : Int64} {v : Int} (ha : pty.read a ≤ v)
    (hb : v ≤ pty.read b) : pty.cvt v = v := by
  rw [PrimType.cvt_eq_self_iff]
  exact ⟨le_trans (PrimType.read_mem hp a).1 ha, le_trans hb (PrimType.read_mem hp b).2⟩

lemma containsAs_cvt (hn : s.isNeeded) (htype : vr.OfType s) (hconst : vr.isNotConstantVR = false)
    (hne : vr.isNotEqual = false) (h : getVRAfterCvt vr pty = some r) {env : Var → Int} {v : Int}
    (hv : vr.Contains env v) : ContainsAs pty vr (pty.cvt v) := by
  obtain ⟨hp, hlower, hupper⟩ := ends_unchanged hn htype hconst h
  obtain ⟨hl, hu⟩ := isConst_ends hn htype hconst
  obtain ⟨hmem, hwithin⟩ := hv
  rw [htype.getPrimType_eq] at hmem
  obtain ⟨hlv, huv, -, -⟩ := ValueRange.ends_of_within hn htype.hasType hne hmem hwithin
  rw [hl.value_eq env, ← hlower] at hlv
  rw [hu.value_eq env, ← hupper] at huv
  refine ⟨PrimType.cvt_mem pty v, ?_⟩
  rw [cvt_of_between hp hlv huv]
  obtain ⟨range, stride, accurate⟩ := vr
  cases range with
  | lowerAndUpper lower upper => exact ⟨hlv, huv⟩
  | onlyHasLowerBound b => exact hlv
  | onlyHasUpperBound b => exact huv
  | equal b => exact le_antisymm huv hlv
  | notEqual b => cases hne

/-- A range that is returned holds for the converted values unless it excludes a value that others
become. -/
theorem getVRAfterCvt_contains_iff (hn : s.isNeeded) (htype : vr.OfType s)
    (hconst : vr.isNotConstantVR = false) (h : getVRAfterCvt vr pty = some r)
    (env : Var → Int) :
    (∀ v, vr.Contains env v → ContainsAs pty r (pty.cvt v)) ↔ ¬ExcludedReappears vr pty := by
  have hr := (getVRAfterCvt_cases h).1
  subst hr
  by_cases hne : r.isNotEqual = false
  · refine iff_of_true (fun v => containsAs_cvt hn htype hconst hne h) ?_
    obtain ⟨range, stride, accurate⟩ := r
    cases range with
    | notEqual b => cases hne
    | _ => exact id
  · obtain ⟨hp, hsame, -⟩ := ends_unchanged hn htype hconst h
    obtain ⟨hb, -⟩ := isConst_ends hn htype hconst
    obtain ⟨range, stride, accurate⟩ := r
    cases range with
    | notEqual b =>
      have hb' : b.IsConst s := hb
      have hiff := exists_cvt_eq_iff hn hp hb'.inType hsame
      have hsame' : pty.read b.constant = s.read b.constant := hsame
      have hexcluded : ExcludedReappears ⟨.notEqual b, stride, accurate⟩ pty ↔
          pty.actualBitSize < s.actualBitSize ∧ ¬(pty = .u1 ∧ b.constant = 0) := by
        rw [← hb'.ofType.primType_eq]
        rfl
      have hcontains : ∀ v, (⟨.notEqual b, stride, accurate⟩ : ValueRange Var).Contains env v ↔
          s.format.Mem v ∧ v ≠ s.read b.constant := by
        intro v
        rw [← hb'.value_eq env, ← hb'.ofType.primType_eq]
        rfl
      rw [hexcluded, ← hiff]
      constructor
      · rintro hall ⟨v, hv, hvne, hcvt⟩
        have := (hall v ((hcontains v).mpr ⟨hv, hvne⟩)).2
        exact this (hcvt.trans hsame'.symm)
      · intro hnone v hv
        refine ⟨PrimType.cvt_mem pty v, ?_⟩
        intro hcvt
        obtain ⟨hmem, hvne⟩ := (hcontains v).mp hv
        exact hnone ⟨v, hmem, hvne, hcvt.trans hsame'⟩
    | _ => exact absurd rfl hne

omit [Target] in
theorem getVRAfterCvt_contains_iff_u8ThreeToFour :
    letI := Target.lp64
    (∀ v, u8ThreeToFour.Contains (fun _ => 0) v →
      ContainsAs .i32 u8ThreeToFour (PrimType.i32.cvt v)) ↔
      ¬ExcludedReappears u8ThreeToFour .i32 := by
  let _ := Target.lp64
  have htype : u8ThreeToFour.OfType .u8 :=
    ⟨⟨rfl, fun _ => by decide⟩, ⟨rfl, fun _ => by decide⟩⟩
  exact getVRAfterCvt_contains_iff rfl htype rfl (by decide +kernel) _

omit [Target] in
/-- The range of `i32` values other than five is kept for `u8`, where `261` becomes five. -/
theorem getVRAfterCvt_i32NotFive :
    letI := Target.lp64
    getVRAfterCvt i32NotFive .u8 = some i32NotFive ∧ i32NotFive.Contains (fun _ => 0) 261 ∧
      ¬ContainsAs .u8 i32NotFive (PrimType.u8.cvt 261) := by
  let _ := Target.lp64
  refine ⟨by decide +kernel, ⟨⟨by decide, by decide⟩, ?_⟩, ?_⟩
  · change (261 : Int) ≠ PrimType.i32.read 5
    decide
  · rintro ⟨-, hne⟩
    exact hne (by decide)

end ValueRangePropagation
end Maple
