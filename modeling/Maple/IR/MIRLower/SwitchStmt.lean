import Maple.IR.Branch
import Maple.IR.PrimType

/-!
# A switch whose cases share one target

`MIRLower::LowerSwitchStmt` replaces a switch whose tags follow one another and whose cases go to
one label by comparisons with the first and the last tag. An increment past the range of `int`, which
is undefined, has no result.
-/

namespace IntFormat

variable (f : IntFormat)

lemma exists_wrap_eq {v : Int} (hv : f.Mem v) (a : Int) {n : Nat} (hn : f.modulus ≤ n) :
    ∃ i ≤ n, f.wrap (a + (i : Nat)) = v := by
  have hpos := f.modulus_pos'
  have hnonneg := Int.emod_nonneg (v - a) (Int.ne_of_gt hpos)
  have hlt := Int.emod_lt_of_pos (v - a) hpos
  refine ⟨((v - a) % f.modulus).toNat, by omega, f.wrap_eq_of_mem hv ?_⟩
  rw [Int.toNat_of_nonneg hnonneg, Int.add_emod_emod, add_sub_cancel]

lemma wrap_run_iff (a : Int) (n : Nat) :
    (∀ x, (∃ i ≤ n, f.wrap (a + (i : Nat)) = x) ↔ f.wrap a ≤ x ∧ x ≤ f.wrap (a + n)) ↔
      f.wrap a + n = f.wrap (a + n) ∨
        f.modulus ≤ n ∧ f.wrap a = f.minValue ∧ f.wrap (a + n) = f.maxValue := by
  have hspan := f.maxValue_sub_minValue
  have hlo := f.wrap_mem a
  have hhi := f.wrap_mem (a + n)
  have hlomod := f.wrap_emod a
  have hhimod := f.wrap_emod (a + n)
  unfold Mem at hlo hhi
  constructor
  · intro h
    have hle : f.wrap a ≤ f.wrap (a + n) :=
      ((h (f.wrap a)).mp ⟨0, Nat.zero_le n, by simp⟩).2
    obtain hn | hn := Nat.lt_or_ge n f.modulus
    · left
      have hmod : (f.wrap (a + n) - f.wrap a) % f.modulus = n % f.modulus := by
        rw [Int.sub_emod, hhimod, hlomod, ← Int.sub_emod, add_sub_cancel_left]
      rw [Int.emod_eq_of_lt (by omega) (by omega), Int.emod_eq_of_lt (by omega) (by omega)] at hmod
      omega
    · right
      have hmin := (h f.minValue).mp (f.exists_wrap_eq ⟨le_refl _, f.minValue_le_maxValue⟩ a hn)
      have hmax := (h f.maxValue).mp (f.exists_wrap_eq ⟨f.minValue_le_maxValue, le_refl _⟩ a hn)
      omega
  · rintro (heq | ⟨hn, hmin, hmax⟩) x
    · have hrun : ∀ i ≤ n, f.wrap (a + (i : Nat)) = f.wrap a + i := by
        intro i hi
        apply f.wrap_eq_of_mem ⟨by omega, by omega⟩
        rw [Int.add_emod, ← hlomod, ← Int.add_emod]
      constructor
      · rintro ⟨i, hi, rfl⟩
        rw [hrun i hi]
        omega
      · intro hx
        refine ⟨(x - f.wrap a).toNat, by omega, ?_⟩
        rw [hrun _ (by omega)]
        omega
    · constructor
      · rintro ⟨i, -, rfl⟩
        rw [hmin, hmax]
        exact f.wrap_mem _
      · intro hx
        rw [hmin, hmax] at hx
        exact f.exists_wrap_eq hx a hn

end IntFormat

namespace Maple
namespace MIRLower

inductive CompareOp where
  | eq | lt | gt
  deriving DecidableEq, Repr

/-- `CompareNode`, of an expression with a constant. -/
structure CompareNode (ε : Type*) where
  op : CompareOp
  opndType : PrimType
  opnd0 : ε
  opnd1 : Int
  deriving DecidableEq, Repr

/-- `SwitchNode`; the label 0 stands for no default label. -/
structure SwitchNode (ε : Type*) where
  switchOpnd : ε
  primType : PrimType
  defaultLabel : LabelIdx
  switchTable : List (Int64 × LabelIdx)
  deriving DecidableEq, Repr

/-- The loop of `ConsecutiveCaseValsAndSameTarget`. -/
def consecutiveFrom (lblIdx : LabelIdx) : Int → List (Int64 × LabelIdx) → Option Bool
  | _, [] => some true
  | lastVal, (tag, lbl) :: rest =>
    if lastVal = 2 ^ 31 - 1 then none
    else if lastVal + 1 ≠ tag.toInt then some false
    else if lblIdx ≠ lbl then some false
    else consecutiveFrom lblIdx (lastVal + 1) rest

section

variable {ε : Type*} [Target]

/-- The integers that constants of a type are built from: from 64 bits an unsigned type of more bits
is filled up with zeros. -/
def constFormat (t : PrimType) : IntFormat :=
  if 64 < t.actualBitSize ∧ ¬ t.isSignedInteger then ⟨64, false⟩ else t.format

/-- The value of the constant that `CreateIntConst` builds. -/
def createIntConst (val : Int64) (t : PrimType) : Int := (constFormat t).wrap val.toInt

/-- The case that is tried before the others has the last tag given second. -/
def compareWithTags (node : SwitchNode ε) (minCaseVal maxCaseVal : Int64) (target : LabelIdx) :
    List (Stmt (CompareNode ε)) :=
  let compare (op : CompareOp) (tag : Int64) : CompareNode ε :=
    ⟨op, node.primType, node.switchOpnd, createIntConst tag node.primType⟩
  if minCaseVal = maxCaseVal then
    [.brtrue (compare .eq minCaseVal) target, .goto node.defaultLabel]
  else
    [.brtrue (compare .lt minCaseVal) node.defaultLabel,
      .brtrue (compare .gt maxCaseVal) node.defaultLabel, .goto target]

/-- `LowerSwitchStmt`: no result, no replacement (a null pointer), or the new block. -/
def lowerSwitchStmt (node : SwitchNode ε) : Option (Option (List (Stmt (CompareNode ε)))) :=
  if node.defaultLabel = 0 then some none
  else
    match node.switchTable with
    | [] => some (some [.goto node.defaultLabel])
    | (tag, lbl) :: rest =>
      match consecutiveFrom lbl (tag.toInt.bmod (2 ^ 32)) rest with
      | none => none
      | some false => some none
      | some true =>
        let maxCaseVal := ((tag, lbl) :: rest).getLast (by simp) |>.1
        some (some (compareWithTags node tag maxCaseVal lbl))

/-! ### Meaning -/

/-- The label that the switch goes to where its operand has the value `x`. -/
def SwitchNode.target (node : SwitchNode ε) (x : Int) : LabelIdx :=
  match node.switchTable.find? fun c => createIntConst c.1 node.primType = x with
  | some c => c.2
  | none => node.defaultLabel

/-- The truth of a comparison where its first operand has the value `x`. -/
def CompareNode.holds (c : CompareNode ε) (x : Int) : Bool :=
  match c.op with
  | .eq => x = c.opnd1
  | .lt => x < c.opnd1
  | .gt => x > c.opnd1

/-- Executing the block at a value of the operand. -/
def execBlock (block : List (Stmt (CompareNode ε))) (x : Int) : ForwardCode.Outcome LabelIdx :=
  Stmt.exec CompareNode.holds (fun _ _ => 0) x block

end

/-! ### The tags of a replaced switch -/

lemma consecutiveFrom_spec {lbl : LabelIdx} {lastVal : Int} {rest : List (Int64 × LabelIdx)}
    (hlast : lastVal ≤ 2 ^ 31 - 1) (h : consecutiveFrom lbl lastVal rest = some true) :
    (∀ c ∈ rest, c.2 = lbl) ∧ lastVal + rest.length ≤ 2 ^ 31 - 1 ∧
      (∀ t : Int, (∃ c ∈ rest, c.1.toInt = t) ↔ lastVal < t ∧ t ≤ lastVal + rest.length) ∧
      ∀ hne : rest ≠ [], (rest.getLast hne).1.toInt = lastVal + rest.length := by
  induction rest generalizing lastVal with
  | nil =>
    refine ⟨by simp, by simpa using hlast, fun t => ?_, fun hne => absurd rfl hne⟩
    simp only [List.not_mem_nil, false_and, exists_false, List.length_nil, false_iff]
    omega
  | cons c rest ih =>
    obtain ⟨tag, lbl'⟩ := c
    rw [consecutiveFrom] at h
    split at h
    case isTrue => contradiction
    case isFalse hmax =>
      split at h
      case isTrue => simp at h
      case isFalse htag =>
        split at h
        case isTrue => simp at h
        case isFalse hlbl =>
          obtain ⟨hall, hbound, htags, hend⟩ := ih (by omega) h
          have htag' : tag.toInt = lastVal + 1 := (not_not.mp htag).symm
          refine ⟨?_, by simp only [List.length_cons]; omega, fun t => ?_, fun _ => ?_⟩
          · intro c hc
            obtain rfl | hc := List.mem_cons.mp hc
            · exact (not_not.mp hlbl).symm
            · exact hall c hc
          · simp only [List.mem_cons, exists_eq_or_imp, List.length_cons, htags t, htag']
            omega
          · by_cases hrest : rest = []
            · subst hrest
              simpa using htag'
            · rw [List.getLast_cons hrest, hend hrest, List.length_cons]
              push_cast
              ring

section

variable {ε : Type*} [Target]

lemma target_of_same_label {node : SwitchNode ε} {lbl : LabelIdx}
    (h : ∀ c ∈ node.switchTable, c.2 = lbl) (x : Int) :
    ((∃ c ∈ node.switchTable, createIntConst c.1 node.primType = x) ∧ node.target x = lbl) ∨
      ((¬ ∃ c ∈ node.switchTable, createIntConst c.1 node.primType = x) ∧
        node.target x = node.defaultLabel) := by
  unfold SwitchNode.target
  cases hfind : node.switchTable.find? fun c => createIntConst c.1 node.primType = x with
  | none =>
    right
    refine ⟨?_, rfl⟩
    rintro ⟨c, hc, hx⟩
    exact List.find?_eq_none.mp hfind c hc (by simpa using hx)
  | some c =>
    left
    have hmem := List.mem_of_find?_eq_some hfind
    exact ⟨⟨c, hmem, by simpa using List.find?_some hfind⟩, h c hmem⟩

lemma actualBitSize_cases {t : PrimType} (h : t.isPrimitiveInteger = true) :
    t.actualBitSize ≤ 32 ∨ t.actualBitSize = 64 ∨ t.actualBitSize = 128 := by
  have hptr := Target.pointerSize_eq
  cases t <;> first
    | exact absurd h (by decide)
    | simp [PrimType.actualBitSize, PrimType.size]; done
    | simp only [PrimType.actualBitSize, PrimType.size, reduceCtorEq, if_false]; omega

/-- The values of constants are values of their type; they have at least 64 bits, or the residues
modulo `2 ^ 32` determine them. -/
lemma constFormat_cases {t : PrimType} (h : t.isPrimitiveInteger = true) :
    (64 ≤ (constFormat t).width ∨ (constFormat t).modulus ∣ 2 ^ 32) ∧
      ∀ x, (constFormat t).Mem x → t.format.Mem x := by
  have hsize := actualBitSize_cases h
  unfold constFormat
  split
  case isTrue hwide =>
    have h128 : t.actualBitSize = 128 := by omega
    refine ⟨.inl (Nat.le_refl 64), fun x hx => ?_⟩
    unfold IntFormat.Mem IntFormat.minValue IntFormat.maxValue IntFormat.modulus at hx ⊢
    simp only [PrimType.format, h128, if_neg hwide.2] at hx ⊢
    simp only [if_neg (show ¬ false = true by decide)] at hx
    omega
  case isFalse hnarrow =>
    refine ⟨?_, fun x hx => hx⟩
    obtain hle | hge : t.actualBitSize ≤ 32 ∨ 64 ≤ t.actualBitSize := by omega
    · exact .inr (pow_dvd_pow 2 hle)
    · exact .inl hge

/-! ### The block -/

lemma exec_compareWithTags (node : SwitchNode ε) (minCaseVal maxCaseVal : Int64)
    (lbl : LabelIdx) (x : Int) :
    execBlock (compareWithTags node minCaseVal maxCaseVal lbl) x =
      .leave (if minCaseVal = maxCaseVal then
        if x = createIntConst minCaseVal node.primType then lbl else node.defaultLabel
      else if createIntConst minCaseVal node.primType ≤ x ∧
          x ≤ createIntConst maxCaseVal node.primType then lbl
        else node.defaultLabel) := by
  unfold compareWithTags execBlock Stmt.exec
  by_cases heq : minCaseVal = maxCaseVal
  · subst heq
    by_cases hx : x = createIntConst minCaseVal node.primType
    · simp [hx, ForwardCode.exec, ForwardCode.run, Stmt.toInstr, CompareNode.holds]
    · simp [hx, ForwardCode.exec, ForwardCode.run, Stmt.toInstr, CompareNode.holds]
  · by_cases hlo : x < createIntConst minCaseVal node.primType
    · simp [heq, hlo, Int.not_le_of_gt hlo, ForwardCode.exec, ForwardCode.run, Stmt.toInstr,
        CompareNode.holds]
    · by_cases hhi : createIntConst maxCaseVal node.primType < x
      · simp [heq, hlo, hhi, Int.not_le_of_gt hhi, ForwardCode.exec, ForwardCode.run,
          Stmt.toInstr, CompareNode.holds]
      · simp [heq, hlo, hhi, Int.not_lt.mp hlo, Int.not_lt.mp hhi, ForwardCode.exec,
          ForwardCode.run, Stmt.toInstr, CompareNode.holds]

/-- The tags are in the order of the type of the operand: from the first to the last one they do not
wrap around, or they take all of its values, from the least to the greatest one. -/
def SwitchNode.TagsInOrder (node : SwitchNode ε) : Prop :=
  match node.switchTable with
  | [] => True
  | (tag, lbl) :: rest =>
    let f := constFormat node.primType
    let first := createIntConst tag node.primType
    let last := createIntConst (((tag, lbl) :: rest).getLast (by simp)).1 node.primType
    lbl = node.defaultLabel ∨ rest = [] ∨ first + rest.length = last ∨
      f.modulus ≤ rest.length ∧ first = f.minValue ∧ last = f.maxValue

/-! ### When the replacement is right -/

/-- The block goes where the switch goes, for every value of the operand. -/
def SwitchNode.ReplacedBy (node : SwitchNode ε) (block : List (Stmt (CompareNode ε))) : Prop :=
  ∀ x, node.primType.format.Mem x → execBlock block x = .leave (node.target x)

omit [Target] in
lemma bmod_emod_of_dvd {m : Nat} (hm : m ∣ 2 ^ 32) (t : Int) : t.bmod (2 ^ 32) % m = t % m := by
  have hdvd : (m : Int) ∣ (2 ^ 32 : Nat) := Int.natCast_dvd_natCast.mpr hm
  rw [← Int.emod_emod_of_dvd _ hdvd, Int.bmod_emod, Int.emod_emod_of_dvd _ hdvd]

omit [Target] in
lemma toInt_mem (t : Int64) : IntFormat.Mem ⟨64, true⟩ t.toInt := by
  have hlo := t.le_toInt
  have hhi := t.toInt_lt
  unfold IntFormat.Mem IntFormat.minValue IntFormat.maxValue IntFormat.modulus
  simp only [if_true]
  omega

omit [Target] in
/-- The values of a first tag and of the tags after it are the values from the first to the last one
exactly when the tags are in order. -/
lemma tags_iff {f : IntFormat} (hf : 64 ≤ f.width ∨ f.modulus ∣ 2 ^ 32) (tag : Int64) {n : Nat}
    (hn : 0 < n) (hbound : tag.toInt.bmod (2 ^ 32) + n ≤ 2 ^ 31 - 1) {last : Int}
    (hlast : last = tag.toInt.bmod (2 ^ 32) + n) :
    (∀ x, (f.wrap tag.toInt = x ∨ ∃ t, (tag.toInt.bmod (2 ^ 32) < t ∧ t ≤ last) ∧ f.wrap t = x) ↔
        f.wrap tag.toInt ≤ x ∧ x ≤ f.wrap last) ↔
      f.wrap tag.toInt + n = f.wrap last ∨
        f.modulus ≤ n ∧ f.wrap tag.toInt = f.minValue ∧ f.wrap last = f.maxValue := by
  subst hlast
  generalize hc : tag.toInt.bmod (2 ^ 32) = c at hbound
  by_cases hsame : f.wrap tag.toInt = f.wrap c
  · -- the values are those of the numbers from `c`
    rw [hsame, ← f.wrap_run_iff c n]
    apply forall_congr'
    intro x
    suffices h : (f.wrap c = x ∨ ∃ t, (c < t ∧ t ≤ c + n) ∧ f.wrap t = x) ↔
        ∃ i ≤ n, f.wrap (c + (i : Nat)) = x by rw [h]
    constructor
    · rintro (h | ⟨t, ht, h⟩)
      · exact ⟨0, Nat.zero_le n, by simpa using h⟩
      · exact ⟨(t - c).toNat, by omega, by rw [Int.toNat_of_nonneg (by omega)]; simpa using h⟩
    · rintro ⟨i, hi, h⟩
      cases i with
      | zero => exact .inl (by simpa using h)
      | succ i => exact .inr ⟨c + (i + 1 : Nat), by omega, h⟩
  · -- the first tag does not fit into `int`, and no other tag has the value that follows its value
    have hw : 64 ≤ f.width := by
      obtain hw | hdvd := hf
      · exact hw
      · refine absurd ?_ hsame
        rw [f.wrap_eq_wrap_iff, ← hc, bmod_emod_of_dvd hdvd]
    have hclo := @Int.le_bmod tag.toInt (2 ^ 32) (by decide)
    have hchi := @Int.bmod_lt tag.toInt (2 ^ 32) (by decide)
    rw [hc] at hclo hchi
    have hmem := toInt_mem tag
    have hout : ¬ (-2 ^ 31 ≤ tag.toInt ∧ tag.toInt < 2 ^ 31) := by
      intro hin
      rw [← hc, Int.bmod_eq_of_le (by omega) (by omega)] at hsame
      exact hsame rfl
    have hne : ∀ t, -2 ^ 31 ≤ t → t < 2 ^ 31 → tag.toInt % f.modulus ≠ t % f.modulus := by
      intro t hlo hhi heq
      have htag : tag.toInt = t := by
        apply IntFormat.wrap_inj_of_width_le (f := ⟨64, true⟩) hw hmem
        · unfold IntFormat.Mem IntFormat.minValue IntFormat.maxValue IntFormat.modulus
          simp only [if_true]
          omega
        · rwa [f.wrap_eq_wrap_iff]
      omega
    have hbig : 2 ^ 64 ≤ f.modulus := Nat.pow_le_pow_right (by decide) hw
    apply iff_of_false
    · intro h
      have hle := ((h (f.wrap tag.toInt)).mp (.inl rfl)).2
      have hlast := hne (c + n) (by omega) (by omega)
      rw [← f.wrap_emod tag.toInt, ← f.wrap_emod (c + n)] at hlast
      obtain hfirst | ⟨t, ht, hnext⟩ := (h (f.wrap tag.toInt + 1)).mpr (by
        have : f.wrap tag.toInt ≠ f.wrap (c + n) := fun heq => hlast (by rw [heq])
        omega)
      · omega
      · apply hne (t - 1) (by omega) (by omega)
        rw [← f.wrap_emod tag.toInt, show f.wrap tag.toInt = f.wrap t - 1 by omega, Int.sub_emod,
          f.wrap_emod, ← Int.sub_emod]
    · rintro (heq | ⟨hn', -⟩)
      · apply hne c (by omega) (by omega)
        rw [← f.wrap_emod tag.toInt, show f.wrap tag.toInt = f.wrap (c + n) - n by omega,
          Int.sub_emod, f.wrap_emod, ← Int.sub_emod, add_sub_cancel_right]
      · omega

omit [Target] in
lemma last_tag {tag : Int64} {lbl : LabelIdx} {rest : List (Int64 × LabelIdx)} (hne : rest ≠ []) :
    (((tag, lbl) :: rest).getLast (by simp)).1 = (rest.getLast hne).1 := by
  rw [List.getLast_cons hne]

lemma compareWithTags_iff {node : SwitchNode ε} (hint : node.primType.isPrimitiveInteger = true)
    {tag : Int64} {lbl : LabelIdx} {rest : List (Int64 × LabelIdx)} (hrest : rest ≠ [])
    (htable : node.switchTable = (tag, lbl) :: rest) (hlbl : lbl ≠ node.defaultLabel)
    (hcons : consecutiveFrom lbl (tag.toInt.bmod (2 ^ 32)) rest = some true) :
    node.ReplacedBy (compareWithTags node tag (rest.getLast hrest).1 lbl) ↔
      createIntConst tag node.primType + rest.length =
          createIntConst (rest.getLast hrest).1 node.primType ∨
        (constFormat node.primType).modulus ≤ rest.length ∧
          createIntConst tag node.primType = (constFormat node.primType).minValue ∧
          createIntConst (rest.getLast hrest).1 node.primType =
            (constFormat node.primType).maxValue := by
  obtain ⟨hf, hsub⟩ := constFormat_cases hint
  have hbmod := @Int.bmod_lt tag.toInt (2 ^ 32) (by decide)
  obtain ⟨hall, hbound, htags, hend⟩ := consecutiveFrom_spec (by omega) hcons
  have hlast := hend hrest
  have hpos : 0 < rest.length := List.length_pos_iff.mpr hrest
  have hne : tag ≠ (rest.getLast hrest).1 := by
    intro heq
    have hlo := @Int.le_bmod tag.toInt (2 ^ 32) (by decide)
    rw [← heq] at hlast
    rw [Int.bmod_eq_of_le (by omega) (by omega)] at hlast
    omega
  have hcases : ∀ c ∈ node.switchTable, c.2 = lbl := by
    rw [htable]
    intro c hc
    obtain rfl | hc := List.mem_cons.mp hc
    · rfl
    · exact hall c hc
  refine Iff.trans ?_ (tags_iff hf tag hpos hbound hlast)
  have htagged : ∀ x, (∃ c ∈ node.switchTable, createIntConst c.1 node.primType = x) ↔
      ((constFormat node.primType).wrap tag.toInt = x ∨
        ∃ t, (tag.toInt.bmod (2 ^ 32) < t ∧ t ≤ (rest.getLast hrest).1.toInt) ∧
          (constFormat node.primType).wrap t = x) := by
    intro x
    rw [htable, List.exists_mem_cons_iff]
    apply or_congr Iff.rfl
    constructor
    · rintro ⟨c, hc, hx⟩
      refine ⟨c.1.toInt, ?_, hx⟩
      rw [hlast]
      exact (htags _).mp ⟨c, hc, rfl⟩
    · rintro ⟨t, ht, hx⟩
      rw [hlast] at ht
      obtain ⟨c, hc, rfl⟩ := (htags t).mpr ht
      exact ⟨c, hc, hx⟩
  have hstep : ∀ x, execBlock (compareWithTags node tag (rest.getLast hrest).1 lbl) x =
      .leave (node.target x) ↔
        ((∃ c ∈ node.switchTable, createIntConst c.1 node.primType = x) ↔
          createIntConst tag node.primType ≤ x ∧
            x ≤ createIntConst (rest.getLast hrest).1 node.primType) := by
    intro x
    rw [exec_compareWithTags, if_neg hne]
    obtain ⟨hmem, htarget⟩ | ⟨hmem, htarget⟩ := target_of_same_label hcases x
    · rw [htarget]
      simp only [hmem, true_iff]
      split_ifs with hin
      · simp [hin]
      · simp [hin, Ne.symm hlbl]
    · rw [htarget]
      simp only [hmem, false_iff]
      split_ifs with hin
      · simp [hin, hlbl]
      · simp [hin]
  constructor
  · intro h x
    rw [← htagged x]
    by_cases hx : node.primType.format.Mem x
    · exact (hstep x).mp (h x hx)
    · apply iff_of_false
      · rintro ⟨c, -, rfl⟩
        exact hx (hsub _ (IntFormat.wrap_mem _ _))
      · rintro ⟨hlo, hhi⟩
        have h₁ := (constFormat node.primType).wrap_mem tag.toInt
        have h₂ := (constFormat node.primType).wrap_mem (rest.getLast hrest).1.toInt
        exact hx (hsub x ⟨le_trans h₁.1 hlo, le_trans hhi h₂.2⟩)
  · intro h x _
    rw [hstep, htagged]
    exact h x

/-- A block that `LowerSwitchStmt` returns goes where the switch goes exactly when the tags are in the
order of the type of the operand. -/
theorem lowerSwitchStmt_exact_iff {node : SwitchNode ε}
    (hint : node.primType.isPrimitiveInteger = true) {block : List (Stmt (CompareNode ε))}
    (h : lowerSwitchStmt node = some (some block)) :
    node.ReplacedBy block ↔ node.TagsInOrder := by
  unfold lowerSwitchStmt at h
  split at h
  case isTrue => simp at h
  case isFalse =>
    unfold SwitchNode.TagsInOrder
    cases htable : node.switchTable with
    | nil =>
      simp only [htable] at h
      obtain rfl : [.goto node.defaultLabel] = block := by simpa using h
      simp [SwitchNode.ReplacedBy, execBlock, Stmt.exec, ForwardCode.exec, ForwardCode.run,
        Stmt.toInstr, SwitchNode.target, htable]
    | cons c rest =>
      obtain ⟨tag, lbl⟩ := c
      simp only [htable] at h
      cases hcons : consecutiveFrom lbl (tag.toInt.bmod (2 ^ 32)) rest with
      | none => simp only [hcons, reduceCtorEq] at h
      | some same =>
        cases same with
        | false => simp only [hcons, Option.some.injEq, reduceCtorEq] at h
        | true =>
          simp only [hcons, Option.some.injEq] at h
          subst h
          by_cases hlbl : lbl = node.defaultLabel
          · -- every case and the default go to one label
            refine iff_of_true (fun x _ => ?_) (.inl hlbl)
            have hbmod := @Int.bmod_lt tag.toInt (2 ^ 32) (by decide)
            have hall := (consecutiveFrom_spec (by omega) hcons).1
            have hcases : ∀ c ∈ node.switchTable, c.2 = lbl := by
              rw [htable]
              intro c hc
              obtain rfl | hc := List.mem_cons.mp hc
              · rfl
              · exact hall c hc
            have htarget : node.target x = lbl := by
              obtain ⟨-, h⟩ | ⟨-, h⟩ := target_of_same_label hcases x
              · exact h
              · exact h.trans hlbl.symm
            rw [exec_compareWithTags, htarget, ← hlbl]
            simp only [ite_self]
          · by_cases hrest : rest = []
            · subst hrest
              refine iff_of_true (fun x _ => ?_) (.inr (.inl rfl))
              rw [exec_compareWithTags, SwitchNode.target, htable]
              by_cases hx : x = createIntConst tag node.primType
              · simp [hx]
              · simp [hx, Ne.symm hx]
            · simp only [last_tag hrest]
              rw [compareWithTags_iff hint hrest htable hlbl hcons]
              simp [hlbl, hrest]

end

/-- A switch with the default label 1 whose cases go to the label 2. -/
def switchExample (primType : PrimType) (tags : List Int64) : SwitchNode Unit :=
  ⟨(), primType, 1, tags.map fun tag => (tag, 2)⟩

/-- The tags 7, 8 and 9 of an operand of 32 bits, and two tags of an operand of 8 bits. -/
theorem lowerSwitchStmt_exact_iff_examples :
    letI := Target.lp64
    ((switchExample .i32 [7, 8, 9]).ReplacedBy
        (compareWithTags (switchExample .i32 [7, 8, 9]) 7 9 2) ↔
      (switchExample .i32 [7, 8, 9]).TagsInOrder) ∧
      ((switchExample .u8 [255, 256]).ReplacedBy
          (compareWithTags (switchExample .u8 [255, 256]) 255 256 2) ↔
        (switchExample .u8 [255, 256]).TagsInOrder) := by
  let _ := Target.lp64
  have hint : (switchExample .i32 [7, 8, 9]).primType.isPrimitiveInteger = true := by decide
  have hwrap : (switchExample .u8 [255, 256]).primType.isPrimitiveInteger = true := by decide
  exact ⟨lowerSwitchStmt_exact_iff hint (by rfl), lowerSwitchStmt_exact_iff hwrap (by rfl)⟩

/-- The tags `2 ^ 32 + 5` and 6 of a 64-bit operand pass the check, and at 6 the block goes to the
default label. -/
theorem lowerSwitchStmt_wide_tag :
    letI := Target.lp64
    ∃ block, lowerSwitchStmt (switchExample .i64 [4294967301, 6]) = some (some block) ∧
      ¬ (switchExample .i64 [4294967301, 6]).ReplacedBy block := by
  let _ := Target.lp64
  refine ⟨_, rfl, fun h => ?_⟩
  exact absurd (h 6 (by decide)) (by decide)

end MIRLower
end Maple
