import Maple.Lib.DepthFirst
import Mathlib.Order.Bounds.Basic
import Mathlib.Data.Fin.VecNotation

/-!
# Availability of phi occurrences

`ComputeFullAvail` and `ComputeMCWillBeAvail` take the marks of the phis that have an operand without
a definition, and of the phis that depend on these.
-/

namespace Maple
namespace McSSAPre

/-- `GetDef` of an operand of a phi. -/
inductive OpndDef (Phi : Type) where
  | null
  | real
  | phi (occ : Phi)
  deriving DecidableEq, Repr

structure MePhiOpndOcc (Phi : Type) where
  defOcc : OpndDef Phi
  hasRealUse : Bool := false
  isMCInsert : Bool := false
  deriving DecidableEq, Repr

/-- The phi occurrences of a candidate in the order of `phiOccs`. -/
structure PhiOccs (Phi : Type) where
  phiOccs : List Phi
  phiOpnds : Phi → List (MePhiOpndOcc Phi)
  mem_phiOccs : ∀ phiOcc, phiOcc ∈ phiOccs

/-- What `ComputeMCWillBeAvail` reads of a `Visit`: the occurrence of the node, if it is a phi, and
`phiOpndIndices[predIdx]`. -/
structure Visit (Phi : Type) where
  phiOcc : Option Phi
  phiOpndIndex : Nat
  deriving DecidableEq, Repr

namespace PhiOccs

variable {Phi : Type} [DecidableEq Phi]

/-- The test of `ResetFullAvail` whether `phiOcc` uses `occ`. -/
def isUseInFullAvail (g : PhiOccs Phi) (occ phiOcc : Phi) : Bool :=
  (g.phiOpnds phiOcc).any fun phiOpnd => phiOpnd.defOcc == .phi occ && !phiOpnd.hasRealUse

/-- `ResetFullAvail`, on the marks of all phis. -/
def resetFullAvail (g : PhiOccs Phi) : Nat → (Phi → Bool) → Phi → Option (Phi → Bool) :=
  DepthFirst.unmark g.phiOccs g.isUseInFullAvail

def computeFullAvail (g : PhiOccs Phi) (isFullyAvail : Phi → Bool) : Option (Phi → Bool) :=
  g.phiOccs.foldlM (fun marked phiOcc =>
    let existNullDef := (g.phiOpnds phiOcc).any fun phiOpnd => phiOpnd.defOcc == .null
    if existNullDef then g.resetFullAvail g.phiOccs.length marked phiOcc else some marked)
    isFullyAvail

/-- The test of `ResetMCWillBeAvail`; the definition is compared with `aPhiOcc` itself, not with the
phi that was reset. -/
def isUseInMCWillBeAvail (g : PhiOccs Phi) (_phiOcc aPhiOcc : Phi) : Bool :=
  (g.phiOpnds aPhiOcc).any fun phiOpnd =>
    phiOpnd.defOcc == .phi aPhiOcc && (!phiOpnd.hasRealUse && !phiOpnd.isMCInsert)

def resetMCWillBeAvail (g : PhiOccs Phi) : Nat → (Phi → Bool) → Phi → Option (Phi → Bool) :=
  DepthFirst.unmark g.phiOccs g.isUseInMCWillBeAvail

/-- The loop of `ComputeMCWillBeAvail` over the cut, which sets the insertions. -/
def setMCInsert (g : PhiOccs Phi) (minCut : List (Visit Phi)) : PhiOccs Phi :=
  minCut.foldl (fun g visit =>
    match visit.phiOcc with
    | none => g
    | some phiOcc =>
      let phiOpnds := (g.phiOpnds phiOcc).modify visit.phiOpndIndex fun phiOpnd =>
        { phiOpnd with isMCInsert := true }
      { g with phiOpnds := Function.update g.phiOpnds phiOcc phiOpnds }) g

def computeMCWillBeAvail (g : PhiOccs Phi) (minCut : List (Visit Phi))
    (isFullyAvail isMCWillBeAvail : Phi → Bool) : Option (Phi → Bool) :=
  if minCut.isEmpty then some isFullyAvail
  else
    let g := g.setMCInsert minCut
    g.phiOccs.foldlM (fun marked phiOcc =>
      let noDef := (g.phiOpnds phiOcc).any fun phiOpnd =>
        phiOpnd.defOcc == .null && !phiOpnd.isMCInsert
      if noDef then g.resetMCWillBeAvail g.phiOccs.length marked phiOcc else some marked)
      isMCWillBeAvail

/-! ### Meaning -/

omit [DecidableEq Phi]

/-- The value of an operand is there if it is inserted, or has a real use on its path, or is defined
by a real occurrence or a phi of the set. -/
def OpndAvail (inserts : Bool) (S : Set Phi) (phiOpnd : MePhiOpndOcc Phi) : Prop :=
  (inserts = true ∧ phiOpnd.isMCInsert = true) ∨ phiOpnd.hasRealUse = true ∨
    phiOpnd.defOcc = .real ∨ ∃ phiOcc ∈ S, phiOpnd.defOcc = .phi phiOcc

/-- The sets of phis all operands of which are there. -/
def availableSets (g : PhiOccs Phi) (inserts : Bool) : Set (Set Phi) :=
  {S | ∀ phiOcc ∈ S, ∀ phiOpnd ∈ g.phiOpnds phiOcc, OpndAvail inserts S phiOpnd}

/-- The operand is neither inserted nor has it a real use. -/
def Plain (inserts : Bool) (phiOpnd : MePhiOpndOcc Phi) : Prop :=
  phiOpnd.hasRealUse = false ∧ (inserts = true → phiOpnd.isMCInsert = false)

/-- `y` takes the value of `x` by an operand that is neither inserted nor has a real use. -/
def Uses (g : PhiOccs Phi) (inserts : Bool) (x y : Phi) : Prop :=
  ∃ phiOpnd ∈ g.phiOpnds y, phiOpnd.defOcc = .phi x ∧ Plain inserts phiOpnd

/-- An operand without definition is neither inserted nor has it a real use. -/
def Lacks (g : PhiOccs Phi) (inserts : Bool) (y : Phi) : Prop :=
  ∃ phiOpnd ∈ g.phiOpnds y, phiOpnd.defOcc = .null ∧ Plain inserts phiOpnd

/-- An operand without definition is not inserted. -/
def NullDef (g : PhiOccs Phi) (inserts : Bool) (y : Phi) : Prop :=
  ∃ phiOpnd ∈ g.phiOpnds y, phiOpnd.defOcc = .null ∧
    (inserts = true → phiOpnd.isMCInsert = false)

/-- The phi depends on one that lacks a value. -/
def DependsOnLack (g : PhiOccs Phi) (inserts : Bool) (y : Phi) : Prop :=
  ∃ b, g.Lacks inserts b ∧ Relation.ReflTransGen (g.Uses inserts) b y

/-- The phi has an operand without definition, or uses itself while another phi has one. -/
def NullDefOrSelfUse (g : PhiOccs Phi) (y : Phi) : Prop :=
  g.NullDef true y ∨ (g.Uses true y y ∧ ∃ b, g.NullDef true b)

lemma availableSets_eq (g : PhiOccs Phi) (inserts : Bool) :
    g.availableSets inserts =
      {S | ∀ y ∈ S, ¬g.Lacks inserts y ∧ ∀ x, g.Uses inserts x y → x ∈ S} := by
  ext S
  refine forall₂_congr fun y _ => ?_
  constructor
  · intro h
    refine ⟨?_, ?_⟩
    · rintro ⟨phiOpnd, hmem, hnull, hreal, hinsert⟩
      rcases h phiOpnd hmem with ⟨hi, hi'⟩ | hr | hr | ⟨x, -, hx⟩
      · exact absurd (hi'.symm.trans (hinsert hi)) (by decide)
      · exact absurd (hr.symm.trans hreal) (by decide)
      · exact absurd (hnull.symm.trans hr) (by simp)
      · exact absurd (hnull.symm.trans hx) (by simp)
    · rintro x ⟨phiOpnd, hmem, hphi, hreal, hinsert⟩
      rcases h phiOpnd hmem with ⟨hi, hi'⟩ | hr | hr | ⟨x', hx', hx⟩
      · exact absurd (hi'.symm.trans (hinsert hi)) (by decide)
      · exact absurd (hr.symm.trans hreal) (by decide)
      · exact absurd (hphi.symm.trans hr) (by simp)
      · cases hphi.symm.trans hx
        exact hx'
  · rintro ⟨hlacks, huses⟩ phiOpnd hmem
    by_cases hplain : Plain inserts phiOpnd
    · cases hdef : phiOpnd.defOcc with
      | null => exact absurd ⟨phiOpnd, hmem, hdef, hplain⟩ hlacks
      | real => exact Or.inr (Or.inr (Or.inl hdef))
      | phi x =>
        exact Or.inr (Or.inr (Or.inr ⟨x, huses x ⟨phiOpnd, hmem, hdef, hplain⟩, hdef⟩))
    · rw [Plain, not_and_or, Classical.not_imp] at hplain
      rcases hplain with hreal | ⟨hi, hi'⟩
      · exact Or.inr (Or.inl (by simpa using hreal))
      · exact Or.inl ⟨hi, by simpa using hi'⟩

lemma isGreatest_iff (g : PhiOccs Phi) (inserts : Bool) (S : Set Phi) :
    IsGreatest (g.availableSets inserts) S ↔ ∀ y, y ∈ S ↔ ¬g.DependsOnLack inserts y := by
  have hgreatest := DepthFirst.isGreatest_closed (g.Lacks inserts) (g.Uses inserts)
  rw [← availableSets_eq] at hgreatest
  have hmem : ∀ y, y ∈ {y | ∀ b, g.Lacks inserts b → ¬Relation.ReflTransGen (g.Uses inserts) b y} ↔
      ¬g.DependsOnLack inserts y := by
    intro y
    simp only [DependsOnLack, Set.mem_ofPred_eq, not_exists, not_and]
  constructor
  · intro h y
    rw [h.unique hgreatest, hmem]
  · intro h
    have heq : S = _ := Set.ext fun y => (h y).trans (hmem y).symm
    rw [heq]
    exact hgreatest

/-! ### What the code leaves -/

/-- The marks that are right: those of the greatest set. -/
def IsExact (g : PhiOccs Phi) (inserts : Bool) (marked : Phi → Bool) : Prop :=
  IsGreatest (g.availableSets inserts) {y | marked y = true}

/-- Marks that are taken from the phis of `R` are right exactly when `R` has with a phi all phis that
use it, and all of `R` depend on a phi that lacks a value. -/
lemma isExact_iff {g : PhiOccs Phi} {inserts : Bool} {marked : Phi → Bool} {R : Phi → Prop}
    (hmarked : ∀ y, marked y = true ↔ ¬R y) (hlacks : ∀ y, g.Lacks inserts y → R y) :
    g.IsExact inserts marked ↔
      (∀ x y, R x → g.Uses inserts x y → R y) ∧ ∀ y, R y → g.DependsOnLack inserts y := by
  have hiff : g.IsExact inserts marked ↔ ∀ y, R y ↔ g.DependsOnLack inserts y := by
    rw [IsExact, isGreatest_iff]
    refine forall_congr' fun y => ?_
    rw [Set.mem_ofPred_eq, hmarked, not_iff_not]
  rw [hiff]
  constructor
  · intro h
    refine ⟨?_, fun y => (h y).mp⟩
    intro x y hx huse
    obtain ⟨b, hb, hpath⟩ := (h x).mp hx
    exact (h y).mpr ⟨b, hb, hpath.tail huse⟩
  · rintro ⟨hclosed, hdepends⟩ y
    refine ⟨hdepends y, ?_⟩
    rintro ⟨b, hb, hpath⟩
    induction hpath with
    | refl => exact hlacks b hb
    | tail _ huse ih => exact hclosed _ _ ih huse

lemma Lacks.nullDef {g : PhiOccs Phi} {inserts : Bool} {y : Phi} (h : g.Lacks inserts y) :
    g.NullDef inserts y := by
  obtain ⟨phiOpnd, hmem, hnull, -, hinsert⟩ := h
  exact ⟨phiOpnd, hmem, hnull, hinsert⟩

section

variable [DecidableEq Phi]

lemma isUseInFullAvail_iff (g : PhiOccs Phi) (x y : Phi) :
    g.isUseInFullAvail x y = true ↔ g.Uses false x y := by
  simp [isUseInFullAvail, Uses, Plain]

lemma isUseInMCWillBeAvail_iff (g : PhiOccs Phi) (x y : Phi) :
    g.isUseInMCWillBeAvail x y = true ↔ g.Uses true y y := by
  simp [isUseInMCWillBeAvail, Uses, Plain]

lemma computeFullAvail_spec (g : PhiOccs Phi) :
    ∃ marked, g.computeFullAvail (fun _ => true) = some marked ∧
      ∀ y, marked y = true ↔
        ¬∃ b, g.NullDef false b ∧ Relation.ReflTransGen (g.Uses false) b y := by
  obtain ⟨marked, hmarked, hspec⟩ := DepthFirst.unmarkSeeds_spec g.isUseInFullAvail
    g.mem_phiOccs (fun y => (g.phiOpnds y).any fun phiOpnd => phiOpnd.defOcc == .null)
  refine ⟨marked, hmarked, ?_⟩
  intro y
  simp only [isUseInFullAvail_iff] at hspec
  rw [hspec]
  simp [NullDef]

lemma computeMCWillBeAvail_spec (g : PhiOccs Phi) {minCut : List (Visit Phi)} (hcut : minCut ≠ [])
    (isFullyAvail : Phi → Bool) :
    ∃ marked, g.computeMCWillBeAvail minCut isFullyAvail (fun _ => true) = some marked ∧
      ∀ y, marked y = true ↔ ¬(g.setMCInsert minCut).NullDefOrSelfUse y := by
  obtain ⟨marked, hmarked, hspec⟩ := DepthFirst.unmarkSeeds_spec
    (g.setMCInsert minCut).isUseInMCWillBeAvail (g.setMCInsert minCut).mem_phiOccs
    (fun y => ((g.setMCInsert minCut).phiOpnds y).any fun phiOpnd =>
      phiOpnd.defOcc == .null && !phiOpnd.isMCInsert)
  refine ⟨marked, ?_, ?_⟩
  · rw [computeMCWillBeAvail, if_neg (by simpa using hcut)]
    exact hmarked
  · intro y
    have hnull : ∀ b, ((g.setMCInsert minCut).phiOpnds b).any (fun phiOpnd =>
        phiOpnd.defOcc == .null && !phiOpnd.isMCInsert) = true ↔
          (g.setMCInsert minCut).NullDef true b := by
      intro b
      simp [NullDef]
    simp only [isUseInMCWillBeAvail_iff, hnull] at hspec
    rw [hspec, NullDefOrSelfUse, not_or, not_and, not_exists]
    constructor
    · intro h
      exact ⟨fun hy => h y hy .refl, fun hself b hb => h b hb (.single hself)⟩
    · rintro ⟨hy, hself⟩ b hb hpath
      rcases hpath.cases_tail with rfl | ⟨_, -, huse⟩
      · exact hy hb
      · exact hself huse b hb

/-- Both analyses end with the greatest sets exactly under these conditions. A phi with an operand
without definition, all of which have a real use, and a phi that uses itself depend on a phi that
lacks a value, and a phi that uses one of these is one of these. -/
structure AvailHolds (g : PhiOccs Phi) (minCut : List (Visit Phi)) : Prop where
  fullAvail : ∀ y, g.NullDef false y → g.DependsOnLack false y
  closed : ∀ x y, (g.setMCInsert minCut).NullDefOrSelfUse x →
    (g.setMCInsert minCut).Uses true x y → (g.setMCInsert minCut).NullDefOrSelfUse y
  depends : ∀ y, (g.setMCInsert minCut).NullDefOrSelfUse y →
    (g.setMCInsert minCut).DependsOnLack true y

/-- The marks of the two analyses are those of the greatest sets exactly if `AvailHolds`. -/
theorem computeAvail_exact_iff (g : PhiOccs Phi) {minCut : List (Visit Phi)}
    (hcut : minCut ≠ []) (isFullyAvail : Phi → Bool) :
    ((∃ marked, g.computeMCWillBeAvail minCut isFullyAvail (fun _ => true) = some marked ∧
        (g.setMCInsert minCut).IsExact true marked) ∧
      ∃ marked, g.computeFullAvail (fun _ => true) = some marked ∧ g.IsExact false marked) ↔
      g.AvailHolds minCut := by
  obtain ⟨marked, hmarked, hspec⟩ := g.computeMCWillBeAvail_spec hcut isFullyAvail
  obtain ⟨marked', hmarked', hspec'⟩ := g.computeFullAvail_spec
  have hmc := isExact_iff hspec fun y hy => Or.inl hy.nullDef
  have hfull := isExact_iff hspec' fun y hy => ⟨y, hy.nullDef, .refl⟩
  simp only [hmarked, hmarked', Option.some.injEq, exists_eq_left', hmc, hfull]
  constructor
  · rintro ⟨⟨hclosed, hdepends⟩, -, hall⟩
    exact ⟨fun y hy => hall y ⟨y, hy, .refl⟩, hclosed, hdepends⟩
  · rintro ⟨hall, hclosed, hdepends⟩
    refine ⟨⟨hclosed, hdepends⟩, ?_, ?_⟩
    · rintro x y ⟨b, hb, hpath⟩ huse
      exact ⟨b, hb, hpath.tail huse⟩
    · rintro y ⟨b, hb, hpath⟩
      obtain ⟨c, hc, hpath'⟩ := hall b hb
      exact ⟨c, hc, hpath'.trans hpath⟩

end

/-- Three phis with the given operands. -/
def threePhis (phiOpnds : Fin 3 → List (MePhiOpndOcc (Fin 3))) : PhiOccs (Fin 3) where
  phiOccs := [0, 1, 2]
  phiOpnds := phiOpnds
  mem_phiOccs := by decide

/-- The phi 0 has no definition, the phi 1 uses it, the phi 2 has an inserted operand. -/
def chainOfTwo : PhiOccs (Fin 3) :=
  threePhis ![[⟨.null, false, false⟩, ⟨.null, false, false⟩],
    [⟨.phi 0, false, false⟩, ⟨.real, true, false⟩], [⟨.null, false, false⟩, ⟨.real, true, false⟩]]

/-- The phi 0 has an inserted operand, the other ones use it. -/
def insertedPhi : PhiOccs (Fin 3) :=
  threePhis ![[⟨.null, false, false⟩, ⟨.real, true, false⟩],
    [⟨.phi 0, false, false⟩, ⟨.real, true, false⟩], [⟨.phi 1, false, false⟩, ⟨.real, true, false⟩]]

theorem computeAvail_exact_iff_insertedPhi :
    ((∃ marked, insertedPhi.computeMCWillBeAvail [⟨some 0, 0⟩] (fun _ => true) (fun _ => true) =
        some marked ∧ (insertedPhi.setMCInsert [⟨some 0, 0⟩]).IsExact true marked) ∧
      ∃ marked, insertedPhi.computeFullAvail (fun _ => true) = some marked ∧
        insertedPhi.IsExact false marked) ↔
      insertedPhi.AvailHolds [⟨some 0, 0⟩] :=
  computeAvail_exact_iff insertedPhi (by decide) fun _ => true

/-- The phi 1 keeps its mark although its operand is the phi 0, which is not available. -/
theorem computeMCWillBeAvail_chainOfTwo :
    ¬∃ marked, chainOfTwo.computeMCWillBeAvail [⟨some 2, 0⟩] (fun _ => true) (fun _ => true) =
        some marked ∧ (chainOfTwo.setMCInsert [⟨some 2, 0⟩]).IsExact true marked := by
  rintro ⟨marked, hmarked, hexact⟩
  have hmarks : marked 0 = false ∧ marked 1 = true := by
    have heq : (chainOfTwo.computeMCWillBeAvail [⟨some 2, 0⟩] (fun _ => true) (fun _ => true)).map
        (fun m => (m 0, m 1)) = some (false, true) := by decide
    rw [hmarked, Option.map_some, Option.some.injEq, Prod.mk.injEq] at heq
    exact heq
  have havail := hexact.1 1 hmarks.2 ⟨.phi 0, false, false⟩ (by decide)
  rcases havail with ⟨-, h⟩ | h | h | ⟨x, hx, h⟩
  · cases h
  · cases h
  · cases h
  · cases h
    exact absurd (hx.symm.trans hmarks.1) (by decide)

end PhiOccs
end McSSAPre
end Maple
