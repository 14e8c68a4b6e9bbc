import Maple.BE.Live.Exact

/-!
# Live registers in SSA form

`LiveAnalysis` on functions with phis. A phi uses its operands at the ends of the predecessors, but
the analysis takes all of them into the live-in set of its block, and after the live-in set of a
successor is added to a live-out set, the operands for other predecessors are removed from it
(`RemovePhiLiveInFromSuccNotFromThisBB`).
-/

namespace Maple
namespace Live

/-- A phi with the predecessors that its operands come from. -/
structure Phi where
  dest : Nat
  opnds : List (Nat × Nat)

/-- The phi as `GetBBDefUse` collects it: all operands are used. -/
def Phi.insn (p : Phi) : Insn := ⟨⟨p.dest, true, false⟩ :: p.opnds.map fun o => ⟨o.2, false, true⟩⟩

def Phi.Uses (p : Phi) (r : Nat) : Prop := ∃ o ∈ p.opnds, o.2 = r

/-- A function whose blocks begin with phis. -/
structure SSAFunc extends CGFunc where
  phis : Nat → List Phi

namespace SSAFunc

/-- `GetBBDefUse`: phis are collected if there is a machine instruction, which no phi is. -/
def getBBDefUse (f : SSAFunc) (b : Nat) : DefUse :=
  let s : DefUse :=
    if f.isReturn b then generateReturnBBDefUse f.returnReg ⟨∅, ∅⟩ else ⟨∅, ∅⟩
  if f.insns b = [] then s else ((f.phis b).map Phi.insn ++ f.insns b).foldr collectInsn ⟨∅, ∅⟩

/-- The registers that `RemovePhiLiveInFromSuccNotFromThisBB` removes: the operands of the phis of
the successor for other predecessors. -/
def notFromThisBB (f : SSAFunc) (b succ : Nat) : Finset Nat :=
  (((f.phis succ).flatMap Phi.opnds).filter fun o => o.1 ≠ b).map Prod.snd |>.toFinset

/-- The live-out set that `GenerateLiveOut` leaves. -/
def generateLiveOut (f : SSAFunc) (st : LiveState) (b : Nat) : Finset Nat :=
  (f.succs b).foldl
    (fun out succ =>
      if (st succ).liveInChange ∧ (st succ).liveIn ≠ ∅ then
        (out ∪ (st succ).liveIn) \ f.notFromThisBB b succ
      else out)
    (st b).liveOut

/-- The live-in set that `GenerateLiveIn` leaves, from the information with the new live-out set. -/
def generateLiveIn (f : SSAFunc) (b : Nat) (info : BBInfo) : Finset Nat :=
  let liveIn := if info.insertUse then info.liveIn else (f.getBBDefUse b).uses
  if info.liveOut = ∅ then liveIn else liveIn ∪ (info.liveOut \ (f.getBBDefUse b).defs)

/-- The body of the loop over the blocks, with whether the live-in set changed. -/
def visitBB (f : SSAFunc) (st : LiveState) (b : Nat) : LiveState × Bool :=
  if f.unreachable b then (st, false)
  else
    let liveOut := f.generateLiveOut st b
    let info : BBInfo := { st b with liveOut }
    if liveOut = (st b).liveOut ∧ info.insertUse then (Function.update st b info, false)
    else
      let liveIn := f.generateLiveIn b info
      let change := decide (liveIn ≠ (st b).liveIn)
      (Function.update st b { info with liveIn, liveInChange := change, insertUse := true }, change)

/-- `BuildInOutforFunc` with less than `fuel` sweeps. -/
def buildInOutforFunc (f : SSAFunc) (fuel : Nat) (st : LiveState) : Outcome LiveState :=
  RoundRobin.sweeps f.visitBB f.bbs.reverse fuel st

/-- `AnalysisLive` without a cleanup block. -/
def analysisLive (f : SSAFunc) (fuel : Nat) : Outcome LiveState :=
  f.buildInOutforFunc fuel fun _ => {}

/-! ### What is live -/

/-- Some phi of `s` has the operand `r` for the predecessor `b`. -/
def PhiUses (f : SSAFunc) (b s r : Nat) : Prop := ∃ p ∈ f.phis s, (b, r) ∈ p.opnds

/-- Some path that starts before the machine instructions `is` of the block `b` reaches a use of `r`
without passing a definition of it first. A phi uses its operands at the ends of the
predecessors. -/
inductive LiveAt (f : SSAFunc) (r : Nat) : List Insn → Nat → Prop
  | use {i is b} (h : i.Uses r) : LiveAt f r (i :: is) b
  | pass {i is b} (h : ¬ i.Defines r) (hlive : LiveAt f r is b) : LiveAt f r (i :: is) b
  | phi {b s} (h : s ∈ f.succs b) (huse : f.PhiUses b s r) : LiveAt f r [] b
  | succ {b s} (h : s ∈ f.succs b) (hdef : ∀ p ∈ f.phis s, p.dest ≠ r)
      (hlive : LiveAt f r (f.code s) s) : LiveAt f r [] b

/-- Every register that is live at the end of a block is in its live-out set. -/
def Complete (f : SSAFunc) (st : LiveState) : Prop :=
  ∀ b, f.Reachable b → ∀ r, f.LiveAt r [] b → r ∈ (st b).liveOut

/-- SSA form. -/
structure IsSSA (f : SSAFunc) : Prop where
  /-- Every register has one definition. -/
  single : (f.bbs.flatMap fun b => (f.phis b).map Phi.dest ++
    (f.insns b).flatMap fun i => (i.opnds.filter Opnd.isDef).map Opnd.reg).Nodup
  /-- A phi has an operand for each of the predecessors. -/
  operands : ∀ s ∈ f.bbs, ∀ p ∈ f.phis s,
    (p.opnds.map Prod.fst).Nodup ∧ ∀ b ∈ f.bbs, b ∈ p.opnds.map Prod.fst ↔ s ∈ f.succs b
  /-- No register is used before its definition. -/
  strict : ∀ b bs, f.bbs = b :: bs → ∀ r, ¬ f.LiveAt r (f.code b) b

/-! ### Functions without phis -/

section NoPhis

variable {f : SSAFunc} (hphis : ∀ b, f.phis b = [])

include hphis

lemma visitBB_of_no_phis (st : LiveState) (b : Nat) :
    f.visitBB st b = Live.visitBB f.toCGFunc st b := by
  have hcollect : f.getBBDefUse b = Live.getBBDefUse f.toCGFunc b := by
    simp only [getBBDefUse, Live.getBBDefUse, hphis, List.map_nil, List.nil_append]
  have hout : f.generateLiveOut st b = Live.generateLiveOut f.toCGFunc st b := by
    simp only [generateLiveOut, Live.generateLiveOut, notFromThisBB, hphis, List.flatMap_nil,
      List.filter_nil, List.map_nil, List.toFinset_nil, Finset.sdiff_empty]
  simp only [visitBB, Live.visitBB, generateLiveIn, Live.generateLiveIn, hcollect, hout]

/-- Without phis the analysis is the one on functions that are not in SSA form. -/
theorem analysisLive_of_no_phis (fuel : Nat) :
    f.analysisLive fuel = Live.analysisLive f.toCGFunc fuel := by
  have hvisit : f.visitBB = Live.visitBB f.toCGFunc :=
    funext fun st => funext fun b => visitBB_of_no_phis hphis st b
  simp only [analysisLive, Live.analysisLive, buildInOutforFunc, Live.buildInOutforFunc_eq, hvisit]

end NoPhis

end SSAFunc

end Live
end Maple

/-! ### Live registers kept by the phis

What is removed from a live-out set comes back only from a successor whose live-in set has changed.
The other registers of the live-in sets reach the live-out sets as they do without phis.
-/

namespace Maple
namespace Live
namespace SSAFunc

variable {f : SSAFunc} {st : LiveState} {b r : Nat}

/-! ### One visit -/

lemma mem_notFromThisBB {s : Nat} :
    r ∈ f.notFromThisBB b s ↔ ∃ p ∈ f.phis s, ∃ o ∈ p.opnds, o.1 ≠ b ∧ o.2 = r := by
  simp only [notFromThisBB, List.mem_toFinset, List.mem_map, List.mem_filter, List.mem_flatMap,
    decide_not, Bool.not_eq_true', decide_eq_false_iff_not]
  constructor
  · rintro ⟨o, ⟨⟨p, hp, ho⟩, hne⟩, rfl⟩
    exact ⟨p, hp, o, ho, hne, rfl⟩
  · rintro ⟨p, hp, o, ho, hne, rfl⟩
    exact ⟨o, ⟨⟨p, hp, ho⟩, hne⟩, rfl⟩

/-- The registers that are removed from the live-out set of a block after one of its successors. -/
def Removed (f : SSAFunc) (b r : Nat) : Prop := ∃ s ∈ f.succs b, r ∈ f.notFromThisBB b s

/-- One round of `GenerateLiveOut`. -/
def addSucc (f : SSAFunc) (st : LiveState) (b : Nat) (out : Finset Nat) (succ : Nat) : Finset Nat :=
  if (st succ).liveInChange ∧ (st succ).liveIn ≠ ∅ then
    (out ∪ (st succ).liveIn) \ f.notFromThisBB b succ
  else out

lemma generateLiveOut_eq :
    f.generateLiveOut st b = (f.succs b).foldl (f.addSucc st b) (st b).liveOut :=
  rfl

lemma mem_addSucc {out : Finset Nat} {s : Nat} (h : r ∈ f.addSucc st b out s) :
    r ∈ out ∨ r ∈ (st s).liveIn := by
  unfold addSucc at h
  split_ifs at h
  · exact Finset.mem_union.mp (Finset.mem_sdiff.mp h).1
  · exact .inl h

lemma mem_addSucc_of_kept {out : Finset Nat} {s : Nat} (hr : r ∉ f.notFromThisBB b s)
    (h : r ∈ out ∨ (st s).liveInChange ∧ r ∈ (st s).liveIn) : r ∈ f.addSucc st b out s := by
  unfold addSucc
  split_ifs with hs
  · exact Finset.mem_sdiff.mpr ⟨Finset.mem_union.mpr (h.imp_right And.right), hr⟩
  · refine h.resolve_right ?_
    rintro ⟨hchange, hin⟩
    exact hs ⟨hchange, Finset.ne_empty_of_mem hin⟩

lemma mem_generateLiveOut (h : r ∈ f.generateLiveOut st b) :
    r ∈ (st b).liveOut ∨ ∃ s ∈ f.succs b, r ∈ (st s).liveIn := by
  rw [generateLiveOut_eq] at h
  generalize (st b).liveOut = out at h ⊢
  generalize f.succs b = succs at h ⊢
  induction succs generalizing out with
  | nil => exact .inl h
  | cons s succs ih =>
    obtain h | ⟨s', hs', h⟩ := ih _ h
    · obtain h | h := mem_addSucc h
      · exact .inl h
      · exact .inr ⟨s, List.mem_cons_self, h⟩
    · exact .inr ⟨s', List.mem_cons_of_mem _ hs', h⟩

lemma mem_generateLiveOut_of_kept (hr : ¬ f.Removed b r)
    (h : r ∈ (st b).liveOut ∨ ∃ s ∈ f.succs b, (st s).liveInChange ∧ r ∈ (st s).liveIn) :
    r ∈ f.generateLiveOut st b := by
  have hkept : ∀ s ∈ f.succs b, r ∉ f.notFromThisBB b s := fun s hs hmem => hr ⟨s, hs, hmem⟩
  rw [generateLiveOut_eq]
  generalize (st b).liveOut = out at h ⊢
  generalize f.succs b = succs at h hkept ⊢
  induction succs generalizing out with
  | nil => simpa using h
  | cons s succs ih =>
    refine ih _ ?_ fun s' hs' => hkept s' (List.mem_cons_of_mem _ hs')
    have hs := hkept s List.mem_cons_self
    obtain h | ⟨s', hs', h⟩ := h
    · exact .inl (mem_addSucc_of_kept hs (.inl h))
    · obtain rfl | hs' := List.mem_cons.mp hs'
      · exact .inl (mem_addSucc_of_kept hs (.inr h))
      · exact .inr ⟨s', hs', h⟩

lemma notMem_generateLiveOut {s : Nat} (hsucc : ∀ s' ∈ f.succs b, s' = s)
    (hr : r ∈ f.notFromThisBB b s) (h : r ∉ (st b).liveOut) : r ∉ f.generateLiveOut st b := by
  rw [generateLiveOut_eq]
  generalize (st b).liveOut = out at h ⊢
  generalize f.succs b = succs at hsucc ⊢
  induction succs generalizing out with
  | nil => exact h
  | cons s' succs ih =>
    refine ih _ ?_ fun s'' hs'' => hsucc s'' (List.mem_cons_of_mem _ hs'')
    obtain rfl := hsucc s' List.mem_cons_self
    unfold addSucc
    split_ifs
    · exact fun hmem => (Finset.mem_sdiff.mp hmem).2 hr
    · exact h

lemma mem_generateLiveIn {info : BBInfo} :
    r ∈ f.generateLiveIn b info ↔
      r ∈ (if info.insertUse then info.liveIn else (f.getBBDefUse b).uses) ∨
        (r ∈ info.liveOut ∧ r ∉ (f.getBBDefUse b).defs) := by
  unfold generateLiveIn
  split_ifs with hinsert hout hout <;> simp [hout]

lemma visitBB_cases (hb : f.unreachable b = false) :
    (f.visitBB st b = (st, false) ∧ f.generateLiveOut st b = (st b).liveOut ∧
        (st b).insertUse = true) ∨
      ∃ liveIn change, f.visitBB st b =
          (Function.update st b ⟨liveIn, f.generateLiveOut st b, change, true⟩, change) ∧
        liveIn = f.generateLiveIn b { st b with liveOut := f.generateLiveOut st b } ∧
        (change = true ↔ liveIn ≠ (st b).liveIn) := by
  unfold visitBB
  rw [hb, if_neg (by decide)]
  by_cases hskip : f.generateLiveOut st b = (st b).liveOut ∧ (st b).insertUse = true
  · left
    refine ⟨?_, hskip.1, hskip.2⟩
    have hinfo : ({ st b with liveOut := f.generateLiveOut st b } : BBInfo) = st b := by
      rw [hskip.1]
    simp only [hinfo]
    rw [if_pos hskip, Function.update_eq_self]
  · right
    refine ⟨_, decide (f.generateLiveIn b { st b with liveOut := f.generateLiveOut st b } ≠
      (st b).liveIn), ?_, rfl, decide_eq_true_iff⟩
    simp only [if_neg hskip]

/-! ### The invariant -/

/-- Every register that some block uses. -/
def allUses (f : SSAFunc) : Finset Nat := f.bbs.toFinset.biUnion fun b => (f.getBBDefUse b).uses

/-- The block has what it keeps of the live-in set of `s`. -/
def Seen (f : SSAFunc) (st : LiveState) (b s : Nat) : Prop :=
  ∀ r ∈ (st s).liveIn, ¬ f.Removed b r → r ∈ (st b).liveOut

def Edge (f : SSAFunc) (b s : Nat) : Prop := f.unreachable b = false ∧ s ∈ f.succs b

/-- What holds before the visit of the first block of the queue. -/
structure Inv (f : SSAFunc) (queue : List Nat) (st : LiveState) : Prop where
  transfer : ∀ b, (st b).insertUse = true → ∀ r,
    r ∈ (f.getBBDefUse b).uses ∨ (r ∈ (st b).liveOut ∧ r ∉ (f.getBBDefUse b).defs) →
      r ∈ (st b).liveIn
  unvisited : ∀ b, (st b).insertUse = false → (st b).liveIn = ∅
  waits : RoundRobin.Waits f.Edge (f.Seen st) (fun s => (st s).liveInChange = true) queue
  from_block : ∀ b, ∀ r ∈ (st b).liveIn,
    r ∈ (f.getBBDefUse b).uses ∨ r ∉ (f.getBBDefUse b).defs
  from_succs : ∀ b, ∀ r ∈ (st b).liveOut, ∃ s ∈ f.succs b, r ∈ (st s).liveIn
  removed : ∀ b s, (∀ s' ∈ f.succs b, s' = s) → ∀ r ∈ (st b).liveOut, r ∉ f.notFromThisBB b s
  bounded : ∀ b, (st b).liveIn ⊆ f.allUses

variable {queue : List Nat}

lemma inv_init (f : SSAFunc) (queue : List Nat) : Inv f queue fun _ => {} where
  transfer _ h := by cases h
  unvisited _ _ := rfl
  waits _ _ _ _ := .inl fun r h => absurd h (Finset.notMem_empty r)
  from_block _ r h := absurd h (Finset.notMem_empty r)
  from_succs _ r h := absurd h (Finset.notMem_empty r)
  removed _ _ _ r h := absurd h (Finset.notMem_empty r)
  bounded _ := Finset.empty_subset _

lemma mem_generateLiveIn_of_inv (h : Inv f queue st) :
    r ∈ f.generateLiveIn b { st b with liveOut := f.generateLiveOut st b } ↔
      (r ∈ (st b).liveIn ∨ r ∈ (f.getBBDefUse b).uses) ∨
        (r ∈ f.generateLiveOut st b ∧ r ∉ (f.getBBDefUse b).defs) := by
  rw [mem_generateLiveIn]
  refine or_congr_left ?_
  cases hinsert : (st b).insertUse with
  | false =>
    rw [h.unvisited b hinsert, if_neg (by decide)]
    exact ⟨.inr, fun hr => hr.resolve_left (Finset.notMem_empty r)⟩
  | true =>
    rw [if_pos rfl]
    exact ⟨.inl, fun hr => hr.elim id fun huse => h.transfer b hinsert r (.inl huse)⟩

lemma seen_generateLiveOut (h : Inv f (b :: queue) st) (hb : f.unreachable b = false) {s : Nat}
    (hs : s ∈ f.succs b) (hr : r ∈ (st s).liveIn) (hkept : ¬ f.Removed b r) :
    r ∈ f.generateLiveOut st b := by
  apply mem_generateLiveOut_of_kept hkept
  obtain hseen | hchange := h.waits.head (s := s) ⟨hb, hs⟩
  · exact .inl (hseen r hr hkept)
  · exact .inr ⟨s, hs, hchange, hr⟩

lemma inv_visitBB (hb : b ∉ queue) (hmem : b ∈ f.bbs) (h : Inv f (b :: queue) st) :
    Inv f (queue ++ [b]) (f.visitBB st b).1 := by
  cases hr : f.unreachable b with
  | true =>
    have hvisit : f.visitBB st b = (st, false) := by rw [visitBB, if_pos hr]
    have hnoEdge : ∀ s, ¬ f.Edge b s := fun s hedge => by simp [hedge.1] at hr
    rw [hvisit]
    refine { h with
      waits := h.waits.visit hb (fun _ _ _ _ => id) (fun _ _ => id) ?_ (.inr ⟨?_, ?_⟩) }
    · exact fun s _ hedge => absurd hedge (hnoEdge s)
    · exact fun hedge => absurd hedge (hnoEdge b)
    · exact fun _ _ => id
  | false =>
    rcases visitBB_cases hr with ⟨hvisit, hout, -⟩ | ⟨liveIn, change, hvisit, hin, hchange⟩
    · rw [hvisit]
      have hseen : ∀ s, f.Edge b s → f.Seen st b s := by
        intro s hedge r hrs hkept
        rw [← hout]
        exact seen_generateLiveOut h hr hedge.2 hrs hkept
      refine { h with
        waits := h.waits.visit hb (fun _ _ _ _ => id) (fun _ _ => id) ?_ (.inr ⟨?_, ?_⟩) }
      · exact fun s _ hedge => hseen s hedge
      · exact hseen b
      · exact fun _ _ => id
    · rw [hvisit]
      set st' := Function.update st b ⟨liveIn, f.generateLiveOut st b, change, true⟩
      change f.Inv (queue ++ [b]) st'
      have hself : st' b = ⟨liveIn, f.generateLiveOut st b, change, true⟩ := Function.update_self ..
      have hother : ∀ x, x ≠ b → st' x = st x := fun x hx => Function.update_of_ne hx ..
      have hmemIn : ∀ r, r ∈ liveIn ↔ (r ∈ (st b).liveIn ∨ r ∈ (f.getBBDefUse b).uses) ∨
          (r ∈ f.generateLiveOut st b ∧ r ∉ (f.getBBDefUse b).defs) := by
        intro r
        rw [hin]
        exact mem_generateLiveIn_of_inv h
      have hgrow : ∀ x, (st x).liveIn ⊆ (st' x).liveIn := by
        intro x r hxr
        by_cases hxb : x = b
        · rw [hxb, hself]
          exact (hmemIn r).mpr (.inl (.inl (hxb ▸ hxr)))
        · rwa [hother x hxb]
      have hfromOut : ∀ r ∈ f.generateLiveOut st b, ∃ s ∈ f.succs b, r ∈ (st s).liveIn :=
        fun r hr => (mem_generateLiveOut hr).elim (h.from_succs b r) id
      refine ⟨?_, ?_, ?_, ?_, ?_, ?_, ?_⟩
      · intro x hx r hxr
        by_cases hxb : x = b
        · rw [hxb, hself] at hxr ⊢
          exact (hmemIn r).mpr (hxr.imp_left .inr)
        · rw [hother x hxb] at hx hxr ⊢
          exact h.transfer x hx r hxr
      · intro x hx
        by_cases hxb : x = b
        · rw [hxb, hself] at hx
          cases hx
        · rw [hother x hxb] at hx ⊢
          exact h.unvisited x hx
      · have hsees : ∀ s, s ≠ b → f.Edge b s → f.Seen st' b s := by
          intro s hsb hedge r hrs hkept
          rw [hself]
          rw [hother s hsb] at hrs
          exact seen_generateLiveOut h hr hedge.2 hrs hkept
        apply h.waits.visit hb
        · intro p s hpb hsb hseen
          rw [Seen, hother p hpb, hother s hsb]
          exact hseen
        · intro s hsb hs
          rwa [hother s hsb]
        · exact hsees
        · cases change with
          | true => exact .inl (by rw [hself])
          | false =>
            have hsame : liveIn = (st b).liveIn := by
              by_contra hne
              exact absurd (hchange.mpr hne) (by decide)
            refine .inr ⟨fun hedge r hrs hkept => ?_, fun p hpb hseen => ?_⟩
            · rw [hself] at hrs ⊢
              exact seen_generateLiveOut h hr hedge.2 (hsame ▸ hrs) hkept
            · rw [Seen, hother p hpb, hself, hsame]
              exact hseen
      · intro x r hxr
        by_cases hxb : x = b
        · rw [hxb, hself] at hxr
          rw [hxb]
          rcases (hmemIn r).mp hxr with (hold | huse) | ⟨-, hdef⟩
          · exact h.from_block b r hold
          · exact .inl huse
          · exact .inr hdef
        · rw [hother x hxb] at hxr
          exact h.from_block x r hxr
      · intro x r hxr
        have hfrom : ∃ s ∈ f.succs x, r ∈ (st s).liveIn := by
          by_cases hxb : x = b
          · rw [hxb, hself] at hxr
            exact hxb ▸ hfromOut r hxr
          · rw [hother x hxb] at hxr
            exact h.from_succs x r hxr
        exact hfrom.imp fun s hs => ⟨hs.1, hgrow s hs.2⟩
      · intro x s hsucc r hxr
        by_cases hxb : x = b
        · rw [hxb, hself] at hxr
          rw [hxb] at hsucc ⊢
          intro hremoved
          exact notMem_generateLiveOut hsucc hremoved
            (fun hmem => h.removed b s hsucc r hmem hremoved) hxr
        · rw [hother x hxb] at hxr
          exact h.removed x s hsucc r hxr
      · intro x r hxr
        by_cases hxb : x = b
        · rw [hxb, hself] at hxr
          rcases (hmemIn r).mp hxr with (hold | huse) | ⟨hout, -⟩
          · exact h.bounded b hold
          · exact Finset.mem_biUnion.mpr ⟨b, List.mem_toFinset.mpr hmem, huse⟩
          · obtain ⟨s, -, hs⟩ := hfromOut r hout
            exact h.bounded s hs
        · rw [hother x hxb] at hxr
          exact h.bounded x hxr

/-! ### Sweeps -/

/-- How many registers can still be added to the live-in sets. -/
def missing (f : SSAFunc) (st : LiveState) : Nat :=
  ∑ b ∈ f.bbs.toFinset, (f.allUses \ (st b).liveIn).card

/-- What a visit without a change leaves. -/
structure Quiet (f : SSAFunc) (st st' : LiveState) : Prop where
  liveIn : ∀ x, (st' x).liveIn = (st x).liveIn
  liveOut : ∀ x r, ¬ f.Removed x r → r ∈ (st x).liveOut → r ∈ (st' x).liveOut
  insertUse : ∀ x, (st x).insertUse = true → (st' x).insertUse = true

/-- The block has what it keeps of the live-in sets of its successors. -/
def Settled (f : SSAFunc) (st : LiveState) (b : Nat) : Prop :=
  f.unreachable b = false → (∀ s ∈ f.succs b, f.Seen st b s) ∧ (st b).insertUse = true

lemma Quiet.settled {st' : LiveState} (h : Quiet f st st') (hb : f.Settled st b) :
    f.Settled st' b := by
  intro hr
  obtain ⟨hseen, hinsert⟩ := hb hr
  refine ⟨fun s hs r hrs hkept => ?_, h.insertUse b hinsert⟩
  rw [h.liveIn s] at hrs
  exact h.liveOut b r hkept (hseen s hs r hrs hkept)

lemma visitBB_quiet (h : Inv f (b :: queue) st) (hchange : (f.visitBB st b).2 = false) :
    Quiet f st (f.visitBB st b).1 ∧ f.Settled (f.visitBB st b).1 b := by
  cases hr : f.unreachable b with
  | true =>
    have hvisit : f.visitBB st b = (st, false) := by rw [visitBB, if_pos hr]
    rw [hvisit]
    refine ⟨⟨fun _ => rfl, fun _ _ _ => id, fun _ => id⟩, fun hr' => ?_⟩
    rw [hr] at hr'
    cases hr'
  | false =>
    have hseen : ∀ s ∈ f.succs b, ∀ r ∈ (st s).liveIn, ¬ f.Removed b r →
        r ∈ f.generateLiveOut st b :=
      fun s hs r hrs hkept => seen_generateLiveOut h hr hs hrs hkept
    rcases visitBB_cases hr with
      ⟨hvisit, hout, hinsert⟩ | ⟨liveIn, change, hvisit, hin, hiff⟩
    · rw [hvisit]
      rw [hout] at hseen
      exact ⟨⟨fun _ => rfl, fun _ _ _ => id, fun _ => id⟩, fun _ => ⟨hseen, hinsert⟩⟩
    · rw [hvisit] at hchange ⊢
      have hfalse : change = false := hchange
      have hsame : liveIn = (st b).liveIn := by
        by_contra hne
        rw [hiff.mpr hne] at hfalse
        cases hfalse
      have hquiet : Quiet f st (Function.update st b
          ⟨liveIn, f.generateLiveOut st b, change, true⟩) := by
        refine ⟨?_, ?_, ?_⟩ <;> intro x <;> by_cases hxb : x = b
        · rw [hxb, Function.update_self, hsame]
        · rw [Function.update_of_ne hxb]
        · rw [hxb, Function.update_self]
          exact fun r hkept hr => mem_generateLiveOut_of_kept hkept (.inl hr)
        · rw [Function.update_of_ne hxb]
          exact fun _ _ => id
        · rw [hxb, Function.update_self]
          exact fun _ => rfl
        · rw [Function.update_of_ne hxb]
          exact id
      refine ⟨hquiet, fun _ => ⟨fun s hs r hrs hkept => ?_, by simp⟩⟩
      rw [hquiet.liveIn s] at hrs
      simpa using hseen s hs r hrs hkept

lemma missing_visitBB_lt (hb : b ∉ queue) (hmem : b ∈ f.bbs) (h : Inv f (b :: queue) st)
    (hchange : (f.visitBB st b).2 = true) : f.missing (f.visitBB st b).1 < f.missing st := by
  have hinv := inv_visitBB hb hmem h
  cases hr : f.unreachable b with
  | true =>
    rw [visitBB, if_pos hr] at hchange
    cases hchange
  | false =>
    rcases visitBB_cases hr with ⟨hvisit, -⟩ | ⟨liveIn, change, hvisit, hin, hiff⟩
    · rw [hvisit] at hchange
      cases hchange
    · rw [hvisit] at hchange hinv ⊢
      have hsub : (st b).liveIn ⊆ liveIn :=
        fun r hr => hin ▸ (mem_generateLiveIn_of_inv h).mpr (.inl (.inl hr))
      have hbound : liveIn ⊆ f.allUses := by simpa using hinv.bounded b
      have hlt : (f.allUses \ liveIn).card < (f.allUses \ (st b).liveIn).card := by
        obtain ⟨r, hr, hnot⟩ := Finset.exists_of_ssubset
          (Finset.ssubset_iff_subset_ne.mpr ⟨hsub, Ne.symm (hiff.mp hchange)⟩)
        apply Finset.card_lt_card
        rw [Finset.ssubset_iff_of_subset (Finset.sdiff_subset_sdiff (Finset.Subset.refl _) hsub)]
        exact ⟨r, Finset.mem_sdiff.mpr ⟨hbound hr, hnot⟩, fun hr' => (Finset.mem_sdiff.mp hr').2 hr⟩
      apply Finset.sum_lt_sum
      · intro x _
        by_cases hxb : x = b
        · simpa [hxb] using hlt.le
        · simp [Function.update_of_ne hxb]
      · exact ⟨b, List.mem_toFinset.mpr hmem, by simpa using hlt⟩

lemma rules (f : SSAFunc) :
    RoundRobin.Rules f.visitBB f.bbs.reverse (Inv f) f.missing (Quiet f) f.Settled where
  inv hmem hb h := inv_visitBB hb (List.mem_reverse.mp hmem) h
  change hmem hb h hchange := missing_visitBB_lt hb (List.mem_reverse.mp hmem) h hchange
  quiet _ h hchange := visitBB_quiet h hchange
  refl _ := ⟨fun _ => rfl, fun _ _ _ => id, fun _ => id⟩
  trans h h' := ⟨fun x => (h'.liveIn x).trans (h.liveIn x),
    fun x r hkept hr => h'.liveOut x r hkept (h.liveOut x r hkept hr),
    fun x hx => h'.insertUse x (h.insertUse x hx)⟩
  size_le h := (Finset.sum_congr rfl fun x _ => by rw [h.liveIn x]).le
  settled h hb := h.settled hb

lemma analysisLive_settles (hnodup : f.bbs.Nodup) :
    ∃ st, Outcome.Settles f.analysisLive (.done st) ∧ Inv f f.bbs.reverse st ∧
      ∀ b ∈ f.bbs, f.Settled st b := by
  obtain ⟨st, hsettles, hinv, hall⟩ := f.rules.settles (List.nodup_reverse.mpr hnodup)
    (f.inv_init f.bbs.reverse)
  exact ⟨st, hsettles, hinv, fun b hb => hall b (List.mem_reverse.mpr hb)⟩

end SSAFunc
end Live
end Maple
