import Maple.BE.Live.Basic
import Maple.Lib.RoundRobin
import Mathlib.Algebra.BigOperators.Group.Finset.Basic
import Mathlib.Algebra.Order.BigOperators.Group.Finset
import Mathlib.Data.Finset.Card

/-!
# Liveness is exact

A live-in set that changed is waited for by the predecessors that are visited before the block is
visited again. The queue of the visits that are to come is a rotation of the order of a sweep.
-/

namespace Maple
namespace Live

variable {f : CGFunc} {st : LiveState} {b r : Nat}

/-! ### Definitions and uses -/

lemma mem_uses_collectLiveInfo {s : DefUse} {o : Opnd} :
    r ∈ (collectLiveInfo s o).uses ↔
      (o.reg = r ∧ o.isUse) ∨ (r ∈ s.uses ∧ ¬ (o.reg = r ∧ o.isDef)) := by
  obtain ⟨reg, isDef, isUse⟩ := o
  cases isDef <;> cases isUse <;> simp [collectLiveInfo, eq_comm] <;> tauto

lemma mem_defs_collectLiveInfo {s : DefUse} {o : Opnd} :
    r ∈ (collectLiveInfo s o).defs ↔
      ¬ (o.reg = r ∧ o.isUse) ∧ (r ∈ s.defs ∨ (o.reg = r ∧ o.isDef)) := by
  obtain ⟨reg, isDef, isUse⟩ := o
  cases isDef <;> cases isUse <;> simp [collectLiveInfo, eq_comm] <;> tauto

lemma exists_use_of_def {o : Opnd} {os : List Opnd}
    (h : ∀ o' ∈ os, o.isUse → o'.isDef → o'.isUse) (ho : o.isUse)
    (hdef : ∃ o ∈ os, o.reg = r ∧ o.isDef) : ∃ o ∈ os, o.reg = r ∧ o.isUse := by
  obtain ⟨o', ho', hreg, hdef⟩ := hdef
  exact ⟨o', ho', hreg, h o' ho' ho hdef⟩

lemma mem_uses_foldl {os : List Opnd} {s : DefUse}
    (h : os.Pairwise fun o o' => o.isUse → o'.isDef → o'.isUse) :
    r ∈ (os.foldl collectLiveInfo s).uses ↔
      (∃ o ∈ os, o.reg = r ∧ o.isUse) ∨ (r ∈ s.uses ∧ ¬ ∃ o ∈ os, o.reg = r ∧ o.isDef) := by
  induction os generalizing s with
  | nil => simp
  | cons o os ih =>
    obtain ⟨hhead, htail⟩ := List.pairwise_cons.mp h
    rw [List.foldl_cons, ih htail, mem_uses_collectLiveInfo]
    simp only [List.mem_cons, exists_eq_or_imp]
    have huse := @exists_use_of_def r o os hhead
    generalize (∃ o ∈ os, o.reg = r ∧ o.isUse) = used at huse ⊢
    generalize (∃ o ∈ os, o.reg = r ∧ o.isDef) = defined at huse ⊢
    tauto

lemma mem_defs_foldl {os : List Opnd} {s : DefUse}
    (h : os.Pairwise fun o o' => o.isUse → o'.isDef → o'.isUse) :
    r ∈ (os.foldl collectLiveInfo s).defs ↔
      (¬ ∃ o ∈ os, o.reg = r ∧ o.isUse) ∧ (r ∈ s.defs ∨ ∃ o ∈ os, o.reg = r ∧ o.isDef) := by
  induction os generalizing s with
  | nil => simp
  | cons o os ih =>
    obtain ⟨hhead, htail⟩ := List.pairwise_cons.mp h
    rw [List.foldl_cons, ih htail, mem_defs_collectLiveInfo]
    simp only [List.mem_cons, exists_eq_or_imp]
    have huse := @exists_use_of_def r o os hhead
    generalize (∃ o ∈ os, o.reg = r ∧ o.isUse) = used at huse ⊢
    generalize (∃ o ∈ os, o.reg = r ∧ o.isDef) = defined at huse ⊢
    tauto

lemma mem_uses_collectInsn {i : Insn} {s : DefUse} (h : i.DefsFirst) :
    r ∈ (collectInsn i s).uses ↔ i.Uses r ∨ (r ∈ s.uses ∧ ¬ i.Defines r) :=
  mem_uses_foldl h

lemma mem_defs_collectInsn {i : Insn} {s : DefUse} (h : i.DefsFirst) :
    r ∈ (collectInsn i s).defs ↔ ¬ i.Uses r ∧ (r ∈ s.defs ∨ i.Defines r) :=
  mem_defs_foldl h

lemma getBBDefUse_eq (f : CGFunc) (b : Nat) :
    getBBDefUse f b = (f.code b).foldr collectInsn ⟨∅, ∅⟩ := by
  unfold getBBDefUse CGFunc.code generateReturnBBDefUse
  by_cases hinsns : f.insns b = []
  · cases f.isReturn b <;> cases f.returnReg <;> simp [hinsns, collectInsn]
  · simp [hinsns]

lemma CGFunc.WellFormed.code_defsFirst (hf : f.WellFormed) (b : Nat) :
    ∀ i ∈ f.code b, i.DefsFirst := by
  intro i hi
  unfold CGFunc.code at hi
  split_ifs at hi
  · cases hret : f.returnReg with
    | none => simp [hret] at hi
    | some r =>
      simp only [hret, List.mem_singleton] at hi
      rw [hi]
      exact List.pairwise_singleton _ _
  · exact hf.defsFirst b i hi

section Paths

variable {code : Nat → List Insn} {succs : Nat → List Nat}

lemma liveAt_of_mem_uses {is : List Insn} (h : ∀ i ∈ is, i.DefsFirst)
    (hr : r ∈ (is.foldr collectInsn ⟨∅, ∅⟩).uses) : LiveAt code succs r is b := by
  induction is with
  | nil => simp at hr
  | cons i is ih =>
    rw [List.foldr_cons, mem_uses_collectInsn (h i (by simp))] at hr
    rcases hr with huse | ⟨hr, hdef⟩
    · exact .use huse
    · exact .pass hdef (ih (fun j hj => h j (by simp [hj])) hr)

lemma liveAt_of_notMem_defs {is : List Insn} (h : ∀ i ∈ is, i.DefsFirst)
    (hr : r ∉ (is.foldr collectInsn ⟨∅, ∅⟩).defs) (hlive : LiveAt code succs r [] b) :
    LiveAt code succs r is b := by
  induction is with
  | nil => exact hlive
  | cons i is ih =>
    rw [List.foldr_cons, mem_defs_collectInsn (h i (by simp))] at hr
    by_cases huse : i.Uses r
    · exact .use huse
    · have hnot : r ∉ (is.foldr collectInsn ⟨∅, ∅⟩).defs ∧ ¬ i.Defines r := by tauto
      exact .pass hnot.2 (ih (fun j hj => h j (by simp [hj])) hnot.1)

end Paths

/-! ### One visit -/

lemma mem_generateLiveOut :
    r ∈ generateLiveOut f st b ↔
      r ∈ (st b).liveOut ∨ ∃ s ∈ f.succs b, (st s).liveInChange ∧ r ∈ (st s).liveIn := by
  have hfold : ∀ (succs : List Nat) (out : Finset Nat),
      r ∈ succs.foldl (fun out succ =>
        if (st succ).liveInChange ∧ (st succ).liveIn ≠ ∅ then out ∪ (st succ).liveIn else out) out ↔
      r ∈ out ∨ ∃ s ∈ succs, (st s).liveInChange ∧ r ∈ (st s).liveIn := by
    intro succs
    induction succs with
    | nil => simp
    | cons s succs ih =>
      intro out
      rw [List.foldl_cons, ih]
      simp only [List.mem_cons, exists_eq_or_imp]
      split_ifs with hs
      · rw [Finset.mem_union]
        tauto
      · have hnot : ¬ ((st s).liveInChange ∧ r ∈ (st s).liveIn) := by
          rintro ⟨hchange, hr⟩
          exact hs ⟨hchange, Finset.ne_empty_of_mem hr⟩
        tauto
  exact hfold _ _

lemma mem_generateLiveIn {info : BBInfo} :
    r ∈ generateLiveIn f b info ↔
      r ∈ (if info.insertUse then info.liveIn else (getBBDefUse f b).uses) ∨
        (r ∈ info.liveOut ∧ r ∉ (getBBDefUse f b).defs) := by
  unfold generateLiveIn
  split_ifs with hinsert hout hout <;> simp [hout]

lemma visitBB_cases (hb : f.unreachable b = false) :
    ((visitBB f st b) = (st, false) ∧ generateLiveOut f st b = (st b).liveOut ∧
        (st b).insertUse = true) ∨
      ∃ liveIn change, visitBB f st b =
          (Function.update st b ⟨liveIn, generateLiveOut f st b, change, true⟩, change) ∧
        liveIn = generateLiveIn f b { st b with liveOut := generateLiveOut f st b } ∧
        (change = true ↔ liveIn ≠ (st b).liveIn) := by
  unfold visitBB
  rw [hb, if_neg (by decide)]
  by_cases hskip : generateLiveOut f st b = (st b).liveOut ∧ (st b).insertUse = true
  · left
    refine ⟨?_, hskip.1, hskip.2⟩
    have hinfo : ({ st b with liveOut := generateLiveOut f st b } : BBInfo) = st b := by
      rw [hskip.1]
    simp only [hinfo]
    rw [if_pos hskip, Function.update_eq_self]
  · right
    refine ⟨_, decide (generateLiveIn f b { st b with liveOut := generateLiveOut f st b } ≠
      (st b).liveIn), ?_, rfl, decide_eq_true_iff⟩
    simp only [if_neg hskip]

/-! ### The invariant -/

/-- Every used register of the function. -/
def allUses (f : CGFunc) : Finset Nat := f.bbs.toFinset.biUnion fun b => (getBBDefUse f b).uses

/-- What holds before the visit of the first block of the queue. -/
structure Inv (f : CGFunc) (queue : List Nat) (st : LiveState) : Prop where
  /-- A visited block satisfies its equation. -/
  transfer : ∀ b, (st b).insertUse = true → ∀ r, r ∈ (st b).liveIn ↔
    r ∈ (getBBDefUse f b).uses ∨ (r ∈ (st b).liveOut ∧ r ∉ (getBBDefUse f b).defs)
  unvisited : ∀ b, (st b).insertUse = false → (st b).liveIn = ∅
  unreachable : ∀ b, f.unreachable b = true → (st b).insertUse = false
  /-- A live-in set that the block `b` does not have yet is seen at the next visit of `b`. -/
  pending : ∀ b ∈ queue, f.unreachable b = false → ∀ s ∈ f.succs b,
    (st s).liveIn ⊆ (st b).liveOut ∨
      ((st s).liveInChange = true ∧ queue.idxOf b ≤ queue.idxOf s)
  sound_in : ∀ b, ∀ r ∈ (st b).liveIn, LiveAt f.code f.succs r (f.code b) b
  sound_out : ∀ b, ∀ r ∈ (st b).liveOut, LiveAt f.code f.succs r [] b
  bounded : ∀ b, (st b).liveIn ⊆ allUses f ∧ (st b).liveOut ⊆ allUses f

/-- The block has the live-in sets of its successors. -/
def Absorbed (f : CGFunc) (st : LiveState) (b : Nat) : Prop :=
  ∀ s ∈ f.succs b, (st s).liveIn ⊆ (st b).liveOut

lemma sound_generateLiveOut {queue : List Nat} (h : Inv f queue st) :
    ∀ r ∈ generateLiveOut f st b, LiveAt f.code f.succs r [] b := by
  intro r hr
  rcases mem_generateLiveOut.mp hr with hr | ⟨s, hs, -, hr⟩
  · exact h.sound_out b r hr
  · exact .succ hs (h.sound_in s r hr)

lemma bounded_generateLiveOut {queue : List Nat} (h : Inv f queue st) :
    generateLiveOut f st b ⊆ allUses f := by
  intro r hr
  rcases mem_generateLiveOut.mp hr with hr | ⟨s, -, -, hr⟩
  · exact (h.bounded b).2 hr
  · exact (h.bounded s).1 hr

lemma mem_generateLiveIn_of_inv {queue : List Nat} (h : Inv f queue st) :
    r ∈ generateLiveIn f b { st b with liveOut := generateLiveOut f st b } ↔
      r ∈ (getBBDefUse f b).uses ∨
        (r ∈ generateLiveOut f st b ∧ r ∉ (getBBDefUse f b).defs) := by
  rw [mem_generateLiveIn]
  cases hinsert : (st b).insertUse with
  | false => simp
  | true =>
    have hmem := h.transfer b hinsert r
    have hgrow : r ∈ (st b).liveOut → r ∈ generateLiveOut f st b :=
      fun hr => mem_generateLiveOut.mpr (Or.inl hr)
    simp only [if_true]
    tauto

lemma liveIn_subset_of_inv {queue : List Nat} (h : Inv f queue st) :
    (st b).liveIn ⊆ generateLiveIn f b { st b with liveOut := generateLiveOut f st b } := by
  intro r hr
  rw [mem_generateLiveIn_of_inv h]
  cases hinsert : (st b).insertUse with
  | false =>
    rw [h.unvisited b hinsert] at hr
    simp at hr
  | true =>
    have hgrow : r ∈ (st b).liveOut → r ∈ generateLiveOut f st b :=
      fun hr => mem_generateLiveOut.mpr (Or.inl hr)
    have hmem := (h.transfer b hinsert r).mp hr
    tauto

lemma liveIn_subset_generateLiveOut {queue : List Nat} (h : Inv f (b :: queue) st)
    (hb : f.unreachable b = false) {s : Nat} (hs : s ∈ f.succs b) :
    (st s).liveIn ⊆ generateLiveOut f st b := by
  intro r hr
  apply mem_generateLiveOut.mpr
  rcases h.pending b (by simp) hb s hs with hsub | ⟨hchange, -⟩
  · exact Or.inl (hsub hr)
  · exact Or.inr ⟨s, hs, hchange, hr⟩

lemma pending_rotate {queue : List Nat} {st' : LiveState} (h : Inv f (b :: queue) st)
    (hb : b ∉ queue) (hother : ∀ x, x ≠ b → st' x = st x)
    (hout : f.unreachable b = false → ∀ s ∈ f.succs b, (st s).liveIn ⊆ (st' b).liveOut)
    (hin : (st' b).liveIn = (st b).liveIn ∨ (st' b).liveInChange = true) :
    ∀ p ∈ queue ++ [b], f.unreachable p = false → ∀ s ∈ f.succs p,
      (st' s).liveIn ⊆ (st' p).liveOut ∨
        ((st' s).liveInChange = true ∧ (queue ++ [b]).idxOf p ≤ (queue ++ [b]).idxOf s) := by
  have hwaits : RoundRobin.Waits (fun p s => f.unreachable p = false ∧ s ∈ f.succs p)
      (fun p s => (st s).liveIn ⊆ (st p).liveOut) (fun s => (st s).liveInChange = true)
      (b :: queue) :=
    fun p hp s hs => h.pending p hp hs.1 s hs.2
  have hrotate : RoundRobin.Waits (fun p s => f.unreachable p = false ∧ s ∈ f.succs p)
      (fun p s => (st' s).liveIn ⊆ (st' p).liveOut) (fun s => (st' s).liveInChange = true)
      (queue ++ [b]) := by
    apply hwaits.visit hb
    · intro p s hpb hsb hsub
      rwa [hother p hpb, hother s hsb]
    · intro s hsb hs
      rwa [hother s hsb]
    · intro s hsb hs
      rw [hother s hsb]
      exact hout hs.1 s hs.2
    · refine hin.symm.imp_right fun hin => ⟨fun hs => ?_, fun p hpb hsub => ?_⟩
      · rw [hin]
        exact hout hs.1 b hs.2
      · rwa [hin, hother p hpb]
  exact fun p hp hpr s hs => hrotate p hp s ⟨hpr, hs⟩

lemma inv_visitBB {queue : List Nat} (hf : f.WellFormed) (h : Inv f (b :: queue) st)
    (hb : b ∉ queue) (hmem : b ∈ f.bbs) : Inv f (queue ++ [b]) (visitBB f st b).1 := by
  cases hr : f.unreachable b with
  | true =>
    have hvisit : visitBB f st b = (st, false) := by rw [visitBB, if_pos hr]
    rw [hvisit]
    have hpending := pending_rotate h hb (fun _ _ => rfl)
      (fun hr' => by rw [hr] at hr'; cases hr') (Or.inl rfl)
    exact ⟨h.transfer, h.unvisited, h.unreachable, hpending, h.sound_in, h.sound_out, h.bounded⟩
  | false =>
    have habsorb : ∀ s ∈ f.succs b, (st s).liveIn ⊆ generateLiveOut f st b :=
      fun s hs => liveIn_subset_generateLiveOut h hr hs
    rcases visitBB_cases hr with ⟨hvisit, hout, -⟩ | ⟨liveIn, change, hvisit, hin, hchange⟩
    · rw [hvisit]
      rw [hout] at habsorb
      have hpending := pending_rotate h hb (fun _ _ => rfl) (fun _ => habsorb) (Or.inl rfl)
      exact ⟨h.transfer, h.unvisited, h.unreachable, hpending, h.sound_in, h.sound_out, h.bounded⟩
    · rw [hvisit]
      change Inv f (queue ++ [b]) (Function.update st b
        ⟨liveIn, generateLiveOut f st b, change, true⟩)
      have hother : ∀ x, x ≠ b → Function.update st b
          ⟨liveIn, generateLiveOut f st b, change, true⟩ x = st x :=
        fun x hx => Function.update_of_ne hx _ _
      have htransfer : ∀ r, r ∈ liveIn ↔ r ∈ (getBBDefUse f b).uses ∨
          (r ∈ generateLiveOut f st b ∧ r ∉ (getBBDefUse f b).defs) := by
        intro r
        rw [hin]
        exact mem_generateLiveIn_of_inv h
      have hcode := hf.code_defsFirst b
      refine ⟨?_, ?_, ?_, ?_, ?_, ?_, ?_⟩
      · intro x hx
        by_cases hxb : x = b
        · rw [hxb, Function.update_self]
          exact htransfer
        · rw [hother x hxb] at hx ⊢
          exact h.transfer x hx
      · intro x hx
        by_cases hxb : x = b
        · rw [hxb, Function.update_self] at hx
          cases hx
        · rw [hother x hxb] at hx ⊢
          exact h.unvisited x hx
      · intro x hx
        by_cases hxb : x = b
        · rw [hxb, hr] at hx
          cases hx
        · rw [hother x hxb]
          exact h.unreachable x hx
      · apply pending_rotate h hb hother
        · intro _ s hs
          rw [Function.update_self]
          exact habsorb s hs
        · rw [Function.update_self]
          cases change with
          | true => exact Or.inr rfl
          | false =>
            left
            by_contra hne
            exact absurd (hchange.mpr hne) (by decide)
      · intro x r hxr
        by_cases hxb : x = b
        · rw [hxb, Function.update_self] at hxr
          rw [hxb]
          rcases (htransfer r).mp hxr with huse | ⟨hout, hdef⟩
          · rw [getBBDefUse_eq] at huse
            exact liveAt_of_mem_uses hcode huse
          · rw [getBBDefUse_eq] at hdef
            exact liveAt_of_notMem_defs hcode hdef (sound_generateLiveOut h r hout)
        · rw [hother x hxb] at hxr
          exact h.sound_in x r hxr
      · intro x r hxr
        by_cases hxb : x = b
        · rw [hxb, Function.update_self] at hxr
          rw [hxb]
          exact sound_generateLiveOut h r hxr
        · rw [hother x hxb] at hxr
          exact h.sound_out x r hxr
      · intro x
        by_cases hxb : x = b
        · rw [hxb, Function.update_self]
          refine ⟨?_, bounded_generateLiveOut h⟩
          intro r hxr
          rcases (htransfer r).mp hxr with huse | ⟨hout, -⟩
          · exact Finset.mem_biUnion.mpr ⟨b, List.mem_toFinset.mpr hmem, huse⟩
          · exact bounded_generateLiveOut h hout
        · rw [hother x hxb]
          exact h.bounded x

/-! ### Sweeps -/

/-- How many registers can still be added to the live-in sets. -/
def missing (f : CGFunc) (st : LiveState) : Nat :=
  ∑ b ∈ f.bbs.toFinset, (allUses f \ (st b).liveIn).card

/-- What a visit without a change leaves. -/
structure Quiet (f : CGFunc) (st st' : LiveState) : Prop where
  liveIn : ∀ x, (st' x).liveIn = (st x).liveIn
  liveOut : ∀ x, (st x).liveOut ⊆ (st' x).liveOut
  insertUse : ∀ x, (st x).insertUse = true → (st' x).insertUse = true

lemma Quiet.refl (st : LiveState) : Quiet f st st :=
  ⟨fun _ => rfl, fun _ => Finset.Subset.refl _, fun _ h => h⟩

lemma Quiet.trans {st₁ st₂ st₃ : LiveState} (h : Quiet f st₁ st₂) (h' : Quiet f st₂ st₃) :
    Quiet f st₁ st₃ where
  liveIn x := (h'.liveIn x).trans (h.liveIn x)
  liveOut x := (h.liveOut x).trans (h'.liveOut x)
  insertUse x hx := h'.insertUse x (h.insertUse x hx)

lemma Quiet.absorbed {st' : LiveState} (h : Quiet f st st') (hb : Absorbed f st b) :
    Absorbed f st' b := by
  intro s hs
  rw [h.liveIn s]
  exact (hb s hs).trans (h.liveOut b)

lemma visitBB_quiet {queue : List Nat} (h : Inv f (b :: queue) st)
    (hchange : (visitBB f st b).2 = false) :
    Quiet f st (visitBB f st b).1 ∧ (f.unreachable b = false →
      Absorbed f (visitBB f st b).1 b ∧ ((visitBB f st b).1 b).insertUse = true) := by
  cases hr : f.unreachable b with
  | true =>
    have hvisit : visitBB f st b = (st, false) := by rw [visitBB, if_pos hr]
    rw [hvisit]
    exact ⟨Quiet.refl st, fun hr' => by cases hr'⟩
  | false =>
    have habsorb : ∀ s ∈ f.succs b, (st s).liveIn ⊆ generateLiveOut f st b :=
      fun s hs => liveIn_subset_generateLiveOut h hr hs
    rcases visitBB_cases hr with
      ⟨hvisit, hout, hinsert⟩ | ⟨liveIn, change, hvisit, hin, hiff⟩
    · rw [hvisit]
      rw [hout] at habsorb
      exact ⟨Quiet.refl st, fun _ => ⟨habsorb, hinsert⟩⟩
    · rw [hvisit] at hchange ⊢
      have hfalse : change = false := hchange
      have hsame : liveIn = (st b).liveIn := by
        by_contra hne
        rw [hiff.mpr hne] at hfalse
        cases hfalse
      have hquiet : Quiet f st (Function.update st b
          ⟨liveIn, generateLiveOut f st b, change, true⟩) := by
        refine ⟨?_, ?_, ?_⟩ <;> intro x <;> by_cases hxb : x = b
        · rw [hxb, Function.update_self, hsame]
        · rw [Function.update_of_ne hxb]
        · rw [hxb, Function.update_self]
          exact fun r hr => mem_generateLiveOut.mpr (Or.inl hr)
        · rw [Function.update_of_ne hxb]
        · rw [hxb, Function.update_self]
          exact fun _ => rfl
        · rw [Function.update_of_ne hxb]
          exact id
      refine ⟨hquiet, fun _ => ⟨?_, by simp⟩⟩
      intro s hs
      rw [hquiet.liveIn s]
      simpa using habsorb s hs

lemma Quiet.missing_eq {st' : LiveState} (h : Quiet f st st') : missing f st' = missing f st := by
  unfold missing
  exact Finset.sum_congr rfl fun x _ => by rw [h.liveIn x]

lemma missing_visitBB_lt {queue : List Nat} (hf : f.WellFormed) (h : Inv f (b :: queue) st)
    (hb : b ∉ queue) (hmem : b ∈ f.bbs) (hchange : (visitBB f st b).2 = true) :
    missing f (visitBB f st b).1 < missing f st := by
  have hinv := inv_visitBB hf h hb hmem
  cases hr : f.unreachable b with
  | true =>
    rw [visitBB, if_pos hr] at hchange
    cases hchange
  | false =>
    rcases visitBB_cases hr with ⟨hvisit, -⟩ | ⟨liveIn, change, hvisit, hin, hiff⟩
    · rw [hvisit] at hchange
      cases hchange
    · rw [hvisit] at hchange hinv ⊢
      have hsub : (st b).liveIn ⊆ liveIn := hin ▸ liveIn_subset_of_inv h
      have hne := hiff.mp hchange
      have hall : liveIn ⊆ allUses f := by
        have hbound := (hinv.bounded b).1
        simpa using hbound
      have hlt : (allUses f \ liveIn).card < (allUses f \ (st b).liveIn).card := by
        obtain ⟨r, hr, hnot⟩ := Finset.exists_of_ssubset
          (Finset.ssubset_iff_subset_ne.mpr ⟨hsub, Ne.symm hne⟩)
        apply Finset.card_lt_card
        rw [Finset.ssubset_iff_of_subset (Finset.sdiff_subset_sdiff (Finset.Subset.refl _) hsub)]
        exact ⟨r, Finset.mem_sdiff.mpr ⟨hall hr, hnot⟩, fun hr' => (Finset.mem_sdiff.mp hr').2 hr⟩
      apply Finset.sum_lt_sum
      · intro x _
        by_cases hxb : x = b
        · simpa [hxb] using le_of_lt hlt
        · simp [Function.update_of_ne hxb]
      · exact ⟨b, List.mem_toFinset.mpr hmem, by simpa using hlt⟩

lemma rules (hf : f.WellFormed) :
    RoundRobin.Rules (visitBB f) f.bbs.reverse (Inv f) (missing f) (Quiet f) fun st b =>
      f.unreachable b = false → Absorbed f st b ∧ (st b).insertUse = true where
  inv hmem hb h := inv_visitBB hf h hb (List.mem_reverse.mp hmem)
  change hmem hb h hchange := missing_visitBB_lt hf h hb (List.mem_reverse.mp hmem) hchange
  quiet _ h hchange := visitBB_quiet h hchange
  refl := Quiet.refl
  trans h h' := h.trans h'
  size_le h := h.missing_eq.le
  settled h hb hr := ⟨h.absorbed (hb hr).1, h.insertUse _ (hb hr).2⟩

lemma sweep_eq (bs : List Nat) (s : LiveState × Bool) :
    sweep f bs s = RoundRobin.sweep (visitBB f) bs s := by
  induction bs generalizing s with
  | nil => rfl
  | cons b bs ih => exact ih _

lemma buildInOutforFunc_eq (fuel : Nat) (st : LiveState) :
    buildInOutforFunc f fuel st = RoundRobin.sweeps (visitBB f) f.bbs.reverse fuel st := by
  induction fuel generalizing st with
  | zero => rfl
  | succ fuel ih => simp only [buildInOutforFunc, RoundRobin.sweeps, sweep_eq, ih]

lemma buildInOutforFunc_settles (hf : f.WellFormed) (st : LiveState)
    (h : Inv f f.bbs.reverse st) :
    ∃ st', Outcome.Settles (fun fuel => buildInOutforFunc f fuel st) (.done st') ∧
      Inv f f.bbs.reverse st' ∧ ∀ b ∈ f.bbs, f.unreachable b = false →
        Absorbed f st' b ∧ (st' b).insertUse = true := by
  simp only [buildInOutforFunc_eq]
  obtain ⟨st', hsettles, hinv, hall⟩ := (rules hf).settles (List.nodup_reverse.mpr hf.nodup) h
  exact ⟨st', hsettles, hinv, fun b hb => hall b (List.mem_reverse.mpr hb)⟩

lemma inv_init (f : CGFunc) (queue : List Nat) : Inv f queue fun _ => {} where
  transfer _ h := by cases h
  unvisited _ _ := rfl
  unreachable _ _ := rfl
  pending _ _ _ _ _ := Or.inl (Finset.empty_subset _)
  sound_in _ r h := absurd h (Finset.notMem_empty r)
  sound_out _ r h := absurd h (Finset.notMem_empty r)
  bounded _ := ⟨Finset.empty_subset _, Finset.empty_subset _⟩

/-! ### The result -/

lemma CGFunc.Reachable.mem_bbs (hf : f.WellFormed) (h : f.Reachable b) : b ∈ f.bbs := by
  induction h with
  | first h => simp [h]
  | succ _ hs ih => exact hf.succs_mem _ ih _ hs

lemma mem_of_liveAt (hf : f.WellFormed) {queue : List Nat} (h : Inv f queue st)
    (hall : ∀ b ∈ f.bbs, f.unreachable b = false → Absorbed f st b ∧ (st b).insertUse = true)
    {is : List Insn} (hlive : LiveAt f.code f.succs r is b) (hr : f.Reachable b)
    (his : ∀ i ∈ is, i.DefsFirst) :
    r ∈ (is.foldr collectInsn ⟨∅, ∅⟩).uses ∨
      r ∉ (is.foldr collectInsn ⟨∅, ∅⟩).defs ∧ r ∈ (st b).liveOut := by
  induction hlive with
  | @use i is b huse =>
    rw [List.foldr_cons, mem_uses_collectInsn (his i (by simp))]
    exact Or.inl (Or.inl huse)
  | @pass i is b hdef _ ih =>
    have hrest := ih hr fun j hj => his j (by simp [hj])
    rw [List.foldr_cons, mem_uses_collectInsn (his i (by simp)),
      mem_defs_collectInsn (his i (by simp))]
    tauto
  | @succ b s hs _ ih =>
    have hsr : f.Reachable s := .succ hr hs
    have hmem := ih hsr (hf.code_defsFirst s)
    rw [← getBBDefUse_eq] at hmem
    obtain ⟨-, hins⟩ := hall s (hsr.mem_bbs hf) (hf.reachable s hsr)
    obtain ⟨habs, -⟩ := hall b (hr.mem_bbs hf) (hf.reachable b hr)
    have hin : r ∈ (st s).liveIn := by
      rw [h.transfer s hins r]
      tauto
    exact Or.inr ⟨by simp, habs s hs hin⟩

/-- The analysis ends, and the live-in and live-out sets of the blocks that can be reached are the
registers that are live at their starts and ends. -/
theorem analysisLive_exact (hf : f.WellFormed) :
    ∃ st, Outcome.Settles (analysisLive f) (.done st) ∧ ∀ b, f.Reachable b → ∀ r,
      (r ∈ (st b).liveIn ↔ LiveAt f.code f.succs r (f.code b) b) ∧
        (r ∈ (st b).liveOut ↔ LiveAt f.code f.succs r [] b) := by
  obtain ⟨st, hsettles, hinv, hall⟩ :=
    buildInOutforFunc_settles hf (fun _ => {}) (inv_init f _)
  refine ⟨st, hsettles, ?_⟩
  intro b hb r
  obtain ⟨-, hins⟩ := hall b (hb.mem_bbs hf) (hf.reachable b hb)
  refine ⟨⟨hinv.sound_in b r, ?_⟩, ⟨hinv.sound_out b r, ?_⟩⟩
  · intro hlive
    have hmem := mem_of_liveAt hf hinv hall hlive hb (hf.code_defsFirst b)
    rw [← getBBDefUse_eq] at hmem
    rw [hinv.transfer b hins r]
    tauto
  · intro hlive
    have hmem := mem_of_liveAt hf hinv hall hlive hb (by simp)
    simpa using hmem

/-- A loop that adds up its parameter `r1` in `r0` and returns. -/
def sumLoop : CGFunc where
  bbs := [0, 1, 2]
  insns b := if b = 1 then [⟨[⟨0, true, false⟩, ⟨0, false, true⟩, ⟨1, false, true⟩]⟩] else []
  succs b := if b = 0 then [1] else if b = 1 then [1, 2] else []
  unreachable _ := false
  isReturn b := b = 2
  returnReg := some 0

lemma sumLoop_wellFormed : sumLoop.WellFormed where
  nodup := by decide
  succs_mem := by decide
  reachable _ _ := rfl
  defsFirst b i hi := by
    change i ∈ (if b = 1 then [(⟨[⟨0, true, false⟩, ⟨0, false, true⟩, ⟨1, false, true⟩]⟩ : Insn)]
      else []) at hi
    split_ifs at hi
    · rw [List.mem_singleton.mp hi]
      unfold Insn.DefsFirst
      decide
    · simp at hi

theorem analysisLive_exact_sumLoop :
    ∃ st, Outcome.Settles (analysisLive sumLoop) (.done st) ∧ 1 ∈ (st 0).liveOut := by
  obtain ⟨st, hsettles, hexact⟩ := analysisLive_exact sumLoop_wellFormed
  refine ⟨st, hsettles, ?_⟩
  apply (hexact 0 (.first rfl) 1).2.mpr
  have hsucc : 1 ∈ sumLoop.succs 0 := by decide
  have huse : Insn.Uses ⟨[⟨0, true, false⟩, ⟨0, false, true⟩, ⟨1, false, true⟩]⟩ 1 :=
    ⟨⟨1, false, true⟩, by decide, rfl, rfl⟩
  exact .succ hsucc (.use huse)

/-- A function whose return block has no instruction: the register of the return value is live-in,
though no instruction uses it. -/
theorem analysisLive_emptyReturn :
    let f : CGFunc := ⟨[1], fun _ => [], fun _ => [], fun _ => false, fun _ => true, some 0⟩
    f.WellFormed ∧ f.Reachable 1 ∧
      ∃ st, Outcome.Settles (analysisLive f) (.done st) ∧ 0 ∈ (st 1).liveIn ∧
        ¬ LiveAt f.insns f.succs 0 (f.insns 1) 1 := by
  intro f
  have hf : f.WellFormed := ⟨by decide, by decide, fun _ _ => rfl, fun _ _ hi => by cases hi⟩
  refine ⟨hf, .first rfl, ?_⟩
  refine ⟨(sweep f [1] ((sweep f [1] (fun _ => {}, false)).1, false)).1, ⟨by simp, 2, ?_⟩, ?_, ?_⟩
  · intro fuel hfuel
    obtain ⟨k, rfl⟩ : ∃ k, fuel = k + 2 := ⟨fuel - 2, by omega⟩
    rfl
  · decide
  · intro hlive
    cases hlive with
    | succ hs _ => cases hs

end Live
end Maple
