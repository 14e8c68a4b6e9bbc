import Maple.BE.PhiElim.Related

/-!
# Phi elimination preserves what is read

The moves at the head of a block do what its phis do at once, and the moves at the end of a block
give the temporary registers these values for the next block.
-/

namespace Maple
namespace PhiElim

variable {α μ : Type} {ssa : CGSSAInfo} {bbs : List (BB α)} {cur : Option Nat}
  {regs regs' : Nat → Nat}

lemma SameRegs.runAll_of_temps {es : List Eliminated} (hsame : SameRegs ssa es cur regs regs')
    {ms : List (RegMove Nat Nat)} (hdst : ∀ m ∈ ms, ∃ e ∈ es, m.dst = e.temp.regNO)
    (hle : ∀ e ∈ es, 100 ≤ e.temp.regNO) :
    SameRegs ssa es cur regs (RegMove.runAll ms regs') := by
  refine ⟨?_, hsame.cur_flags, ?_⟩
  · intro r hr
    rw [RegMove.runAll_of_notMem]
    · exact hsame.plain r hr
    · intro m hm he
      obtain ⟨e, hes, hdst⟩ := hdst m hm
      exact hr.ne_temp e hes (he.symm.trans hdst)
  · intro c hc
    rw [RegMove.runAll_of_notMem]
    · exact hsame.flags c hc
    · intro m hm he
      obtain ⟨e, hes, hdst⟩ := hdst m hm
      have := hle e hes
      rw [← hdst, he, kRFLAG] at this
      omega

/-! ### The head of a block -/

/-- The moves in the place of the phis of a block. -/
def headMoves (ssa : CGSSAInfo) (bbs : List (BB α)) (bb : BB α) : List (RegMove Nat Nat) :=
  bb.phis.filterMap fun q =>
    ((repOf (eliminated ssa bbs).1 bb.id q : Insn α).mapRegs ssa.outOpnd).move?

lemma SSAForm.headMove_eq (h : SSAForm ssa bbs) {bb : BB α} (hbb : bb ∈ bbs) {q : PhiInsn}
    (hq : q ∈ bb.phis) :
    ∃ e ∈ (eliminated ssa bbs).1, e.phi = q ∧
      ((repOf (eliminated ssa bbs).1 bb.id q : Insn α).mapRegs ssa.outOpnd).move? =
        some ⟨q.dest.regNO, e.temp.regNO, (movOpOf q.dest).eval⟩ := by
  obtain ⟨e, he, hphi, hrep⟩ := h.repOf_eq hbb hq
  have htemp : ssa.outOpnd e.temp = e.temp := by
    simp [CGSSAInfo.outOpnd, temp_not_isSSAForm_of_mem he]
  refine ⟨e, he, hphi, ?_⟩
  rw [hrep, createMov, mapRegs_phiMov, Insn.move?, phiMove,
    outOpnd_of_not_flags (h.phi_dest bb hbb q hq).2.2, htemp]

lemma SSAForm.mem_headMoves (h : SSAForm ssa bbs) {bb : BB α} (hbb : bb ∈ bbs)
    {m : RegMove Nat Nat} :
    m ∈ headMoves ssa bbs bb → ∃ q ∈ bb.phis, ∃ e ∈ (eliminated ssa bbs).1, e.phi = q ∧
      m = ⟨q.dest.regNO, e.temp.regNO, (movOpOf q.dest).eval⟩ := by
  intro hm
  obtain ⟨q, hq, hmove⟩ := List.mem_filterMap.1 hm
  obtain ⟨e, he, hphi, heq⟩ := h.headMove_eq hbb hq
  exact ⟨q, hq, e, he, hphi, Option.some.inj (hmove.symm.trans heq)⟩

lemma SSAForm.plainReg_dest (h : SSAForm ssa bbs) {bb : BB α} (hbb : bb ∈ bbs) {q : PhiInsn}
    (hq : q ∈ bb.phis) : PlainReg ssa (eliminated ssa bbs).1 q.dest.regNO := by
  refine h.plainReg (h.defined bb hbb _ (phi_mem_insns hq) _ ?_) (h.phi_dest bb hbb q hq).2.2
  simp [Insn.registers]

lemma SSAForm.plainReg_opnd (h : SSAForm ssa bbs) {bb : BB α} (hbb : bb ∈ bbs) {q : PhiInsn}
    (hq : q ∈ bb.phis) {o : Nat × RegOperand} (ho : o ∈ q.phiList) :
    PlainReg ssa (eliminated ssa bbs).1 o.2.regNO := by
  refine h.plainReg (h.defined bb hbb _ (phi_mem_insns hq) _ ?_) (h.phi_opnd bb hbb q hq o ho).2.2
  exact List.mem_cons_of_mem _ (List.mem_map_of_mem ho)

lemma SSAForm.phi_eq_of_dest (h : SSAForm ssa bbs) {bb : BB α} (hbb : bb ∈ bbs) {q q' : PhiInsn}
    (hq : q ∈ bb.phis) (hq' : q' ∈ bb.phis) (hdest : q'.dest.regNO = q.dest.regNO) : q' = q := by
  have hmem : (bb.id, q) ∈ phisOf bbs :=
    mem_phisOf.2 ⟨bb, hbb, rfl, (h.mem_phiInsns bb hbb q).2 hq⟩
  have hmem' : (bb.id, q') ∈ phisOf bbs :=
    mem_phisOf.2 ⟨bb, hbb, rfl, (h.mem_phiInsns bb hbb q').2 hq'⟩
  have := List.inj_on_of_nodup_map h.phi_dests_nodup hmem' hmem hdest
  exact (Prod.mk.inj this).2

lemma SSAForm.functional_headMoves (h : SSAForm ssa bbs) {bb : BB α} (hbb : bb ∈ bbs) :
    RegMove.Functional (headMoves ssa bbs bb) := by
  intro m hm m' hm' hdst
  obtain ⟨q, hq, hmove⟩ := List.mem_filterMap.1 hm
  obtain ⟨q', hq', hmove'⟩ := List.mem_filterMap.1 hm'
  obtain ⟨e, -, -, heq⟩ := h.headMove_eq hbb hq
  obtain ⟨e', -, -, heq'⟩ := h.headMove_eq hbb hq'
  obtain rfl := Option.some.inj (hmove.symm.trans heq)
  obtain rfl := Option.some.inj (hmove'.symm.trans heq')
  obtain rfl := h.phi_eq_of_dest hbb hq hq' hdst
  exact Option.some.inj (heq'.symm.trans heq)

lemma SSAForm.independent_headMoves (h : SSAForm ssa bbs) {bb : BB α} (hbb : bb ∈ bbs) :
    RegMove.Independent (headMoves ssa bbs bb) := by
  intro m hm m' hm'
  obtain ⟨q, hq, e, he, -, rfl⟩ := h.mem_headMoves hbb hm
  obtain ⟨q', hq', e', he', -, rfl⟩ := h.mem_headMoves hbb hm'
  exact (h.plainReg_dest hbb hq).ne_temp e' he'

lemma SSAForm.functional_phiMoves (h : SSAForm ssa bbs) {bb : BB α} (hbb : bb ∈ bbs) (pred : Nat) :
    RegMove.Functional (bb.phiMoves pred) := by
  intro m hm m' hm' hdst
  obtain ⟨q, hq, hmove⟩ := List.mem_filterMap.1 hm
  obtain ⟨q', hq', hmove'⟩ := List.mem_filterMap.1 hm'
  obtain ⟨o, ho, rfl⟩ := Option.map_eq_some_iff.1 hmove
  obtain ⟨o', ho', rfl⟩ := Option.map_eq_some_iff.1 hmove'
  obtain rfl := h.phi_eq_of_dest hbb hq hq' hdst
  rw [Option.some.inj (ho'.symm.trans ho)]

lemma lookup_of_mem_keys {l : List (Nat × RegOperand)} {k : Nat} (h : k ∈ l.map (·.1)) :
    ∃ o, l.lookup k = some o ∧ (k, o) ∈ l := by
  obtain ⟨p, hp, rfl⟩ := List.mem_map.1 h
  cases hl : l.lookup p.1 with
  | none => simpa using List.lookup_eq_none_iff.1 hl p hp
  | some o =>
    obtain ⟨as, bs, hsplit, -⟩ := List.lookup_eq_some_iff.1 hl
    exact ⟨o, rfl, by simp [hsplit]⟩

lemma SameRegs.enter (h : SSAForm ssa bbs)
    (hsame : SameRegs ssa (eliminated ssa bbs).1 cur regs regs') {bb : BB α} (hbb : bb ∈ bbs)
    {pred : Nat} (hpred : pred ∈ bb.preds)
    (hloaded : Loaded (eliminated ssa bbs).1 pred regs regs') :
    SameRegs ssa (eliminated ssa bbs).1 cur (RegMove.parallel (bb.phiMoves pred) regs)
      (RegMove.runAll (headMoves ssa bbs bb) regs') := by
  rw [RegMove.runAll_eq_parallel (h.functional_headMoves hbb) (h.independent_headMoves hbb)]
  have hnot : ∀ {r : Nat}, (∀ q ∈ bb.phis, q.dest.regNO ≠ r) →
      RegMove.parallel (bb.phiMoves pred) regs r = regs r := by
    intro r hr
    apply RegMove.parallel_of_notMem
    intro m hm
    obtain ⟨q, hq, hmove⟩ := List.mem_filterMap.1 hm
    obtain ⟨o, -, rfl⟩ := Option.map_eq_some_iff.1 hmove
    exact hr q hq
  have hnot' : ∀ {r : Nat}, (∀ q ∈ bb.phis, q.dest.regNO ≠ r) →
      RegMove.parallel (headMoves ssa bbs bb) regs' r = regs' r := by
    intro r hr
    apply RegMove.parallel_of_notMem
    intro m hm
    obtain ⟨q, hq, e, -, -, rfl⟩ := h.mem_headMoves hbb hm
    exact hr q hq
  constructor
  · intro r hr
    by_cases hdest : ∃ q ∈ bb.phis, q.dest.regNO = r
    · obtain ⟨q, hq, rfl⟩ := hdest
      obtain ⟨o, hlookup, ho⟩ := lookup_of_mem_keys (h.preds_subset bb hbb q hq pred hpred)
      obtain ⟨e, he, rfl, hmove⟩ := h.headMove_eq hbb hq
      have hphi : phiMove (movOpOf e.phi.dest) e.phi.dest o ∈ bb.phiMoves pred :=
        List.mem_filterMap.2 ⟨e.phi, hq, by rw [hlookup]; rfl⟩
      have hhead : ⟨e.phi.dest.regNO, e.temp.regNO, (movOpOf e.phi.dest).eval⟩ ∈
          headMoves ssa bbs bb := List.mem_filterMap.2 ⟨e.phi, hq, hmove⟩
      have hread := hloaded e he _ ho rfl
      calc RegMove.parallel (headMoves ssa bbs bb) regs' e.phi.dest.regNO
          = (movOpOf e.phi.dest).eval (regs' e.temp.regNO) :=
            RegMove.parallel_of_mem (h.functional_headMoves hbb) hhead regs'
        _ = (movOpOf e.phi.dest).eval (regs o.regNO) := by rw [hread, MovOp.eval_eval]
        _ = RegMove.parallel (bb.phiMoves pred) regs e.phi.dest.regNO :=
            (RegMove.parallel_of_mem (h.functional_phiMoves hbb pred) hphi regs).symm
    · push Not at hdest
      rw [hnot hdest, hnot' hdest]
      exact hsame.plain r hr
  · exact hsame.cur_flags
  · intro c hc
    have hflags := hsame.cur_flags c hc
    rw [hnot, hnot']
    · exact hsame.flags c hc
    · intro q hq
      exact (h.plainReg_dest hbb hq).ne_kRFLAG
    · rintro q hq rfl
      simp [(h.plainReg_dest hbb hq).not_flags] at hflags

/-! ### The end of a block -/

/-- The moves to the temporary registers at the end of a block. -/
def tailMoves (ssa : CGSSAInfo) (bbs : List (BB α)) (id : Nat) : List (RegMove Nat Nat) :=
  ((movsOf (eliminated ssa bbs).1 id : List (Insn α)).map (·.mapRegs ssa.outOpnd)).filterMap
    Insn.move?

lemma SSAForm.mem_tailMoves (h : SSAForm ssa bbs) {id : Nat} {m : RegMove Nat Nat} :
    m ∈ tailMoves ssa bbs id ↔ ∃ e ∈ (eliminated ssa bbs).1, ∃ o ∈ e.phi.phiList, o.1 = id ∧
      m = ⟨e.temp.regNO, o.2.regNO, (movOpOf e.phi.dest).eval⟩ := by
  have hmove : ∀ e ∈ (eliminated ssa bbs).1, ∀ o ∈ e.phi.phiList,
      ((createMov e.temp o.2 : Insn α).mapRegs ssa.outOpnd).move? =
        some ⟨e.temp.regNO, o.2.regNO, (movOpOf e.phi.dest).eval⟩ := by
    intro e he o ho
    obtain ⟨bb, hbb, -, hphi⟩ := h.exists_of_eliminated he
    have htemp : ssa.outOpnd e.temp = e.temp := by
      simp [CGSSAInfo.outOpnd, temp_not_isSSAForm_of_mem he]
    rw [createMov, mapRegs_phiMov, Insn.move?, phiMove, htemp, movOpOf_temp_of_mem he,
      outOpnd_of_not_flags (h.phi_opnd bb hbb _ hphi o ho).2.2]
  simp only [tailMoves, List.mem_filterMap, List.mem_map, movsOf, List.mem_flatMap, opndMovs,
    List.mem_filter, decide_eq_true_eq]
  constructor
  · rintro ⟨_, ⟨_, ⟨e, he, o, ⟨ho, hid⟩, rfl⟩, rfl⟩, hm⟩
    exact ⟨e, he, o, ho, hid, Option.some.inj (hm.symm.trans (hmove e he o ho))⟩
  · rintro ⟨e, he, o, ho, hid, rfl⟩
    exact ⟨_, ⟨_, ⟨e, he, o, ⟨ho, hid⟩, rfl⟩, rfl⟩, hmove e he o ho⟩

lemma SSAForm.functional_tailMoves (h : SSAForm ssa bbs) (id : Nat) :
    RegMove.Functional (tailMoves ssa bbs id) := by
  intro m hm m' hm' hdst
  obtain ⟨e, he, o, ho, hid, rfl⟩ := h.mem_tailMoves.1 hm
  obtain ⟨e', he', o', ho', hid', rfl⟩ := h.mem_tailMoves.1 hm'
  obtain rfl := List.inj_on_of_nodup_map (temps_nodup ssa (phisOf bbs) _) he' he hdst
  obtain ⟨bb, hbb, -, hphi⟩ := h.exists_of_eliminated he
  obtain rfl := List.inj_on_of_nodup_map (h.phiList_nodup bb hbb _ hphi) ho' ho
    (hid'.trans hid.symm)
  rfl

lemma SSAForm.independent_tailMoves (h : SSAForm ssa bbs) (id : Nat) :
    RegMove.Independent (tailMoves ssa bbs id) := by
  intro m hm m' hm' hne
  obtain ⟨e, he, o, ho, -, rfl⟩ := h.mem_tailMoves.1 hm
  obtain ⟨e', he', o', ho', -, rfl⟩ := h.mem_tailMoves.1 hm'
  obtain ⟨bb, hbb, -, hphi⟩ := h.exists_of_eliminated he'
  exact (h.plainReg_opnd hbb hphi ho').ne_temp e he hne.symm

lemma SameRegs.leave (h : SSAForm ssa bbs)
    (hsame : SameRegs ssa (eliminated ssa bbs).1 cur regs regs') (id : Nat) :
    SameRegs ssa (eliminated ssa bbs).1 cur regs (RegMove.runAll (tailMoves ssa bbs id) regs') ∧
      Loaded (eliminated ssa bbs).1 id regs (RegMove.runAll (tailMoves ssa bbs id) regs') := by
  constructor
  · refine hsame.runAll_of_temps (fun m hm => ?_) fun e he => h.le_temp he
    obtain ⟨e, he, o, -, -, rfl⟩ := h.mem_tailMoves.1 hm
    exact ⟨e, he, rfl⟩
  · intro e he o ho hid
    have hm : (⟨e.temp.regNO, o.2.regNO, (movOpOf e.phi.dest).eval⟩ : RegMove Nat Nat) ∈
        tailMoves ssa bbs id := h.mem_tailMoves.2 ⟨e, he, o, ho, hid, rfl⟩
    obtain ⟨bb, hbb, -, hphi⟩ := h.exists_of_eliminated he
    have hread := RegMove.runAll_of_mem (h.functional_tailMoves id) (h.independent_tailMoves id) hm
      regs'
    rw [hsame.plain _ (h.plainReg_opnd hbb hphi ho)] at hread
    exact hread

/-! ### Blocks and paths -/

lemma SSAForm.split (h : SSAForm ssa bbs) {bb : BB α} (hbb : bb ∈ bbs) :
    Split bb.insns (bb.phis.map .phi ++ bb.body) bb.branches := by
  refine ⟨h.code_eq bb hbb, ?_, fun i => branch_of_mem_branches⟩
  simp only [List.mem_append, List.mem_map]
  rintro i (⟨p, -, rfl⟩ | hi)
  · rfl
  · exact not_branch_of_mem_body hi

/-- The code of a block until a branch, after its phis. -/
def BB.plain (bb : BB α) (exit : Nat) : List (Insn α) := bb.body ++ untilBranch exit bb.branches

lemma code_untilBranch_insns (h : SSAForm ssa bbs) {bb : BB α} (hbb : bb ∈ bbs) (exit : Nat) :
    code (untilBranch exit bb.insns) = bb.phis.map .phi ++ bb.plain exit := by
  have hsplit := h.split hbb
  rw [code_untilBranch, hsplit.code_eq, untilBranch_append hsplit.pre_not_branch, BB.plain,
    List.append_assoc]

lemma isBranch_of_mem_untilBranch {bb : BB α} {exit : Nat} {i : Insn α}
    (hi : i ∈ untilBranch exit bb.branches) : i.isBranch = true :=
  branch_of_mem_branches (untilBranch_subset _ _ i hi)

lemma isPlainInsn_of_mem_body {bb : BB α} {i : Insn α} (hi : i ∈ bb.body) : IsPlainInsn i :=
  .inl (List.mem_filter.1 hi).2

/-- A block of the translated function. -/
structure Translated (ssa : CGSSAInfo) (bbs : List (BB α)) (bb bb' : BB α) : Prop where
  id_eq : bb'.id = bb.id
  code_eq : code bb'.insns =
    (bb.phis.map (repOf (eliminated ssa bbs).1 bb.id) ++ bb.body ++
      movsOf (eliminated ssa bbs).1 bb.id ++ bb.branches : List (Insn α)).map
        (·.mapRegs ssa.outOpnd)

lemma isSome_move?_of_mem_heads (h : SSAForm ssa bbs) {bb : BB α} (hbb : bb ∈ bbs) :
    ∀ i ∈ (bb.phis.map fun q => (repOf (eliminated ssa bbs).1 bb.id q : Insn α)).map
      (·.mapRegs ssa.outOpnd), i.move?.isSome := by
  intro i hi
  obtain ⟨j, hj, rfl⟩ := List.mem_map.1 hi
  obtain ⟨q, hq, rfl⟩ := List.mem_map.1 hj
  obtain ⟨e, -, -, hmove⟩ := h.headMove_eq hbb hq
  simp [hmove]

lemma isSome_move?_of_mem_tails (id : Nat) :
    ∀ i ∈ (movsOf (eliminated ssa bbs).1 id : List (Insn α)).map (·.mapRegs ssa.outOpnd),
      i.move?.isSome := by
  intro i hi
  obtain ⟨j, hj, rfl⟩ := List.mem_map.1 hi
  obtain ⟨e, -, hj⟩ := List.mem_flatMap.1 hj
  obtain ⟨o, -, rfl⟩ := List.mem_map.1 hj
  rfl

lemma filterMap_heads (bb : BB α) :
    ((bb.phis.map fun q => (repOf (eliminated ssa bbs).1 bb.id q : Insn α)).map
      (·.mapRegs ssa.outOpnd)).filterMap Insn.move? = headMoves ssa bbs bb := by
  simp [headMoves, List.filterMap_map, Function.comp_def]

lemma Translated.code_untilBranch {bb bb' : BB α} (ht : Translated ssa bbs bb bb') (exit : Nat) :
    code (untilBranch exit bb'.insns) =
      (bb.phis.map fun q => (repOf (eliminated ssa bbs).1 bb.id q : Insn α)).map
          (·.mapRegs ssa.outOpnd) ++
        (bb.body.map (·.mapRegs ssa.outOpnd) ++
          ((movsOf (eliminated ssa bbs).1 bb.id : List (Insn α)).map (·.mapRegs ssa.outOpnd) ++
            (untilBranch exit bb.branches).map (·.mapRegs ssa.outOpnd))) := by
  have hpre : ∀ i ∈ bb.phis.map (repOf (eliminated ssa bbs).1 bb.id) ++ bb.body ++
      movsOf (eliminated ssa bbs).1 bb.id, i.isBranch = false := by
    simp only [List.mem_append, List.mem_map]
    rintro i ((⟨q, -, rfl⟩ | hi) | hi)
    · exact (isPhiOrMov_repOf _ _ _).not_branch
    · exact not_branch_of_mem_body hi
    · exact (isPhiOrMov_of_mem_movsOf hi).not_branch
  rw [PhiElim.code_untilBranch, ht.code_eq, untilBranch_map_mapRegs, untilBranch_append hpre]
  simp only [List.map_append, List.append_assoc]

lemma SSAForm.runInsns_eq (h : SSAForm ssa bbs) {bb : BB α} (hbb : bb ∈ bbs) (exec : Exec α μ)
    (exit : Nat) (s : State μ) :
    runInsns exec (untilBranch exit bb.insns) s =
      ((runInsns exec bb.body s).1, (runInsns exec bb.body s).2 ++
        (runInsns exec (untilBranch exit bb.branches) (runInsns exec bb.body s).1).2) := by
  rw [← runInsns_code, code_untilBranch_insns h hbb, BB.plain, runInsns_append, runInsns_phis,
    runInsns_append, runInsns_branches exec fun i => isBranch_of_mem_untilBranch]
  rfl

/-- The state of the translated function in front of the branches. -/
def leaveState (ssa : CGSSAInfo) (bbs : List (BB α)) (id : Nat) (s : State μ) : State μ :=
  { s with regs := RegMove.runAll (tailMoves ssa bbs id) s.regs }

lemma Translated.runInsns_eq (h : SSAForm ssa bbs) {bb bb' : BB α} (hbb : bb ∈ bbs)
    (ht : Translated ssa bbs bb bb') (exec : Exec α μ) (exit : Nat) (s : State μ) :
    runInsns exec (untilBranch exit bb'.insns) s =
      let r := runInsns exec (bb.body.map (·.mapRegs ssa.outOpnd))
        { s with regs := RegMove.runAll (headMoves ssa bbs bb) s.regs }
      (leaveState ssa bbs bb.id r.1, r.2 ++
        (runInsns exec ((untilBranch exit bb.branches).map (·.mapRegs ssa.outOpnd))
          (leaveState ssa bbs bb.id r.1)).2) := by
  have hbranches : ∀ i ∈ (untilBranch exit bb.branches).map (·.mapRegs ssa.outOpnd),
      i.isBranch = true := by
    intro i hi
    obtain ⟨j, hj, rfl⟩ := List.mem_map.1 hi
    rw [isBranch_mapRegs]
    exact isBranch_of_mem_untilBranch hj
  rw [← runInsns_code, ht.code_untilBranch, runInsns_append,
    runInsns_moves exec (isSome_move?_of_mem_heads h hbb), filterMap_heads, runInsns_append,
    runInsns_append, runInsns_moves exec (isSome_move?_of_mem_tails bb.id),
    runInsns_branches exec hbranches]
  rfl

lemma Translated.run (h : SSAForm ssa bbs) {bb bb' : BB α} (hbb : bb ∈ bbs)
    (ht : Translated ssa bbs bb bb') (exec : Exec α μ) (exit : Nat) (rest : μ)
    (hsame : SameRegs ssa (eliminated ssa bbs).1 cur regs
      (RegMove.runAll (headMoves ssa bbs bb) regs'))
    (hcur : ssa.InsnsLastFlags (untilBranch exit bb.insns) cur) :
    let s := runInsns exec (untilBranch exit bb.insns) ⟨regs, rest⟩
    let s' := runInsns exec (untilBranch exit bb'.insns) ⟨regs', rest⟩
    s'.2 = s.2 ∧ s'.1.rest = s.1.rest ∧
      SameRegs ssa (eliminated ssa bbs).1 (ssa.flagsAfter (untilBranch exit bb.insns) cur)
        s.1.regs s'.1.regs ∧
      Loaded (eliminated ssa bbs).1 bb.id s.1.regs s'.1.regs := by
  have hbranches : ∀ i ∈ untilBranch exit bb.branches, i.isBranch = true :=
    fun i => isBranch_of_mem_untilBranch
  have hflags : ssa.flagsAfter (untilBranch exit bb.insns) cur = ssa.flagsAfter bb.body cur := by
    rw [← flagsAfter_code, code_untilBranch_insns h hbb, flagsAfter_append, flagsAfter_phis,
      BB.plain, flagsAfter_append, flagsAfter_branches ssa hbranches]
  rw [← insnsLastFlags_code, code_untilBranch_insns h hbb, insnsLastFlags_append, flagsAfter_phis,
    BB.plain, insnsLastFlags_append] at hcur
  obtain ⟨-, hcurBody, hcurBranches⟩ := hcur
  obtain ⟨hreads, hrest, hafter⟩ := SameRegs.runInsns h exec
    (fun i => isPlainInsn_of_mem_body)
    (fun i hi => h.defined bb hbb i (List.mem_of_mem_filter hi)) hcurBody rest hsame
  obtain ⟨hleft, hloaded⟩ := hafter.leave h bb.id
  have hdefined : ∀ i ∈ untilBranch exit bb.branches, ∀ o ∈ i.registers, ssa.Defined o :=
    fun i hi => h.defined bb hbb i (List.mem_of_mem_filter (untilBranch_subset _ _ i hi))
  have hbranchReads := (SameRegs.runInsns h exec (fun i hi => .inr (hbranches i hi)) hdefined
    hcurBranches (runInsns exec bb.body ⟨regs, rest⟩).1.rest hleft).1
  simp only [h.runInsns_eq hbb, ht.runInsns_eq h hbb, hflags]
  refine ⟨?_, hrest, hleft, hloaded⟩
  rw [hreads, leaveState, hrest]
  exact congrArg _ hbranchReads

lemma findBB_eq_some {id : Nat} {bb : BB α} (h : findBB bbs id = some bb) :
    bb ∈ bbs ∧ bb.id = id := by
  refine ⟨List.mem_of_find?_eq_some h, ?_⟩
  simpa using List.find?_some h

lemma exists_translated {bbs₀ bbs' : List (BB α)}
    (ht : List.Forall₂ (Translated ssa bbs) bbs₀ bbs') {id : Nat} {bb : BB α}
    (h : findBB bbs₀ id = some bb) : ∃ bb', findBB bbs' id = some bb' ∧ Translated ssa bbs bb bb' := by
  induction ht with
  | nil => simp [findBB] at h
  | @cons b b' bs bs' hb _ ih =>
    by_cases hid : b.id = id
    · obtain rfl : b = bb := by simpa [findBB, hid] using h
      exact ⟨b', by simp [findBB, hb.id_eq, hid], hb⟩
    · obtain ⟨bb', hfind, htrans⟩ := ih (by simpa [findBB, hid] using h)
      exact ⟨bb', by simpa [findBB, hb.id_eq, hid] using hfind, htrans⟩

lemma Translated.phis_eq (h : SSAForm ssa bbs) {bb bb' : BB α} (hbb : bb ∈ bbs)
    (ht : Translated ssa bbs bb bb') : bb'.phis = [] := by
  rw [List.eq_nil_iff_forall_not_mem]
  intro p hp
  have hmem : .phi p ∈ code bb'.insns := mem_code.2 ⟨phi_mem_insns hp, rfl⟩
  rw [ht.code_eq] at hmem
  obtain ⟨i, hi, heq⟩ := List.mem_map.1 hmem
  have hphi : i.phi? = some p := by
    rw [← phi?_mapRegs ssa.outOpnd, heq]
    rfl
  simp only [List.mem_append, List.mem_map] at hi
  rcases hi with ((⟨q, hq, rfl⟩ | hi) | hi) | hi
  · obtain ⟨e, -, -, hrep⟩ := h.repOf_eq hbb hq
    simp [hrep, createMov, Insn.phi?] at hphi
  · simp [not_phi_of_mem_body hi] at hphi
  · simp [not_phi_of_mem_movsOf hi] at hphi
  · simp [not_phi_of_mem_branches hi] at hphi

lemma runPath_eq (h : SSAForm ssa bbs) {bbs' : List (BB α)}
    (ht : List.Forall₂ (Translated ssa bbs) bbs bbs') (exec : Exec α μ)
    {path : List (Nat × Nat)} {pred : Option Nat} (rest : μ)
    (hpath : IsPath bbs pred path) (hcur : ssa.PathLastFlags bbs path cur)
    (hsame : SameRegs ssa (eliminated ssa bbs).1 cur regs regs')
    (hloaded : ∀ p, pred = some p → Loaded (eliminated ssa bbs).1 p regs regs') :
    (runPath exec bbs' pred path ⟨regs', rest⟩).2 =
      (runPath exec bbs pred path ⟨regs, rest⟩).2 := by
  induction path generalizing pred cur regs regs' rest with
  | nil => rfl
  | cons step path ih =>
    obtain ⟨id, exit⟩ := step
    obtain ⟨bb, hfind, hpreds, hnone, hpath⟩ := hpath
    obtain ⟨bb', hfind', htrans⟩ := exists_translated ht hfind
    obtain ⟨hbb, hid⟩ := findBB_eq_some hfind
    obtain ⟨hcurInsns, hcurPath⟩ := hcur bb hfind
    have henter' : bb'.enter pred regs' = regs' := by
      cases pred with
      | none => rfl
      | some p =>
        funext r
        simp [BB.enter, BB.phiMoves, htrans.phis_eq h hbb, RegMove.parallel]
    have henter : SameRegs ssa (eliminated ssa bbs).1 cur (bb.enter pred regs)
        (RegMove.runAll (headMoves ssa bbs bb) regs') := by
      cases pred with
      | none => simpa [BB.enter, headMoves, hnone rfl] using hsame
      | some p => exact hsame.enter h hbb (hpreds p rfl) (hloaded p rfl)
    obtain ⟨hreads, hrest, hafter, hloaded'⟩ := htrans.run h hbb exec exit rest henter
      hcurInsns
    have hnext := ih
        (runInsns exec (untilBranch exit bb.insns) ⟨bb.enter pred regs, rest⟩).1.rest hpath hcurPath
        hafter (by
      rintro p ⟨⟩
      exact hid ▸ hloaded')
    simp only [runPath, hfind, hfind', henter']
    rw [hreads]
    congr 1
    rw [← hnext, ← hrest]

lemma AllMoved.translated {bbs₁ : List (BB α)}
    (hmoved : AllMoved (repOf (eliminated ssa bbs).1) (movsOf (eliminated ssa bbs).1) bbs bbs₁) :
    List.Forall₂ (Translated ssa bbs) bbs (bbs₁.map ssa.outBB) := by
  rw [List.forall₂_map_right_iff]
  refine List.Forall₂.imp (fun bb bb' hbb => ⟨hbb.id_eq, ?_⟩) hmoved
  rw [CGSSAInfo.outBB, code_map_mapRegs, hbb.code_eq]

/-- A function in SSA form without dead versions is translated, and along every path that reads
each version of the flags before the next one is defined, the instructions that are no phis read
what they read when the phis of a block are evaluated at once. -/
theorem translateTSSAToCSSA_reads (h : SSAForm ssa bbs) (hdead : NoDeadVersion ssa bbs) :
    ∃ bbs', translateTSSAToCSSA ssa bbs = some bbs' ∧ (∀ bb ∈ bbs', bb.phis = []) ∧
      ∀ (μ : Type) (exec : Exec α μ) (path : List (Nat × Nat)) (s : State μ),
        IsPath bbs none path → ssa.PathLastFlags bbs path none →
          (runPath exec bbs' none path s).2 = (runPath exec bbs none path s).2 := by
  obtain ⟨bbs₁, heliminate, hmoved⟩ := h.eliminatePhis_eq
  have ht := hmoved.translated
  have haccepted : ∀ bb' ∈ bbs₁, ∀ i ∈ bb'.insns,
      i.phi? = none ∧ ∀ o ∈ i.registers, ssa.Accepted o := by
    intro bb' hbb' i hi
    obtain ⟨n, hn, rfl⟩ := List.getElem_of_mem hbb'
    have hlen := List.Forall₂.length_eq hmoved
    have hn' : n < bbs.length := hlen ▸ hn
    have hpair := (List.forall₂_iff_get.1 hmoved).2 n hn' hn
    exact h.accepted_of_moved hdead (List.getElem_mem hn') hpair hi
  refine ⟨bbs₁.map ssa.outBB, ?_, ?_, ?_⟩
  · rw [translateTSSAToCSSA, heliminate]
    exact reCreateBBs_eq h.noDefVRegs_eq (fun bb' hbb' i hi => (haccepted bb' hbb' i hi).1)
      (fun bb' hbb' i hi => (haccepted bb' hbb' i hi).2) _
  · intro bb' hbb'
    obtain ⟨n, hn, rfl⟩ := List.getElem_of_mem hbb'
    have hn' : n < bbs.length := (List.Forall₂.length_eq ht) ▸ hn
    exact ((List.forall₂_iff_get.1 ht).2 n hn' hn).phis_eq h (List.getElem_mem hn')
  · intro μ exec path s hpath hcur
    refine runPath_eq h ht exec _ hpath hcur ?_ (by simp)
    exact ⟨fun r _ => rfl, by simp, by simp⟩

/-! ### Swapped phis, dead versions and two versions of the flags -/

def intReg (n : Nat) : RegOperand := ⟨n, 64, .kRegTyInt, true⟩

def flagsReg (n : Nat) : RegOperand := ⟨n, 32, .kRegTyCc, true⟩

/-- A version of the register `originalRegNO` with an ordinary definition. -/
def versionOf (originalRegNO : Nat) (useInsns : List Nat) : Option VRegVersion :=
  some ⟨originalRegNO, some {}, useInsns⟩

/-- A phi of a loop of one block, which is entered from the block 1. -/
def loopPhi (dest init next : Nat) : PhiInsn :=
  ⟨intReg dest, [(1, intReg init), (2, intReg next)]⟩

/-- Two phis that feed each other around a loop. -/
def swapBBs : List (BB Nat) :=
  [⟨1, .kBBFallthru, [.machine 0 {} [intReg 100, intReg 101] []], [], []⟩,
    ⟨2, .kBBOther, [.phi (loopPhi 102 100 103), .phi (loopPhi 103 101 102),
      .branch 1 [intReg 102, intReg 103]], [loopPhi 102 100 103, loopPhi 103 101 102], [1, 2]⟩]

def swapSSA : CGSSAInfo :=
  ⟨[(100, versionOf 70 [1]), (101, versionOf 71 [1]), (102, versionOf 70 [1]),
    (103, versionOf 71 [1])], [], 100⟩

/-- A function of one block. -/
def straightBB (is : List (Insn Nat)) : BB Nat := ⟨1, .kBBFallthru, is, [], []⟩

/-- An instruction whose result is not used. -/
def deadBBs : List (BB Nat) := [straightBB [.machine 0 {} [intReg 100] []]]

def deadSSA : CGSSAInfo := ⟨[(100, versionOf 70 [])], [], 100⟩

/-- Two versions of the flags are defined before the first one is read. -/
def flagsBBs : List (BB Nat) :=
  [straightBB [.machine 7 {} [flagsReg 100] [], .machine 8 {} [flagsReg 101] [],
    .machine 9 {} [] [flagsReg 100, flagsReg 101]]]

/-- The same with the flags register. -/
def flagsOut : List (BB Nat) :=
  let nzcv : RegOperand := ⟨kRFLAG, 32, .kRegTyCc, false⟩
  [straightBB [.machine 7 {} [nzcv] [], .machine 8 {} [nzcv] [], .machine 9 {} [] [nzcv, nzcv]]]

def flagsSSA : CGSSAInfo := ⟨[(100, versionOf kRFLAG [3]), (101, versionOf kRFLAG [3])], [], 100⟩

lemma defined_of_version {o : RegOperand} (hform : o.isSSAForm = true) (n : Nat) (us : List Nat)
    (h : ssa.findSSAVersion o.regNO = versionOf n us) : ssa.Defined o := by
  rw [CGSSAInfo.Defined, if_pos hform]
  exact ⟨_, {}, h, rfl, rfl, rfl⟩

lemma le_of_keys (h : ∀ r ∈ ssa.occupied, 100 ≤ r) :
    ∀ r v, ssa.findSSAVersion r = some v → 100 ≤ r :=
  fun _ _ hv => h _ (mem_occupied hv)

lemma ssaForm_of_straight {is : List (Insn Nat)} (his : ∀ i ∈ is, i.isMachine = true)
    (hdefined : ∀ i ∈ is, ∀ o ∈ i.registers, ssa.Defined o) (hnoDef : ssa.noDefVRegs = [])
    (hbase : 100 ≤ ssa.ssaRegNObase) (hkeys : ∀ r ∈ ssa.occupied, 100 ≤ r) :
    SSAForm ssa [straightBB is] := by
  have hkind : ∀ i ∈ is, i.isComment = false ∧ i.phi? = none ∧ i.isBranch = false := by
    intro i hi
    cases i with
    | machine o desc ds us => exact ⟨rfl, rfl, rfl⟩
    | phi p => exact absurd (his _ hi) (by simp [Insn.isMachine])
    | phiMov o d s => exact absurd (his _ hi) (by simp [Insn.isMachine])
    | branch o us => exact absurd (his _ hi) (by simp [Insn.isMachine])
    | comment => exact absurd (his _ hi) (by simp [Insn.isMachine])
  have hcode : code (straightBB is).insns = is :=
    List.filter_eq_self.2 fun i hi => by simp [(hkind i hi).1]
  have hphis : (straightBB is).phis = [] :=
    List.filterMap_eq_nil_iff.2 fun i hi => (hkind i hi).2.1
  have hbody : (straightBB is).body = is := List.filter_eq_self.2 his
  have hbranches : (straightBB is).branches = [] :=
    List.filter_eq_nil_iff.2 fun i hi => by simp [(hkind i hi).2.2]
  constructor
  · simp
  · simp [hcode, hphis, hbody, hbranches]
  · simp [hbranches]
  · simp only [List.mem_singleton, forall_eq, hphis]
    exact fun _ => Iff.rfl
  · simp [phisOf, straightBB]
  · simp [hphis]
  · simp [hphis]
  · simp [hphis]
  · simp [hphis]
  · simp [hphis]
  · simp only [List.mem_singleton, forall_eq]
    exact hdefined
  · exact hnoDef
  · exact hbase
  · exact le_of_keys hkeys

lemma ssaForm_dead : SSAForm deadSSA deadBBs := by
  refine ssaForm_of_straight (by decide) ?_ rfl (by decide) (by decide)
  simp only [List.mem_singleton, forall_eq, Insn.registers, List.append_nil]
  exact defined_of_version rfl 70 [] rfl

lemma ssaForm_flags : SSAForm flagsSSA flagsBBs := by
  refine ssaForm_of_straight (by decide) ?_ rfl (by decide) (by decide)
  have h100 : flagsSSA.Defined (flagsReg 100) :=
    defined_of_version rfl kRFLAG [3] rfl
  have h101 : flagsSSA.Defined (flagsReg 101) :=
    defined_of_version rfl kRFLAG [3] rfl
  simp [Insn.registers, h100, h101]

lemma ssaForm_swap : SSAForm swapSSA swapBBs where
  ids_nodup := by decide
  code_eq := by
    simp only [swapBBs, List.mem_cons, List.not_mem_nil, or_false, forall_eq_or_imp, forall_eq]
    exact ⟨rfl, rfl⟩
  fallthru := by
    simp only [swapBBs, List.mem_cons, List.not_mem_nil, or_false, forall_eq_or_imp, forall_eq]
    exact ⟨fun _ => rfl, nofun⟩
  mem_phiInsns := by
    have hsame : ∀ bb ∈ swapBBs, bb.phis = bb.phiInsns := by
      simp only [swapBBs, List.mem_cons, List.not_mem_nil, or_false, forall_eq_or_imp, forall_eq]
      exact ⟨rfl, rfl⟩
    intro bb hbb p
    rw [hsame bb hbb]
  phi_dests_nodup := by decide
  phiList_nodup := by decide
  preds_subset := by decide
  phi_pred := by
    have hpred : ∀ bb ∈ swapBBs, ∀ p ∈ bb.phis, ∀ o ∈ p.phiList, o.1 = 1 ∨ o.1 = 2 := by decide
    intro bb hbb p hp o ho
    rcases hpred bb hbb p hp o ho with h | h
    · exact ⟨_, List.mem_cons_self, h.symm, fun hkind => absurd rfl hkind⟩
    · exact ⟨_, List.mem_cons_of_mem _ List.mem_cons_self, h.symm, nofun⟩
  phi_dest := by
    unfold CGSSAInfo.PhiRegister
    decide
  phi_opnd := by
    unfold CGSSAInfo.PhiRegister
    decide
  defined := by
    have h100 : swapSSA.Defined (intReg 100) := defined_of_version rfl 70 [1] rfl
    have h101 : swapSSA.Defined (intReg 101) := defined_of_version rfl 71 [1] rfl
    have h102 : swapSSA.Defined (intReg 102) := defined_of_version rfl 70 [1] rfl
    have h103 : swapSSA.Defined (intReg 103) := defined_of_version rfl 71 [1] rfl
    simp [swapBBs, Insn.registers, loopPhi, h100, h101, h102, h103]
  noDefVRegs_eq := rfl
  le_ssaRegNObase := by decide
  le_of_version := le_of_keys (by decide)

lemma noDeadVersion_of_versions
    (h : ∀ p ∈ ssa.allSSAOperands, ∀ v, p.2 = some v → v.useInsns ≠ []) :
    NoDeadVersion ssa bbs := by
  intro bb _ i _ o _ _ v hv
  unfold CGSSAInfo.findSSAVersion at hv
  cases hlookup : ssa.allSSAOperands.lookup o.regNO with
  | none => simp [hlookup] at hv
  | some v' =>
    obtain ⟨as, bs, hsplit, -⟩ := List.lookup_eq_some_iff.1 hlookup
    exact h (o.regNO, v') (by simp [hsplit]) v (by simpa [hlookup] using hv)

theorem translateTSSAToCSSA_reads_swap :
    ∃ bbs', translateTSSAToCSSA swapSSA swapBBs = some bbs' ∧ (∀ bb ∈ bbs', bb.phis = []) ∧
      ∀ (μ : Type) (exec : Exec Nat μ) (path : List (Nat × Nat)) (s : State μ),
        IsPath swapBBs none path → swapSSA.PathLastFlags swapBBs path none →
          (runPath exec bbs' none path s).2 = (runPath exec swapBBs none path s).2 :=
  translateTSSAToCSSA_reads ssaForm_swap (noDeadVersion_of_versions (by simp [swapSSA, versionOf]))

/-- A dead version ends the compilation, and what reads the first of two versions of the flags
reads the second one. -/
theorem dead_version_and_flags_not_translated :
    (SSAForm deadSSA deadBBs ∧ translateTSSAToCSSA deadSSA deadBBs = none) ∧
      SSAForm flagsSSA flagsBBs ∧ IsPath flagsBBs none [(1, 0)] ∧
      ∃ bbs', translateTSSAToCSSA flagsSSA flagsBBs = some bbs' ∧
        (runPath (fun o _ _ => ([o], ())) bbs' none [(1, 0)] ⟨fun _ => 0, ()⟩).2 ≠
          (runPath (fun o _ _ => ([o], ())) flagsBBs none [(1, 0)] ⟨fun _ => 0, ()⟩).2 := by
  refine ⟨⟨ssaForm_dead, rfl⟩, ssaForm_flags, ?_, flagsOut, rfl, ?_⟩
  · exact ⟨_, rfl, nofun, fun _ => rfl, trivial⟩
  · decide

end PhiElim
end Maple
