import Maple.BE.PhiElim.Eliminate

/-!
# The registers out of SSA form

In a function in SSA form without dead versions the second loop of the pass gives every register
its own number again, and the flags register to its versions.
-/

namespace Maple
namespace PhiElim

variable {α : Type}

/-- The operand that `GetCGVirtualOpearnd` makes. -/
def CGSSAInfo.outOpnd (ssa : CGSSAInfo) (o : RegOperand) : RegOperand :=
  if o.isSSAForm then
    { o with regNO := if ssa.isFlagsNO o.regNO then kRFLAG else o.regNO, isSSAForm := false }
  else o

def Insn.mapRegs (f : RegOperand → RegOperand) : Insn α → Insn α
  | .phi p => .phi p
  | .phiMov o d s => .phiMov o (f d) (f s)
  | .machine o desc defs uses => .machine o desc (defs.map f) (uses.map f)
  | .branch o uses => .branch o (uses.map f)
  | .comment => .comment

@[simp] lemma mapRegs_phiMov (f : RegOperand → RegOperand) (o : MovOp) (d s : RegOperand) :
    (.phiMov o d s : Insn α).mapRegs f = .phiMov o (f d) (f s) := rfl

@[simp] lemma mapRegs_machine (f : RegOperand → RegOperand) (o : α) (desc : InsnDesc)
    (defs uses : List RegOperand) :
    (.machine o desc defs uses : Insn α).mapRegs f =
      .machine o desc (defs.map f) (uses.map f) := rfl

@[simp] lemma mapRegs_branch (f : RegOperand → RegOperand) (o : α) (uses : List RegOperand) :
    (.branch o uses : Insn α).mapRegs f = .branch o (uses.map f) := rfl

/-- A register that the pass accepts: if it is in SSA form, its version has a use and a definition
of the plain kind. -/
def CGSSAInfo.Accepted (ssa : CGSSAInfo) (o : RegOperand) : Prop :=
  o.isSSAForm → ∃ v d, ssa.findSSAVersion o.regNO = some v ∧ v.defInsn = some d ∧
    d.bothDefUse = none ∧ d.isAsm = false ∧ v.useInsns ≠ []

lemma recreateOpnd_eq {ssa : CGSSAInfo} (hnoDef : ssa.noDefVRegs = []) {o : RegOperand}
    (ho : ssa.Accepted o) (desc : InsnDesc) (st : Temps) :
    recreateOpnd ssa desc o st = some (ssa.outOpnd o, st) := by
  by_cases hform : o.isSSAForm
  · obtain ⟨v, d, hv, hd, hboth, hasm, huses⟩ := ho hform
    have hflags : ssa.isFlagsNO o.regNO = decide (v.originalRegNO = kRFLAG) := by
      simp [CGSSAInfo.isFlagsNO, hv]
    simp [recreateOpnd, getCGVirtualOpearnd, CGSSAInfo.outOpnd, hform, hv, hd, hboth, hasm, huses,
      hnoDef, hflags]
  · simp [recreateOpnd, CGSSAInfo.outOpnd, hform]

lemma recreateOpnds_eq {ssa : CGSSAInfo} (hnoDef : ssa.noDefVRegs = []) {os : List RegOperand}
    (hos : ∀ o ∈ os, ssa.Accepted o) (desc : InsnDesc) (st : Temps) :
    recreateOpnds ssa desc os st = some (os.map ssa.outOpnd, st) := by
  induction os with
  | nil => rfl
  | cons o os ih =>
    simp only [List.mem_cons, forall_eq_or_imp] at hos
    simp [recreateOpnds, ih hos.2, recreateOpnd_eq hnoDef hos.1]

lemma reCreateRegOperand_eq {ssa : CGSSAInfo} (hnoDef : ssa.noDefVRegs = []) {i : Insn α}
    (hphi : i.phi? = none) (hi : ∀ o ∈ i.registers, ssa.Accepted o) (st : Temps) :
    reCreateRegOperand ssa i st = some (i.mapRegs ssa.outOpnd, st) := by
  cases i with
  | phi p => simp [Insn.phi?] at hphi
  | phiMov o d s =>
    have hd := hi d (by simp [Insn.registers])
    have hs := hi s (by simp [Insn.registers])
    simp [reCreateRegOperand, recreateOpnd_eq hnoDef hd, recreateOpnd_eq hnoDef hs]
  | machine o desc defs uses =>
    have hdefs : ∀ o ∈ defs, ssa.Accepted o := fun o ho => hi o (List.mem_append_left _ ho)
    have huses : ∀ o ∈ uses, ssa.Accepted o := fun o ho => hi o (List.mem_append_right _ ho)
    simp [reCreateRegOperand, recreateOpnds_eq hnoDef hdefs, recreateOpnds_eq hnoDef huses]
  | branch o uses =>
    have huses : ∀ o ∈ uses, ssa.Accepted o := hi
    simp [reCreateRegOperand, recreateOpnds_eq hnoDef huses]
  | comment => rfl

lemma reCreateInsns_eq {ssa : CGSSAInfo} (hnoDef : ssa.noDefVRegs = []) {is : List (Insn α)}
    (hphi : ∀ i ∈ is, i.phi? = none) (his : ∀ i ∈ is, ∀ o ∈ i.registers, ssa.Accepted o)
    (st : Temps) :
    reCreateInsns ssa is st = some (is.map (·.mapRegs ssa.outOpnd), st) := by
  induction is with
  | nil => rfl
  | cons i is ih =>
    simp only [List.mem_cons, forall_eq_or_imp] at hphi his
    simp [reCreateInsns, reCreateRegOperand_eq hnoDef hphi.1 his.1, ih hphi.2 his.2]

def CGSSAInfo.outBB (ssa : CGSSAInfo) (bb : BB α) : BB α :=
  { bb with
    insns := bb.insns.map (·.mapRegs ssa.outOpnd)
    phiInsns := if bb.insns.any (·.isMachineInstruction) then [] else bb.phiInsns }

lemma reCreateBBs_eq {ssa : CGSSAInfo} (hnoDef : ssa.noDefVRegs = []) {bbs : List (BB α)}
    (hphi : ∀ bb ∈ bbs, ∀ i ∈ bb.insns, i.phi? = none)
    (hbbs : ∀ bb ∈ bbs, ∀ i ∈ bb.insns, ∀ o ∈ i.registers, ssa.Accepted o) (st : Temps) :
    reCreateBBs ssa bbs st = some (bbs.map ssa.outBB) := by
  induction bbs with
  | nil => rfl
  | cons bb bbs ih =>
    simp only [List.mem_cons, forall_eq_or_imp] at hphi hbbs
    simp [reCreateBBs, reCreateInsns_eq hnoDef hphi.1 hbbs.1, ih hphi.2 hbbs.2, CGSSAInfo.outBB]

/-! ### What the first loop leaves -/

section

variable {ssa : CGSSAInfo} {bbs : List (BB α)}

lemma mem_eliminated {e : Eliminated} (he : e ∈ (eliminated ssa bbs).1) :
    (e.id, e.phi) ∈ phisOf bbs := by
  rw [← map_assignTemps ssa (phisOf bbs)]
  exact List.mem_map_of_mem he

variable (ssa) in
lemma exists_eliminated {p : Nat × PhiInsn} (hp : p ∈ phisOf bbs) :
    ∃ e ∈ (eliminated ssa bbs).1, e.id = p.1 ∧ e.phi = p.2 := by
  rw [← map_assignTemps ssa (phisOf bbs)] at hp
  obtain ⟨e, he, rfl⟩ := List.mem_map.1 hp
  exact ⟨e, he, rfl, rfl⟩

lemma SSAForm.exists_of_eliminated (h : SSAForm ssa bbs) {e : Eliminated}
    (he : e ∈ (eliminated ssa bbs).1) : ∃ bb ∈ bbs, bb.id = e.id ∧ e.phi ∈ bb.phis := by
  obtain ⟨bb, hbb, hid, hphi⟩ := mem_phisOf.1 (mem_eliminated he)
  exact ⟨bb, hbb, hid, (h.mem_phiInsns bb hbb _).1 hphi⟩

lemma SSAForm.repOf_eq (h : SSAForm ssa bbs) {bb : BB α} (hbb : bb ∈ bbs) {q : PhiInsn}
    (hq : q ∈ bb.phis) :
    ∃ e ∈ (eliminated ssa bbs).1, e.phi = q ∧
      (repOf (eliminated ssa bbs).1 bb.id q : Insn α) = createMov q.dest e.temp := by
  have hmem : (bb.id, q) ∈ phisOf bbs :=
    mem_phisOf.2 ⟨bb, hbb, rfl, (h.mem_phiInsns bb hbb q).2 hq⟩
  obtain ⟨e, he, hid, rfl⟩ := exists_eliminated ssa hmem
  cases hfind : (eliminated ssa bbs).1.find? fun e' =>
      e'.id = bb.id ∧ e'.phi.dest.regNO = e.phi.dest.regNO with
  | none =>
    have := List.find?_eq_none.1 hfind e he
    simp [hid] at this
  | some e' =>
    have he' := List.mem_of_find?_eq_some hfind
    have hdest : e'.phi.dest.regNO = e.phi.dest.regNO := by
      have := List.find?_some hfind
      simp only [decide_eq_true_eq] at this
      exact this.2
    have hsame := List.inj_on_of_nodup_map h.phi_dests_nodup (mem_eliminated he')
      (mem_eliminated he) hdest
    have hphi : e'.phi = e.phi := (Prod.mk.inj hsame).2
    refine ⟨e', he', hphi, ?_⟩
    rw [repOf, hfind]
    simp only [hphi]

lemma accepted_of_temp {e : Eliminated} (he : e ∈ (eliminated ssa bbs).1) :
    ssa.Accepted e.temp := by
  intro hform
  simp [temp_not_isSSAForm_of_mem he] at hform

lemma mem_code {is : List (Insn α)} {i : Insn α} : i ∈ code is ↔ i ∈ is ∧ i.isComment = false := by
  simp [code]

lemma phi_mem_insns {bb : BB α} {p : PhiInsn} (hp : p ∈ bb.phis) : .phi p ∈ bb.insns := by
  obtain ⟨i, hi, hphi⟩ := List.mem_filterMap.1 hp
  cases i <;> simp [Insn.phi?] at hphi
  exact hphi ▸ hi

lemma SSAForm.accepted (h : SSAForm ssa bbs) (hdead : NoDeadVersion ssa bbs) {bb : BB α}
    (hbb : bb ∈ bbs) {i : Insn α} (hi : i ∈ bb.insns) : ∀ o ∈ i.registers, ssa.Accepted o := by
  intro o ho hform
  have hdefined := h.defined bb hbb i hi o ho
  rw [CGSSAInfo.Defined, if_pos hform] at hdefined
  obtain ⟨v, d, hv, hd, hboth, hasm⟩ := hdefined
  exact ⟨v, d, hv, hd, hboth, hasm, hdead bb hbb i hi o ho hform v hv⟩

lemma SSAForm.accepted_of_moved (h : SSAForm ssa bbs) (hdead : NoDeadVersion ssa bbs)
    {bb bb' : BB α} (hbb : bb ∈ bbs)
    (hmoved : Moved (repOf (eliminated ssa bbs).1 bb.id) (movsOf (eliminated ssa bbs).1 bb.id) bb bb')
    {i : Insn α} (hi : i ∈ bb'.insns) :
    i.phi? = none ∧ ∀ o ∈ i.registers, ssa.Accepted o := by
  by_cases hcomment : i.isComment
  · cases i <;> simp [Insn.isComment] at hcomment
    simp [Insn.phi?, Insn.registers]
  · have hcode : i ∈ code bb'.insns := mem_code.2 ⟨hi, by simpa using hcomment⟩
    rw [hmoved.code_eq, List.mem_append, List.mem_append, List.mem_append] at hcode
    rcases hcode with ((hrep | hbody) | hmov) | hbranch
    · obtain ⟨q, hq, rfl⟩ := List.mem_map.1 hrep
      obtain ⟨e, he, rfl, heq⟩ := h.repOf_eq hbb hq
      rw [heq]
      refine ⟨rfl, ?_⟩
      simp only [createMov, Insn.registers, List.mem_cons, List.not_mem_nil, or_false,
        forall_eq_or_imp, forall_eq]
      exact ⟨h.accepted hdead hbb (phi_mem_insns hq) _ (by simp [Insn.registers]),
        accepted_of_temp he⟩
    · exact ⟨not_phi_of_mem_body hbody, h.accepted hdead hbb (List.mem_of_mem_filter hbody)⟩
    · obtain ⟨e, he, hmov⟩ := List.mem_flatMap.1 hmov
      obtain ⟨o, ho, rfl⟩ := List.mem_map.1 hmov
      obtain ⟨bb₁, hbb₁, -, hphi⟩ := h.exists_of_eliminated he
      refine ⟨rfl, ?_⟩
      simp only [createMov, Insn.registers, List.mem_cons, List.not_mem_nil, or_false,
        forall_eq_or_imp, forall_eq]
      refine ⟨accepted_of_temp he, h.accepted hdead hbb₁ (phi_mem_insns hphi) _ ?_⟩
      exact List.mem_cons_of_mem _ (List.mem_map_of_mem (List.mem_of_mem_filter ho))
    · exact ⟨not_phi_of_mem_branches hbranch, h.accepted hdead hbb (List.mem_of_mem_filter hbranch)⟩

end

end PhiElim
end Maple
