import Maple.BE.PhiElim.Recreate

/-!
# The registers of the two functions

On the way through a block the translated function has in every register that is no version of the
flags what the function in SSA form has there, and in the flags register the version defined last.
-/

namespace Maple
namespace PhiElim

variable {α μ : Type}

/-! ### Runs of code -/

lemma runInsns_append (exec : Exec α μ) (as bs : List (Insn α)) (s : State μ) :
    runInsns exec (as ++ bs) s =
      ((runInsns exec bs (runInsns exec as s).1).1,
        (runInsns exec as s).2 ++ (runInsns exec bs (runInsns exec as s).1).2) := by
  induction as generalizing s with
  | nil => rfl
  | cons a as ih => simp [runInsns, ih]

lemma runInsns_code (exec : Exec α μ) (is : List (Insn α)) (s : State μ) :
    runInsns exec (code is) s = runInsns exec is s := by
  induction is generalizing s with
  | nil => rfl
  | cons i is ih =>
    by_cases hi : i.isComment
    · cases i <;> simp [Insn.isComment] at hi
      rw [code_comment, ih]
      rfl
    · rw [code_cons (by simpa using hi), runInsns, runInsns, ih]

lemma runInsns_phis (exec : Exec α μ) (ps : List PhiInsn) (s : State μ) :
    runInsns exec (ps.map .phi) s = (s, []) := by
  induction ps with
  | nil => rfl
  | cons p ps ih =>
    rw [List.map_cons, runInsns]
    simp [Insn.run, Insn.reads, ih]

def Insn.move? : Insn α → Option (RegMove Nat Nat)
  | .phiMov o d s => some (phiMove o d s)
  | _ => none

lemma runInsns_moves (exec : Exec α μ) {is : List (Insn α)} (h : ∀ i ∈ is, i.move?.isSome)
    (s : State μ) :
    runInsns exec is s = ({ s with regs := RegMove.runAll (is.filterMap Insn.move?) s.regs }, []) := by
  induction is generalizing s with
  | nil => rfl
  | cons i is ih =>
    simp only [List.mem_cons, forall_eq_or_imp] at h
    cases i <;> simp [Insn.move?] at h
    rw [runInsns, ih h]
    rfl

lemma runInsns_branches (exec : Exec α μ) {is : List (Insn α)} (h : ∀ i ∈ is, i.isBranch = true)
    (s : State μ) : (runInsns exec is s).1 = s := by
  induction is generalizing s with
  | nil => rfl
  | cons i is ih =>
    simp only [List.mem_cons, forall_eq_or_imp] at h
    cases i <;> simp [Insn.isBranch] at h
    exact ih h s

lemma untilBranch_nil (exit : Nat) : untilBranch exit ([] : List (Insn α)) = [] := by
  cases exit <;> rfl

lemma untilBranch_cons {i : Insn α} (hi : i.isBranch = false) (exit : Nat) (is : List (Insn α)) :
    untilBranch exit (i :: is) = i :: untilBranch exit is := by
  cases i <;> simp [Insn.isBranch] at hi <;> cases exit <;> rfl

lemma code_untilBranch (exit : Nat) (is : List (Insn α)) :
    code (untilBranch exit is) = untilBranch exit (code is) := by
  induction is generalizing exit with
  | nil => simp [untilBranch_nil]
  | cons i is ih =>
    by_cases hbranch : i.isBranch
    · cases i <;> simp [Insn.isBranch] at hbranch
      rw [code_cons rfl]
      cases exit with
      | zero => rfl
      | succ exit => rw [untilBranch, untilBranch, code_cons rfl, ih]
    · rw [untilBranch_cons (by simpa using hbranch)]
      by_cases hcomment : i.isComment
      · cases i <;> simp [Insn.isComment] at hcomment
        rw [code_comment, code_comment, ih]
      · rw [code_cons (by simpa using hcomment), code_cons (by simpa using hcomment),
          untilBranch_cons (by simpa using hbranch), ih]

lemma untilBranch_append {pre : List (Insn α)} (hpre : ∀ i ∈ pre, i.isBranch = false) (exit : Nat)
    (brs : List (Insn α)) : untilBranch exit (pre ++ brs) = pre ++ untilBranch exit brs := by
  induction pre with
  | nil => rfl
  | cons i pre ih =>
    simp only [List.mem_cons, forall_eq_or_imp] at hpre
    rw [List.cons_append, untilBranch_cons hpre.1, ih hpre.2, List.cons_append]

lemma untilBranch_subset (exit : Nat) (is : List (Insn α)) :
    ∀ i ∈ untilBranch exit is, i ∈ is := by
  induction is generalizing exit with
  | nil => simp [untilBranch_nil]
  | cons j is ih =>
    intro i hi
    by_cases hj : j.isBranch
    · cases j <;> simp [Insn.isBranch] at hj
      cases exit with
      | zero => exact List.mem_cons.2 (.inl (List.mem_singleton.1 hi))
      | succ exit =>
        rcases List.mem_cons.1 hi with rfl | hi
        · exact List.mem_cons_self
        · exact List.mem_cons_of_mem _ (ih exit i hi)
    · rw [untilBranch_cons (by simpa using hj)] at hi
      rcases List.mem_cons.1 hi with rfl | hi
      · exact List.mem_cons_self
      · exact List.mem_cons_of_mem _ (ih exit i hi)

@[simp] lemma isComment_mapRegs (f : RegOperand → RegOperand) (i : Insn α) :
    (i.mapRegs f).isComment = i.isComment := by
  cases i <;> rfl

@[simp] lemma isBranch_mapRegs (f : RegOperand → RegOperand) (i : Insn α) :
    (i.mapRegs f).isBranch = i.isBranch := by
  cases i <;> rfl

@[simp] lemma phi?_mapRegs (f : RegOperand → RegOperand) (i : Insn α) :
    (i.mapRegs f).phi? = i.phi? := by
  cases i <;> rfl

lemma code_map_mapRegs (f : RegOperand → RegOperand) (is : List (Insn α)) :
    code (is.map (·.mapRegs f)) = (code is).map (·.mapRegs f) := by
  simp [code, List.filter_map, Function.comp_def]

lemma untilBranch_map_mapRegs (f : RegOperand → RegOperand) (exit : Nat) (is : List (Insn α)) :
    untilBranch exit (is.map (·.mapRegs f)) = (untilBranch exit is).map (·.mapRegs f) := by
  induction is generalizing exit with
  | nil => simp [untilBranch_nil]
  | cons i is ih =>
    by_cases hi : i.isBranch
    · cases i <;> simp [Insn.isBranch] at hi
      cases exit with
      | zero => rfl
      | succ exit => exact congrArg _ (ih exit)
    · rw [List.map_cons, untilBranch_cons (by simpa using hi), untilBranch_cons (by simpa using hi),
        List.map_cons, ih]

lemma flagsAfter_code (ssa : CGSSAInfo) (is : List (Insn α)) (cur : Option Nat) :
    ssa.flagsAfter (code is) cur = ssa.flagsAfter is cur := by
  induction is generalizing cur with
  | nil => rfl
  | cons i is ih =>
    by_cases hi : i.isComment
    · cases i <;> simp [Insn.isComment] at hi
      rw [code_comment, ih]
      rfl
    · rw [code_cons (by simpa using hi)]
      cases i <;> exact ih _

lemma insnsLastFlags_code (ssa : CGSSAInfo) (is : List (Insn α)) (cur : Option Nat) :
    ssa.InsnsLastFlags (code is) cur ↔ ssa.InsnsLastFlags is cur := by
  induction is generalizing cur with
  | nil => rfl
  | cons i is ih =>
    by_cases hi : i.isComment
    · cases i <;> simp [Insn.isComment] at hi
      rw [code_comment, ih]
      rfl
    · rw [code_cons (by simpa using hi)]
      cases i with
      | machine o desc ds us => exact and_congr_right fun _ => ih _
      | branch o us => exact and_congr_right fun _ => ih _
      | phi p => exact ih _
      | phiMov o d x => exact ih _
      | comment => exact ih _

lemma flagsAfter_append (ssa : CGSSAInfo) (as bs : List (Insn α)) (cur : Option Nat) :
    ssa.flagsAfter (as ++ bs) cur = ssa.flagsAfter bs (ssa.flagsAfter as cur) := by
  induction as generalizing cur with
  | nil => rfl
  | cons a as ih => cases a <;> exact ih _

lemma insnsLastFlags_append (ssa : CGSSAInfo) (as bs : List (Insn α)) (cur : Option Nat) :
    ssa.InsnsLastFlags (as ++ bs) cur ↔
      ssa.InsnsLastFlags as cur ∧ ssa.InsnsLastFlags bs (ssa.flagsAfter as cur) := by
  induction as generalizing cur with
  | nil => simp [CGSSAInfo.InsnsLastFlags, CGSSAInfo.flagsAfter]
  | cons a as ih =>
    cases a with
    | machine o desc ds us => exact (and_congr_right fun _ => ih _).trans and_assoc.symm
    | branch o us => exact (and_congr_right fun _ => ih _).trans and_assoc.symm
    | phi p => exact ih _
    | phiMov o d x => exact ih _
    | comment => exact ih _

lemma flagsAfter_phis (ssa : CGSSAInfo) (ps : List PhiInsn) (cur : Option Nat) :
    ssa.flagsAfter (ps.map (.phi : PhiInsn → Insn α)) cur = cur := by
  induction ps with
  | nil => rfl
  | cons p ps ih => exact ih

lemma flagsAfter_branches (ssa : CGSSAInfo) {is : List (Insn α)}
    (h : ∀ i ∈ is, i.isBranch = true) (cur : Option Nat) : ssa.flagsAfter is cur = cur := by
  induction is with
  | nil => rfl
  | cons i is ih =>
    simp only [List.mem_cons, forall_eq_or_imp] at h
    cases i <;> simp [Insn.isBranch] at h
    exact ih h

/-! ### The registers of the two functions -/

/-- A register that the function in SSA form uses and that is no version of the flags. -/
structure PlainReg (ssa : CGSSAInfo) (es : List Eliminated) (r : Nat) : Prop where
  not_flags : ssa.isFlagsNO r = false
  ne_kRFLAG : r ≠ kRFLAG
  ne_temp : ∀ e ∈ es, r ≠ e.temp.regNO

/-- The registers `regs` of the function in SSA form and `regs'` of the translated one, when `cur`
is the version of the flags defined last. -/
structure SameRegs (ssa : CGSSAInfo) (es : List Eliminated) (cur : Option Nat)
    (regs regs' : Nat → Nat) : Prop where
  plain : ∀ r, PlainReg ssa es r → regs' r = regs r
  cur_flags : ∀ c, cur = some c → ssa.isFlagsNO c = true
  flags : ∀ c, cur = some c → regs' kRFLAG = regs c

/-- The temporary registers have what the phis read on the edges from the block `pred`. -/
def Loaded (es : List Eliminated) (pred : Nat) (regs regs' : Nat → Nat) : Prop :=
  ∀ e ∈ es, ∀ o ∈ e.phi.phiList, o.1 = pred →
    regs' e.temp.regNO = (movOpOf e.phi.dest).eval (regs o.2.regNO)

section

variable {ssa : CGSSAInfo} {bbs : List (BB α)} {cur : Option Nat} {regs regs' : Nat → Nat}

lemma SSAForm.le_temp (h : SSAForm ssa bbs) {e : Eliminated} (he : e ∈ (eliminated ssa bbs).1) :
    100 ≤ e.temp.regNO := by
  have hle := le_temp_of_mem he
  have hbase := h.le_ssaRegNObase
  simp only at hle
  omega

lemma not_isFlagsNO_of_lt (h : SSAForm ssa bbs) {r : Nat} (hr : r < 100) :
    ssa.isFlagsNO r = false := by
  cases hv : ssa.findSSAVersion r with
  | none => simp [CGSSAInfo.isFlagsNO, hv]
  | some v =>
    have := h.le_of_version r v hv
    omega

lemma mem_occupied {r : Nat} {v : VRegVersion} (h : ssa.findSSAVersion r = some v) :
    r ∈ ssa.occupied := by
  unfold CGSSAInfo.findSSAVersion at h
  cases hlookup : ssa.allSSAOperands.lookup r with
  | none => simp [hlookup] at h
  | some v' =>
    obtain ⟨as, bs, hsplit, -⟩ := List.lookup_eq_some_iff.1 hlookup
    simp [CGSSAInfo.occupied, hsplit]

lemma SSAForm.plainReg (h : SSAForm ssa bbs) {o : RegOperand} (ho : ssa.Defined o)
    (hflags : ssa.isFlags o = false) : PlainReg ssa (eliminated ssa bbs).1 o.regNO := by
  by_cases hform : o.isSSAForm
  · rw [CGSSAInfo.Defined, if_pos hform] at ho
    obtain ⟨v, d, hv, -⟩ := ho
    have hle := h.le_of_version _ _ hv
    refine ⟨by simpa [CGSSAInfo.isFlags, hform] using hflags, ?_, ?_⟩
    · simp only [kRFLAG]
      omega
    · intro e he heq
      exact temp_notMem_of_mem he (heq ▸ mem_occupied hv)
  · rw [CGSSAInfo.Defined, if_neg hform] at ho
    refine ⟨not_isFlagsNO_of_lt h ho.1, ho.2, ?_⟩
    intro e he heq
    have := h.le_temp he
    omega

lemma outOpnd_of_not_flags {o : RegOperand} (hflags : ssa.isFlags o = false) :
    (ssa.outOpnd o).regNO = o.regNO := by
  by_cases hform : o.isSSAForm
  · have hno : ssa.isFlagsNO o.regNO = false := by simpa [CGSSAInfo.isFlags, hform] using hflags
    simp [CGSSAInfo.outOpnd, hform, hno]
  · simp [CGSSAInfo.outOpnd, hform]

lemma outOpnd_of_flags {o : RegOperand} (hflags : ssa.isFlags o = true) :
    (ssa.outOpnd o).regNO = kRFLAG := by
  simp only [CGSSAInfo.isFlags, Bool.and_eq_true] at hflags
  simp [CGSSAInfo.outOpnd, hflags.1, hflags.2]

lemma SameRegs.read (h : SSAForm ssa bbs) (hsame : SameRegs ssa (eliminated ssa bbs).1 cur regs regs')
    {o : RegOperand} (ho : ssa.Defined o) (hcur : ssa.isFlags o → cur = some o.regNO) :
    regs' (ssa.outOpnd o).regNO = regs o.regNO := by
  cases hflags : ssa.isFlags o with
  | false =>
    rw [outOpnd_of_not_flags hflags]
    exact hsame.plain _ (h.plainReg ho hflags)
  | true =>
    rw [outOpnd_of_flags hflags]
    exact hsame.flags _ (hcur hflags)

lemma SameRegs.values_eq (h : SSAForm ssa bbs)
    (hsame : SameRegs ssa (eliminated ssa bbs).1 cur regs regs') {uses : List RegOperand}
    (huses : ∀ o ∈ uses, ssa.Defined o) (hcur : ssa.LastFlags cur uses) :
    values regs' (uses.map ssa.outOpnd) = values regs uses := by
  rw [values, values, List.map_map]
  apply List.map_congr_left
  intro o ho
  exact hsame.read h (huses o ho) (hcur o ho)

lemma SameRegs.write (h : SSAForm ssa bbs)
    (hsame : SameRegs ssa (eliminated ssa bbs).1 cur regs regs') {d : RegOperand}
    (hd : ssa.Defined d) (v : Nat) :
    SameRegs ssa (eliminated ssa bbs).1 (if ssa.isFlags d then some d.regNO else cur)
      (Function.update regs d.regNO v) (Function.update regs' (ssa.outOpnd d).regNO v) := by
  cases hflags : ssa.isFlags d with
  | true =>
    have hno : ssa.isFlagsNO d.regNO = true := by
      simp only [CGSSAInfo.isFlags, Bool.and_eq_true] at hflags
      exact hflags.2
    rw [outOpnd_of_flags hflags]
    constructor
    · intro r hr
      have hne : r ≠ d.regNO := by
        rintro rfl
        simp [hr.not_flags] at hno
      rw [Function.update_of_ne hr.ne_kRFLAG, Function.update_of_ne hne]
      exact hsame.plain r hr
    · rintro c ⟨⟩
      exact hno
    · rintro c ⟨⟩
      simp
  | false =>
    have hplain := h.plainReg hd hflags
    rw [outOpnd_of_not_flags hflags]
    constructor
    · intro r hr
      by_cases he : r = d.regNO
      · simp [he]
      · rw [Function.update_of_ne he, Function.update_of_ne he]
        exact hsame.plain r hr
    · exact hsame.cur_flags
    · intro c hc
      have hne : c ≠ d.regNO := by
        rintro rfl
        have := hsame.cur_flags _ hc
        simp [hplain.not_flags] at this
      rw [Function.update_of_ne hplain.ne_kRFLAG.symm, Function.update_of_ne hne]
      exact hsame.flags c hc

lemma SameRegs.writeAll (h : SSAForm ssa bbs)
    (hsame : SameRegs ssa (eliminated ssa bbs).1 cur regs regs') {defs : List RegOperand}
    (hdefs : ∀ o ∈ defs, ssa.Defined o) (vals : List Nat) :
    SameRegs ssa (eliminated ssa bbs).1 (ssa.flagsAfterDefs defs cur) (writeAll defs vals regs)
      (PhiElim.writeAll (defs.map ssa.outOpnd) vals regs') := by
  induction defs generalizing vals cur regs regs' with
  | nil => exact hsame
  | cons d ds ih =>
    simp only [List.mem_cons, forall_eq_or_imp] at hdefs
    exact ih (hsame.write h hdefs.1 _) hdefs.2 _

/-- What a block has between its phis and the moves. -/
def IsPlainInsn (i : Insn α) : Prop := i.isMachine = true ∨ i.isBranch = true

lemma SameRegs.runInsns (h : SSAForm ssa bbs) (exec : Exec α μ) {is : List (Insn α)}
    (his : ∀ i ∈ is, IsPlainInsn i) (hdefined : ∀ i ∈ is, ∀ o ∈ i.registers, ssa.Defined o)
    (hcur : ssa.InsnsLastFlags is cur) (rest : μ)
    (hsame : SameRegs ssa (eliminated ssa bbs).1 cur regs regs') :
    let s := runInsns exec is ⟨regs, rest⟩
    let s' := PhiElim.runInsns exec (is.map (·.mapRegs ssa.outOpnd)) ⟨regs', rest⟩
    s'.2 = s.2 ∧ s'.1.rest = s.1.rest ∧
      SameRegs ssa (eliminated ssa bbs).1 (ssa.flagsAfter is cur) s.1.regs s'.1.regs := by
  induction is generalizing cur regs regs' rest with
  | nil => exact ⟨rfl, rfl, hsame⟩
  | cons i is ih =>
    simp only [List.mem_cons, forall_eq_or_imp] at his hdefined
    obtain ⟨hi, his⟩ := his
    obtain ⟨hregs, hdefined⟩ := hdefined
    cases i with
    | machine o desc defs uses =>
      obtain ⟨hread, hcur⟩ := hcur
      have huses : ∀ u ∈ uses, ssa.Defined u := fun u hu => hregs u (List.mem_append_right _ hu)
      have hdefs : ∀ d ∈ defs, ssa.Defined d := fun d hd => hregs d (List.mem_append_left _ hd)
      have hvalues := hsame.values_eq h huses hread
      have hwritten := hsame.writeAll h hdefs (exec o (values regs uses) rest).1
      obtain ⟨hreads, hrest, hafter⟩ := ih his hdefined hcur
        (exec o (values regs uses) rest).2 hwritten
      simp only [List.map_cons, mapRegs_machine, PhiElim.runInsns, Insn.run, Insn.reads, hvalues]
      exact ⟨congrArg _ hreads, hrest, hafter⟩
    | branch o uses =>
      obtain ⟨hread, hcur⟩ := hcur
      have huses : ∀ u ∈ uses, ssa.Defined u := hregs
      have hvalues := hsame.values_eq h huses hread
      obtain ⟨hreads, hrest, hafter⟩ := ih his hdefined hcur rest hsame
      simp only [List.map_cons, mapRegs_branch, PhiElim.runInsns, Insn.run, Insn.reads, hvalues]
      exact ⟨congrArg _ hreads, hrest, hafter⟩
    | phi p => simp [IsPlainInsn, Insn.isMachine, Insn.isBranch] at hi
    | phiMov o d x => simp [IsPlainInsn, Insn.isMachine, Insn.isBranch] at hi
    | comment => simp [IsPlainInsn, Insn.isMachine, Insn.isBranch] at hi

end

end PhiElim
end Maple
