import Maple.BE.PhiElim.Runs

/-!
# The places of the moves

What `PlaceMovInPredBB` and the replacement of the phis do to the code of a block: the moves stand
in front of its branches, after everything else.
-/

namespace Maple
namespace PhiElim

variable {α : Type}

@[simp] lemma code_nil : code ([] : List (Insn α)) = [] := rfl

@[simp] lemma code_append (as bs : List (Insn α)) : code (as ++ bs) = code as ++ code bs := by
  simp [code]

@[simp] lemma code_comment (is : List (Insn α)) : code (.comment :: is) = code is := by
  simp [code, Insn.isComment]

lemma code_cons {i : Insn α} (hi : i.isComment = false) (is : List (Insn α)) :
    code (i :: is) = i :: code is := by
  simp [code, hi]

/-- Code without branches and then branches only. -/
structure Split (is pre brs : List (Insn α)) : Prop where
  code_eq : code is = pre ++ brs
  pre_not_branch : ∀ i ∈ pre, i.isBranch = false
  brs_branch : ∀ i ∈ brs, i.isBranch = true

lemma Split.unique {is pre brs xs ys : List (Insn α)} {i : Insn α} (h : Split is pre brs)
    (hcode : code is = xs ++ [i] ++ ys) (hi : i.isBranch = false)
    (hys : ∀ j ∈ ys, j.isBranch = true) : xs ++ [i] = pre ∧ ys = brs := by
  have heq : xs ++ [i] ++ ys = pre ++ brs := hcode.symm.trans h.code_eq
  rcases List.append_eq_append_iff.1 heq with ⟨ws, hpre, hws⟩ | ⟨ws, hxs, hbrs⟩
  · rcases ws with _ | ⟨w, ws⟩
    · simp at hpre hws
      exact ⟨by simp [hpre], hws⟩
    · have hnot := h.pre_not_branch w (by simp [hpre])
      have his := hys w (by simp [hws])
      simp [hnot] at his
  · rcases List.eq_nil_or_concat ws with rfl | ⟨vs, w, rfl⟩
    · simp at hxs hbrs
      exact ⟨hxs, hbrs.symm⟩
    · have hlast := congrArg List.getLast? hxs
      have hw : w = i := by simpa using hlast.symm
      have his := h.brs_branch w (by simp [hbrs])
      simp [hw, hi] at his

/-- What the loop knows: it has passed branches only, and stands for the move in front of them. -/
structure Scanned (before passed : List (Insn α)) (pos : Option (List (Insn α) × List (Insn α))) :
    Prop where
  passed_branch : ∀ j ∈ code passed, j.isBranch = true
  of_none : pos = none → code passed = []
  of_some : ∀ a b, pos = some (a, b) → code a = code before.reverse ∧ code b = code passed

lemma Scanned.comment {before passed : List (Insn α)}
    {pos : Option (List (Insn α) × List (Insn α))} (h : Scanned (.comment :: before) passed pos) :
    Scanned before (.comment :: passed) pos := by
  constructor
  · simpa using h.passed_branch
  · simpa using h.of_none
  · intro a b hpos
    simpa using h.of_some a b hpos

lemma Scanned.branch {before passed : List (Insn α)} {o : α} {us : List RegOperand}
    {pos : Option (List (Insn α) × List (Insn α))}
    (h : Scanned (.branch o us :: before) passed pos) :
    Scanned before (.branch o us :: passed) (some (before.reverse, .branch o us :: passed)) := by
  have hcode : code (.branch o us :: passed) = .branch o us :: code passed := code_cons rfl _
  constructor
  · intro j hj
    rw [hcode] at hj
    rcases List.mem_cons.1 hj with rfl | hj
    · rfl
    · exact h.passed_branch j hj
  · simp
  · intro a b hpos
    simp only [Option.some.injEq, Prod.mk.injEq] at hpos
    obtain ⟨rfl, rfl⟩ := hpos
    exact ⟨rfl, rfl⟩

lemma Scanned.stop {is pre brs before passed : List (Insn α)} {i : Insn α}
    {pos : Option (List (Insn α) × List (Insn α))} (hsplit : Split is pre brs)
    (h : Scanned (i :: before) passed pos) (his : code is = code ((i :: before).reverse ++ passed))
    (hcomment : i.isComment = false) (hi : i.isBranch = false) :
    code (i :: before).reverse = pre ∧ code passed = brs := by
  have hrev : code (i :: before).reverse = code before.reverse ++ [i] := by
    rw [List.reverse_cons, code_append, code_cons hcomment, code_nil]
  rw [code_append, hrev] at his
  rw [hrev]
  exact hsplit.unique his hi h.passed_branch

lemma lastVregDefPos_eq {is pre brs : List (Insn α)} (hsplit : Split is pre brs) (hbrs : brs ≠ [])
    {before passed : List (Insn α)} {pos : Option (List (Insn α) × List (Insn α))}
    (h : Scanned before passed pos) (his : code is = code (before.reverse ++ passed)) :
    ∃ a b, lastVregDefPos before passed pos = some (a, b) ∧ code a = pre ∧ code b = brs := by
  have hpos : code before.reverse = pre ∧ code passed = brs →
      ∃ a b, pos = some (a, b) ∧ code a = pre ∧ code b = brs := by
    rintro ⟨hpre, hpassed⟩
    rcases pos with _ | ⟨a, b⟩
    · exact absurd (hpassed.symm.trans (h.of_none rfl)) hbrs
    · have := h.of_some a b rfl
      exact ⟨a, b, rfl, this.1.trans hpre, this.2.trans hpassed⟩
  induction before generalizing passed pos with
  | nil =>
    -- nothing but branches: the block has no instruction before them
    apply hpos
    have hcode : code passed = pre ++ brs := by simpa [hsplit.code_eq] using his.symm
    have hpre : pre = [] := by
      rw [List.eq_nil_iff_forall_not_mem]
      intro i hi
      have hbranch := h.passed_branch i (by simp [hcode, hi])
      simp [hsplit.pre_not_branch i hi] at hbranch
    subst hpre
    exact ⟨rfl, by simpa using hcode⟩
  | cons i before ih =>
    cases i with
    | phi p =>
      have hstop := Scanned.stop hsplit h his rfl rfl
      exact ⟨_, _, rfl, hstop⟩
    | phiMov o d s => exact hpos (Scanned.stop hsplit h his rfl rfl)
    | machine o desc ds us => exact hpos (Scanned.stop hsplit h his rfl rfl)
    | branch o us =>
      have hnext := h.branch
      apply ih hnext
      · simpa using his
      · rintro ⟨hpre, hpassed⟩
        exact ⟨_, _, rfl, hpre, hpassed⟩
    | comment =>
      have hnext := h.comment
      apply ih hnext
      · simpa using his
      · rintro ⟨hpre, hpassed⟩
        exact hpos ⟨by simpa using hpre, by simpa using hpassed⟩

lemma appendMovAfterLastVregDef_eq {is pre brs : List (Insn α)} (hsplit : Split is pre brs)
    (hbrs : brs ≠ []) {m : Insn α} (hm : m.isComment = false) :
    ∃ is', appendMovAfterLastVregDef is m = some is' ∧ code is' = pre ++ m :: brs := by
  have hstart : Scanned is.reverse [] none := by constructor <;> simp
  obtain ⟨a, b, hpos, ha, hb⟩ := lastVregDefPos_eq hsplit hbrs hstart (by simp)
  refine ⟨a ++ m :: b, by simp [appendMovAfterLastVregDef, hpos], ?_⟩
  rw [code_append, code_cons hm, ha, hb]

/-! ### One block -/

/-- The block `bb'` is `bb` with `rep p` in the place of every phi `p`, and `movs` in front of the
branches. -/
structure Moved (rep : PhiInsn → Insn α) (movs : List (Insn α)) (bb bb' : BB α) : Prop where
  id_eq : bb'.id = bb.id
  kind_eq : bb'.kind = bb.kind
  code_eq : code bb'.insns = bb.phis.map rep ++ bb.body ++ movs ++ bb.branches

/-- What stands for a phi is the phi or a move. -/
def IsPhiOrMov (i : Insn α) : Prop := i.phi?.isSome ∨ ∃ o d s, i = .phiMov o d s

lemma IsPhiOrMov.not_branch {i : Insn α} (h : IsPhiOrMov i) : i.isBranch = false := by
  rcases h with h | ⟨o, d, s, rfl⟩
  · cases i <;> simp [Insn.phi?] at h
    rfl
  · rfl

lemma isPhiOrMov_createMov (d s : RegOperand) : IsPhiOrMov (createMov d s : Insn α) :=
  .inr ⟨_, _, _, rfl⟩

lemma not_branch_of_mem_body {bb : BB α} {i : Insn α} (h : i ∈ bb.body) : i.isBranch = false := by
  have := (List.mem_filter.1 h).2
  cases i <;> simp [Insn.isMachine] at this
  rfl

lemma branch_of_mem_branches {bb : BB α} {i : Insn α} (h : i ∈ bb.branches) : i.isBranch = true :=
  (List.mem_filter.1 h).2

lemma Moved.split {rep : PhiInsn → Insn α} {movs : List (Insn α)} {bb bb' : BB α}
    (h : Moved rep movs bb bb') (hrep : ∀ p, IsPhiOrMov (rep p)) (hmovs : ∀ i ∈ movs, IsPhiOrMov i) :
    Split bb'.insns (bb.phis.map rep ++ bb.body ++ movs) bb.branches := by
  refine ⟨h.code_eq, ?_, fun i => branch_of_mem_branches⟩
  simp only [List.mem_append, List.mem_map]
  rintro i ((⟨p, -, rfl⟩ | hi) | hi)
  · exact (hrep p).not_branch
  · exact not_branch_of_mem_body hi
  · exact (hmovs i hi).not_branch

/-- There is a place for a move: the end of the block or the place in front of its branches. -/
def HasPlace (bb : BB α) : Prop :=
  (bb.kind = .kBBFallthru → bb.branches = []) ∧ (bb.kind ≠ .kBBFallthru → bb.branches ≠ [])

lemma Moved.placeMov {rep : PhiInsn → Insn α} {movs : List (Insn α)} {bb bb' : BB α}
    (h : Moved rep movs bb bb') (hrep : ∀ p, IsPhiOrMov (rep p)) (hmovs : ∀ i ∈ movs, IsPhiOrMov i)
    (hplace : HasPlace bb) (d s : RegOperand) :
    ∃ bb'', placeMov bb' (createMov d s) = some bb'' ∧
      Moved rep (movs ++ [createMov d s]) bb bb'' := by
  have hm : (createMov d s : Insn α).isComment = false := rfl
  by_cases hkind : bb.kind = .kBBFallthru
  · refine ⟨{ bb' with insns := bb'.insns ++ [createMov d s] },
      by simp only [PhiElim.placeMov, h.kind_eq, hkind, if_true], h.id_eq, h.kind_eq, ?_⟩
    have hbrs := hplace.1 hkind
    rw [code_append, h.code_eq, code_cons hm]
    simp [hbrs]
  · obtain ⟨is, his, hcode⟩ :=
      appendMovAfterLastVregDef_eq (h.split hrep hmovs) (hplace.2 hkind) hm
    refine ⟨{ bb' with insns := is }, by simp [PhiElim.placeMov, h.kind_eq, hkind, his], h.id_eq,
      h.kind_eq, ?_⟩
    simp [hcode]

/-! ### The blocks of a function -/

/-- Every block is moved by what `rep` and `movs` have for its number. -/
def AllMoved (rep : Nat → PhiInsn → Insn α) (movs : Nat → List (Insn α)) (bbs bbs' : List (BB α)) :
    Prop :=
  List.Forall₂ (fun bb bb' => Moved (rep bb.id) (movs bb.id) bb bb') bbs bbs'

lemma AllMoved.congr {rep rep' : Nat → PhiInsn → Insn α} {movs movs' : Nat → List (Insn α)}
    {bbs bbs' : List (BB α)} (h : AllMoved rep movs bbs bbs')
    (hrep : ∀ bb ∈ bbs, rep bb.id = rep' bb.id) (hmovs : ∀ bb ∈ bbs, movs bb.id = movs' bb.id) :
    AllMoved rep' movs' bbs bbs' := by
  unfold AllMoved at *
  induction h with
  | nil => exact .nil
  | @cons bb bb' bbs bbs' h _ ih =>
    simp only [List.mem_cons, forall_eq_or_imp] at hrep hmovs
    rw [hrep.1, hmovs.1] at h
    exact .cons h (ih hrep.2 hmovs.2)

def addMov (movs : Nat → List (Insn α)) (id : Nat) (m : Insn α) : Nat → List (Insn α) :=
  Function.update movs id (movs id ++ [m])

lemma AllMoved.placeMovInPredBB {rep : Nat → PhiInsn → Insn α} {movs : Nat → List (Insn α)}
    {bbs bbs' : List (BB α)} (h : AllMoved rep movs bbs bbs')
    (hrep : ∀ id p, IsPhiOrMov (rep id p)) (hmovs : ∀ id, ∀ i ∈ movs id, IsPhiOrMov i)
    (hnodup : (bbs.map (·.id)).Nodup) {pred : BB α} (hpred : pred ∈ bbs) (hplace : HasPlace pred)
    (d s : RegOperand) :
    ∃ bbs'', PhiElim.placeMovInPredBB (createMov d s) pred.id bbs' = some bbs'' ∧
      AllMoved rep (addMov movs pred.id (createMov d s)) bbs bbs'' := by
  unfold AllMoved at h
  induction h with
  | nil => simp at hpred
  | @cons bb bb' bbs bbs' h htail ih =>
    simp only [List.map_cons, List.nodup_cons] at hnodup
    rcases List.mem_cons.1 hpred with rfl | hpred
    · obtain ⟨bb'', hbb'', hmoved⟩ := h.placeMov (hrep _) (hmovs _) hplace d s
      refine ⟨bb'' :: bbs', by simp [PhiElim.placeMovInPredBB, h.id_eq, hbb''], ?_⟩
      refine .cons (by simpa [addMov] using hmoved) ?_
      refine AllMoved.congr htail (fun _ _ => rfl) fun bb hbb => ?_
      have hne : bb.id ≠ pred.id := by
        intro he
        exact hnodup.1 (he ▸ List.mem_map_of_mem hbb)
      simp [addMov, hne]
    · obtain ⟨bbs'', hbbs'', hmoved⟩ := ih hnodup.2 hpred
      have hne : bb.id ≠ pred.id := by
        intro he
        exact hnodup.1 (he ▸ List.mem_map_of_mem hpred)
      refine ⟨bb' :: bbs'', by simp [PhiElim.placeMovInPredBB, h.id_eq, hne, hbbs''], ?_⟩
      exact .cons (by simpa [addMov, hne] using h) hmoved

/-- The moves of the operands of a phi that come from the block `id`. -/
def opndMovs (t : RegOperand) (opnds : List (Nat × RegOperand)) (id : Nat) : List (Insn α) :=
  (opnds.filter (·.1 = id)).map fun o => createMov t o.2

lemma isPhiOrMov_of_mem_opndMovs {t : RegOperand} {opnds : List (Nat × RegOperand)} {id : Nat}
    {i : Insn α} (h : i ∈ opndMovs t opnds id) : IsPhiOrMov i := by
  obtain ⟨o, -, rfl⟩ := List.mem_map.1 h
  exact isPhiOrMov_createMov _ _

lemma addMov_opndMovs (movs : Nat → List (Insn α)) (t : RegOperand) (o : Nat × RegOperand)
    (opnds : List (Nat × RegOperand)) (id : Nat) :
    addMov movs o.1 (createMov t o.2) id ++ opndMovs t opnds id =
      movs id ++ opndMovs t (o :: opnds) id := by
  by_cases h : o.1 = id
  · subst h
    simp [addMov, opndMovs]
  · simp [addMov, opndMovs, h, Ne.symm h]

lemma AllMoved.placeMovs {rep : Nat → PhiInsn → Insn α} {movs : Nat → List (Insn α)}
    {bbs bbs' : List (BB α)} (h : AllMoved rep movs bbs bbs')
    (hrep : ∀ id p, IsPhiOrMov (rep id p)) (hmovs : ∀ id, ∀ i ∈ movs id, IsPhiOrMov i)
    (hnodup : (bbs.map (·.id)).Nodup) (t : RegOperand) {opnds : List (Nat × RegOperand)}
    (hopnds : ∀ o ∈ opnds, ∃ pred ∈ bbs, pred.id = o.1 ∧ HasPlace pred) :
    ∃ bbs'', PhiElim.placeMovs t opnds bbs' = some bbs'' ∧
      AllMoved rep (fun id => movs id ++ opndMovs t opnds id) bbs bbs'' := by
  induction opnds generalizing movs bbs' with
  | nil => exact ⟨bbs', rfl, h.congr (fun _ _ => rfl) fun _ _ => by simp [opndMovs]⟩
  | cons o opnds ih =>
    simp only [List.mem_cons, forall_eq_or_imp] at hopnds
    obtain ⟨⟨pred, hpred, hid, hplace⟩, hrest⟩ := hopnds
    obtain ⟨bbs₁, hbbs₁, hmoved₁⟩ := h.placeMovInPredBB hrep hmovs hnodup hpred hplace t o.2
    rw [hid] at hbbs₁ hmoved₁
    have hmovs₁ : ∀ id, ∀ i ∈ addMov movs o.1 (createMov t o.2) id, IsPhiOrMov i := by
      intro id i hi
      by_cases he : id = o.1
      · subst he
        simp only [addMov, Function.update_self, List.mem_append, List.mem_singleton] at hi
        rcases hi with hi | rfl
        · exact hmovs _ i hi
        · exact isPhiOrMov_createMov _ _
      · rw [addMov, Function.update_of_ne he] at hi
        exact hmovs id i hi
    obtain ⟨bbs₂, hbbs₂, hmoved₂⟩ := ih hmoved₁ hmovs₁ hrest
    refine ⟨bbs₂, by simp [PhiElim.placeMovs, hbbs₁, hbbs₂], ?_⟩
    exact hmoved₂.congr (fun _ _ => rfl) fun _ _ => addMov_opndMovs _ _ _ _ _

end PhiElim
end Maple
