import Maple.BE.PhiElim.Place

/-!
# The loop over the phis

Every phi gets a temporary register of its own, is replaced by a move from it, and leaves moves to
it in its predecessors.
-/

namespace Maple
namespace PhiElim

variable {α : Type}

/-! ### Temporary registers -/

lemma le_skipOccupied (taken : List Nat) (fuel n : Nat) : n ≤ skipOccupied taken fuel n := by
  induction fuel generalizing n with
  | zero => exact Nat.le_refl n
  | succ fuel ih =>
    rw [skipOccupied]
    split
    · have := ih (n + 1)
      omega
    · exact Nat.le_refl n

lemma skipOccupied_notMem {taken : List Nat} {fuel n : Nat}
    (h : (taken.filter (n ≤ ·)).length ≤ fuel) : skipOccupied taken fuel n ∉ taken := by
  induction fuel generalizing n with
  | zero =>
    intro hn
    have hmem : n ∈ taken.filter (n ≤ ·) := List.mem_filter.2 ⟨hn, by simp⟩
    rw [List.eq_nil_of_length_eq_zero (Nat.le_zero.1 h)] at hmem
    exact absurd hmem List.not_mem_nil
  | succ fuel ih =>
    rw [skipOccupied]
    split
    · rename_i hn
      apply ih
      have hfewer : ((taken.filter (n ≤ ·)).filter (n + 1 ≤ ·)).length <
          (taken.filter (n ≤ ·)).length := by
        rw [List.length_filter_lt_length_iff_exists]
        exact ⟨n, List.mem_filter.2 ⟨hn, by simp⟩, by simp⟩
      have hsame : (taken.filter (n ≤ ·)).filter (n + 1 ≤ ·) = taken.filter (n + 1 ≤ ·) := by
        rw [List.filter_filter]
        apply List.filter_congr
        intro x _
        have : n + 1 ≤ x → n ≤ x := by omega
        by_cases hx : n + 1 ≤ x <;> simp [hx, this]
      rw [hsame] at hfewer
      omega
    · assumption

/-- A phi of the block `id` with its temporary register. -/
structure Eliminated where
  id : Nat
  phi : PhiInsn
  temp : RegOperand

/-- The temporary registers of phis, in their order. -/
def assignTemps (ssa : CGSSAInfo) : List (Nat × PhiInsn) → Temps → List Eliminated × Temps
  | [], st => ([], st)
  | p :: ps, st =>
    let t := createTempRegForCSSA ssa p.2.dest st
    let r := assignTemps ssa ps t.2
    (⟨p.1, p.2, t.1⟩ :: r.1, r.2)

lemma createTempRegForCSSA_le (ssa : CGSSAInfo) (o : RegOperand) (st : Temps) :
    st.tempRegNO ≤ (createTempRegForCSSA ssa o st).1.regNO :=
  le_skipOccupied _ _ _

lemma createTempRegForCSSA_lt (ssa : CGSSAInfo) (o : RegOperand) (st : Temps) :
    (createTempRegForCSSA ssa o st).1.regNO < (createTempRegForCSSA ssa o st).2.tempRegNO :=
  Nat.lt_succ_self _

lemma createTempRegForCSSA_notMem (ssa : CGSSAInfo) (o : RegOperand) (st : Temps) :
    (createTempRegForCSSA ssa o st).1.regNO ∉ ssa.occupied :=
  skipOccupied_notMem (List.length_filter_le _ _)

lemma map_assignTemps (ssa : CGSSAInfo) (ps : List (Nat × PhiInsn)) (st : Temps) :
    (assignTemps ssa ps st).1.map (fun e => (e.id, e.phi)) = ps := by
  induction ps generalizing st with
  | nil => rfl
  | cons p ps ih => simp [assignTemps, ih]

lemma le_temp_of_mem {ssa : CGSSAInfo} {ps : List (Nat × PhiInsn)} {st : Temps} {e : Eliminated}
    (h : e ∈ (assignTemps ssa ps st).1) : st.tempRegNO ≤ e.temp.regNO := by
  induction ps generalizing st with
  | nil => simp [assignTemps] at h
  | cons p ps ih =>
    have hle := createTempRegForCSSA_le ssa p.2.dest st
    have hlt := createTempRegForCSSA_lt ssa p.2.dest st
    rcases List.mem_cons.1 h with rfl | h
    · exact hle
    · have := ih h
      omega

lemma temp_notMem_of_mem {ssa : CGSSAInfo} {ps : List (Nat × PhiInsn)} {st : Temps}
    {e : Eliminated} (h : e ∈ (assignTemps ssa ps st).1) : e.temp.regNO ∉ ssa.occupied := by
  induction ps generalizing st with
  | nil => simp [assignTemps] at h
  | cons p ps ih =>
    rcases List.mem_cons.1 h with rfl | h
    · exact createTempRegForCSSA_notMem _ _ _
    · exact ih h

lemma temp_not_isSSAForm_of_mem {ssa : CGSSAInfo} {ps : List (Nat × PhiInsn)} {st : Temps}
    {e : Eliminated} (h : e ∈ (assignTemps ssa ps st).1) : e.temp.isSSAForm = false := by
  induction ps generalizing st with
  | nil => simp [assignTemps] at h
  | cons p ps ih =>
    rcases List.mem_cons.1 h with rfl | h
    · rfl
    · exact ih h

lemma movOpOf_temp_of_mem {ssa : CGSSAInfo} {ps : List (Nat × PhiInsn)} {st : Temps}
    {e : Eliminated} (h : e ∈ (assignTemps ssa ps st).1) :
    movOpOf e.temp = movOpOf e.phi.dest := by
  induction ps generalizing st with
  | nil => simp [assignTemps] at h
  | cons p ps ih =>
    rcases List.mem_cons.1 h with rfl | h
    · rfl
    · exact ih h

lemma temps_nodup (ssa : CGSSAInfo) (ps : List (Nat × PhiInsn)) (st : Temps) :
    ((assignTemps ssa ps st).1.map (·.temp.regNO)).Nodup := by
  induction ps generalizing st with
  | nil => simp [assignTemps]
  | cons p ps ih =>
    simp only [assignTemps, List.map_cons, List.nodup_cons]
    refine ⟨?_, ih _⟩
    intro h
    obtain ⟨e, he, heq⟩ := List.mem_map.1 h
    have hle := le_temp_of_mem he
    have hlt := createTempRegForCSSA_lt ssa p.2.dest st
    omega

/-! ### What replaces the phis -/

/-- What stands for the phi `q` of the block `id`. -/
def repOf (es : List Eliminated) (id : Nat) (q : PhiInsn) : Insn α :=
  match es.find? fun e => e.id = id ∧ e.phi.dest.regNO = q.dest.regNO with
  | some e => createMov e.phi.dest e.temp
  | none => .phi q

/-- The moves that are placed in the block `id`. -/
def movsOf (es : List Eliminated) (id : Nat) : List (Insn α) :=
  es.flatMap fun e => opndMovs e.temp e.phi.phiList id

lemma isPhiOrMov_repOf (es : List Eliminated) (id : Nat) (q : PhiInsn) :
    IsPhiOrMov (repOf es id q : Insn α) := by
  unfold repOf
  split
  · exact isPhiOrMov_createMov _ _
  · exact .inl rfl

lemma isPhiOrMov_of_mem_movsOf {es : List Eliminated} {id : Nat} {i : Insn α}
    (h : i ∈ movsOf es id) : IsPhiOrMov i := by
  obtain ⟨e, -, he⟩ := List.mem_flatMap.1 h
  exact isPhiOrMov_of_mem_opndMovs he

lemma replacePhi_of_not_phi {i : Insn α} (h : i.phi? = none) (p : PhiInsn) (t : RegOperand) :
    replacePhi p t i = [i] := by
  cases i <;> simp [Insn.phi?] at h <;> rfl

lemma code_flatMap_replacePhi {p : PhiInsn} (hcc : p.dest.isOfCC = false) (t : RegOperand)
    (is : List (Insn α)) :
    code (is.flatMap (replacePhi p t)) = (code is).flatMap (replacePhi p t) := by
  induction is with
  | nil => rfl
  | cons i is ih =>
    rw [List.flatMap_cons, code_append, ih]
    cases i with
    | phi q =>
      rw [code_cons rfl, List.flatMap_cons]
      by_cases hq : q.dest.regNO = p.dest.regNO <;>
        simp [replacePhi, hq, hcc, createMov, code, Insn.isComment]
    | phiMov o d s => rfl
    | machine o desc ds us => rfl
    | branch o us => rfl
    | comment => rfl

lemma flatMap_replacePhi_of_not_phi {is : List (Insn α)} (h : ∀ i ∈ is, i.phi? = none)
    (p : PhiInsn) (t : RegOperand) : is.flatMap (replacePhi p t) = is := by
  induction is with
  | nil => rfl
  | cons i is ih =>
    simp only [List.mem_cons, forall_eq_or_imp] at h
    rw [List.flatMap_cons, ih h.2, replacePhi_of_not_phi h.1]
    rfl

lemma replacePhi_repOf {p : PhiInsn} (hcc : p.dest.isOfCC = false) (t : RegOperand)
    (es : List Eliminated) (id : Nat) (q : PhiInsn) :
    replacePhi p t (repOf es id q : Insn α) = [repOf (es ++ [⟨id, p, t⟩]) id q] := by
  unfold repOf
  rw [List.find?_append]
  cases es.find? fun e => e.id = id ∧ e.phi.dest.regNO = q.dest.regNO with
  | some e => rfl
  | none =>
    by_cases hq : q.dest.regNO = p.dest.regNO
    · simp [replacePhi, hq, hcc]
    · simp [replacePhi, hq, Ne.symm hq]

lemma repOf_append_of_ne (es : List Eliminated) {e : Eliminated} {id : Nat} (h : e.id ≠ id)
    (q : PhiInsn) : (repOf (es ++ [e]) id q : Insn α) = repOf es id q := by
  unfold repOf
  rw [List.find?_append]
  cases es.find? fun e => e.id = id ∧ e.phi.dest.regNO = q.dest.regNO with
  | some e => rfl
  | none => simp [h]

lemma not_phi_of_mem_body {bb : BB α} {i : Insn α} (h : i ∈ bb.body) : i.phi? = none := by
  have := (List.mem_filter.1 h).2
  cases i <;> simp [Insn.isMachine] at this
  rfl

lemma not_phi_of_mem_branches {bb : BB α} {i : Insn α} (h : i ∈ bb.branches) : i.phi? = none := by
  have := (List.mem_filter.1 h).2
  cases i <;> simp [Insn.isBranch] at this
  rfl

lemma not_phi_of_mem_opndMovs {t : RegOperand} {opnds : List (Nat × RegOperand)} {id : Nat}
    {i : Insn α} (h : i ∈ opndMovs t opnds id) : i.phi? = none := by
  obtain ⟨o, -, rfl⟩ := List.mem_map.1 h
  rfl

lemma not_phi_of_mem_movsOf {es : List Eliminated} {id : Nat} {i : Insn α}
    (h : i ∈ movsOf es id) : i.phi? = none := by
  obtain ⟨e, -, he⟩ := List.mem_flatMap.1 h
  exact not_phi_of_mem_opndMovs he

lemma Moved.replacePhi {es : List Eliminated} {movs : List (Insn α)} {bb bb' : BB α} {p : PhiInsn}
    (hcc : p.dest.isOfCC = false) (t : RegOperand) (h : Moved (repOf es bb.id) movs bb bb')
    (hmovs : ∀ i ∈ movs, i.phi? = none) :
    Moved (repOf (es ++ [⟨bb.id, p, t⟩]) bb.id) movs bb
      { bb' with insns := bb'.insns.flatMap (replacePhi p t) } := by
  refine ⟨h.id_eq, h.kind_eq, ?_⟩
  have hrep : (bb.phis.map (repOf es bb.id)).flatMap (PhiElim.replacePhi p t) =
      bb.phis.map (repOf (es ++ [⟨bb.id, p, t⟩]) bb.id : PhiInsn → Insn α) := by
    rw [List.flatMap_map]
    simp only [replacePhi_repOf hcc]
    exact List.map_eq_flatMap.symm
  rw [code_flatMap_replacePhi hcc, h.code_eq, List.flatMap_append, List.flatMap_append,
    List.flatMap_append, hrep, flatMap_replacePhi_of_not_phi fun i => not_phi_of_mem_body,
    flatMap_replacePhi_of_not_phi hmovs,
    flatMap_replacePhi_of_not_phi fun i => not_phi_of_mem_branches]

lemma movsOf_append (es : List Eliminated) (e : Eliminated) (id : Nat) :
    (movsOf (es ++ [e]) id : List (Insn α)) = movsOf es id ++ opndMovs e.temp e.phi.phiList id := by
  simp [movsOf]

lemma AllMoved.eliminatePhi {es : List Eliminated} {bbs : List (BB α)}
    {s : List (BB α) × Temps} (h : AllMoved (repOf es) (movsOf es) bbs s.1) (ssa : CGSSAInfo)
    (hnodup : (bbs.map (·.id)).Nodup) (id : Nat) {p : PhiInsn} (hcc : p.dest.isOfCC = false)
    (hopnds : ∀ o ∈ p.phiList, ∃ pred ∈ bbs, pred.id = o.1 ∧ HasPlace pred) :
    ∃ bbs', PhiElim.eliminatePhi ssa id p s =
        some (bbs', (createTempRegForCSSA ssa p.dest s.2).2) ∧
      AllMoved (repOf (es ++ [⟨id, p, (createTempRegForCSSA ssa p.dest s.2).1⟩]))
        (movsOf (es ++ [⟨id, p, (createTempRegForCSSA ssa p.dest s.2).1⟩])) bbs bbs' := by
  obtain ⟨bbs₁, hbbs₁, hmoved⟩ := h.placeMovs (isPhiOrMov_repOf es)
    (fun _ _ => isPhiOrMov_of_mem_movsOf) hnodup (createTempRegForCSSA ssa p.dest s.2).1 hopnds
  refine ⟨_, by simp only [PhiElim.eliminatePhi, hbbs₁]; rfl, ?_⟩
  unfold AllMoved at hmoved ⊢
  rw [List.forall₂_map_right_iff]
  refine hmoved.imp fun bb bb' hbb => ?_
  rw [movsOf_append]
  by_cases hid : bb.id = id
  · rw [if_pos (hbb.id_eq.trans hid)]
    subst hid
    refine hbb.replacePhi hcc _ fun i hi => ?_
    rcases List.mem_append.1 hi with hi | hi
    · exact not_phi_of_mem_movsOf hi
    · exact not_phi_of_mem_opndMovs hi
  · rw [if_neg (by rw [hbb.id_eq]; exact hid)]
    have hrep : (repOf (es ++ [⟨id, p, (createTempRegForCSSA ssa p.dest s.2).1⟩]) bb.id :
        PhiInsn → Insn α) = repOf es bb.id := by
      funext q
      exact repOf_append_of_ne es (Ne.symm hid) q
    rw [hrep]
    exact hbb

lemma AllMoved.eliminatePhis {ssa : CGSSAInfo} {es : List Eliminated} {bbs : List (BB α)}
    {s : List (BB α) × Temps} (h : AllMoved (repOf es) (movsOf es) bbs s.1)
    (hnodup : (bbs.map (·.id)).Nodup) {ps : List (Nat × PhiInsn)}
    (hcc : ∀ p ∈ ps, p.2.dest.isOfCC = false)
    (hopnds : ∀ p ∈ ps, ∀ o ∈ p.2.phiList, ∃ pred ∈ bbs, pred.id = o.1 ∧ HasPlace pred) :
    ∃ bbs', PhiElim.eliminatePhis ssa ps s = some (bbs', (assignTemps ssa ps s.2).2) ∧
      AllMoved (repOf (es ++ (assignTemps ssa ps s.2).1))
        (movsOf (es ++ (assignTemps ssa ps s.2).1)) bbs bbs' := by
  induction ps generalizing es s with
  | nil =>
    refine ⟨s.1, rfl, ?_⟩
    simpa [assignTemps] using h
  | cons p ps ih =>
    simp only [List.mem_cons, forall_eq_or_imp] at hcc hopnds
    obtain ⟨bbs₁, hbbs₁, hmoved₁⟩ :=
      h.eliminatePhi ssa hnodup p.1 hcc.1 hopnds.1
    obtain ⟨bbs₂, hbbs₂, hmoved₂⟩ :=
      ih (s := (bbs₁, (createTempRegForCSSA ssa p.2.dest s.2).2)) hmoved₁ hcc.2 hopnds.2
    refine ⟨bbs₂, by simp [PhiElim.eliminatePhis, hbbs₁, hbbs₂, assignTemps], ?_⟩
    simpa [assignTemps] using hmoved₂

/-! ### The phis of a function -/

lemma SSAForm.hasPlace {ssa : CGSSAInfo} {bbs : List (BB α)} (h : SSAForm ssa bbs) {bb : BB α}
    (hbb : bb ∈ bbs) {p : PhiInsn} (hp : p ∈ bb.phis) :
    ∀ o ∈ p.phiList, ∃ pred ∈ bbs, pred.id = o.1 ∧ HasPlace pred := by
  intro o ho
  obtain ⟨pred, hpred, hid, hplace⟩ := h.phi_pred bb hbb p hp o ho
  exact ⟨pred, hpred, hid, h.fallthru pred hpred, hplace⟩

lemma mem_phisOf {bbs : List (BB α)} {p : Nat × PhiInsn} :
    p ∈ phisOf bbs ↔ ∃ bb ∈ bbs, bb.id = p.1 ∧ p.2 ∈ bb.phiInsns := by
  simp only [phisOf, List.mem_flatMap, List.mem_map]
  constructor
  · rintro ⟨bb, hbb, q, hq, rfl⟩
    exact ⟨bb, hbb, rfl, hq⟩
  · rintro ⟨bb, hbb, hid, hp⟩
    exact ⟨bb, hbb, p.2, hp, by rw [hid]⟩

/-- The phis of a function with their temporary registers. -/
def eliminated (ssa : CGSSAInfo) (bbs : List (BB α)) : List Eliminated × Temps :=
  assignTemps ssa (phisOf bbs) ⟨ssa.allSSAOperands.length + ssa.ssaRegNObase, []⟩

lemma allMoved_nil {bbs : List (BB α)}
    (h : ∀ bb ∈ bbs, code bb.insns = bb.phis.map .phi ++ bb.body ++ bb.branches) :
    AllMoved (repOf []) (movsOf []) bbs bbs := by
  unfold AllMoved
  rw [List.forall₂_same]
  intro bb hbb
  have hrep : (repOf [] bb.id : PhiInsn → Insn α) = .phi := rfl
  exact ⟨rfl, rfl, by rw [h bb hbb, hrep]; simp [movsOf]⟩

/-- The first loop of the pass. -/
theorem SSAForm.eliminatePhis_eq {ssa : CGSSAInfo} {bbs : List (BB α)} (h : SSAForm ssa bbs) :
    ∃ bbs', eliminatePhis ssa (phisOf bbs)
        (bbs, ⟨ssa.allSSAOperands.length + ssa.ssaRegNObase, []⟩) =
          some (bbs', (eliminated ssa bbs).2) ∧
      AllMoved (repOf (eliminated ssa bbs).1) (movsOf (eliminated ssa bbs).1) bbs bbs' := by
  have hphi : ∀ p ∈ phisOf bbs, ∃ bb ∈ bbs, p.2 ∈ bb.phis := by
    intro p hp
    obtain ⟨bb, hbb, -, hmem⟩ := mem_phisOf.1 hp
    exact ⟨bb, hbb, (h.mem_phiInsns bb hbb _).1 hmem⟩
  have hnil : AllMoved (repOf []) (movsOf []) bbs bbs := allMoved_nil h.code_eq
  refine AllMoved.eliminatePhis (s := (bbs, _)) hnil h.ids_nodup ?_ ?_
  · intro p hp
    obtain ⟨bb, hbb, hmem⟩ := hphi p hp
    exact (h.phi_dest bb hbb _ hmem).2.1
  · intro p hp
    obtain ⟨bb, hbb, hmem⟩ := hphi p hp
    exact h.hasPlace hbb hmem

end PhiElim
end Maple
