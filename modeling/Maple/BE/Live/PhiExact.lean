import Maple.BE.Live.Phi

/-!
# When no live register is lost to a phi

A phi of a successor removes its operands for other predecessors, the operand of a phi can be lost
to the definition by a phi above it, and a block without machine instructions is not collected.
-/

namespace Maple
namespace Live

variable {r : Nat}

/-! ### Definitions and uses of phis -/

lemma Phi.insn_defsFirst (p : Phi) : p.insn.DefsFirst := by
  simp only [Insn.DefsFirst, Phi.insn, List.pairwise_cons, List.pairwise_map]
  exact ⟨fun _ _ huse => (Bool.false_ne_true huse).elim,
    List.pairwise_of_forall fun _ _ _ hdef => (Bool.false_ne_true hdef).elim⟩

lemma Phi.insn_uses (p : Phi) : p.insn.Uses r ↔ p.Uses r := by
  simp [Insn.Uses, Phi.insn, Phi.Uses]

lemma Phi.insn_defines (p : Phi) : p.insn.Defines r ↔ p.dest = r := by
  simp [Insn.Defines, Phi.insn]

/-- The definitions and uses from the phis on. -/
def collectPhis (phis : List Phi) (s : DefUse) : DefUse := (phis.map Phi.insn).foldr collectInsn s

lemma mem_uses_collectPhis_cons {p : Phi} {phis : List Phi} {s : DefUse} :
    r ∈ (collectPhis (p :: phis) s).uses ↔
      p.Uses r ∨ (r ∈ (collectPhis phis s).uses ∧ p.dest ≠ r) := by
  simp only [collectPhis, List.map_cons, List.foldr_cons, mem_uses_collectInsn p.insn_defsFirst,
    p.insn_uses, p.insn_defines, ne_eq]

lemma mem_defs_collectPhis_cons {p : Phi} {phis : List Phi} {s : DefUse} :
    r ∈ (collectPhis (p :: phis) s).defs ↔
      ¬ p.Uses r ∧ (r ∈ (collectPhis phis s).defs ∨ p.dest = r) := by
  simp only [collectPhis, List.map_cons, List.foldr_cons, mem_defs_collectInsn p.insn_defsFirst,
    p.insn_uses, p.insn_defines]

/-- Some phi has the operand, with no definition of it above. -/
def OperandKept (phis : List Phi) (r : Nat) : Prop :=
  ∃ above p below, phis = above ++ p :: below ∧ p.Uses r ∧ ∀ q ∈ above, q.dest ≠ r

lemma OperandKept.cons {p : Phi} {phis : List Phi} (h : OperandKept phis r) (hp : p.dest ≠ r) :
    OperandKept (p :: phis) r := by
  obtain ⟨above, q, below, rfl, huse, habove⟩ := h
  exact ⟨p :: above, q, below, rfl, huse, List.forall_mem_cons.mpr ⟨hp, habove⟩⟩

lemma OperandKept.mem_uses {phis : List Phi} (h : OperandKept phis r) (s : DefUse) :
    r ∈ (collectPhis phis s).uses := by
  obtain ⟨above, p, below, rfl, huse, habove⟩ := h
  induction above with
  | nil => exact mem_uses_collectPhis_cons.mpr (.inl huse)
  | cons q above ih =>
    obtain ⟨hq, habove⟩ := List.forall_mem_cons.mp habove
    exact mem_uses_collectPhis_cons.mpr (.inr ⟨ih habove, hq⟩)

lemma lost_of_not_operandKept {phis : List Phi} (huse : ∃ p ∈ phis, p.Uses r)
    (h : ¬ OperandKept phis r) (s : DefUse) :
    r ∉ (collectPhis phis s).uses ∧ r ∈ (collectPhis phis s).defs := by
  induction phis with
  | nil =>
    obtain ⟨p, hp, -⟩ := huse
    cases hp
  | cons p phis ih =>
    have hp : ¬ p.Uses r := fun hp => h ⟨[], p, phis, rfl, hp, by simp⟩
    rw [mem_uses_collectPhis_cons, mem_defs_collectPhis_cons]
    by_cases hdest : p.dest = r
    · exact ⟨fun hr => hr.elim hp fun hr => hr.2 hdest, hp, .inr hdest⟩
    · obtain ⟨q, hq, hquse⟩ := huse
      have hrest : ∃ p ∈ phis, p.Uses r := by
        obtain rfl | hq := List.mem_cons.mp hq
        · exact absurd hquse hp
        · exact ⟨q, hq, hquse⟩
      obtain ⟨huses, hdefs⟩ := ih hrest fun hkept => h (hkept.cons hdest)
      exact ⟨fun hr => hr.elim hp fun hr => huses hr.1, hp, .inl hdefs⟩

lemma collectPhis_pass {phis : List Phi} (h : ∀ p ∈ phis, p.dest ≠ r) (s : DefUse) :
    (r ∈ s.uses → r ∈ (collectPhis phis s).uses) ∧
      (r ∈ (collectPhis phis s).defs → r ∈ s.defs) := by
  induction phis with
  | nil => exact ⟨id, id⟩
  | cons p phis ih =>
    obtain ⟨hp, hphis⟩ := List.forall_mem_cons.mp h
    obtain ⟨huses, hdefs⟩ := ih hphis
    rw [mem_uses_collectPhis_cons, mem_defs_collectPhis_cons]
    exact ⟨fun hr => .inr ⟨huses hr, hp⟩, fun hr => hdefs (hr.2.resolve_right hp)⟩

namespace SSAFunc

variable {f : SSAFunc} {st : LiveState} {b s : Nat}

lemma getBBDefUse_of_machineInsn (h : f.insns b ≠ []) :
    f.getBBDefUse b = collectPhis (f.phis b) ((f.code b).foldr collectInsn ⟨∅, ∅⟩) := by
  have hcode : f.code b = f.insns b := if_neg fun hempty => h hempty.1
  rw [getBBDefUse, if_neg h, List.foldr_append, hcode, collectPhis]

lemma getBBDefUse_of_empty (h : f.insns b = []) :
    f.getBBDefUse b = (f.code b).foldr collectInsn ⟨∅, ∅⟩ := by
  rw [← Live.getBBDefUse_eq, getBBDefUse, Live.getBBDefUse, if_pos h, if_pos h]

/-! ### The condition -/

/-- No register that is live at the end of a block is an operand for another predecessor in a
successor, and the operands for a block are kept in blocks with a machine instruction. -/
structure KeepsPhis (f : SSAFunc) : Prop where
  notRemoved : ∀ b, f.Reachable b → ∀ r, f.LiveAt r [] b → ¬ f.Removed b r
  operands : ∀ b, f.Reachable b → ∀ s ∈ f.succs b, ∀ r, f.PhiUses b s r →
    f.insns s ≠ [] ∧ OperandKept (f.phis s) r

/-- A block with phis has a machine instruction, and is the only successor of its predecessors. -/
def SplitEdges (f : SSAFunc) : Prop :=
  ∀ b, f.Reachable b → ∀ s ∈ f.succs b, f.phis s ≠ [] → f.insns s ≠ [] ∧ ∀ s' ∈ f.succs b, s' = s

/-! ### The result -/

lemma mem_of_liveAt (hf : f.WellFormed) (hkeeps : f.KeepsPhis) {queue : List Nat}
    (h : Inv f queue st) (hall : ∀ b ∈ f.bbs, f.Settled st b) {is : List Insn}
    (hlive : f.LiveAt r is b) (hr : f.Reachable b) (his : ∀ i ∈ is, i.DefsFirst) :
    r ∈ (is.foldr collectInsn ⟨∅, ∅⟩).uses ∨
      r ∉ (is.foldr collectInsn ⟨∅, ∅⟩).defs ∧ r ∈ (st b).liveOut := by
  have hsettled : ∀ {b}, f.Reachable b → (∀ s ∈ f.succs b, f.Seen st b s) ∧
      (st b).insertUse = true :=
    fun {b} hb => hall b (hb.mem_bbs hf) (hf.reachable b hb)
  induction hlive with
  | @use i is b huse =>
    rw [List.foldr_cons, mem_uses_collectInsn (his i List.mem_cons_self)]
    exact .inl (.inl huse)
  | @pass i is b hdef _ ih =>
    have hrest := ih hr fun j hj => his j (List.mem_cons_of_mem _ hj)
    have hi := his i List.mem_cons_self
    rw [List.foldr_cons, mem_uses_collectInsn hi, mem_defs_collectInsn hi]
    obtain huse | ⟨hnot, hout⟩ := hrest
    · exact .inl (.inr ⟨huse, hdef⟩)
    · exact .inr ⟨fun hr => hr.2.elim hnot hdef, hout⟩
  | @phi b s hs huse =>
    obtain ⟨hinsns, hkept⟩ := hkeeps.operands b hr s hs r huse
    have hin : r ∈ (st s).liveIn := by
      refine h.transfer s (hsettled (.succ hr hs)).2 r (.inl ?_)
      rw [getBBDefUse_of_machineInsn hinsns]
      exact hkept.mem_uses _
    exact .inr ⟨by simp, (hsettled hr).1 s hs r hin (hkeeps.notRemoved b hr r (.phi hs huse))⟩
  | @succ b s hs hdef hlive ih =>
    have hsr : f.Reachable s := .succ hr hs
    have hmem := ih hsr (hf.code_defsFirst s)
    have hin : r ∈ (st s).liveIn := by
      refine h.transfer s (hsettled hsr).2 r ?_
      by_cases hinsns : f.insns s = []
      · rw [getBBDefUse_of_empty hinsns]
        exact hmem.imp_right And.symm
      · obtain ⟨huses, hdefs⟩ := collectPhis_pass hdef ((f.code s).foldr collectInsn ⟨∅, ∅⟩)
        rw [getBBDefUse_of_machineInsn hinsns]
        exact hmem.imp huses fun hmem => ⟨hmem.2, fun hr => hmem.1 (hdefs hr)⟩
    exact .inr ⟨by simp,
      (hsettled hr).1 s hs r hin (hkeeps.notRemoved b hr r (.succ hs hdef hlive))⟩

lemma complete_of_keepsPhis (hf : f.WellFormed) (hkeeps : f.KeepsPhis) {queue : List Nat}
    (h : Inv f queue st) (hall : ∀ b ∈ f.bbs, f.Settled st b) : f.Complete st := by
  intro b hb r hlive
  simpa using mem_of_liveAt hf hkeeps h hall hlive hb (by simp)

lemma keepsPhis_of_complete (hsplit : f.SplitEdges) {queue : List Nat} (h : Inv f queue st)
    (hcomplete : f.Complete st) : f.KeepsPhis := by
  refine ⟨fun b hb r hlive ⟨s, hs, hremoved⟩ => ?_, fun b hb s hs r huse => ?_⟩
  · have hphis : f.phis s ≠ [] := by
      obtain ⟨p, hp, -⟩ := mem_notFromThisBB.mp hremoved
      exact List.ne_nil_of_mem hp
    exact h.removed b s (hsplit b hb s hs hphis).2 r (hcomplete b hb r hlive) hremoved
  · have hphi : ∃ p ∈ f.phis s, p.Uses r := huse.imp fun p hp => ⟨hp.1, _, hp.2, rfl⟩
    have hphis : f.phis s ≠ [] := by
      obtain ⟨p, hp, -⟩ := hphi
      exact List.ne_nil_of_mem hp
    obtain ⟨hinsns, honly⟩ := hsplit b hb s hs hphis
    refine ⟨hinsns, ?_⟩
    by_contra hlost
    -- the register comes from the live-in set of the only successor, which does not have it
    obtain ⟨s', hs', hin⟩ := h.from_succs b r (hcomplete b hb r (.phi hs huse))
    obtain rfl := honly s' hs'
    obtain ⟨huses, hdefs⟩ :=
      lost_of_not_operandKept hphi hlost ((f.code s').foldr collectInsn ⟨∅, ∅⟩)
    rw [← getBBDefUse_of_machineInsn hinsns] at huses hdefs
    exact (h.from_block s' r hin).elim huses fun hnot => hnot hdefs

/-- The analysis ends. If the phis keep their operands and remove no live register, every register
that is live at the end of a block is in its live-out set, and only then if a block with phis is the
only successor of its predecessors and has a machine instruction. -/
theorem analysisLive_complete_iff (hf : f.WellFormed) :
    ∃ st, Outcome.Settles f.analysisLive (.done st) ∧ (f.KeepsPhis → f.Complete st) ∧
      (f.SplitEdges → (f.Complete st ↔ f.KeepsPhis)) := by
  obtain ⟨st, hsettles, hinv, hall⟩ := analysisLive_settles hf.nodup
  have hcomplete : f.KeepsPhis → f.Complete st :=
    fun hkeeps => complete_of_keepsPhis hf hkeeps hinv hall
  exact ⟨st, hsettles, hcomplete, fun hsplit => ⟨keepsPhis_of_complete hsplit hinv, hcomplete⟩⟩

/-! ### A join of two values -/

/-- Registers 1 and 2 are defined, and after a branch a phi of `r₁` and `r₂` defines register 3. -/
def diamond (r₁ r₂ : Nat) : SSAFunc where
  bbs := [0, 1, 2, 3]
  insns b := match b with
    | 0 => [⟨[⟨1, true, false⟩, ⟨2, true, false⟩]⟩]
    | 3 => [⟨[⟨3, false, true⟩]⟩]
    | _ => []
  succs b := match b with
    | 0 => [1, 2]
    | 1 | 2 => [3]
    | _ => []
  unreachable _ := false
  isReturn _ := false
  returnReg := none
  phis b := match b with
    | 3 => [⟨3, [(1, r₁), (2, r₂)]⟩]
    | _ => []

section Diamond

variable {r₁ r₂ : Nat}

lemma diamond_wellFormed (r₁ r₂ : Nat) : (diamond r₁ r₂).WellFormed where
  nodup := (by decide : [0, 1, 2, 3].Nodup)
  succs_mem := by simp [diamond]
  reachable _ _ := rfl
  defsFirst b i hi := by
    match b with
    | 0 | 3 =>
      obtain rfl := List.mem_singleton.mp hi
      unfold Insn.DefsFirst
      decide
    | 1 | 2 | _ + 4 => cases hi

lemma diamond_phiUses {b s : Nat} (h : (diamond r₁ r₂).PhiUses b s r) :
    b = 1 ∧ r = r₁ ∨ b = 2 ∧ r = r₂ := by
  obtain ⟨p, hp, ho⟩ := h
  match s with
  | 3 =>
    obtain rfl := List.mem_singleton.mp hp
    simpa using ho
  | 0 | 1 | 2 | _ + 4 => cases hp

lemma diamond_liveIn_join (h : (diamond r₁ r₂).LiveAt r ((diamond r₁ r₂).code 3) 3) : r = 3 := by
  cases h with
  | use h =>
    obtain ⟨o, ho, hreg, -⟩ := h
    obtain rfl := List.mem_singleton.mp ho
    exact hreg.symm
  | pass _ h =>
    cases h with
    | phi hs _ => cases hs
    | succ hs _ _ => cases hs

lemma diamond_liveOut_side {b : Nat} (hb : b = 1 ∨ b = 2)
    (h : (diamond r₁ r₂).LiveAt r [] b) : b = 1 ∧ r = r₁ ∨ b = 2 ∧ r = r₂ := by
  cases h with
  | phi _ huse => exact diamond_phiUses huse
  | @succ _ s hs hdef hlive =>
    have hs3 : s = 3 := by rcases hb with rfl | rfl <;> exact List.mem_singleton.mp hs
    subst hs3
    exact absurd (diamond_liveIn_join hlive).symm (hdef _ (List.mem_singleton.mpr rfl))

lemma diamond_liveOut {b : Nat} (h : (diamond r₁ r₂).LiveAt r [] b) :
    (b = 1 ∧ r = r₁ ∨ b = 2 ∧ r = r₂) ∨ b = 0 ∧ (r = r₁ ∨ r = r₂) := by
  match b with
  | 0 =>
    cases h with
    | phi _ huse => exact .inl (diamond_phiUses huse)
    | @succ _ s hs _ hlive =>
      have hs' : s = 1 ∨ s = 2 := by simpa [diamond] using hs
      have hside : (diamond r₁ r₂).LiveAt r [] s := by rcases hs' with rfl | rfl <;> exact hlive
      exact .inr ⟨rfl, (diamond_liveOut_side hs' hside).imp And.right And.right⟩
  | 1 => exact .inl (diamond_liveOut_side (.inl rfl) h)
  | 2 => exact .inl (diamond_liveOut_side (.inr rfl) h)
  | 3 | _ + 4 =>
    cases h with
    | phi hs _ => cases hs
    | succ hs _ _ => cases hs

lemma diamond_isSSA (h₁ : r₁ = 1 ∨ r₁ = 2) (h₂ : r₂ = 1 ∨ r₂ = 2) : (diamond r₁ r₂).IsSSA where
  single := (by decide : [1, 2, 3].Nodup)
  operands := by simp [diamond]
  strict b bs hbs r hlive := by
    obtain ⟨rfl, -⟩ := List.cons_eq_cons.mp hbs
    cases hlive with
    | use h =>
      obtain ⟨o, ho, -, huse⟩ := h
      simp only [List.mem_cons, List.not_mem_nil, or_false] at ho
      rcases ho with rfl | rfl <;> cases huse
    | pass hdef h =>
      refine hdef ⟨⟨r, true, false⟩, ?_, rfl, rfl⟩
      have hr : r = 1 ∨ r = 2 := by
        obtain (⟨hb, -⟩ | ⟨hb, -⟩) | ⟨-, rfl | rfl⟩ := diamond_liveOut h
        · cases hb
        · cases hb
        · exact h₁
        · exact h₂
      rcases hr with rfl | rfl <;> simp

lemma diamond_removed {b : Nat} (h : (diamond r₁ r₂).Removed b r) :
    b = 1 ∧ r = r₂ ∨ b = 2 ∧ r = r₁ := by
  obtain ⟨s, hs, hremoved⟩ := h
  obtain ⟨p, hp, o, ho, hne, rfl⟩ := mem_notFromThisBB.mp hremoved
  match s with
  | 3 =>
    have hb : b = 1 ∨ b = 2 := by
      match b with
      | 1 | 2 => decide
      | 0 => simp [diamond] at hs
      | 3 | _ + 4 => cases hs
    obtain rfl := List.mem_singleton.mp hp
    simp only [List.mem_cons, List.not_mem_nil, or_false] at ho
    rcases hb with rfl | rfl <;> rcases ho with rfl | rfl <;> simp_all
  | 0 | 1 | 2 | _ + 4 => cases hp

lemma diamond_keepsPhis : (diamond 1 2).KeepsPhis where
  notRemoved b _ r hlive hremoved := by
    have hlive' := diamond_liveOut hlive
    have hremoved' := diamond_removed hremoved
    omega
  operands b _ s _ r huse := by
    obtain ⟨p, hp, ho⟩ := huse
    match s with
    | 3 =>
      obtain rfl := List.mem_singleton.mp hp
      exact ⟨List.cons_ne_nil _ _, [], _, [], rfl, ⟨_, ho, rfl⟩, by simp⟩
    | 0 | 1 | 2 | _ + 4 => cases hp

end Diamond

/-- Two different values are joined. -/
theorem analysisLive_complete_iff_diamond :
    ∃ st, Outcome.Settles (diamond 1 2).analysisLive (.done st) ∧
      1 ∈ (st 1).liveOut ∧ 2 ∈ (st 2).liveOut := by
  obtain ⟨st, hsettles, hcomplete, -⟩ := analysisLive_complete_iff (diamond_wellFormed 1 2)
  have h1 : (diamond 1 2).Reachable 1 := .succ (.first rfl) List.mem_cons_self
  have h2 : (diamond 1 2).Reachable 2 :=
    .succ (.first rfl) (List.mem_cons_of_mem _ List.mem_cons_self)
  have hall := hcomplete diamond_keepsPhis
  refine ⟨st, hsettles, hall 1 h1 1 ?_, hall 2 h2 2 ?_⟩
  · exact .phi List.mem_cons_self ⟨_, List.mem_cons_self, List.mem_cons_self⟩
  · exact .phi List.mem_cons_self
      ⟨_, List.mem_cons_self, List.mem_cons_of_mem _ List.mem_cons_self⟩

/-- One register is the operand for both predecessors: it is lost at their ends, as each removes
what the phi has for the other. -/
theorem analysisLive_sharedOperand :
    (diamond 1 1).WellFormed ∧ (diamond 1 1).IsSSA ∧
      ∃ st, Outcome.Settles (diamond 1 1).analysisLive (.done st) ∧ ¬ (diamond 1 1).Complete st ∧
        (diamond 1 1).Reachable 1 ∧ (diamond 1 1).LiveAt 1 [] 1 ∧ 1 ∉ (st 1).liveOut := by
  have hf := diamond_wellFormed 1 1
  obtain ⟨st, hsettles, hinv, -⟩ := analysisLive_settles hf.nodup
  have hr : (diamond 1 1).Reachable 1 := .succ (.first rfl) List.mem_cons_self
  have hlive : (diamond 1 1).LiveAt 1 [] 1 :=
    .phi List.mem_cons_self ⟨_, List.mem_cons_self, List.mem_cons_self⟩
  have hlost : 1 ∉ (st 1).liveOut := by
    intro hmem
    refine hinv.removed 1 3 (fun _ => List.mem_singleton.mp) 1 hmem ?_
    exact mem_notFromThisBB.mpr ⟨_, List.mem_singleton.mpr rfl, (2, 1), by simp, by decide, rfl⟩
  exact ⟨hf, diamond_isSSA (.inl rfl) (.inl rfl), st, hsettles,
    fun hcomplete => hlost (hcomplete 1 hr 1 hlive), hr, hlive, hlost⟩

end SSAFunc
end Live
end Maple
