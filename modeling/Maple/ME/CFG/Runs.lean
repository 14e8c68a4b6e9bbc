import Maple.ME.CFG.Symmetry
import Mathlib.Order.Nat

/-!
# Runs of calls on the control flow graph

From a graph in which both lists of the edges agree, every sequence of calls keeps them so.
-/

namespace Maple
namespace CFG

variable {profileUse : Bool} {s s' : CFG}

/-- The graph before and after every call. An edge of a common block is listed on one side only:
by the common entry for the blocks that are marked as entries, by the common exit for those that
are marked as exits. -/
structure WellFormed (s : CFG) : Prop extends Symmetric s where
  pred_le : ∀ a b, b ≠ commonExit → (s b).isEntry = false → predCount s a b ≤ succCount s a b
  succ_le : ∀ a b, a ≠ commonEntry → (s a).isExit = false → succCount s a b ≤ predCount s a b

lemma EdgeChange.wellFormed {minus plus : BBId → BBId → Nat} (h : EdgeChange s s' minus plus)
    (hs : s.WellFormed) (hplus : ∀ a b, notCommon a → notCommon b →
      plus a b = 0 ∨ plus a b = 1 ∧ succCount s a b ≤ minus a b) : s'.WellFormed := by
  refine ⟨⟨?_, ?_⟩, ?_, ?_⟩
  · intro a b ha hb
    have := hs.count_eq a b ha hb
    have := h.succ a b
    have := h.pred a b
    omega
  · intro a b ha hb
    have := hs.count_le_one a b ha hb
    have := h.succ a b
    rcases hplus a b ha hb with hp | ⟨hp, hle⟩ <;> omega
  · intro a b hb hentry
    rw [h.isEntry_eq] at hentry
    have := hs.pred_le a b hb hentry
    have := h.succ a b
    have := h.pred a b
    omega
  · intro a b ha hexit
    rw [h.isExit_eq] at hexit
    have := hs.succ_le a b ha hexit
    have := h.succ a b
    have := h.pred a b
    omega

lemma edge_eq_zero_or {x y : BBId} {P : BBId → BBId → Prop} (h : P x y) (a b : BBId) :
    edge x y a b = 0 ∨ edge x y a b = 1 ∧ P a b := by
  unfold edge
  split_ifs with hab
  · obtain ⟨rfl, rfl⟩ := hab
    exact Or.inr ⟨rfl, h⟩
  · exact Or.inl rfl

lemma Replaces.wellFormed {old new : BBId × BBId} (h : Replaces s s' old new)
    (hs : s.WellFormed) : s'.WellFormed := by
  obtain ⟨plus, hchange, rfl | ⟨rfl, hnew⟩⟩ := h.change
  · exact hchange.wellFormed hs fun _ _ _ _ => Or.inl rfl
  · apply hchange.wellFormed hs
    intro a b ha hb
    unfold edge at hnew ⊢
    by_cases hab : a = new.1 ∧ b = new.2
    · obtain ⟨rfl, rfl⟩ := hab
      have := hs.count_eq _ _ ha hb
      refine Or.inr ⟨by simp, ?_⟩
      omega
    · exact Or.inl (if_neg hab)

lemma EdgeChange.wellFormed_noEdge {minus : BBId → BBId → Nat} (h : EdgeChange s s' minus noEdge)
    (hs : s.WellFormed) : s'.WellFormed :=
  h.wellFormed hs fun _ _ _ _ => Or.inl rfl

lemma removeAllPred_spec {fuel : Nat} {this : BBId} (hs : s.WellFormed) :
    (((s this).pred.length < fuel → removeAllPred profileUse fuel this s ≠ .outOfFuel)) ∧
      ∀ s', removeAllPred profileUse fuel this s = .done s' → s'.WellFormed := by
  have step (t t' : CFG) (ht : t.WellFormed) (hcond : (!(t this).pred.isEmpty) = true)
      (hbody : removePred profileUse this ((t this).pred.getLastD 0) true t = some t') :
      t'.WellFormed ∧ (t' this).pred.length < (t this).pred.length := by
    obtain ⟨hchange, herase⟩ := removePred_spec ht.toSymmetric hbody
    refine ⟨hchange.wellFormed_noEdge ht, ?_⟩
    have hne : (t this).pred ≠ [] := by
      simpa using hcond
    have hmem : (t this).pred.getLastD 0 ∈ (t this).pred := by
      rw [List.getLastD_eq_getLast?, List.getLast?_eq_some_getLast hne]
      exact List.getLast_mem hne
    rw [herase, List.length_erase_of_mem hmem]
    exact Nat.sub_lt (List.length_pos_of_mem hmem) Nat.one_pos
  constructor
  · intro hfuel
    exact whileLoop_terminates WellFormed _ step hs hfuel
  · intro s' h
    exact (whileLoop_invariant WellFormed (fun t t' ht hc hb => (step t t' ht hc hb).1) hs h).1

lemma removeAllSucc_spec {fuel : Nat} {this : BBId} (hs : s.WellFormed) :
    ((s this).succ.length < fuel → removeAllSucc profileUse fuel this s ≠ .outOfFuel) ∧
      ∀ s', removeAllSucc profileUse fuel this s = .done s' → s'.WellFormed := by
  have step (t t' : CFG) (ht : t.WellFormed) (hcond : (!(t this).succ.isEmpty) = true)
      (hbody : removeSucc profileUse this ((t this).succ.getLastD 0) true t = some t') :
      t'.WellFormed ∧ (t' this).succ.length < (t this).succ.length := by
    obtain ⟨hchange, herase⟩ := removeSucc_spec ht.toSymmetric hbody
    refine ⟨hchange.wellFormed_noEdge ht, ?_⟩
    have hne : (t this).succ ≠ [] := by
      simpa using hcond
    have hmem : (t this).succ.getLastD 0 ∈ (t this).succ := by
      rw [List.getLastD_eq_getLast?, List.getLast?_eq_some_getLast hne]
      exact List.getLast_mem hne
    rw [herase, List.length_erase_of_mem hmem]
    exact Nat.sub_lt (List.length_pos_of_mem hmem) Nat.one_pos
  unfold removeAllSucc
  cases hloop : whileLoop (fun s : CFG => !(s this).succ.isEmpty)
      (fun s => removeSucc profileUse this ((s this).succ.getLastD 0) true s) fuel s with
  | done t =>
    refine ⟨by simp, ?_⟩
    rintro s' ⟨⟩
    have ht := (whileLoop_invariant WellFormed (fun t t' ht hc hb => (step t t' ht hc hb).1) hs
      hloop).1
    -- clearing the frequencies changes no edge
    have hsame : EdgeChange t (Function.update t this { t this with succFreq := [] }) noEdge noEdge :=
      PredChange.trans_succ (predChange_refl t) (succChange_update (by simp) (by simp) rfl rfl rfl)
    exact hsame.wellFormed_noEdge ht
  | assertionFailed => simp
  | outOfFuel =>
    refine ⟨?_, by simp⟩
    intro hfuel
    exact absurd hloop (whileLoop_terminates WellFormed _ step hs hfuel)

lemma moveAllPredToSucc_round {this newSucc : BBId} (hne : newSucc ≠ this) (hexit : this ≠ commonExit)
    (hs : s.WellFormed) (hentry : (s this).isEntry = false)
    (hcond : (!(s this).pred.isEmpty) = true)
    (hbody : (if this ∈ (s ((s this).pred.headD 0)).succ then
      replaceSucc profileUse ((s this).pred.headD 0) this newSucc true s else some s) = some s') :
    (s'.WellFormed ∧ (s' this).isEntry = false) ∧
      (s' this).pred.length < (s this).pred.length := by
  have hnil : (s this).pred ≠ [] := by
    simpa using hcond
  have hmem : (s this).pred.headD 0 ∈ (s this).pred := by
    rw [List.headD_eq_head?_getD, List.head?_eq_some_head hnil]
    exact List.head_mem hnil
  have hsucc : this ∈ (s ((s this).pred.headD 0)).succ := by
    have hle := hs.pred_le ((s this).pred.headD 0) this hexit hentry
    have hpos : 0 < predCount s ((s this).pred.headD 0) this := List.count_pos_iff.mpr hmem
    exact List.count_pos_iff.mp (Nat.lt_of_lt_of_le hpos hle)
  rw [if_pos hsucc] at hbody
  obtain ⟨hreplaces, herase⟩ := replaceSucc_spec hbody
  obtain ⟨plus, hchange, -⟩ := hreplaces.change
  refine ⟨⟨hreplaces.wellFormed hs, (hchange.isEntry_eq this).trans hentry⟩, ?_⟩
  rw [herase hne, List.length_erase_of_mem hmem]
  exact Nat.sub_lt (List.length_pos_of_mem hmem) Nat.one_pos

lemma moveAllSuccToPred_round {this newPred : BBId} (hne : newPred ≠ this)
    (hentry : this ≠ commonEntry) (hs : s.WellFormed) (hexit : (s this).isExit = false)
    (hcond : (!(s this).succ.isEmpty) = true)
    (hbody : (if this ∈ (s ((s this).succ.headD 0)).pred then
      replacePred profileUse ((s this).succ.headD 0) this newPred s else some s) = some s') :
    (s'.WellFormed ∧ (s' this).isExit = false) ∧
      (s' this).succ.length < (s this).succ.length := by
  have hnil : (s this).succ ≠ [] := by
    simpa using hcond
  have hmem : (s this).succ.headD 0 ∈ (s this).succ := by
    rw [List.headD_eq_head?_getD, List.head?_eq_some_head hnil]
    exact List.head_mem hnil
  have hpred : this ∈ (s ((s this).succ.headD 0)).pred := by
    have hle := hs.succ_le this ((s this).succ.headD 0) hentry hexit
    have hpos : 0 < succCount s this ((s this).succ.headD 0) := List.count_pos_iff.mpr hmem
    exact List.count_pos_iff.mp (Nat.lt_of_lt_of_le hpos hle)
  rw [if_pos hpred] at hbody
  obtain ⟨hreplaces, herase⟩ := replacePred_spec hbody
  obtain ⟨plus, hchange, -⟩ := hreplaces.change
  refine ⟨⟨hreplaces.wellFormed hs, (hchange.isExit_eq this).trans hexit⟩, ?_⟩
  rw [herase hne, List.length_erase_of_mem hmem]
  exact Nat.sub_lt (List.length_pos_of_mem hmem) Nat.one_pos

lemma wellFormed_moveEntry {this : BBId} (newSucc : BBId) (hs : s.WellFormed)
    (hentry : (s this).isEntry = true) (hpred : ∀ b, (s' b).pred = (s b).pred)
    (hsucc : ∀ a, a ≠ commonEntry → (s' a).succ = (s a).succ)
    (hcommon : (s' commonEntry).succ = (s commonEntry).succ.erase this ++ [newSucc])
    (hflag : ∀ b, (s b).isEntry = true → (s' b).isEntry = true)
    (hexit : ∀ b, (s' b).isExit = (s b).isExit) : s'.WellFormed := by
  have hpredCount (a b : BBId) : predCount s' a b = predCount s a b := by
    rw [predCount, hpred, predCount]
  have hsuccCount {a : BBId} (ha : a ≠ commonEntry) (b : BBId) :
      succCount s' a b = succCount s a b := by
    rw [succCount, hsucc a ha, succCount]
  have hne {a : BBId} (ha : notCommon a) : a ≠ commonEntry := by
    rintro rfl
    cases ha
  refine ⟨⟨?_, ?_⟩, ?_, ?_⟩
  · intro a b ha hb
    rw [hsuccCount (hne ha), hpredCount]
    exact hs.count_eq a b ha hb
  · intro a b ha hb
    rw [hsuccCount (hne ha)]
    exact hs.count_le_one a b ha hb
  · intro a b hb hb'
    have hold : (s b).isEntry = false := by
      by_contra h
      rw [hflag b (by simpa using h)] at hb'
      cases hb'
    have hthis : b ≠ this := by
      rintro rfl
      rw [hentry] at hold
      cases hold
    rw [hpredCount]
    refine Nat.le_trans (hs.pred_le a b hb hold) ?_
    by_cases ha : a = commonEntry
    · subst ha
      rw [succCount, succCount, hcommon, List.count_append, List.count_erase_of_ne hthis]
      exact Nat.le_add_right _ _
    · exact (hsuccCount ha b).ge
  · intro a b ha ha'
    rw [hexit] at ha'
    rw [hsuccCount ha, hpredCount]
    exact hs.succ_le a b ha ha'

lemma wellFormed_moveExit {this : BBId} (newPred : BBId) (hs : s.WellFormed)
    (hexit : (s this).isExit = true) (hsucc : ∀ a, (s' a).succ = (s a).succ)
    (hpred : ∀ b, b ≠ commonExit → (s' b).pred = (s b).pred)
    (hcommon : (s' commonExit).pred = (s commonExit).pred.erase this ++ [newPred])
    (hflag : ∀ b, (s b).isExit = true → (s' b).isExit = true)
    (hentry : ∀ b, (s' b).isEntry = (s b).isEntry) : s'.WellFormed := by
  have hsuccCount (a b : BBId) : succCount s' a b = succCount s a b := by
    rw [succCount, hsucc, succCount]
  have hpredCount {b : BBId} (hb : b ≠ commonExit) (a : BBId) :
      predCount s' a b = predCount s a b := by
    rw [predCount, hpred b hb, predCount]
  have hne {b : BBId} (hb : notCommon b) : b ≠ commonExit := by
    rintro rfl
    cases hb
  refine ⟨⟨?_, ?_⟩, ?_, ?_⟩
  · intro a b ha hb
    rw [hsuccCount, hpredCount (hne hb)]
    exact hs.count_eq a b ha hb
  · intro a b ha hb
    rw [hsuccCount]
    exact hs.count_le_one a b ha hb
  · intro a b hb hb'
    rw [hentry] at hb'
    rw [hsuccCount, hpredCount hb]
    exact hs.pred_le a b hb hb'
  · intro a b ha ha'
    have hold : (s a).isExit = false := by
      by_contra h
      rw [hflag a (by simpa using h)] at ha'
      cases ha'
    have hthis : a ≠ this := by
      rintro rfl
      rw [hexit] at hold
      cases hold
    rw [hsuccCount]
    refine Nat.le_trans (hs.succ_le a b ha hold) ?_
    by_cases hb : b = commonExit
    · subst hb
      rw [predCount, predCount, hcommon, List.count_append, List.count_erase_of_ne hthis]
      exact Nat.le_add_right _ _
    · exact (hpredCount hb a).ge

lemma moveAllPredToSucc_spec {fuel : Nat} {this newSucc : BBId} (hne : newSucc ≠ this)
    (hexit : this ≠ commonExit) (hs : s.WellFormed) :
    ((s this).pred.length < fuel →
      moveAllPredToSucc profileUse fuel this newSucc s ≠ .outOfFuel) ∧
    ∀ s', moveAllPredToSucc profileUse fuel this newSucc s = .done s' → s'.WellFormed ∧
      ((s' this).pred = [] ↔ (s this).isEntry = false ∨ (s this).pred = []) := by
  unfold moveAllPredToSucc
  cases hentry : (s this).isEntry with
  | true =>
    rw [if_pos rfl]
    split_ifs with hassert
    · refine ⟨by simp, ?_⟩
      rintro s' ⟨⟩
      refine ⟨wellFormed_moveEntry newSucc hs hentry (by simp) ?_ (by simp [removeBBFromVector]) ?_
        (by simp), by simp⟩
      · intro a ha
        simp [setSucc_succ_of_ne _ _ ha]
      · intro b hb
        simp [hb]
    · simp
  | false =>
    rw [if_neg Bool.false_ne_true]
    let Inv (t : CFG) : Prop := t.WellFormed ∧ (t this).isEntry = false
    constructor
    · intro hfuel
      exact whileLoop_terminates Inv (fun t => (t this).pred.length)
        (fun t t' ht hc hb => moveAllPredToSucc_round hne hexit ht.1 ht.2 hc hb) ⟨hs, hentry⟩ hfuel
    · intro s' h
      obtain ⟨hinv, hend⟩ := whileLoop_invariant Inv
        (fun t t' ht hc hb => (moveAllPredToSucc_round hne hexit ht.1 ht.2 hc hb).1) ⟨hs, hentry⟩ h
      refine ⟨hinv.1, ?_⟩
      simpa using hend

lemma moveAllSuccToPred_spec {fuel : Nat} {this newPred : BBId} (hne : newPred ≠ this)
    (hentry : this ≠ commonEntry) (hs : s.WellFormed) :
    ((s this).succ.length < fuel →
      moveAllSuccToPred profileUse fuel this newPred s ≠ .outOfFuel) ∧
    ∀ s', moveAllSuccToPred profileUse fuel this newPred s = .done s' → s'.WellFormed ∧
      ((s' this).succ = [] ↔ (s this).isExit = false ∨ (s this).succ = []) := by
  unfold moveAllSuccToPred
  cases hexit : (s this).isExit with
  | true =>
    rw [if_pos rfl]
    split_ifs with hassert
    · refine ⟨by simp, ?_⟩
      rintro s' ⟨⟩
      refine ⟨wellFormed_moveExit newPred hs hexit (by simp) ?_ (by simp [removeBBFromVector]) ?_
        (by simp), by simp⟩
      · intro b hb
        simp [setPred_pred_of_ne _ _ hb]
      · intro b hb
        simp [hb]
    · simp
  | false =>
    rw [if_neg Bool.false_ne_true]
    let Inv (t : CFG) : Prop := t.WellFormed ∧ (t this).isExit = false
    constructor
    · intro hfuel
      exact whileLoop_terminates Inv (fun t => (t this).succ.length)
        (fun t t' ht hc hb => moveAllSuccToPred_round hne hentry ht.1 ht.2 hc hb) ⟨hs, hexit⟩ hfuel
    · intro s' h
      obtain ⟨hinv, hend⟩ := whileLoop_invariant Inv
        (fun t t' ht hc hb => (moveAllSuccToPred_round hne hentry ht.1 ht.2 hc hb).1) ⟨hs, hexit⟩ h
      refine ⟨hinv.1, ?_⟩
      simpa using hend

/-- A block is not moved to itself, and the lists of the common exit and of the common entry that
have no counterpart are not moved. -/
def Call.Regular : Call → Prop
  | .moveAllPredToSucc this newSucc => newSucc ≠ this ∧ this ≠ commonExit
  | .moveAllSuccToPred this newPred => newPred ≠ this ∧ this ≠ commonEntry
  | _ => True

/-- No edge but `old` and `new` changes, `new` is there afterwards, and `old` is not. -/
structure OnlyReplaces (s s' : CFG) (old new : BBId × BBId) : Prop where
  others : ∀ e, e ≠ old → e ≠ new →
    succCount s' e.1 e.2 = succCount s e.1 e.2 ∧ predCount s' e.1 e.2 = predCount s e.1 e.2
  new_mem : notCommon new.1 → notCommon new.2 → succCount s' new.1 new.2 = 1
  old_not_mem : old ≠ new → notCommon old.1 → notCommon old.2 → succCount s' old.1 old.2 = 0

/-- What a call does besides keeping the lists in agreement. -/
def Call.Effect (s s' : CFG) : Call → Prop
  | .replacePred this old newPred => OnlyReplaces s s' (old, this) (newPred, this)
  | .replaceSucc this old newSucc _ => OnlyReplaces s s' (this, old) (this, newSucc)
  | .moveAllPredToSucc this _ =>
    (s' this).pred = [] ↔ (s this).isEntry = false ∨ (s this).pred = []
  | .moveAllSuccToPred this _ =>
    (s' this).succ = [] ↔ (s this).isExit = false ∨ (s this).succ = []
  | _ => True

lemma Replaces.onlyReplaces {old new : BBId × BBId} (h : Replaces s s' old new)
    (hs : s.WellFormed) : OnlyReplaces s s' old new := by
  have hs' := h.wellFormed hs
  obtain ⟨plus, hchange, hplus⟩ := h.change
  constructor
  · intro e hold hnew
    have hminus : edge old.1 old.2 e.1 e.2 = 0 := edge_of_ne hold
    have hzero : plus e.1 e.2 = 0 := by
      rcases hplus with rfl | ⟨rfl, -⟩
      · rfl
      · exact edge_of_ne hnew
    have := hchange.succ e.1 e.2
    have := hchange.pred e.1 e.2
    omega
  · intro h1 h2
    have := hs'.count_le_one _ _ h1 h2
    have := hs'.count_eq _ _ h1 h2
    have := h.new_mem
    omega
  · intro hne h1 h2
    have hzero : plus old.1 old.2 = 0 := by
      rcases hplus with rfl | ⟨rfl, -⟩
      · rfl
      · exact edge_of_ne hne
    have := hs.count_le_one _ _ h1 h2
    have hcount := hchange.succ old.1 old.2
    rw [edge_self] at hcount
    omega

lemma exec_spec {c : Call} (hc : c.Regular) (hs : s.WellFormed) :
    (∃ n, ∀ fuel, n < fuel → exec profileUse fuel c s ≠ .outOfFuel) ∧
    ∀ fuel s', exec profileUse fuel c s = .done s' → s'.WellFormed ∧ c.Effect s s' := by
  cases c with
  | addPred this predBB pos =>
    refine ⟨⟨0, by simp [exec]⟩, ?_⟩
    intro fuel s' h
    obtain ⟨hchange, hzero⟩ := addPred_spec (Outcome.ofOption_eq_done_iff.mp h)
    refine ⟨hchange.wellFormed hs ?_, trivial⟩
    intro a b _ _
    exact edge_eq_zero_or (P := fun a b => succCount s a b ≤ noEdge a b) hzero.le a b
  | addSucc this succBB pos =>
    refine ⟨⟨0, by simp [exec]⟩, ?_⟩
    intro fuel s' h
    obtain ⟨hchange, hzero⟩ := addSucc_spec (Outcome.ofOption_eq_done_iff.mp h)
    refine ⟨hchange.wellFormed hs ?_, trivial⟩
    intro a b _ _
    exact edge_eq_zero_or (P := fun a b => succCount s a b ≤ noEdge a b) hzero.le a b
  | removePred this predBB updatePhi =>
    refine ⟨⟨0, by simp [exec]⟩, ?_⟩
    intro fuel s' h
    have hchange := (removePred_spec hs.toSymmetric (Outcome.ofOption_eq_done_iff.mp h)).1
    exact ⟨hchange.wellFormed_noEdge hs, trivial⟩
  | removeSucc this succBB updatePhi =>
    refine ⟨⟨0, by simp [exec]⟩, ?_⟩
    intro fuel s' h
    have hchange := (removeSucc_spec hs.toSymmetric (Outcome.ofOption_eq_done_iff.mp h)).1
    exact ⟨hchange.wellFormed_noEdge hs, trivial⟩
  | removeAllPred this =>
    refine ⟨⟨_, fun fuel hfuel => (removeAllPred_spec hs).1 hfuel⟩, ?_⟩
    intro fuel s' h
    exact ⟨(removeAllPred_spec hs).2 s' h, trivial⟩
  | removeAllSucc this =>
    refine ⟨⟨_, fun fuel hfuel => (removeAllSucc_spec hs).1 hfuel⟩, ?_⟩
    intro fuel s' h
    exact ⟨(removeAllSucc_spec hs).2 s' h, trivial⟩
  | replacePred this old newPred =>
    refine ⟨⟨0, by simp [exec]⟩, ?_⟩
    intro fuel s' h
    have hreplaces := (replacePred_spec (Outcome.ofOption_eq_done_iff.mp h)).1
    exact ⟨hreplaces.wellFormed hs, hreplaces.onlyReplaces hs⟩
  | replaceSucc this old newSucc updatePhi =>
    refine ⟨⟨0, by simp [exec]⟩, ?_⟩
    intro fuel s' h
    have hreplaces := (replaceSucc_spec (Outcome.ofOption_eq_done_iff.mp h)).1
    exact ⟨hreplaces.wellFormed hs, hreplaces.onlyReplaces hs⟩
  | moveAllPredToSucc this newSucc =>
    refine ⟨⟨_, fun fuel hfuel => (moveAllPredToSucc_spec hc.1 hc.2 hs).1 hfuel⟩, ?_⟩
    intro fuel s' h
    exact (moveAllPredToSucc_spec hc.1 hc.2 hs).2 s' h
  | moveAllSuccToPred this newPred =>
    refine ⟨⟨_, fun fuel hfuel => (moveAllSuccToPred_spec hc.1 hc.2 hs).1 hfuel⟩, ?_⟩
    intro fuel s' h
    exact (moveAllSuccToPred_spec hc.1 hc.2 hs).2 s' h

/-- The graphs that sequences of calls lead to. -/
inductive Reaches (profileUse : Bool) (s₀ : CFG) : CFG → Prop where
  | refl : Reaches profileUse s₀ s₀
  | call {s s' : CFG} {c : Call} {fuel : Nat} (h : Reaches profileUse s₀ s) (hc : c.Regular)
      (hexec : exec profileUse fuel c s = .done s') : Reaches profileUse s₀ s'

lemma Reaches.wellFormed {s₀ : CFG} (h : Reaches profileUse s₀ s) (h₀ : s₀.WellFormed) :
    s.WellFormed := by
  induction h with
  | refl => exact h₀
  | call _ hc hexec ih => exact ((exec_spec hc ih).2 _ _ hexec).1

/-- The entry block `2` has a back edge from `3`. -/
def loopAtEntry : CFG
  | 0 => ⟨[], [2], [], 0, false, false, []⟩
  | 2 => ⟨[3], [3], [], 0, true, false, []⟩
  | 3 => ⟨[2], [2], [], 0, false, false, []⟩
  | _ => ⟨[], [], [], 0, false, false, []⟩

lemma cases_loopAtEntry (a : Nat) : a = 0 ∨ a = 1 ∨ a = 2 ∨ a = 3 ∨ ∃ b, a = b + 4 := by
  by_cases h : a < 4
  · omega
  · exact .inr (.inr (.inr (.inr ⟨a - 4, by omega⟩)))

lemma counts_loopAtEntry (a b : BBId) :
    predCount loopAtEntry a b = edge 2 3 a b + edge 3 2 a b ∧
    succCount loopAtEntry a b = edge 2 3 a b + edge 3 2 a b + edge 0 2 a b := by
  constructor
  · unfold predCount
    obtain rfl | rfl | rfl | rfl | ⟨b, rfl⟩ := cases_loopAtEntry b
    · simp [loopAtEntry, edge]
    · simp [loopAtEntry, edge]
    · simp [loopAtEntry, edge, List.count_singleton, Eq.comm (b := a)]
    · simp [loopAtEntry, edge, List.count_singleton, Eq.comm (b := a)]
    · simp [loopAtEntry, edge]
  · unfold succCount
    obtain rfl | rfl | rfl | rfl | ⟨a, rfl⟩ := cases_loopAtEntry a
    · simp [loopAtEntry, edge, List.count_singleton, Eq.comm (b := b)]
    · simp [loopAtEntry, edge]
    · simp [loopAtEntry, edge, List.count_singleton, Eq.comm (b := b)]
    · simp [loopAtEntry, edge, List.count_singleton, Eq.comm (b := b)]
    · simp [loopAtEntry, edge]

lemma wellFormed_loopAtEntry : loopAtEntry.WellFormed := by
  have hentry {a : BBId} (ha : a ≠ commonEntry) (b : BBId) : edge 0 2 a b = 0 :=
    edge_of_ne fun h => ha (Prod.ext_iff.mp h).1
  have hne {a : BBId} (ha : notCommon a) : a ≠ commonEntry := by
    rintro rfl
    cases ha
  refine ⟨⟨?_, ?_⟩, ?_, ?_⟩
  · intro a b ha _
    obtain ⟨hp, hs⟩ := counts_loopAtEntry a b
    have := hentry (hne ha) b
    omega
  · intro a b ha _
    rw [(counts_loopAtEntry a b).2, hentry (hne ha) b]
    by_cases h2 : a = 2
    · subst h2
      by_cases hb : b = 3 <;> simp [edge, hb]
    · by_cases hb : a = 3 ∧ b = 2 <;> simp [edge, h2, hb]
  · intro a b _ _
    obtain ⟨hp, hs⟩ := counts_loopAtEntry a b
    omega
  · intro a b ha _
    obtain ⟨hp, hs⟩ := counts_loopAtEntry a b
    have := hentry ha b
    omega

end CFG
end Maple
