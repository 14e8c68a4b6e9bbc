import Maple.ME.CFG.Basic
import Mathlib.Data.List.Count

/-!
# Both lists of the edges agree

A call changes the two counts of an edge, in the `succ` of its source and in the `pred` of its
target, in the same way.
-/

namespace Maple
namespace CFG

variable {profileUse : Bool} {s s' : CFG}

/-- How often `b` is listed as a successor of `a`. -/
def succCount (s : CFG) (a b : BBId) : Nat := (s a).succ.count b

/-- How often `a` is listed as a predecessor of `b`. -/
def predCount (s : CFG) (a b : BBId) : Nat := (s b).pred.count a

/-- One edge from `x` to `y`. -/
def edge (x y a b : BBId) : Nat := if a = x ∧ b = y then 1 else 0

lemma edge_self (x y : BBId) : edge x y x y = 1 := by simp [edge]

lemma edge_of_ne {x y a b : BBId} (h : (a, b) ≠ (x, y)) : edge x y a b = 0 := by
  rw [Ne, Prod.mk.injEq] at h
  exact if_neg h

/-- No edge. -/
def noEdge (_ _ : BBId) : Nat := 0

@[simp] lemma noEdge_apply (a b : BBId) : noEdge a b = 0 := rfl

/-! ### Changes of one list -/

lemma count_singleton_eq_edge (x y b : BBId) : [y].count b = edge x y x b := by
  simp [edge, List.count_singleton, Eq.comm (a := y)]

lemma count_singleton_eq_edge' (x y a : BBId) : [x].count a = edge x y a y := by
  simp [edge, List.count_singleton, Eq.comm (a := x)]

lemma count_replace {l : List BBId} {old new : BBId} (h : old ∈ l) (x : BBId) :
    (l.replace old new).count x + [old].count x = l.count x + [new].count x := by
  induction l with
  | nil => cases h
  | cons y l ih =>
    by_cases hy : old = y
    · subst hy
      simp only [List.replace_cons_self, List.count_cons, List.count_nil]
      omega
    · have hmem : old ∈ l := by
        rcases List.mem_cons.mp h with h | h
        · exact absurd h hy
        · exact h
      have := ih hmem
      rw [List.replace_cons]
      simp only [beq_eq_false_iff_ne.mpr hy, List.count_cons] at this ⊢
      omega

lemma count_erase_of_mem {l : List BBId} {bb : BBId} (h : bb ∈ l) (x : BBId) :
    (l.erase bb).count x + [bb].count x = l.count x := by
  have := List.count_pos_iff.mpr h
  rw [List.count_erase]
  by_cases hx : x = bb
  · subst hx
    simp
    omega
  · simp [Ne.symm hx]

lemma count_insertAt {pos : Nat} {l : List BBId} (h : pos ≤ l.length ∨ pos = uint32Max)
    (bb x : BBId) : (insertAt pos bb l).count x = l.count x + [bb].count x := by
  unfold insertAt
  split_ifs with hend
  · rw [List.count_append]
  · have hperm := List.perm_insertIdx bb l (h.resolve_right hend)
    rw [hperm.count_eq, List.count_cons, List.count_cons, List.count_nil]
    omega

/-- Only the edges in the `pred` of one block change: `minus` is taken out and `plus` is put in. -/
structure PredChange (s s' : CFG) (minus plus : BBId → BBId → Nat) : Prop where
  succ_eq : ∀ a, (s' a).succ = (s a).succ
  count : ∀ a b, predCount s' a b + minus a b = predCount s a b + plus a b
  isEntry_eq : ∀ b, (s' b).isEntry = (s b).isEntry
  isExit_eq : ∀ b, (s' b).isExit = (s b).isExit

/-- The same for the `succ` of one block. -/
structure SuccChange (s s' : CFG) (minus plus : BBId → BBId → Nat) : Prop where
  pred_eq : ∀ b, (s' b).pred = (s b).pred
  count : ∀ a b, succCount s' a b + minus a b = succCount s a b + plus a b
  isEntry_eq : ∀ b, (s' b).isEntry = (s b).isEntry
  isExit_eq : ∀ b, (s' b).isExit = (s b).isExit

/-- The edges change in both lists. -/
structure EdgeChange (s s' : CFG) (minus plus : BBId → BBId → Nat) : Prop where
  succ : ∀ a b, succCount s' a b + minus a b = succCount s a b + plus a b
  pred : ∀ a b, predCount s' a b + minus a b = predCount s a b + plus a b
  isEntry_eq : ∀ b, (s' b).isEntry = (s b).isEntry
  isExit_eq : ∀ b, (s' b).isExit = (s b).isExit

lemma predChange_update {this : BBId} {b : BB} {minus plus : BBId → BBId → Nat}
    (hcount : ∀ a, b.pred.count a + minus a this = (s this).pred.count a + plus a this)
    (hother : ∀ a c, c ≠ this → minus a c = 0 ∧ plus a c = 0)
    (hsucc : b.succ = (s this).succ) (hentry : b.isEntry = (s this).isEntry)
    (hexit : b.isExit = (s this).isExit) : PredChange s (Function.update s this b) minus plus := by
  constructor
  · intro a
    by_cases ha : a = this <;> simp [ha, hsucc]
  · intro a c
    by_cases hc : c = this
    · simpa [predCount, hc] using hcount a
    · simp [predCount, hc, hother a c hc]
  · intro c
    by_cases hc : c = this <;> simp [hc, hentry]
  · intro c
    by_cases hc : c = this <;> simp [hc, hexit]

lemma succChange_update {this : BBId} {b : BB} {minus plus : BBId → BBId → Nat}
    (hcount : ∀ c, b.succ.count c + minus this c = (s this).succ.count c + plus this c)
    (hother : ∀ a c, a ≠ this → minus a c = 0 ∧ plus a c = 0)
    (hpred : b.pred = (s this).pred) (hentry : b.isEntry = (s this).isEntry)
    (hexit : b.isExit = (s this).isExit) : SuccChange s (Function.update s this b) minus plus := by
  constructor
  · intro c
    by_cases hc : c = this <;> simp [hc, hpred]
  · intro a c
    by_cases ha : a = this
    · simpa [succCount, ha] using hcount c
    · simp [succCount, ha, hother a c ha]
  · intro c
    by_cases hc : c = this <;> simp [hc, hentry]
  · intro c
    by_cases hc : c = this <;> simp [hc, hexit]

lemma predChange_refl (s : CFG) : PredChange s s noEdge noEdge :=
  ⟨fun _ => rfl, fun _ _ => rfl, fun _ => rfl, fun _ => rfl⟩

lemma removePhiOpnd_spec {index : Nat} {b b' : BB} (h : removePhiOpnd index b = some b') :
    b'.pred = b.pred ∧ b'.succ = b.succ ∧ b'.isEntry = b.isEntry ∧ b'.isExit = b.isExit := by
  unfold removePhiOpnd at h
  split_ifs at h
  cases h
  exact ⟨rfl, rfl, rfl, rfl⟩

lemma removeBBFromPred_spec {this bb : BBId} {updatePhi : Bool}
    (h : removeBBFromPred this bb updatePhi s = some s') :
    PredChange s s' (edge bb this) noEdge ∧ bb ∈ (s this).pred ∧
      (s' this).pred = (s this).pred.erase bb := by
  unfold removeBBFromPred at h
  split at h
  case isFalse => cases h
  case isTrue hmem =>
    obtain ⟨b, hb, rfl⟩ := Option.map_eq_some_iff.mp h
    have hspec : b.pred = (s this).pred.erase bb ∧ b.succ = (s this).succ ∧
        b.isEntry = (s this).isEntry ∧ b.isExit = (s this).isExit := by
      split_ifs at hb
      · exact removePhiOpnd_spec hb
      · cases hb
        exact ⟨rfl, rfl, rfl, rfl⟩
    obtain ⟨hpred, hsucc, hentry, hexit⟩ := hspec
    refine ⟨predChange_update ?_ ?_ hsucc hentry hexit, hmem, by simpa using hpred⟩
    · intro a
      rw [hpred, ← count_singleton_eq_edge' bb this a]
      exact count_erase_of_mem hmem a
    · intro a c hc
      simp [edge, hc]

lemma removeBBFromSucc_spec {this bb : BBId} (h : bb ∈ (s this).succ) :
    SuccChange s (removeBBFromSucc profileUse this bb s) (edge this bb) noEdge := by
  refine succChange_update ?_ ?_ rfl rfl rfl
  · intro c
    rw [← count_singleton_eq_edge this bb c]
    exact count_erase_of_mem h c
  · intro a c ha
    simp [edge, ha]

lemma predChange_insert {this bb : BBId} {f : List BBId → List BBId}
    (hf : ∀ a, (f (s this).pred).count a = (s this).pred.count a + [bb].count a) :
    PredChange s (setPred this f s) noEdge (edge bb this) := by
  refine predChange_update ?_ ?_ rfl rfl rfl
  · intro a
    rw [← count_singleton_eq_edge' bb this a]
    exact hf a
  · intro a c hc
    simp [edge, hc]

lemma succChange_insert {this bb : BBId} {f : List BBId → List BBId}
    (hf : ∀ c, (f (s this).succ).count c = (s this).succ.count c + [bb].count c) :
    SuccChange s (setSucc this f s) noEdge (edge this bb) := by
  refine succChange_update ?_ ?_ rfl rfl rfl
  · intro c
    rw [← count_singleton_eq_edge this bb c]
    exact hf c
  · intro a c ha
    simp [edge, ha]

lemma predChange_replace {this old new : BBId} (h : old ∈ (s this).pred) :
    PredChange s (setPred this (fun pred => pred.replace old new) s) (edge old this)
      (edge new this) := by
  refine predChange_update ?_ ?_ rfl rfl rfl
  · intro a
    rw [← count_singleton_eq_edge' old this a, ← count_singleton_eq_edge' new this a]
    exact count_replace h a
  · intro a c hc
    simp [edge, hc]

lemma succChange_replace {this old new : BBId} (h : old ∈ (s this).succ) :
    SuccChange s (setSucc this (fun succ => succ.replace old new) s) (edge this old)
      (edge this new) := by
  refine succChange_update ?_ ?_ rfl rfl rfl
  · intro c
    rw [← count_singleton_eq_edge this old c, ← count_singleton_eq_edge this new c]
    exact count_replace h c
  · intro a c ha
    simp [edge, ha]

lemma PredChange.succCount_eq {minus plus : BBId → BBId → Nat} (h : PredChange s s' minus plus)
    (a b : BBId) : succCount s' a b = succCount s a b := by
  rw [succCount, h.succ_eq, succCount]

lemma SuccChange.predCount_eq {minus plus : BBId → BBId → Nat} (h : SuccChange s s' minus plus)
    (a b : BBId) : predCount s' a b = predCount s a b := by
  rw [predCount, h.pred_eq, predCount]

lemma PredChange.trans_succ {t : CFG} {minus plus : BBId → BBId → Nat}
    (hp : PredChange s t minus plus) (hs : SuccChange t s' minus plus) :
    EdgeChange s s' minus plus := by
  constructor
  · intro a b
    rw [← hp.succCount_eq]
    exact hs.count a b
  · intro a b
    rw [hs.predCount_eq]
    exact hp.count a b
  · intro b
    rw [hs.isEntry_eq, hp.isEntry_eq]
  · intro b
    rw [hs.isExit_eq, hp.isExit_eq]

lemma SuccChange.trans_pred {t : CFG} {minus plus : BBId → BBId → Nat}
    (hs : SuccChange s t minus plus) (hp : PredChange t s' minus plus) :
    EdgeChange s s' minus plus := by
  constructor
  · intro a b
    rw [hp.succCount_eq]
    exact hs.count a b
  · intro a b
    rw [← hs.predCount_eq]
    exact hp.count a b
  · intro b
    rw [hp.isEntry_eq, hs.isEntry_eq]
  · intro b
    rw [hp.isExit_eq, hs.isExit_eq]

lemma SuccChange.trans {t : CFG} {minus plus : BBId → BBId → Nat}
    (h₁ : SuccChange s t minus noEdge) (h₂ : SuccChange t s' noEdge plus) :
    SuccChange s s' minus plus := by
  constructor
  · intro b
    rw [h₂.pred_eq, h₁.pred_eq]
  · intro a b
    have h₁ := h₁.count a b
    have h₂ := h₂.count a b
    simp only [noEdge_apply] at h₁ h₂
    omega
  · intro b
    rw [h₂.isEntry_eq, h₁.isEntry_eq]
  · intro b
    rw [h₂.isExit_eq, h₁.isExit_eq]

lemma PredChange.trans {t : CFG} {minus plus : BBId → BBId → Nat}
    (h₁ : PredChange s t minus noEdge) (h₂ : PredChange t s' noEdge plus) :
    PredChange s s' minus plus := by
  constructor
  · intro a
    rw [h₂.succ_eq, h₁.succ_eq]
  · intro a b
    have h₁ := h₁.count a b
    have h₂ := h₂.count a b
    simp only [noEdge_apply] at h₁ h₂
    omega
  · intro b
    rw [h₂.isEntry_eq, h₁.isEntry_eq]
  · intro b
    rw [h₂.isExit_eq, h₁.isExit_eq]

/-! ### The calls -/

lemma addPred_spec {this predBB : BBId} {pos : Nat} (h : addPred this predBB pos s = some s') :
    EdgeChange s s' noEdge (edge predBB this) ∧ succCount s predBB this = 0 := by
  unfold addPred at h
  split_ifs at h with hassert
  obtain ⟨hpos, ⟨-, hsucc⟩, -⟩ := hassert
  cases h
  refine ⟨(predChange_insert (count_insertAt hpos predBB)).trans_succ (succChange_insert ?_), ?_⟩
  · intro c
    rw [List.count_append]
  · exact List.count_eq_zero.mpr hsucc

lemma addSucc_spec {this succBB : BBId} {pos : Nat} (h : addSucc this succBB pos s = some s') :
    EdgeChange s s' noEdge (edge this succBB) ∧ succCount s this succBB = 0 := by
  unfold addSucc at h
  split_ifs at h with hassert
  obtain ⟨hpos, ⟨hsucc, -⟩, -⟩ := hassert
  cases h
  refine ⟨(succChange_insert (count_insertAt hpos succBB)).trans_pred (predChange_insert ?_), ?_⟩
  · intro c
    rw [List.count_append]
  · exact List.count_eq_zero.mpr hsucc

/-- The two counts of an edge between blocks that are not common ones. -/
structure Symmetric (s : CFG) : Prop where
  count_eq : ∀ a b, notCommon a → notCommon b → succCount s a b = predCount s a b
  count_le_one : ∀ a b, notCommon a → notCommon b → succCount s a b ≤ 1

lemma Symmetric.mem_succ_of_mem_pred (hs : s.Symmetric) {a b : BBId} (ha : notCommon a)
    (hb : notCommon b) (h : a ∈ (s b).pred) : b ∈ (s a).succ := by
  have hpos : 0 < predCount s a b := List.count_pos_iff.mpr h
  rw [← hs.count_eq a b ha hb] at hpos
  exact List.count_pos_iff.mp hpos

lemma removePred_spec {this predBB : BBId} {updatePhi : Bool} (hs : s.Symmetric)
    (h : removePred profileUse this predBB updatePhi s = some s') :
    EdgeChange s s' (edge predBB this) noEdge ∧
      (s' this).pred = (s this).pred.erase predBB := by
  unfold removePred at h
  split_ifs at h with hassert
  rw [Bool.and_eq_true] at hassert
  obtain ⟨t, ht, rfl⟩ := Option.map_eq_some_iff.mp h
  obtain ⟨hpred, hmem, herase⟩ := removeBBFromPred_spec ht
  have hsucc : this ∈ (s predBB).succ := hs.mem_succ_of_mem_pred hassert.2 hassert.1 hmem
  rw [← hpred.succ_eq] at hsucc
  have hsuccChange : SuccChange t (removeBBFromSucc profileUse predBB this t) (edge predBB this)
      noEdge := removeBBFromSucc_spec hsucc
  refine ⟨hpred.trans_succ hsuccChange, ?_⟩
  rw [hsuccChange.pred_eq, herase]

lemma removeSucc_spec {this succBB : BBId} {updatePhi : Bool} (hs : s.Symmetric)
    (h : removeSucc profileUse this succBB updatePhi s = some s') :
    EdgeChange s s' (edge this succBB) noEdge ∧
      (s' this).succ = (s this).succ.erase succBB := by
  unfold removeSucc at h
  split_ifs at h with hassert
  rw [Bool.and_eq_true] at hassert
  obtain ⟨t, ht, rfl⟩ := Option.map_eq_some_iff.mp h
  obtain ⟨hpred, hmem, -⟩ := removeBBFromPred_spec ht
  have hsucc : succBB ∈ (s this).succ := hs.mem_succ_of_mem_pred hassert.1 hassert.2 hmem
  have herase :
      (removeBBFromSucc profileUse this succBB t this).succ = (t this).succ.erase succBB := by
    simp [removeBBFromSucc, removeBBFromVector]
  rw [← hpred.succ_eq] at hsucc
  refine ⟨hpred.trans_succ (removeBBFromSucc_spec hsucc), ?_⟩
  rw [herase, hpred.succ_eq]

/-- What `ReplacePred` and `ReplaceSucc` do: the edge `old` is taken out, and the edge `new` is put
in unless it is there already. -/
structure Replaces (s s' : CFG) (old new : BBId × BBId) : Prop where
  change : ∃ plus, EdgeChange s s' (edge old.1 old.2) plus ∧
    (plus = noEdge ∨ plus = edge new.1 new.2 ∧
      (succCount s new.1 new.2 = edge old.1 old.2 new.1 new.2 ∨
        predCount s new.1 new.2 = edge old.1 old.2 new.1 new.2))
  old_mem : 0 < succCount s old.1 old.2 ∧ 0 < predCount s old.1 old.2
  new_mem : 0 < succCount s' new.1 new.2 ∨ 0 < predCount s' new.1 new.2

lemma replacePred_spec {this old newPred : BBId}
    (h : replacePred profileUse this old newPred s = some s') :
    Replaces s s' (old, this) (newPred, this) ∧
      (newPred ≠ old → (s' old).succ = (s old).succ.erase this) := by
  unfold replacePred at h
  split at h
  case isFalse => cases h
  case isTrue hassert =>
    have hsucc : SuccChange s (removeBBFromSucc profileUse old this s) (edge old this) noEdge :=
      removeBBFromSucc_spec hassert.2
    have herase : (removeBBFromSucc profileUse old this s old).succ = (s old).succ.erase this := by
      simp [removeBBFromSucc, removeBBFromVector]
    have hmem : 0 < succCount s old this ∧ 0 < predCount s old this :=
      ⟨List.count_pos_iff.mpr hassert.2, List.count_pos_iff.mpr hassert.1⟩
    simp only at h
    split at h
    case isTrue hthere =>
      obtain ⟨hpred, -, -⟩ := removeBBFromPred_spec h
      refine ⟨⟨⟨noEdge, hsucc.trans_pred hpred, Or.inl rfl⟩, hmem, Or.inl ?_⟩, ?_⟩
      · rw [hpred.succCount_eq]
        exact List.count_pos_iff.mpr hthere
      · intro _
        rw [hpred.succ_eq, herase]
    case isFalse hnew =>
      cases h
      have hinsert : SuccChange (removeBBFromSucc profileUse old this s)
          (setSucc newPred (· ++ [this]) (removeBBFromSucc profileUse old this s)) noEdge
          (edge newPred this) := by
        apply succChange_insert
        intro c
        rw [List.count_append]
      have hold : old ∈ (setSucc newPred (· ++ [this])
          (removeBBFromSucc profileUse old this s) this).pred := by
        rw [hinsert.pred_eq, hsucc.pred_eq]
        exact hassert.1
      have hpred : PredChange _ _ (edge old this) (edge newPred this) := predChange_replace hold
      have hchange := (hsucc.trans hinsert).trans_pred hpred
      have hzero : succCount s newPred this = edge old this newPred this := by
        have h := hsucc.count newPred this
        rw [show succCount (removeBBFromSucc profileUse old this s) newPred this = 0 from
          List.count_eq_zero.mpr hnew, noEdge_apply] at h
        omega
      refine ⟨⟨⟨_, hchange, Or.inr ⟨rfl, Or.inl hzero⟩⟩, hmem, Or.inl ?_⟩, ?_⟩
      · have h := hchange.succ newPred this
        rw [edge_self] at h
        change 0 < succCount _ newPred this
        omega
      · intro hne
        rw [hpred.succ_eq]
        simp [setSucc, Ne.symm hne, herase]

lemma replaceSucc_spec {this old newSucc : BBId} {updatePhi : Bool}
    (h : replaceSucc profileUse this old newSucc updatePhi s = some s') :
    Replaces s s' (this, old) (this, newSucc) ∧
      (newSucc ≠ old → (s' old).pred = (s old).pred.erase this) := by
  unfold replaceSucc at h
  split at h
  case isFalse => cases h
  case isTrue hassert =>
    obtain ⟨t, ht, rfl⟩ := Option.map_eq_some_iff.mp h
    obtain ⟨hpred, -, herase⟩ := removeBBFromPred_spec ht
    have hmem : 0 < succCount s this old ∧ 0 < predCount s this old :=
      ⟨List.count_pos_iff.mpr hassert.1, List.count_pos_iff.mpr hassert.2⟩
    have hold : old ∈ (t this).succ := by
      rw [hpred.succ_eq]
      exact hassert.1
    split_ifs with hnew
    · have hsucc : SuccChange t (removeBBFromSucc profileUse this old t) (edge this old) noEdge :=
        removeBBFromSucc_spec hold
      refine ⟨⟨⟨noEdge, hpred.trans_succ hsucc, Or.inl rfl⟩, hmem, Or.inr ?_⟩, ?_⟩
      · rw [hsucc.predCount_eq]
        exact List.count_pos_iff.mpr hnew
      · intro _
        rw [hsucc.pred_eq, herase]
    · have hinsert : PredChange t (setPred newSucc (· ++ [this]) t) noEdge (edge this newSucc) := by
        apply predChange_insert
        intro c
        rw [List.count_append]
      have hold' : old ∈ (setPred newSucc (· ++ [this]) t this).succ := by
        rw [hinsert.succ_eq]
        exact hold
      have hsucc : SuccChange _ _ (edge this old) (edge this newSucc) := succChange_replace hold'
      have hchange := (hpred.trans hinsert).trans_succ hsucc
      have hzero : predCount s this newSucc = edge this old this newSucc := by
        have h := hpred.count this newSucc
        rw [show predCount t this newSucc = 0 from List.count_eq_zero.mpr hnew, noEdge_apply] at h
        omega
      refine ⟨⟨⟨_, hchange, Or.inr ⟨rfl, Or.inr hzero⟩⟩, hmem, Or.inr ?_⟩, ?_⟩
      · have h := hchange.pred this newSucc
        rw [edge_self] at h
        refine Nat.pos_of_ne_zero fun h0 => ?_
        rw [h0] at h
        omega
      · intro hne
        rw [hsucc.pred_eq]
        simp [setPred, Ne.symm hne, herase]

end CFG
end Maple
