import Maple.Lib.Dominators
import Maple.Util.Dominance.PostOrder

/-!
# One round of `ComputeDominance`

`Intersect` finds the meet of two nodes, and a visit replaces the dominator of a node by the meet of
its visited predecessors.
-/

namespace Maple
namespace Dominance

open Dominators

variable {g : FlowGraph} {ids : NodeId → Int} {pid : Nat} {doms : Doms}

/-- The dominators that have been found so far lie on the paths from the entry. -/
def IsTree (g : FlowGraph) (ids : NodeId → Int) (doms : Doms) : Prop :=
  IsPartialTree g.Edge ids g.commonEntryNode doms

/-! ### Intersect -/

section Intersect

variable {node₁ node₂ : NodeId}

lemma climb_settles (hpo : IsPostOrder g.toGraph ids pid) (ht : IsTree g ids doms)
    (h₁ : (doms node₁).isSome) (h₂ : (doms node₂).isSome) :
    ∃ top, Outcome.Settles (climb ids doms node₂ · node₁) (.done top) ∧ (doms top).isSome ∧
      ids node₁ ≤ ids top ∧ ids node₂ ≤ ids top ∧
      ∀ d, Above doms node₂ d → (Above doms top d ↔ Above doms node₁ d) := by
  have hentry : ∀ v, (doms v).isSome → ids v ≤ ids g.commonEntryNode :=
    fun v hv => hpo.le_entry (ht.reachable v hv)
  obtain ⟨top, hsettles, ⟨htop, hle, habove⟩, hend⟩ := @whileLoop_settles_of_step _
    (fun v => ids v < ids node₂) doms
    (fun v => (doms v).isSome ∧ ids node₁ ≤ ids v ∧
      ∀ d, Above doms node₂ d → (Above doms v d ↔ Above doms node₁ d))
    (fun v => (ids g.commonEntryNode - ids v).toNat) (by
      rintro v ⟨hv, hle, habove⟩ hcond
      have hlt : ids v < ids node₂ := by simpa using hcond
      obtain ⟨x, hx⟩ := Option.isSome_iff_exists.mp hv
      have hve : v ≠ g.commonEntryNode := by
        rintro rfl
        have hle := hentry node₂ h₂
        omega
      have hvx := ht.rank_lt v x hx hve
      have hxs := ht.isSome v x hx
      have hxe := hentry x hxs
      refine ⟨x, hx, ⟨hxs, by omega, ?_⟩, by omega⟩
      intro d hd
      rw [← habove d hd, above_iff hx, or_iff_right]
      rintro rfl
      have hle := hd.rank_le ht
      omega) node₁ ⟨h₁, le_rfl, fun _ _ => .rfl⟩
  have hlt : ids node₂ ≤ ids top := by simpa using hend
  exact ⟨top, hsettles, htop, hle, hlt, habove⟩

lemma intersect_settles (hpo : IsPostOrder g.toGraph ids pid) (ht : IsTree g ids doms)
    (h₁ : (doms node₁).isSome) (h₂ : (doms node₂).isSome) :
    ∃ c, Outcome.Settles (intersect ids doms · node₁ node₂) (.done c) ∧
      ∀ d, Above doms c d ↔ Above doms node₁ d ∧ Above doms node₂ d := by
  have hentry : ∀ v, (doms v).isSome → ids v ≤ ids g.commonEntryNode :=
    fun v hv => hpo.le_entry (ht.reachable v hv)
  induction hn : (ids g.commonEntryNode - ids node₁).toNat +
      (ids g.commonEntryNode - ids node₂).toNat using Nat.strongRecOn generalizing node₁ node₂ with
  | _ n ih =>
    by_cases heq : node₁ = node₂
    · subst heq
      refine ⟨node₁, ?_, by simp⟩
      apply Outcome.Settles.of_succ
      simp only [intersect, if_true]
      exact Outcome.settles_const (by simp)
    · obtain ⟨top₁, hs₁, ht₁, hle₁, hle₁₂, habove₁⟩ := climb_settles hpo ht h₁ h₂
      obtain ⟨top₂, hs₂, ht₂, hle₂, hle₂₁, habove₂⟩ := climb_settles hpo ht h₂ ht₁
      have hne : ids node₁ ≠ ids node₂ := by
        intro hids
        exact heq (hpo.injective _ _ ((hpo.numbered_iff _).mpr (ht.reachable _ h₁)) hids)
      have he₁ := hentry top₁ ht₁
      have he₂ := hentry top₂ ht₂
      obtain ⟨c, hc, habove⟩ := ih _ (by omega) ht₁ ht₂ rfl
      refine ⟨c, ?_, ?_⟩
      · apply Outcome.Settles.of_succ
        simp only [intersect, heq, if_false]
        exact hs₁.bind (hs₂.bind hc)
      · intro d
        rw [habove d]
        constructor
        · rintro ⟨hd₁, hd₂⟩
          have hd₂' := (habove₂ d hd₁).mp hd₂
          exact ⟨(habove₁ d hd₂').mp hd₁, hd₂'⟩
        · rintro ⟨hd₁, hd₂⟩
          have hd₁' := (habove₁ d hd₂).mpr hd₁
          exact ⟨hd₁', (habove₂ d hd₁').mpr hd₂⟩

end Intersect

/-! ### The new dominator of a node -/

section NewIDom

variable {node : NodeId}

lemma firstPre_spec (doms : Doms) (node pre : NodeId) (prevNodes : List NodeId)
    (h : ∃ p ∈ pre :: prevNodes, (doms p).isSome ∧ p ≠ node) :
    ∃ first rest, firstPre doms node pre prevNodes = (first, rest) ∧ (doms first).isSome ∧
      first ≠ node ∧ ∀ p, (doms p).isSome → p ≠ node →
        (p ∈ pre :: prevNodes ↔ p = first ∨ p ∈ rest) := by
  induction prevNodes generalizing pre with
  | nil =>
    obtain ⟨p, hp, hps, hpn⟩ := h
    rw [List.mem_singleton] at hp
    subst hp
    exact ⟨p, [], rfl, hps, hpn, fun q _ _ => by simp⟩
  | cons next prevNodes ih =>
    unfold firstPre
    split_ifs with hskip
    · have hpre : ∀ p, (doms p).isSome → p ≠ node → p ≠ pre := by
        rintro p hps hpn rfl
        rcases hskip with hnone | heq
        · simp [hnone] at hps
        · exact hpn heq
      obtain ⟨p, hp, hps, hpn⟩ := h
      have hp' := (List.mem_cons.mp hp).resolve_left (hpre p hps hpn)
      obtain ⟨first, rest, heq, hfs, hfn, hmem⟩ := ih next ⟨p, hp', hps, hpn⟩
      refine ⟨first, rest, heq, hfs, hfn, ?_⟩
      intro q hqs hqn
      rw [← hmem q hqs hqn, List.mem_cons, or_iff_right (hpre q hqs hqn)]
    · rw [not_or] at hskip
      refine ⟨pre, next :: prevNodes, rfl, Option.isSome_iff_ne_none.mpr hskip.1, hskip.2, ?_⟩
      intro q _ _
      rw [List.mem_cons]

lemma intersectAll_settles (hpo : IsPostOrder g.toGraph ids pid) (ht : IsTree g ids doms)
    (node : NodeId) (prevNodes : List NodeId) {first : NodeId} (h : (doms first).isSome) :
    ∃ c, Outcome.Settles (intersectAll ids doms · node first prevNodes) (.done c) ∧
      ∀ d, Above doms c d ↔ Above doms first d ∧
        ∀ p ∈ prevNodes, (doms p).isSome → p ≠ node → Above doms p d := by
  induction prevNodes generalizing first with
  | nil => exact ⟨first, Outcome.settles_const (by simp), by simp⟩
  | cons pre prevNodes ih =>
    simp only [intersectAll, List.forall_mem_cons]
    split_ifs with hvisited
    · rw [← Option.isSome_iff_ne_none] at hvisited
      obtain ⟨m, hm, habove⟩ := intersect_settles hpo ht hvisited.1 h
      have hms : (doms m).isSome := Above.isSome ht ((habove m).mp .refl).2 h
      obtain ⟨c, hc, hall⟩ := ih hms
      refine ⟨c, hm.bind hc, ?_⟩
      intro d
      rw [hall d, habove d]
      constructor
      · rintro ⟨⟨hpre, hfirst⟩, hrest⟩
        exact ⟨hfirst, fun _ _ => hpre, hrest⟩
      · rintro ⟨hfirst, hpre, hrest⟩
        exact ⟨⟨hpre hvisited.1 hvisited.2, hfirst⟩, hrest⟩
    · obtain ⟨c, hc, hall⟩ := ih h
      refine ⟨c, hc, ?_⟩
      intro d
      rw [hall d]
      have hpre : (doms pre).isSome → pre ≠ node → Above doms pre d := by
        intro hs hn
        exact absurd ⟨Option.isSome_iff_ne_none.mp hs, hn⟩ hvisited
      constructor
      · rintro ⟨hfirst, hrest⟩
        exact ⟨hfirst, hpre, hrest⟩
      · rintro ⟨hfirst, -, hrest⟩
        exact ⟨hfirst, hrest⟩

lemma newIDom_settles (hpo : IsPostOrder g.toGraph ids pid) (ht : IsTree g ids doms)
    (hnode : g.Reachable node) (hne : node ≠ g.commonEntryNode)
    (hbefore : ∀ p, g.Reachable p → ids node < ids p → (doms p).isSome) :
    ∃ c S, Outcome.Settles (newIDom g.toGraph ids doms · node) (.done c) ∧ IsMeet doms S c ∧
      (∀ p, S p → g.Edge p node ∧ (doms p).isSome) ∧ (∃ p, S p ∧ ids node < ids p) ∧
      ∀ p, g.Edge p node → p ≠ node → (doms p).isSome → Above doms p c := by
  have hroot : ∀ v, g.Reachable v → ids v ≤ ids g.commonEntryNode := fun v hv => hpo.le_entry hv
  obtain ⟨parent, hparent, hlt⟩ := hpo.parent node ((hpo.numbered_iff node).mpr hnode) hne
  have hparentReach : g.Reachable parent := by
    obtain ⟨k, -, hk⟩ := hpo.exists_id node ((hpo.numbered_iff node).mpr hnode)
    exact (hpo.numbered_iff parent).mp (by omega)
  have hparentSome := hbefore parent hparentReach hlt
  have hparentNe : parent ≠ node := by
    rintro rfl
    omega
  have hentrySome : (doms g.commonEntryNode).isSome := by
    rw [ht.entry]
    rfl
  by_cases hinit : initNodeIsPred g.toGraph node = true
  · -- the entry is a predecessor, and nothing else is above all predecessors
    have hedge : g.Edge g.commonEntryNode node := by
      rw [initNodeIsPred, List.contains_iff_mem] at hinit
      exact hinit
    obtain ⟨first, rest, hfirst, hfs, -, -⟩ := firstPre_spec doms node
      g.commonEntryNode ((g.getPrevNodesToVisit node).drop 1)
      ⟨_, List.mem_cons_self, hentrySome, Ne.symm hne⟩
    have hfe : first = g.commonEntryNode := by
      have hskip : ¬(doms g.commonEntryNode = none ∨ g.commonEntryNode = node) := by
        simp [ht.entry, Ne.symm hne]
      cases hprev : (g.getPrevNodesToVisit node).drop 1 with
      | nil =>
        rw [hprev] at hfirst
        exact (Prod.mk.inj hfirst).1.symm
      | cons next prevNodes =>
        rw [hprev, firstPre, if_neg hskip] at hfirst
        exact (Prod.mk.inj hfirst).1.symm
    subst hfe
    obtain ⟨c, hc, habove⟩ := intersectAll_settles hpo ht node rest hfs
    have hce : c = g.commonEntryNode := Above.eq_entry ht ((habove c).mp .refl).1
    refine ⟨c, (· = g.commonEntryNode), ?_, ?_, ?_, ?_, ?_⟩
    · simp only [newIDom, hinit, if_true, hfirst]
      exact hc
    · intro d
      simp [hce]
    · rintro p rfl
      exact ⟨hedge, hentrySome⟩
    · exact ⟨_, rfl, lt_of_lt_of_le hlt (hroot parent hparentReach)⟩
    · intro p _ _ hps
      rw [hce]
      exact ht.above_entry hroot hps
  · have hnoEdge : ¬g.Edge g.commonEntryNode node := by
      rw [initNodeIsPred, List.contains_iff_mem] at hinit
      exact hinit
    have hmemPrev : ∀ p, g.Edge p node → (doms p).isSome →
        p ∈ g.getPrevNodesToVisit node := by
      intro p hp hps
      apply (g.mem_prev p node (ht.reachable p hps) hnode ?_).mpr hp
      rintro rfl
      exact hnoEdge hp
    have hedge : ∀ p ∈ g.getPrevNodesToVisit node, (doms p).isSome → g.Edge p node := by
      intro p hp hps
      by_cases hpe : p = g.commonEntryNode
      · subst hpe
        exact g.entry_mem_prev node hnode hp
      · exact (g.mem_prev p node (ht.reachable p hps) hnode hpe).mp hp
    cases hprev : g.getPrevNodesToVisit node with
    | nil =>
      have hmem := hmemPrev parent hparent hparentSome
      simp [hprev] at hmem
    | cons pre prevNodes =>
      rw [hprev] at hmemPrev hedge
      obtain ⟨first, rest, hfirst, hfs, hfn, hmem⟩ := firstPre_spec doms node pre prevNodes
        ⟨parent, hmemPrev parent hparent hparentSome, hparentSome, hparentNe⟩
      obtain ⟨c, hc, habove⟩ := intersectAll_settles hpo ht node rest hfs
      let S (p : NodeId) : Prop := (p = first ∨ p ∈ rest) ∧ (doms p).isSome ∧ p ≠ node
      have hmeet : IsMeet doms S c := by
        intro d
        rw [habove d]
        constructor
        · rintro ⟨hd, hrest⟩ p ⟨rfl | hp, hps, hpn⟩
          · exact hd
          · exact hrest p hp hps hpn
        · intro hall
          refine ⟨hall first ⟨.inl rfl, hfs, hfn⟩, ?_⟩
          intro p hp hps hpn
          exact hall p ⟨.inr hp, hps, hpn⟩
      have hS : ∀ p, g.Edge p node → p ≠ node → (doms p).isSome → S p := by
        intro p hp hpn hps
        exact ⟨(hmem p hps hpn).mp (hmemPrev p hp hps), hps, hpn⟩
      refine ⟨c, S, ?_, hmeet, ?_, ?_, ?_⟩
      · simp only [newIDom, hinit, Bool.false_eq_true, if_false, hprev, List.headD_cons,
          List.drop_one, List.tail_cons, hfirst]
        exact hc
      · rintro p ⟨hp, hps, hpn⟩
        exact ⟨hedge p ((hmem p hps hpn).mpr hp) hps, hps⟩
      · exact ⟨parent, hS parent hparent hparentNe hparentSome, hlt⟩
      · intro p hp hpn hps
        exact (hmeet c).mp .refl p (hS p hp hpn hps)

end NewIDom
end Dominance
end Maple
