import Maple.BE.ListScheduler.EStart

/-!
# The queues

Every node is in exactly one of the four lists, the candidates are the nodes with unresolved
dependences, and the counts of predecessors say how many are unresolved. Each movement between
the lists keeps this.
-/

namespace Maple
namespace ListScheduler

variable {α ρ : Type*} [DecidableEq α] {g : DepGraph α}

/-- How many links lead to the node from nodes that are not scheduled. -/
def DepGraph.unresolved (g : DepGraph α) (schedResults : List α) (n : α) : Nat :=
  g.links.countP fun l => l.dst = n ∧ l.src ∉ schedResults

def SchedInfo.allNodes (s : SchedInfo α ρ) : List α :=
  s.candidates ++ s.waitingQueue ++ s.readyList ++ s.schedResults

/-- The lists and the counts, while the links `ls` of the node that was scheduled last have not
been counted yet. -/
structure Queues (g : DepGraph α) (ls : List (DepLink α)) (s : SchedInfo α ρ) : Prop where
  perm : s.allNodes.Perm g.nodes
  candidate_iff : ∀ n ∈ g.nodes, n ∈ s.candidates ↔ s.state n = .kCandidate
  resolved_iff : ∀ n ∈ g.nodes, n ∈ s.candidates ↔ s.validPredsSize n ≠ 0
  preds : ∀ n ∈ g.nodes,
    s.validPredsSize n = g.unresolved s.schedResults n + ls.countP fun l => l.dst = n
  lt : ∀ n ∈ g.nodes, s.validPredsSize n < 2 ^ 32

lemma Queues.nodup (hg : g.Valid) {ls : List (DepLink α)} {s : SchedInfo α ρ}
    (h : Queues g ls s) : s.allNodes.Nodup :=
  h.perm.nodup_iff.mpr hg.nodup

lemma Queues.mem_nodes {ls : List (DepLink α)} {s : SchedInfo α ρ} (h : Queues g ls s) {n : α} :
    n ∈ g.nodes ↔
      n ∈ s.candidates ∨ n ∈ s.waitingQueue ∨ n ∈ s.readyList ∨ n ∈ s.schedResults := by
  rw [← h.perm.mem_iff]
  simp [SchedInfo.allNodes]

lemma Queues.src_mem {s : SchedInfo α ρ} (h : Queues g [] s) {n : α}
    (hn : n ∈ g.nodes) (hcand : n ∉ s.candidates) {l : DepLink α} (hl : l ∈ g.links)
    (hdst : l.dst = n) : l.src ∈ s.schedResults := by
  have hzero : s.validPredsSize n = 0 := by
    by_contra hne
    exact hcand ((h.resolved_iff n hn).mpr hne)
  rw [h.preds n hn, List.countP_nil, Nat.add_zero, DepGraph.unresolved,
    List.countP_eq_zero] at hzero
  have hnot := hzero l hl
  by_contra hsrc
  exact hnot (by simp [hdst, hsrc])

/-! ### Between the waiting queue and the ready list -/

lemma Queues.move (hg : g.Valid) {ls : List (DepLink α)} {s s' : SchedInfo α ρ}
    (h : Queues g ls s) (hcand : s'.candidates = s.candidates)
    (hresults : s'.schedResults = s.schedResults) (hpreds : s'.validPredsSize = s.validPredsSize)
    (hperm : (s'.waitingQueue ++ s'.readyList).Perm (s.waitingQueue ++ s.readyList))
    (hstate : ∀ n, s'.state n = s.state n ∨
      n ∈ s.waitingQueue ++ s.readyList ∧ s'.state n ≠ .kCandidate) : Queues g ls s' := by
  constructor
  · apply List.Perm.trans _ h.perm
    simp only [SchedInfo.allNodes, hcand, hresults, List.append_assoc]
    apply List.Perm.append_left
    rw [← List.append_assoc, ← List.append_assoc]
    exact hperm.append_right _
  · intro n hn
    rw [hcand]
    rcases hstate n with heq | ⟨hmem, hne⟩
    · rw [heq]
      exact h.candidate_iff n hn
    · have hout : n ∉ s.candidates := by
        have hnodup := h.nodup hg
        rw [SchedInfo.allNodes, List.append_assoc s.candidates] at hnodup
        have hdisj := (List.nodup_append.mp (List.nodup_append.mp hnodup).1).2.2
        intro hc
        exact hdisj n hc n hmem rfl
      exact ⟨fun hc => absurd hc hout, fun hc => absurd hc hne⟩
  · intro n hn
    rw [hcand, hpreds]
    exact h.resolved_iff n hn
  · intro n hn
    rw [hpreds, hresults]
    exact h.preds n hn
  · intro n hn
    rw [hpreds]
    exact h.lt n hn

variable {c : Config α ρ}

lemma queues_updateNodesInReadyList (hg : g.Valid) {s s' : SchedInfo α ρ} (h : Queues g [] s)
    (hupdate : updateNodesInReadyList c s = some s') : Queues g [] s' := by
  unfold updateNodesInReadyList at hupdate
  split_ifs at hupdate
  cases hupdate
  refine Queues.move hg h ?_ ?_ ?_ ?_ ?_
  · rfl
  · rfl
  · rfl
  · simp only [List.append_assoc]
    apply List.Perm.append_left
    simpa only [Bool.not_not] using List.filter_append_perm (fun n => hasConflict c s n) s.readyList
  · intro n
    by_cases hmem : n ∈ s.readyList.filter fun n => hasConflict c s n
    · right
      simp only [if_pos hmem, ne_eq, reduceCtorEq, not_false_eq_true, and_true]
      exact List.mem_append_right _ (List.mem_filter.mp hmem).1
    · exact Or.inl (if_neg hmem)

lemma queues_waitingQueueToReadyList (hg : g.Valid) {s : SchedInfo α ρ} (h : Queues g [] s) :
    Queues g [] (waitingQueueToReadyList c s) := by
  refine Queues.move hg h ?_ ?_ ?_ ?_ ?_
  · rfl
  · rfl
  · rfl
  · simp only [waitingQueueToReadyList]
    have hsplit := List.filter_append_perm (fun n => hasConflict c s n) s.waitingQueue
    apply List.Perm.trans _ (hsplit.append_right s.readyList)
    rw [List.append_assoc]
    exact List.Perm.append_left _ List.perm_append_comm
  · intro n
    by_cases hmem : n ∈ s.waitingQueue.filter fun n => !hasConflict c s n
    · right
      simp only [waitingQueueToReadyList, if_pos hmem, ne_eq, reduceCtorEq, not_false_eq_true,
        and_true]
      exact List.mem_append_left _ (List.mem_filter.mp hmem).1
    · exact Or.inl (if_neg hmem)

/-! ### Scheduling a node -/

lemma unresolved_eq_add {schedResults : List α} {x : α} (hx : x ∉ schedResults) (n : α) :
    g.unresolved schedResults n =
      g.unresolved (schedResults ++ [x]) n + (g.succs x).countP fun l => l.dst = n := by
  have hcount : ∀ links : List (DepLink α),
      (links.countP fun l => l.dst = n ∧ l.src ∉ schedResults) =
        (links.countP fun l => l.dst = n ∧ l.src ∉ schedResults ++ [x]) +
          (links.filter fun l => l.src = x).countP fun l => l.dst = n := by
    intro links
    induction links with
    | nil => rfl
    | cons l links ih =>
      rw [List.countP_cons, List.countP_cons, ih]
      generalize (links.countP fun l => l.dst = n ∧ l.src ∉ schedResults ++ [x]) = later
      by_cases hsrc : l.src = x
      · rw [List.filter_cons_of_pos (by simpa using hsrc), List.countP_cons]
        generalize (links.filter fun l => l.src = x).countP (fun l => l.dst = n) = now
        simp [hsrc, hx, Nat.add_assoc]
      · rw [List.filter_cons_of_neg (by simpa using hsrc)]
        generalize (links.filter fun l => l.src = x).countP (fun l => l.dst = n) = now
        simp [hsrc, Nat.add_right_comm]
  exact hcount g.links

/-- The state in which only the candidates, the waiting queue and the counts are different. -/
def SchedInfo.withQueues (s : SchedInfo α ρ) (candidates waitingQueue : List α)
    (state : α → ScheduleState) (validPredsSize : α → Nat) : SchedInfo α ρ :=
  { s with
    candidates := candidates, waitingQueue := waitingQueue, state := state
    validPredsSize := validPredsSize }

lemma resolveSucc_frame (s : SchedInfo α ρ) (l : DepLink α) :
    ∃ candidates waitingQueue state validPredsSize,
      resolveSucc s l = s.withQueues candidates waitingQueue state validPredsSize := by
  simp only [resolveSucc]
  split_ifs
  · exact ⟨_, _, _, _, rfl⟩
  · exact ⟨_, _, _, _, rfl⟩

lemma foldl_resolveSucc_frame (ls : List (DepLink α)) (s : SchedInfo α ρ) :
    ∃ candidates waitingQueue state validPredsSize,
      ls.foldl resolveSucc s = s.withQueues candidates waitingQueue state validPredsSize := by
  induction ls generalizing s with
  | nil => exact ⟨_, _, _, _, rfl⟩
  | cons l ls ih =>
    obtain ⟨_, _, _, _, hstep⟩ := resolveSucc_frame s l
    obtain ⟨_, _, _, _, hfold⟩ := ih (resolveSucc s l)
    rw [List.foldl_cons, hfold, hstep]
    exact ⟨_, _, _, _, rfl⟩

lemma dec32_eq {x : Nat} (h : x < 2 ^ 32) (hne : x ≠ 0) : dec32 x = x - 1 := by
  unfold dec32
  omega

lemma Queues.resolveSucc (hg : g.Valid) {l : DepLink α} {ls : List (DepLink α)}
    {s : SchedInfo α ρ} (h : Queues g (l :: ls) s) (hl : l.dst ∈ g.nodes) :
    Queues g ls (resolveSucc s l) := by
  have hcount : s.validPredsSize l.dst =
      g.unresolved s.schedResults l.dst + (ls.countP fun l' => l'.dst = l.dst) + 1 := by
    rw [h.preds _ hl, List.countP_cons]
    simp [Nat.add_assoc]
  have hdec : dec32 (s.validPredsSize l.dst) = s.validPredsSize l.dst - 1 :=
    dec32_eq (h.lt _ hl) (by omega)
  have hcand : l.dst ∈ s.candidates := (h.resolved_iff _ hl).mpr (by omega)
  have hstate : s.state l.dst = .kCandidate := (h.candidate_iff _ hl).mp hcand
  have hpreds : ∀ n ∈ g.nodes, Function.update s.validPredsSize l.dst
      (dec32 (s.validPredsSize l.dst)) n =
        g.unresolved s.schedResults n + ls.countP fun l' => l'.dst = n := by
    intro n hn
    by_cases hdst : n = l.dst
    · rw [hdst, Function.update_self, hdec]
      omega
    · rw [Function.update_of_ne hdst, h.preds n hn, List.countP_cons]
      simp [Ne.symm hdst]
  have hlt : ∀ n ∈ g.nodes, Function.update s.validPredsSize l.dst
      (dec32 (s.validPredsSize l.dst)) n < 2 ^ 32 := by
    intro n hn
    by_cases hdst : n = l.dst
    · rw [hdst, Function.update_self]
      exact Nat.mod_lt _ (by decide)
    · rw [Function.update_of_ne hdst]
      exact h.lt n hn
  unfold ListScheduler.resolveSucc
  simp only [Function.update_self]
  split_ifs with hzero
  · -- the last dependence of a candidate is resolved
    constructor
    · apply List.Perm.trans _ h.perm
      simp only [SchedInfo.allNodes, List.append_assoc]
      apply List.Perm.trans _ ((List.perm_cons_erase hcand).symm.append_right _)
      rw [List.cons_append]
      apply List.Perm.trans _ List.perm_middle
      apply List.Perm.append_left
      exact List.perm_middle
    · intro n hn
      by_cases hdst : n = l.dst
      · subst hdst
        have hout : l.dst ∉ s.candidates.erase l.dst := by
          have hnodup := h.nodup hg
          simp only [SchedInfo.allNodes, List.append_assoc] at hnodup
          exact List.Nodup.not_mem_erase (List.nodup_append.mp hnodup).1
        simp [hout]
      · rw [List.mem_erase_of_ne hdst]
        simp only [Function.update_of_ne hdst]
        exact h.candidate_iff n hn
    · intro n hn
      by_cases hdst : n = l.dst
      · subst hdst
        have hout : l.dst ∉ s.candidates.erase l.dst := by
          have hnodup := h.nodup hg
          simp only [SchedInfo.allNodes, List.append_assoc] at hnodup
          exact List.Nodup.not_mem_erase (List.nodup_append.mp hnodup).1
        simp [hout, hzero.1]
      · rw [List.mem_erase_of_ne hdst]
        simp only [Function.update_of_ne hdst]
        exact h.resolved_iff n hn
    · exact hpreds
    · exact hlt
  · constructor
    · exact h.perm
    · exact h.candidate_iff
    · intro n hn
      by_cases hdst : n = l.dst
      · subst hdst
        simp only [Function.update_self]
        refine ⟨fun _ hc => hzero ⟨hc, hstate⟩, fun _ => hcand⟩
      · simp only [Function.update_of_ne hdst]
        exact h.resolved_iff n hn
    · exact hpreds
    · exact hlt

lemma Queues.foldl_resolveSucc (hg : g.Valid) {ls : List (DepLink α)} {s : SchedInfo α ρ}
    (h : Queues g ls s) (hls : ∀ l ∈ ls, l.dst ∈ g.nodes) :
    Queues g [] (ls.foldl ListScheduler.resolveSucc s) := by
  induction ls generalizing s with
  | nil => exact h
  | cons l ls ih =>
    apply ih (h.resolveSucc hg (hls l (by simp)))
    exact fun l' hl' => hls l' (by simp [hl'])

end ListScheduler
end Maple
