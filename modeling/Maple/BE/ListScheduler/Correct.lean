import Maple.BE.ListScheduler.Queues

/-!
# The schedule respects the dependences

The invariant of the scheduling loop links the queues with the clock, which is bounded by the number
of scheduled nodes.
-/

namespace Maple
namespace ListScheduler

variable {α ρ : Type*} [DecidableEq α] {g : DepGraph α} {c : Config α ρ}

/-- The units that a node needs are idle after `cycles` cycles in which nothing is issued. -/
def Config.IdleAfter (c : Config α ρ) (cycles : Nat) : Prop :=
  ∀ (n : α) (units : ρ) (j : Nat), cycles ≤ j →
    c.mad.isResourceIdle n (c.mad.advanceOneCycleForAll^[j] units)

/-- The longest latency and the longest time until units are idle again. -/
structure Limits where
  maxLatency : Nat
  maxBusy : Nat

/-- A bound for the cycles when `scheduled` nodes are scheduled. -/
def DepGraph.bound (g : DepGraph α) (m : Limits) (scheduled : Nat) : Nat :=
  g.nodes.length * m.maxLatency + scheduled * (m.maxLatency + m.maxBusy + kClinitAdvanceCycle)

structure Limits.Holds (m : Limits) (g : DepGraph α) (c : Config α ρ) : Prop where
  latency_le : ∀ l ∈ g.links, l.latency ≤ m.maxLatency
  idle : c.IdleAfter m.maxBusy
  lt : g.bound m g.nodes.length < 2 ^ 32

/-- Every scheduled node comes after the nodes it depends on, by the latencies of the links. -/
def Ordered (g : DepGraph α) (s : SchedInfo α ρ) : Prop :=
  ∀ l ∈ g.links, l.dst ∈ s.schedResults → l.src ∈ s.schedResults ∧
    s.schedResults.idxOf l.src < s.schedResults.idxOf l.dst ∧
    s.schedCycle l.src + l.latency ≤ s.schedCycle l.dst

/-- The invariant of the scheduling loop. -/
structure Inv (g : DepGraph α) (c : Config α ρ) (m : Limits) (s : SchedInfo α ρ) : Prop where
  queues : Queues g [] s
  ordered : Ordered g s
  released : ∀ l ∈ g.links, l.src ∈ s.schedResults → l.dst ∉ s.schedResults →
    s.schedCycle l.src + l.latency ≤ s.eStart l.dst
  num : s.scheduledNodeNum = s.schedResults.length
  eStart_le : ∀ n ∈ g.nodes, s.eStart n ≤ g.bound m s.schedResults.length
  clock_le : s.currCycle + s.advancedCycle ≤ g.bound m s.schedResults.length + m.maxBusy
  -- since the cycle `issued` nothing was issued
  units : ∃ issued units, issued ≤ g.bound m s.schedResults.length ∧ issued ≤ s.currCycle ∧
    s.units = c.mad.advanceOneCycleForAll^[s.currCycle - issued] units

/-! ### The clock -/

omit [DecidableEq α] in
lemma bound_succ (m : Limits) (k : Nat) :
    g.bound m (k + 1) = g.bound m k + (m.maxLatency + m.maxBusy + kClinitAdvanceCycle) := by
  rw [DepGraph.bound, DepGraph.bound, Nat.succ_mul]
  omega

omit [DecidableEq α] in
lemma bound_mono (m : Limits) {k k' : Nat} (h : k ≤ k') : g.bound m k ≤ g.bound m k' :=
  Nat.add_le_add_left (Nat.mul_le_mul_right _ h) _

omit [DecidableEq α] in
lemma Limits.Holds.bound_lt {m : Limits} (h : m.Holds g c) {k : Nat} (hk : k < g.nodes.length) :
    g.bound m (k + 1) < 2 ^ 32 :=
  lt_of_le_of_lt (bound_mono m hk) h.lt

/-- The state after the cycles that the last instruction takes. -/
def SchedInfo.advanced (c : Config α ρ) (s : SchedInfo α ρ) (cycles : Nat) : SchedInfo α ρ :=
  { s with
    currCycle := s.currCycle + cycles
    units := c.mad.advanceOneCycleForAll^[cycles] s.units
    advancedCycle := 0 }

omit [DecidableEq α] in
lemma advanceCycles_eq {s : SchedInfo α ρ} (h : s.currCycle + s.advancedCycle < 2 ^ 32) :
    advanceCycles c s.advancedCycle s = s.advanced c s.advancedCycle := by
  generalize hcycles : s.advancedCycle = cycles at h ⊢
  induction cycles generalizing s with
  | zero =>
    cases s
    simp_all [advanceCycles, SchedInfo.advanced]
  | succ cycles ih =>
    have hcurr : add32 s.currCycle 1 = s.currCycle + 1 := add32_eq (by omega)
    rw [advanceCycles, hcurr, ih rfl (by simp only; omega)]
    simp only [SchedInfo.advanced, Function.iterate_succ_apply]
    congr 1
    omega

lemma Inv.advanced {m : Limits} {s : SchedInfo α ρ} (h : Inv g c m s) :
    Inv g c m (s.advanced c s.advancedCycle) := by
  obtain ⟨issued, units, hissued, hle, hunits⟩ := h.units
  refine ⟨⟨h.queues.perm, h.queues.candidate_iff, h.queues.resolved_iff, h.queues.preds,
    h.queues.lt⟩, h.ordered, h.released, h.num, h.eStart_le, h.clock_le, ?_⟩
  refine ⟨issued, units, hissued, Nat.le_add_right_of_le hle, ?_⟩
  simp only [SchedInfo.advanced]
  rw [hunits, ← Function.iterate_add_apply]
  congr 2
  omega

/-! ### Filling the ready list -/

/-- The state after the movements between the waiting queue and the ready list. -/
def SchedInfo.withReady (s : SchedInfo α ρ) (waitingQueue readyList : List α)
    (state : α → ScheduleState) : SchedInfo α ρ :=
  { s with waitingQueue := waitingQueue, readyList := readyList, state := state }

lemma Inv.withReady {m : Limits} {s : SchedInfo α ρ} (h : Inv g c m s)
    {waitingQueue readyList : List α} {state : α → ScheduleState}
    (hqueues : Queues g [] (s.withReady waitingQueue readyList state)) :
    Inv g c m (s.withReady waitingQueue readyList state) :=
  ⟨hqueues, h.ordered, h.released, h.num, h.eStart_le, h.clock_le, h.units⟩

lemma exists_updateNodesInReadyList {s : SchedInfo α ρ}
    (hlast : s.readyList ≠ [] → s.lastSchedNode.isSome) :
    ∃ waitingQueue readyList state, updateNodesInReadyList c s =
      some (s.withReady waitingQueue readyList state) ∧
      ∀ n ∈ readyList, hasConflict c s n = false := by
  have hno : ¬(s.readyList ≠ [] ∧ s.lastSchedNode.isNone) := by
    rintro ⟨hne, hnone⟩
    have hsome := hlast hne
    rw [Option.isNone_iff_eq_none.mp hnone] at hsome
    cases hsome
  unfold updateNodesInReadyList
  rw [if_neg hno]
  refine ⟨_, _, _, rfl, ?_⟩
  intro n hn
  simpa using (List.mem_filter.mp hn).2

lemma Inv.fillReadyList (hg : g.Valid) {m : Limits} {s : SchedInfo α ρ} (h : Inv g c m s)
    (hlast : s.readyList ≠ [] → s.lastSchedNode.isSome)
    (hclock : s.currCycle + s.advancedCycle < 2 ^ 32) :
    ∃ s₁ waitingQueue readyList state, updateInfoBeforeSelectNode c s = some s₁ ∧
      waitingQueueToReadyList c s₁ =
        (s.advanced c s.advancedCycle).withReady waitingQueue readyList state ∧
      Inv g c m ((s.advanced c s.advancedCycle).withReady waitingQueue readyList state) ∧
      (∀ n ∈ readyList, hasConflict c (s.advanced c s.advancedCycle) n = false) ∧
      ∀ n ∈ waitingQueue, hasConflict c (s.advanced c s.advancedCycle) n = true := by
  have hadv := h.advanced
  obtain ⟨waiting₁, ready₁, state₁, hupdate, hready⟩ :=
    exists_updateNodesInReadyList (c := c) (s := s.advanced c s.advancedCycle) hlast
  have hqueues := queues_updateNodesInReadyList hg hadv.queues hupdate
  refine ⟨(s.advanced c s.advancedCycle).withReady waiting₁ ready₁ state₁, _, _, _, ?_, rfl, ?_, ?_,
    ?_⟩
  · rw [updateInfoBeforeSelectNode, advanceCycles_eq hclock]
    exact hupdate
  · exact hadv.withReady (queues_waitingQueueToReadyList hg hqueues)
  · intro n hn
    rcases List.mem_append.mp hn with hn | hn
    · exact hready n hn
    · have hno : (!hasConflict c (s.advanced c s.advancedCycle) n) = true :=
        (List.mem_filter.mp hn).2
      simpa using hno
  · intro n hn
    exact (List.mem_filter.mp hn).2

/-! ### Stalling -/

lemma Inv.clock_lt_of_stall (hg : g.Valid) {m : Limits} (hm : m.Holds g c) {s : SchedInfo α ρ}
    (h : Inv g c m s) (hempty : s.readyList = []) (hnum : s.scheduledNodeNum < g.nodes.length)
    (hwaiting : ∀ n ∈ s.waitingQueue, hasConflict c s n = true) :
    s.currCycle < g.bound m s.schedResults.length + m.maxBusy := by
  -- a node without unscheduled nodes before it is not a candidate, so it waits
  have hne : (g.nodes.toFinset \ s.schedResults.toFinset).Nonempty := by
    rw [Finset.nonempty_iff_ne_empty]
    intro hnone
    have hsub : g.nodes.toFinset ⊆ s.schedResults.toFinset :=
      Finset.sdiff_eq_empty_iff_subset.mp hnone
    have hcard := Finset.card_le_card hsub
    rw [List.toFinset_card_of_nodup hg.nodup] at hcard
    have hle := List.toFinset_card_le s.schedResults
    rw [h.num] at hnum
    omega
  obtain ⟨n, hn, hmin⟩ := hg.acyclic.exists_minimal hne
  simp only [Finset.mem_sdiff, List.mem_toFinset] at hn hmin
  have hcand : n ∉ s.candidates := by
    rw [h.queues.resolved_iff n hn.1, not_not, h.queues.preds n hn.1, List.countP_nil, Nat.add_zero,
      DepGraph.unresolved, List.countP_eq_zero]
    intro l hl hcount
    simp only [decide_eq_true_eq] at hcount
    exact hmin l.src ⟨hg.src_mem l hl, hcount.2⟩ ⟨l, hl, rfl, hcount.1⟩
  have hmem : n ∈ s.waitingQueue := by
    rcases h.queues.mem_nodes.mp hn.1 with hc | hw | hr | hs
    · exact absurd hc hcand
    · exact hw
    · rw [hempty] at hr
      exact absurd hr List.not_mem_nil
    · exact absurd hs hn.2
  by_contra hge
  obtain ⟨issued, units, hissued, hle, hunits⟩ := h.units
  have hidle := hm.idle n units (s.currCycle - issued) (by omega)
  rw [← hunits] at hidle
  have hstart := h.eStart_le n hn.1
  have hconflict := hwaiting n hmem
  simp only [hasConflict, hidle, Bool.not_true, Bool.and_false, Bool.false_or,
    decide_eq_true_eq] at hconflict
  omega

/-! ### Scheduling a node -/

/-- The state after a node is issued, before its successors are visited. -/
def issueNode (g : DepGraph α) (c : Config α ρ) (x : α) (s : SchedInfo α ρ) : SchedInfo α ρ :=
  updateAdvanceCycle g c x
    { s with
      state := Function.update s.state x .kScheduled
      schedCycle := Function.update s.schedCycle x s.currCycle
      units := if c.isAfterRegAlloc then c.mad.occupyRequiredUnits x s.units else s.units
      eStart := Function.update s.eStart x s.currCycle
      schedResults := s.schedResults ++ [x]
      lastSchedNode := some x
      readyList := s.readyList.erase x }

lemma advancedCycle_issueNode_le (x : α) {s : SchedInfo α ρ} (h : s.advancedCycle = 0) :
    (issueNode g c x s).advancedCycle ≤ kClinitAdvanceCycle := by
  simp only [issueNode, updateAdvanceCycle, h]
  generalize (if c.isAfterRegAlloc then c.mad.occupyRequiredUnits x s.units else s.units) = units
  cases g.latencyType x <;> simp only <;> split_ifs <;> decide

lemma queues_issueNode (hg : g.Valid) {x : α} {s : SchedInfo α ρ} (h : Queues g [] s)
    (hx : x ∈ s.readyList) : Queues g (g.succs x) (issueNode g c x s) := by
  have hnodup := h.nodup hg
  have hcand : x ∉ s.candidates := by
    intro hc
    simp only [SchedInfo.allNodes, List.append_assoc] at hnodup
    exact (List.nodup_append.mp hnodup).2.2 x hc x (by simp [hx]) rfl
  have hresults : x ∉ s.schedResults := by
    intro hr
    exact (List.nodup_append.mp hnodup).2.2 x (by simp [hx]) x hr rfl
  constructor
  · apply List.Perm.trans _ h.perm
    simp only [SchedInfo.allNodes, issueNode, updateAdvanceCycle, List.append_assoc]
    apply List.Perm.append_left
    apply List.Perm.append_left
    apply List.Perm.trans _ ((List.perm_cons_erase hx).symm.append_right _)
    rw [← List.append_assoc]
    exact List.perm_append_singleton x _
  · intro n hn
    by_cases hnx : n = x
    · subst hnx
      simp [issueNode, updateAdvanceCycle, hcand]
    · simp only [issueNode, updateAdvanceCycle, Function.update_of_ne hnx]
      exact h.candidate_iff n hn
  · exact h.resolved_iff
  · intro n hn
    have hcount := h.preds n hn
    rw [List.countP_nil, Nat.add_zero, unresolved_eq_add hresults] at hcount
    exact hcount
  · exact h.lt

lemma Queues.withEStart {ls : List (DepLink α)} {s : SchedInfo α ρ} (h : Queues g ls s)
    (eStart topoPredsSize : α → Nat) (maxEStart : Nat) :
    Queues g ls (s.withEStart eStart topoPredsSize maxEStart) :=
  ⟨h.perm, h.candidate_iff, h.resolved_iff, h.preds, h.lt⟩

lemma ordered_append (hg : g.Valid) {x : α} {s : SchedInfo α ρ} (hqueues : Queues g [] s)
    (hordered : Ordered g s)
    (hreleased : ∀ l ∈ g.links, l.src ∈ s.schedResults → l.dst ∉ s.schedResults →
      s.schedCycle l.src + l.latency ≤ s.eStart l.dst)
    (hx : x ∈ s.readyList) (hstart : s.eStart x ≤ s.currCycle) :
    Ordered g (issueNode g c x s) := by
  have hnodup := hqueues.nodup hg
  have hresults : x ∉ s.schedResults := by
    intro hr
    exact (List.nodup_append.mp hnodup).2.2 x (by simp [hx]) x hr rfl
  have hnode : x ∈ g.nodes := hqueues.mem_nodes.mpr (Or.inr (Or.inr (Or.inl hx)))
  have hcand : x ∉ s.candidates := by
    intro hc
    simp only [SchedInfo.allNodes, List.append_assoc] at hnodup
    exact (List.nodup_append.mp hnodup).2.2 x hc x (by simp [hx]) rfl
  have hne : ∀ n ∈ s.schedResults, n ≠ x := by
    rintro n hn rfl
    exact hresults hn
  intro l hl hdst
  simp only [issueNode, updateAdvanceCycle] at hdst ⊢
  rcases List.mem_append.mp hdst with hdst | hdst
  · obtain ⟨hsrc, hidx, hcycle⟩ := hordered l hl hdst
    rw [List.idxOf_append_of_mem hsrc, List.idxOf_append_of_mem hdst,
      Function.update_of_ne (hne _ hsrc), Function.update_of_ne (hne _ hdst)]
    exact ⟨List.mem_append_left _ hsrc, hidx, hcycle⟩
  · rw [List.mem_singleton] at hdst
    have hsrc := hqueues.src_mem hnode hcand hl hdst
    have hcycle := hreleased l hl hsrc (hdst ▸ hresults)
    rw [hdst] at hcycle ⊢
    rw [List.idxOf_append_of_mem hsrc, List.idxOf_append_of_notMem hresults,
      Function.update_of_ne (hne _ hsrc), Function.update_self]
    refine ⟨List.mem_append_left _ hsrc, ?_, hcycle.trans hstart⟩
    exact Nat.lt_of_lt_of_le (List.idxOf_lt_length_of_mem hsrc) (Nat.le_add_right _ _)

lemma Inv.select (hg : g.Valid) {m : Limits} (hm : m.Holds g c) {s : SchedInfo α ρ} {x : α}
    (h : Inv g c m s) (hx : x ∈ s.readyList) (hconflict : hasConflict c s x = false)
    (hadv : s.advancedCycle = 0) (hnum : s.scheduledNodeNum < g.nodes.length) :
    ∃ s', Outcome.Settles (fun fuel => updateInfoAfterSelectNode g c x fuel
        { s with scheduledNodeNum := s.scheduledNodeNum + 1 }) (.done s') ∧
      Inv g c m s' ∧ s'.lastSchedNode = some x ∧
      s'.scheduledNodeNum = s.scheduledNodeNum + 1 := by
  have hk : s.schedResults.length < g.nodes.length := by
    rw [← h.num]
    exact hnum
  have hsucc := bound_succ (g := g) m s.schedResults.length
  have hstart : s.eStart x ≤ s.currCycle := by
    simp only [hasConflict, Bool.or_eq_false_iff, decide_eq_false_iff_not] at hconflict
    omega
  have hclock : s.currCycle ≤ g.bound m s.schedResults.length + m.maxBusy := by
    have := h.clock_le
    omega
  have hresults : x ∉ s.schedResults := by
    intro hr
    exact (List.nodup_append.mp (h.queues.nodup hg)).2.2 x (by simp [hx]) x hr rfl
  let s₁ : SchedInfo α ρ := { s with scheduledNodeNum := s.scheduledNodeNum + 1 }
  have hqueues₁ : Queues g [] s₁ :=
    ⟨h.queues.perm, h.queues.candidate_iff, h.queues.resolved_iff, h.queues.preds, h.queues.lt⟩
  have hordered : Ordered g (issueNode g c x s₁) :=
    ordered_append hg hqueues₁ h.ordered h.released hx hstart
  have hqueues₂ := (queues_issueNode (c := c) hg hqueues₁ hx).foldl_resolveSucc hg
    fun l hl => hg.dst_mem l (mem_succs.mp hl).1
  obtain ⟨candidates, waitingQueue, state, validPredsSize, hframe⟩ :=
    foldl_resolveSucc_frame (g.succs x) (issueNode g c x s₁)
  have hrecord : recordSchedNode g c x s₁ =
      (issueNode g c x s₁).withQueues candidates waitingQueue state validPredsSize := hframe
  have hqueues₃ : Queues g [] (recordSchedNode g c x s₁) := hqueues₂
  have hcycle : (recordSchedNode g c x s₁).schedCycle x = s.currCycle := by
    rw [hrecord]
    exact Function.update_self ..
  have heStart : (recordSchedNode g c x s₁).eStart = Function.update s.eStart x s.currCycle := by
    rw [hrecord]
    rfl
  have hlatency : ∀ l ∈ g.links, (recordSchedNode g c x s₁).schedCycle x + l.latency ≤
      g.bound m (s.schedResults.length + 1) := by
    intro l hl
    have := hm.latency_le l hl
    rw [hcycle]
    omega
  have hbelow₀ : ∀ n ∈ g.nodes, (recordSchedNode g c x s₁).eStart n ≤
      g.bound m (s.schedResults.length + 1) := by
    intro n hn
    have := h.eStart_le n hn
    rw [heStart, Function.update_apply]
    split_ifs
    · omega
    · omega
  obtain ⟨eStart, maxEStart, hsettles, hmono, -, hbelow, hdirect⟩ :=
    updateEStart_settles hg hlatency (hm.bound_lt hk) hbelow₀
  refine ⟨_, hsettles, ?_, ?_, ?_⟩
  · constructor
    · exact hqueues₃.withEStart _ _ _
    · rw [hrecord]
      exact hordered
    · intro l hl hsrc hdst
      have hres : (recordSchedNode g c x s₁).schedResults = s.schedResults ++ [x] := by
        rw [hrecord]
        rfl
      simp only [SchedInfo.withEStart, hres, List.mem_append, List.mem_singleton, not_or] at hsrc hdst
      rcases hsrc with hsrc | hsrc
      · have hne : l.src ≠ x := by
          intro heq
          exact hresults (heq ▸ hsrc)
        have hold : (recordSchedNode g c x s₁).schedCycle l.src = s.schedCycle l.src := by
          rw [hrecord]
          exact Function.update_of_ne hne ..
        have hle := hmono l.dst
        rw [heStart, Function.update_of_ne hdst.2] at hle
        simp only [SchedInfo.withEStart, hold]
        exact (h.released l hl hsrc hdst.1).trans hle
      · simp only [SchedInfo.withEStart, hsrc]
        exact hdirect l hl hsrc
    · rw [hrecord]
      simp [SchedInfo.withEStart, SchedInfo.withQueues, issueNode, updateAdvanceCycle, s₁, h.num]
    · intro n hn
      rw [hrecord]
      simpa [SchedInfo.withEStart, SchedInfo.withQueues, issueNode, updateAdvanceCycle] using
        hbelow n hn
    · have hle := advancedCycle_issueNode_le (g := g) (c := c) x (s := s₁) hadv
      rw [hrecord]
      have hlen : (issueNode g c x s₁).schedResults.length = s.schedResults.length + 1 :=
        List.length_append
      have hcurr : (issueNode g c x s₁).currCycle = s.currCycle := rfl
      simp only [SchedInfo.withEStart, SchedInfo.withQueues, hlen, hcurr]
      omega
    · rw [hrecord]
      have hlen : (issueNode g c x s₁).schedResults.length = s.schedResults.length + 1 :=
        List.length_append
      refine ⟨s.currCycle, (issueNode g c x s₁).units, ?_, ?_, ?_⟩
      · simp only [SchedInfo.withEStart, SchedInfo.withQueues, hlen]
        omega
      · exact le_refl _
      · change (issueNode g c x s₁).units = c.mad.advanceOneCycleForAll^[s.currCycle - s.currCycle] _
        rw [Nat.sub_self]
        rfl
  · rw [hrecord]
    rfl
  · rw [hrecord]
    rfl

/-! ### The loop -/

/-- The invariant at the head of the loop. -/
def LoopInv (g : DepGraph α) (c : Config α ρ) (m : Limits) (s : SchedInfo α ρ) : Prop :=
  Inv g c m s ∧ (s.readyList ≠ [] → s.lastSchedNode.isSome)

/-- A bound for the rounds that are still to come: a round schedules a node or waits a cycle. -/
def rounds (g : DepGraph α) (m : Limits) (s : SchedInfo α ρ) : Nat :=
  (g.nodes.length - s.scheduledNodeNum) * (g.bound m g.nodes.length + m.maxBusy + 1) +
    (g.bound m g.nodes.length + m.maxBusy - (s.currCycle + s.advancedCycle))

omit [DecidableEq α] in
lemma rounds_lt_of_scheduled {m : Limits} {s s' : SchedInfo α ρ}
    (hnum : s.scheduledNodeNum < g.nodes.length)
    (hnum' : s'.scheduledNodeNum = s.scheduledNodeNum + 1) : rounds g m s' < rounds g m s := by
  obtain ⟨left, hleft⟩ : ∃ left, g.nodes.length - s.scheduledNodeNum = left + 1 :=
    ⟨g.nodes.length - s.scheduledNodeNum - 1, by omega⟩
  have hleft' : g.nodes.length - s'.scheduledNodeNum = left := by omega
  rw [rounds, rounds, hleft, hleft', Nat.succ_mul]
  omega

lemma Inv.sorted (hg : g.Valid) {m : Limits} {s : SchedInfo α ρ} (h : Inv g c m s) :
    Inv g c m { s with readyList := c.sortReadyList s } := by
  have hqueues : Queues g [] { s with readyList := c.sortReadyList s } := by
    refine Queues.move hg h.queues ?_ ?_ ?_ ?_ ?_
    · rfl
    · rfl
    · rfl
    · exact (c.sortReadyList_perm s).append_left _
    · exact fun n => Or.inl rfl
  exact ⟨hqueues, h.ordered, h.released, h.num, h.eStart_le, h.clock_le, h.units⟩

lemma Inv.stall {m : Limits} {s : SchedInfo α ρ} (h : Inv g c m s)
    (hclock : s.currCycle < g.bound m s.schedResults.length + m.maxBusy) :
    Inv g c m { s with advancedCycle := 1 } := by
  have hqueues : Queues g [] { s with advancedCycle := 1 } :=
    ⟨h.queues.perm, h.queues.candidate_iff, h.queues.resolved_iff, h.queues.preds, h.queues.lt⟩
  exact ⟨hqueues, h.ordered, h.released, h.num, h.eStart_le, hclock, h.units⟩

lemma scheduleRound_settles (hg : g.Valid) {m : Limits} (hm : m.Holds g c) {s : SchedInfo α ρ}
    (h : LoopInv g c m s) (hnum : s.scheduledNodeNum < g.nodes.length) :
    ∃ s', Outcome.Settles (fun fuel => scheduleRound g c fuel s) (.done s') ∧ LoopInv g c m s' ∧
      rounds g m s' < rounds g m s := by
  obtain ⟨hinv, hlast⟩ := h
  have hk : s.schedResults.length < g.nodes.length := by
    rw [← hinv.num]
    exact hnum
  have hlt : s.currCycle + s.advancedCycle < 2 ^ 32 := by
    have hclock := hinv.clock_le
    have hsucc := bound_succ (g := g) m s.schedResults.length
    have hbound := hm.bound_lt hk
    have hpos : 0 < kClinitAdvanceCycle := by decide
    omega
  obtain ⟨s₁, waitingQueue, readyList, state, hupdate, hmove, hfilled, hready, hwaiting⟩ :=
    hinv.fillReadyList hg hlast hlt
  have hstall (hempty : readyList = []) (fuel : Nat) : scheduleRound g c fuel s =
      .done { (s.advanced c s.advancedCycle).withReady waitingQueue readyList state with
        advancedCycle := 1 } := by
    rw [scheduleRound, hupdate]
    simp only [Outcome.ofOption, Outcome.bind_done, hmove]
    exact if_pos hempty
  have hselect {x : α} {rest : List α} (hempty : readyList ≠ [])
      (hlist : c.sortReadyList ((s.advanced c s.advancedCycle).withReady waitingQueue readyList
        state) = x :: rest) (fuel : Nat) : scheduleRound g c fuel s =
      updateInfoAfterSelectNode g c x fuel
        { (s.advanced c s.advancedCycle).withReady waitingQueue (x :: rest) state with
          scheduledNodeNum := s.scheduledNodeNum + 1 } := by
    rw [scheduleRound, hupdate]
    simp only [Outcome.ofOption, Outcome.bind_done, hmove]
    refine (if_neg hempty).trans ?_
    rw [hlist]
    rfl
  by_cases hempty : readyList = []
  · have hclock := hfilled.clock_lt_of_stall hg hm hempty hnum hwaiting
    refine ⟨_, ?_, ⟨hfilled.stall hclock, fun hne => absurd hempty hne⟩, ?_⟩
    · simp only [hstall hempty]
      exact Outcome.settles_const (by simp)
    · have hmono := bound_mono (g := g) m hk.le
      simp only [SchedInfo.withReady, SchedInfo.advanced] at hclock
      simp only [rounds, SchedInfo.withReady, SchedInfo.advanced]
      omega
  · have hsorted := hfilled.sorted hg
    have hperm := c.sortReadyList_perm
      ((s.advanced c s.advancedCycle).withReady waitingQueue readyList state)
    cases hlist : c.sortReadyList
        ((s.advanced c s.advancedCycle).withReady waitingQueue readyList state) with
    | nil =>
      rw [hlist] at hperm
      exact absurd hperm.nil_eq.symm hempty
    | cons x rest =>
      rw [hlist] at hperm hsorted
      have hx : x ∈ readyList := hperm.mem_iff.mp (by simp)
      obtain ⟨s', hsettles, hinv', hlast', hnum'⟩ :=
        hsorted.select hg hm (x := x) (by simp) (hready x hx) rfl hnum
      refine ⟨s', ?_, ⟨hinv', ?_⟩, rounds_lt_of_scheduled hnum hnum'⟩
      · simp only [hselect hempty hlist]
        exact hsettles
      · intro _
        rw [hlast']
        rfl

lemma scheduleLoop_settles (hg : g.Valid) {m : Limits} (hm : m.Holds g c) {s : SchedInfo α ρ}
    (h : LoopInv g c m s) :
    ∃ s', Outcome.Settles (fun fuel => scheduleLoop g c fuel s) (.done s') ∧ Inv g c m s' ∧
      g.nodes.length ≤ s'.scheduledNodeNum := by
  induction hn : rounds g m s using Nat.strong_induction_on generalizing s with
  | _ n ih =>
    by_cases hnum : s.scheduledNodeNum < g.nodes.length
    · obtain ⟨s₁, hround, hinv, hlt⟩ := scheduleRound_settles hg hm h hnum
      obtain ⟨s', hloop, hend⟩ := ih _ (hn ▸ hlt) hinv rfl
      refine ⟨s', ?_, hend⟩
      apply Outcome.Settles.of_succ
      simp only [scheduleLoop, if_pos hnum]
      exact hround.bind hloop
    · refine ⟨s, ?_, h.1, Nat.not_lt.mp hnum⟩
      apply Outcome.Settles.of_succ
      simp only [scheduleLoop, if_neg hnum]
      exact Outcome.settles_const (by simp)

/-! ### The whole function -/

/-- What the caller of the scheduler sets up: all nodes are candidates, and the counts of
predecessors are valid. -/
structure Start (g : DepGraph α) (s : SchedInfo α ρ) : Prop where
  candidates : s.candidates.Perm g.nodes
  schedResults : s.schedResults = []
  state : ∀ n ∈ g.nodes, s.state n = .kCandidate
  validPredsSize : ∀ n ∈ g.nodes, s.validPredsSize n = (g.preds n).length
  lt : ∀ n ∈ g.nodes, (g.preds n).length < 2 ^ 32

lemma Start.queues {s : SchedInfo α ρ} (h : Start g s) :
    Queues g [] (candidateToWaitingQueue (init c s)) := by
  have hmem : ∀ n, n ∈ s.candidates ↔ n ∈ g.nodes := fun n => h.candidates.mem_iff
  constructor
  · apply List.Perm.trans _ h.candidates
    simp only [SchedInfo.allNodes, candidateToWaitingQueue, init, h.schedResults, List.append_nil,
      List.nil_append]
    apply List.Perm.trans List.perm_append_comm
    simpa using List.filter_append_perm (fun n => s.validPredsSize n = 0) s.candidates
  · intro n hn
    by_cases hzero : s.validPredsSize n = 0
    · simp [candidateToWaitingQueue, init, hzero, (hmem n).mpr hn]
    · simp [candidateToWaitingQueue, init, hzero, (hmem n).mpr hn, h.state n hn]
  · intro n hn
    by_cases hzero : s.validPredsSize n = 0
    · simp [candidateToWaitingQueue, init, hzero]
    · simp [candidateToWaitingQueue, init, hzero, (hmem n).mpr hn]
  · intro n hn
    have hpreds := h.validPredsSize n hn
    simp only [candidateToWaitingQueue, init, DepGraph.unresolved, h.schedResults, List.countP_nil,
      Nat.add_zero, hpreds, DepGraph.preds, ← List.countP_eq_length_filter]
    congr 1
    funext l
    simp
  · intro n hn
    simp only [candidateToWaitingQueue, init, h.validPredsSize n hn]
    exact h.lt n hn

theorem doListScheduling_respects {g : DepGraph α} {c : Config α ρ} {m : Limits} (hg : g.Valid)
    (hm : m.Holds g c) {s : SchedInfo α ρ} (hs : Start g s) :
    ∃ s', Outcome.Settles (fun fuel => doListScheduling g c fuel s) (.done s') ∧
      s'.schedResults.Perm g.nodes ∧
      ∀ l ∈ g.links, s'.schedResults.idxOf l.src < s'.schedResults.idxOf l.dst ∧
        s'.schedCycle l.src + l.latency ≤ s'.schedCycle l.dst := by
  have hqueues := hs.queues (c := c)
  have hstate : ∀ n ∈ g.nodes,
      (candidateToWaitingQueue (init c s)).state n ≠ .kScheduled := by
    intro n hn
    by_cases hmoved :
        n ∈ (init c s).candidates.filter fun n => (init c s).validPredsSize n = 0
    · have hwaiting : (candidateToWaitingQueue (init c s)).state n = .kWaiting := if_pos hmoved
      simp [hwaiting]
    · have hcand : (candidateToWaitingQueue (init c s)).state n = s.state n := if_neg hmoved
      simp [hcand, hs.state n hn]
  obtain ⟨eStart, topoPredsSize, maxEStart, hcompute, hbelow⟩ :=
    computeEStart_settles hg hm.latency_le hstate
  have hresults : (candidateToWaitingQueue (init c s)).schedResults = [] := hs.schedResults
  have hinv : LoopInv g c m
      ((candidateToWaitingQueue (init c s)).withEStart eStart topoPredsSize maxEStart) := by
    refine ⟨⟨hqueues.withEStart _ _ _, ?_, ?_, ?_, ?_, ?_, ?_⟩, ?_⟩
    · intro l _ hdst
      simp only [SchedInfo.withEStart, hresults] at hdst
      exact absurd hdst List.not_mem_nil
    · intro l _ hsrc
      simp only [SchedInfo.withEStart, hresults] at hsrc
      exact absurd hsrc List.not_mem_nil
    · simp only [SchedInfo.withEStart, hresults]
      rfl
    · intro n hn
      exact (hbelow n hn).trans (Nat.le_add_right _ _)
    · exact Nat.zero_le _
    · exact ⟨0, _, Nat.zero_le _, le_refl _, rfl⟩
    · exact fun hne => absurd rfl hne
  obtain ⟨s', hloop, hend, hnum⟩ := scheduleLoop_settles hg hm hinv
  have hlen : s'.allNodes.length = g.nodes.length := hend.queues.perm.length_eq
  simp only [SchedInfo.allNodes, List.length_append] at hlen
  rw [hend.num] at hnum
  have hperm : s'.schedResults.Perm g.nodes := by
    have hempty : s'.candidates ++ s'.waitingQueue ++ s'.readyList = [] := by
      rw [List.eq_nil_iff_length_eq_zero, List.length_append, List.length_append]
      omega
    have hall := hend.queues.perm
    rwa [SchedInfo.allNodes, hempty, List.nil_append] at hall
  refine ⟨s', hcompute.bind hloop, hperm, ?_⟩
  intro l hl
  exact (hend.ordered l hl (hperm.mem_iff.mpr (hg.dst_mem l hl))).2

/-! ### Runs -/

lemma DepGraph.valid_of_lt {g : DepGraph Nat} (hnodup : g.nodes.Nodup)
    (hmem : ∀ l ∈ g.links, l.src ∈ g.nodes ∧ l.dst ∈ g.nodes ∧ l.src < l.dst) : g.Valid := by
  refine ⟨hnodup, fun l hl => (hmem l hl).1, fun l hl => (hmem l hl).2.1, ?_⟩
  have hlt : ∀ x y, Relation.TransGen g.Dep x y → x < y := by
    intro x y hxy
    induction hxy with
    | single h =>
      obtain ⟨l, hl, rfl, rfl⟩ := h
      exact (hmem l hl).2.2
    | tail _ h ih =>
      obtain ⟨l, hl, rfl, rfl⟩ := h
      exact ih.trans (hmem l hl).2.2
  exact fun x hx => lt_irrefl x (hlt x x hx)

/-- A machine that has all its units in every cycle; nodes are issued in the order in which they
became ready. -/
def idleConfig : Config Nat Unit where
  isAfterRegAlloc := true
  mad := ⟨fun u => u, fun u => u, fun _ => false, fun _ _ => true, fun _ u => u⟩
  sortReadyList s := s.readyList
  sortReadyList_perm _ := List.Perm.refl _

/-- All nodes are candidates, nothing is scheduled. -/
def startOf (g : DepGraph Nat) : SchedInfo Nat Unit where
  candidates := g.nodes
  waitingQueue := []
  readyList := []
  schedResults := []
  state _ := .kCandidate
  validPredsSize n := (g.preds n).length
  topoPredsSize _ := 0
  eStart _ := 0
  schedCycle _ := 0
  currCycle := 0
  advancedCycle := 0
  maxEStart := 0
  scheduledNodeNum := 0
  lastSchedNode := none
  units := ()

/-- An initialisation of a class, and a chain of two dependences. -/
def chainGraph (latency : Nat) : DepGraph Nat where
  nodes := [0, 1, 2, 3]
  links := [⟨1, 2, 1⟩, ⟨2, 3, latency⟩]
  latencyType n := if n = 0 then .kLtClinit else .other

lemma chainGraph_valid (latency : Nat) : (chainGraph latency).Valid :=
  DepGraph.valid_of_lt (show [0, 1, 2, 3].Nodup by decide) (by simp [chainGraph])

lemma start_chainGraph (latency : Nat) :
    Start (chainGraph latency) (startOf (chainGraph latency)) := by
  refine ⟨List.Perm.refl _, rfl, fun _ _ => rfl, fun _ _ => rfl, ?_⟩
  intro n _
  exact lt_of_le_of_lt (List.length_filter_le _ _) (show 2 < 2 ^ 32 by decide)

theorem doListScheduling_respects_chain :
    ∃ s', Outcome.Settles (fun fuel => doListScheduling (chainGraph 5) idleConfig fuel
        (startOf (chainGraph 5))) (.done s') ∧
      s'.schedResults.Perm [0, 1, 2, 3] ∧
      ∀ l ∈ (chainGraph 5).links, s'.schedResults.idxOf l.src < s'.schedResults.idxOf l.dst ∧
        s'.schedCycle l.src + l.latency ≤ s'.schedCycle l.dst := by
  have hm : Limits.Holds ⟨5, 0⟩ (chainGraph 5) idleConfig := by
    refine ⟨?_, fun _ _ _ _ => rfl, by decide⟩
    simp [chainGraph]
  exact doListScheduling_respects (chainGraph_valid 5) hm (start_chainGraph 5)

/-- With a latency of nearly `2 ^ 32` cycles the earliest start cycle wraps around. -/
theorem doListScheduling_wraps :
    (chainGraph (2 ^ 32 - 1)).Valid ∧
      Start (chainGraph (2 ^ 32 - 1)) (startOf (chainGraph (2 ^ 32 - 1))) ∧
      idleConfig.IdleAfter 0 ∧
      ∃ s', doListScheduling (chainGraph (2 ^ 32 - 1)) idleConfig 20
          (startOf (chainGraph (2 ^ 32 - 1))) = .done s' ∧
        s'.schedResults = [0, 1, 2, 3] ∧ s'.schedCycle 3 < s'.schedCycle 2 + (2 ^ 32 - 1) := by
  refine ⟨chainGraph_valid _, start_chainGraph _, fun _ _ _ _ => rfl, ?_⟩
  exact ⟨_, rfl, by decide +kernel, by decide +kernel⟩

end ListScheduler
end Maple
