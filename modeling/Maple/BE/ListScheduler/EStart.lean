import Maple.BE.ListScheduler.Basic

/-!
# Earliest start cycles

What `ComputeEStart` and `UpdateEStart` do: they end, the cycles stay below a bound, and
`UpdateEStart` gives every direct successor of the scheduled node its latency.
-/

namespace Maple
namespace ListScheduler

variable {α ρ : Type*} [DecidableEq α] {g : DepGraph α}

/-- One node depends on the other. -/
def DepGraph.Dep (g : DepGraph α) (x y : α) : Prop := ∃ l ∈ g.links, l.src = x ∧ l.dst = y

/-- The graph is acyclic, and its links are between its nodes. -/
structure DepGraph.Valid (g : DepGraph α) : Prop where
  nodup : g.nodes.Nodup
  src_mem : ∀ l ∈ g.links, l.src ∈ g.nodes
  dst_mem : ∀ l ∈ g.links, l.dst ∈ g.nodes
  acyclic : Acyclic g.Dep

lemma mem_succs {l : DepLink α} {n : α} : l ∈ g.succs n ↔ l ∈ g.links ∧ l.src = n := by
  simp [DepGraph.succs]

lemma add32_le (x y : Nat) : add32 x y ≤ x + y := Nat.mod_le _ _

lemma add32_eq {x y : Nat} (h : x + y < 2 ^ 32) : add32 x y = x + y := Nat.mod_eq_of_lt h

omit [DecidableEq α] in
lemma length_foldl_le {σ : Type*} {visit : List α × σ → DepLink α → List α × σ}
    (hvisit : ∀ t l, ∃ pushed, (visit t l).1 = t.1 ++ pushed ∧ ∀ y ∈ pushed, pushed = [y] ∧ y = l.dst)
    (ls : List (DepLink α)) (t : List α × σ) :
    ∃ pushed, (ls.foldl visit t).1 = t.1 ++ pushed ∧ pushed.length ≤ ls.length ∧
      ∀ y ∈ pushed, ∃ l ∈ ls, y = l.dst := by
  induction ls generalizing t with
  | nil => exact ⟨[], by simp, by simp, by simp⟩
  | cons l ls ih =>
    obtain ⟨pushed, hpushed, hone⟩ := hvisit t l
    obtain ⟨pushed', hpushed', hlen, hmem⟩ := ih (visit t l)
    have hle : pushed.length ≤ 1 := by
      cases pushed with
      | nil => simp
      | cons y rest => rw [(hone y (by simp)).1]; simp
    refine ⟨pushed ++ pushed', ?_, ?_, ?_⟩
    · rw [List.foldl_cons, hpushed', hpushed, List.append_assoc]
    · rw [List.length_append, List.length_cons]
      omega
    · intro y hy
      rcases List.mem_append.mp hy with hy | hy
      · exact ⟨l, by simp, (hone y hy).2⟩
      · obtain ⟨l', hl', hdst⟩ := hmem y hy
        exact ⟨l', by simp [hl'], hdst⟩

lemma walk_settles {σ : Type*} (hg : g.Valid) {visit : α → List α × σ → DepLink α → List α × σ}
    (hvisit : ∀ x t l, ∃ pushed,
      (visit x t l).1 = t.1 ++ pushed ∧ ∀ y ∈ pushed, pushed = [y] ∧ y = l.dst)
    (Inv : List α × σ → Prop)
    (hinv : ∀ x rest s, Inv (x :: rest, s) → Inv ((g.succs x).foldl (visit x) (rest, s)))
    {t : List α × σ} (h : Inv t) :
    ∃ s, Outcome.Settles (fun fuel => worklist (fun x t => (g.succs x).foldl (visit x) t) fuel t)
      (.done s) ∧ Inv ([], s) := by
  apply worklist_settles Inv (fun x => (descendants g.Dep g.nodes.toFinset x).card) g.links.length
    _ h
  intro x rest s hx
  obtain ⟨pushed, hpushed, hlen, hmem⟩ := length_foldl_le (hvisit x) (g.succs x) (rest, s)
  refine ⟨pushed, hpushed, hlen.trans (List.length_filter_le _ _), ?_, hinv x rest s hx⟩
  intro y hy
  obtain ⟨l, hl, rfl⟩ := hmem y hy
  rw [mem_succs] at hl
  apply hg.acyclic.card_descendants_lt ⟨l, hl.1, hl.2, rfl⟩
  exact List.mem_toFinset.mpr (hg.dst_mem l hl.1)

/-! ### ComputeEStart -/

/-- The state with other earliest start cycles. -/
def SchedInfo.withEStart (s : SchedInfo α ρ) (eStart topoPredsSize : α → Nat) (maxEStart : Nat) :
    SchedInfo α ρ :=
  { s with eStart := eStart, topoPredsSize := topoPredsSize, maxEStart := maxEStart }

/-- How many nodes are before a node. -/
noncomputable def DepGraph.depth (g : DepGraph α) (n : α) : Nat :=
  (descendants (Function.swap g.Dep) g.nodes.toFinset n).card

lemma depth_lt_depth (hg : g.Valid) {l : DepLink α} (hl : l ∈ g.links) :
    g.depth l.src < g.depth l.dst :=
  hg.acyclic.swap.card_descendants_lt ⟨l, hl, rfl, rfl⟩
    (List.mem_toFinset.mpr (hg.src_mem l hl))

lemma depth_lt_length (hg : g.Valid) {n : α} (hn : n ∈ g.nodes) : g.depth n < g.nodes.length := by
  have hlt := hg.acyclic.swap.card_descendants_lt_card (List.mem_toFinset.mpr hn)
  rwa [List.toFinset_card_of_nodup hg.nodup] at hlt

/-- All earliest start cycles are at most the longest latency for each node before. -/
def StartsBelow (g : DepGraph α) (maxLatency : Nat) (s : SchedInfo α ρ) : Prop :=
  ∀ n ∈ g.nodes, s.eStart n ≤ g.depth n * maxLatency

lemma startsBelow_computeEStartSucc (hg : g.Valid) {maxLatency : Nat}
    (hlat : ∀ l ∈ g.links, l.latency ≤ maxLatency) {x : α} {t : List α × SchedInfo α ρ}
    {l : DepLink α} (hl : l ∈ g.succs x) (h : StartsBelow g maxLatency t.2) :
    StartsBelow g maxLatency (computeEStartSucc x t l).2 := by
  rw [mem_succs] at hl
  obtain ⟨hl, rfl⟩ := hl
  intro n hn
  have hlink : add32 (t.2.eStart l.src) l.latency ≤ g.depth l.dst * maxLatency := by
    calc add32 (t.2.eStart l.src) l.latency
        ≤ t.2.eStart l.src + l.latency := add32_le _ _
      _ ≤ g.depth l.src * maxLatency + maxLatency :=
        Nat.add_le_add (h _ (hg.src_mem l hl)) (hlat l hl)
      _ = (g.depth l.src + 1) * maxLatency := (Nat.succ_mul _ _).symm
      _ ≤ g.depth l.dst * maxLatency := Nat.mul_le_mul_right _ (depth_lt_depth hg hl)
  simp only [computeEStartSucc]
  split_ifs
  · by_cases hdst : n = l.dst
    · subst hdst
      rw [Function.update_self]
      exact max_le hlink (h _ hn)
    · rw [Function.update_of_ne hdst]
      exact h n hn
  · exact h n hn

lemma computeEStartSucc_frame (x : α) (t : List α × SchedInfo α ρ) (l : DepLink α) :
    ∃ eStart topoPredsSize maxEStart,
      (computeEStartSucc x t l).2 = t.2.withEStart eStart topoPredsSize maxEStart :=
  ⟨_, _, _, rfl⟩

lemma computeEStartSucc_pushed (x : α) (t : List α × SchedInfo α ρ) (l : DepLink α) :
    ∃ pushed, (computeEStartSucc x t l).1 = t.1 ++ pushed ∧
      ∀ y ∈ pushed, pushed = [y] ∧ y = l.dst := by
  simp only [computeEStartSucc]
  split_ifs
  · exact ⟨[l.dst], rfl, by simp⟩
  · exact ⟨[], by simp, by simp⟩

/-- What the walk of `ComputeEStart` keeps. -/
def ComputeInv (g : DepGraph α) (maxLatency : Nat) (s : SchedInfo α ρ)
    (t : List α × SchedInfo α ρ) : Prop :=
  (∃ eStart topoPredsSize maxEStart, t.2 = s.withEStart eStart topoPredsSize maxEStart) ∧
    StartsBelow g maxLatency t.2

lemma computeInv_foldl (hg : g.Valid) {maxLatency : Nat}
    (hlat : ∀ l ∈ g.links, l.latency ≤ maxLatency) {s : SchedInfo α ρ} (x : α)
    {t : List α × SchedInfo α ρ} (h : ComputeInv g maxLatency s t) :
    ComputeInv g maxLatency s ((g.succs x).foldl (computeEStartSucc x) t) := by
  apply List.foldlRecOn (motive := ComputeInv g maxLatency s) (g.succs x) (computeEStartSucc x) h
  rintro t ⟨⟨eStart, topoPredsSize, maxEStart, hframe⟩, hbelow⟩ l hl
  refine ⟨?_, startsBelow_computeEStartSucc hg hlat hl hbelow⟩
  obtain ⟨eStart', topoPredsSize', maxEStart', hstep⟩ := computeEStartSucc_frame x t l
  refine ⟨eStart', topoPredsSize', maxEStart', ?_⟩
  rw [hstep, hframe]
  rfl

lemma computeEStart_settles (hg : g.Valid) {maxLatency : Nat}
    (hlat : ∀ l ∈ g.links, l.latency ≤ maxLatency) {s : SchedInfo α ρ}
    (hstate : ∀ n ∈ g.nodes, s.state n ≠ .kScheduled) :
    ∃ eStart topoPredsSize maxEStart,
      Outcome.Settles (fun fuel => computeEStart g 0 fuel s)
        (.done (s.withEStart eStart topoPredsSize maxEStart)) ∧
      ∀ n ∈ g.nodes, eStart n ≤ g.nodes.length * maxLatency := by
  have hinit : ComputeInv g maxLatency s (initInfoBeforeCompEStart g 0 s) := by
    refine ⟨⟨_, _, s.maxEStart, rfl⟩, ?_⟩
    intro n hn
    have hzero : (initInfoBeforeCompEStart g 0 s).2.eStart n = 0 := if_pos ⟨hn, hstate n hn⟩
    rw [hzero]
    exact Nat.zero_le _
  obtain ⟨s', hsettles, ⟨eStart, topoPredsSize, maxEStart, rfl⟩, hbelow⟩ :=
    walk_settles hg computeEStartSucc_pushed (ComputeInv g maxLatency s)
      (fun x _ _ h => computeInv_foldl hg hlat x h) hinit
  refine ⟨eStart, topoPredsSize, max maxEStart 0,
    hsettles.bind (Outcome.settles_const (by simp)), ?_⟩
  intro n hn
  exact (hbelow n hn).trans (Nat.mul_le_mul_right _ (depth_lt_length hg hn).le)

/-! ### UpdateEStart -/

lemma updateEStartSucc_pushed (x : α) (t : List α × SchedInfo α ρ) (l : DepLink α) :
    ∃ pushed, (updateEStartSucc g x t l).1 = t.1 ++ pushed ∧
      ∀ y ∈ pushed, pushed = [y] ∧ y = l.dst := by
  simp only [updateEStartSucc]
  split_ifs
  · exact ⟨[l.dst], rfl, by simp⟩
  · exact ⟨[], by simp, by simp⟩

lemma eStart_updateEStartSucc (x : α) (t : List α × SchedInfo α ρ) (l : DepLink α) (n : α) :
    (updateEStartSucc g x t l).2.eStart n =
      if n = l.dst then max (t.2.eStart n) (add32 (t.2.schedCycle x) l.latency)
      else t.2.eStart n := by
  simp only [updateEStartSucc, Function.update_apply]
  split_ifs with h
  · rw [h]
  · rfl

/-- What the walk of `UpdateEStart` keeps, apart from the direct successors. -/
structure UpdateInv (g : DepGraph α) (x : α) (bound : Nat) (s : SchedInfo α ρ)
    (t : List α × SchedInfo α ρ) : Prop where
  frame : ∃ eStart maxEStart, t.2 = s.withEStart eStart s.topoPredsSize maxEStart
  mono : ∀ n, s.eStart n ≤ t.2.eStart n
  others : ∀ n, ¬Relation.TransGen g.Dep x n → t.2.eStart n = s.eStart n
  below : ∀ n ∈ g.nodes, t.2.eStart n ≤ bound
  after : ∀ y ∈ t.1, Relation.ReflTransGen g.Dep x y

lemma UpdateInv.step {x : α} {bound : Nat} {s : SchedInfo α ρ}
    (hbound : ∀ l ∈ g.links, s.schedCycle x + l.latency ≤ bound) {t : List α × SchedInfo α ρ}
    (h : UpdateInv g x bound s t) {l : DepLink α} (hl : l ∈ g.links)
    (hsrc : Relation.ReflTransGen g.Dep x l.src) :
    UpdateInv g x bound s (updateEStartSucc g x t l) := by
  have hdst : Relation.TransGen g.Dep x l.dst := Relation.TransGen.tail' hsrc ⟨l, hl, rfl, rfl⟩
  obtain ⟨eStart, maxEStart, hframe⟩ := h.frame
  constructor
  · refine ⟨(updateEStartSucc g x t l).2.eStart, (updateEStartSucc g x t l).2.maxEStart, ?_⟩
    simp only [updateEStartSucc, hframe]
    rfl
  · intro n
    have hle := h.mono n
    rw [eStart_updateEStartSucc]
    split_ifs
    · exact hle.trans (le_max_left _ _)
    · exact hle
  · intro n hn
    rw [eStart_updateEStartSucc, if_neg, h.others n hn]
    rintro rfl
    exact hn hdst
  · intro n hn
    rw [eStart_updateEStartSucc]
    split_ifs
    · have hcycle : t.2.schedCycle x = s.schedCycle x := by rw [hframe]; rfl
      rw [hcycle]
      exact max_le (h.below n hn) ((add32_le _ _).trans (hbound l hl))
    · exact h.below n hn
  · intro y hy
    obtain ⟨pushed, hpushed, hone⟩ := updateEStartSucc_pushed (g := g) x t l
    rw [hpushed] at hy
    rcases List.mem_append.mp hy with hy | hy
    · exact h.after y hy
    · rw [(hone y hy).2]
      exact hdst.to_reflTransGen

lemma UpdateInv.foldl {x y : α} {bound : Nat} {s : SchedInfo α ρ}
    (hbound : ∀ l ∈ g.links, s.schedCycle x + l.latency ≤ bound) {t : List α × SchedInfo α ρ}
    (h : UpdateInv g x bound s t) (hy : Relation.ReflTransGen g.Dep x y) :
    UpdateInv g x bound s ((g.succs y).foldl (updateEStartSucc g x) t) := by
  apply List.foldlRecOn (motive := UpdateInv g x bound s) (g.succs y) (updateEStartSucc g x) h
  intro t ht l hl
  rw [mem_succs] at hl
  apply ht.step hbound hl.1
  rw [hl.2]
  exact hy

lemma eStart_foldl_updateEStartSucc (x : α) (ls : List (DepLink α))
    (t : List α × SchedInfo α ρ) :
    (∀ n, t.2.eStart n ≤ (ls.foldl (updateEStartSucc g x) t).2.eStart n) ∧
      ∀ l ∈ ls, add32 (t.2.schedCycle x) l.latency ≤
        (ls.foldl (updateEStartSucc g x) t).2.eStart l.dst := by
  induction ls generalizing t with
  | nil => exact ⟨fun n => le_refl _, by simp⟩
  | cons l ls ih =>
    obtain ⟨hmono, hlinks⟩ := ih (updateEStartSucc g x t l)
    have hle : ∀ n, t.2.eStart n ≤ (updateEStartSucc g x t l).2.eStart n := by
      intro n
      rw [eStart_updateEStartSucc]
      split_ifs
      · exact le_max_left _ _
      · exact le_refl _
    refine ⟨fun n => (hle n).trans (hmono n), ?_⟩
    intro l' hl'
    rcases List.mem_cons.mp hl' with rfl | hl'
    · apply le_trans _ (hmono l'.dst)
      rw [eStart_updateEStartSucc, if_pos rfl]
      exact le_max_right _ _
    · exact hlinks l' hl'

lemma updateEStart_settles (hg : g.Valid) {x : α} {bound : Nat} {s : SchedInfo α ρ}
    (hbound : ∀ l ∈ g.links, s.schedCycle x + l.latency ≤ bound) (hlt : bound < 2 ^ 32)
    (hbelow : ∀ n ∈ g.nodes, s.eStart n ≤ bound) :
    ∃ eStart maxEStart,
      Outcome.Settles (fun fuel => updateEStart g x fuel s)
        (.done (s.withEStart eStart s.topoPredsSize maxEStart)) ∧
      (∀ n, s.eStart n ≤ eStart n) ∧
      (∀ n, ¬Relation.TransGen g.Dep x n → eStart n = s.eStart n) ∧
      (∀ n ∈ g.nodes, eStart n ≤ bound) ∧
      ∀ l ∈ g.links, l.src = x → s.schedCycle x + l.latency ≤ eStart l.dst := by
  -- the scheduled node is the first of the walk: later its direct successors have their latency
  let Inv (t : List α × SchedInfo α ρ) : Prop := UpdateInv g x bound s t ∧
    (x ∈ t.1 ∨ ∀ l ∈ g.succs x, add32 (s.schedCycle x) l.latency ≤ t.2.eStart l.dst)
  have hstart : Inv ([x], s) := by
    refine ⟨⟨⟨s.eStart, s.maxEStart, rfl⟩, fun n => le_refl _, fun n _ => rfl, hbelow, ?_⟩, ?_⟩
    · intro y hy
      rw [List.mem_singleton.mp hy]
    · exact Or.inl (List.mem_singleton.mpr rfl)
  have hstep : ∀ y rest t, Inv (y :: rest, t) →
      Inv ((g.succs y).foldl (updateEStartSucc g x) (rest, t)) := by
    rintro y rest t ⟨h, hx⟩
    have hrest : UpdateInv g x bound s (rest, t) :=
      ⟨h.frame, h.mono, h.others, h.below, fun z hz => h.after z (List.mem_cons_of_mem y hz)⟩
    obtain ⟨hmono, hlinks⟩ := eStart_foldl_updateEStartSucc (g := g) x (g.succs y) (rest, t)
    refine ⟨hrest.foldl hbound (h.after y (by simp)), ?_⟩
    obtain ⟨eStart, maxEStart, hframe⟩ := h.frame
    have hcycle : t.schedCycle x = s.schedCycle x := by
      rw [show t = _ from hframe]
      rfl
    rcases hx with hx | hx
    · rcases List.mem_cons.mp hx with rfl | hx
      · right
        intro l hl
        rw [← hcycle]
        exact hlinks l hl
      · left
        obtain ⟨pushed, hpushed, -⟩ :=
          length_foldl_le (updateEStartSucc_pushed (g := g) x) (g.succs y) (rest, t)
        rw [hpushed]
        exact List.mem_append_left _ hx
    · right
      intro l hl
      exact (hx l hl).trans (hmono l.dst)
  obtain ⟨s', hsettles, hinv, hdirect⟩ :=
    walk_settles hg (fun _ => updateEStartSucc_pushed (g := g) x) Inv hstep hstart
  obtain ⟨eStart, maxEStart, hframe⟩ := hinv.frame
  have hs' : s' = s.withEStart eStart s.topoPredsSize maxEStart := hframe
  subst hs'
  refine ⟨eStart, maxEStart, hsettles, hinv.mono, hinv.others, hinv.below, ?_⟩
  rintro l hl rfl
  have hle := (hdirect.resolve_left (by simp)) l (mem_succs.mpr ⟨hl, rfl⟩)
  rwa [add32_eq (lt_of_le_of_lt (hbound l hl) hlt)] at hle

end ListScheduler
end Maple
