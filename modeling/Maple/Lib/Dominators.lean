import Mathlib.Algebra.Order.Group.Int
import Mathlib.Data.List.Chain
import Mathlib.Data.Finset.Lattice.Fold
import Mathlib.Data.Finset.Prod

/-!
# Dominators

Dominators of a relation with an entry, and partial dominator trees: functions that give some nodes
a node above them in the direction of a rank.
-/

namespace Dominators

variable {V : Type*}

/-! ### Paths -/

/-- The nodes of a path from `x` to `y`. -/
structure IsPath (r : V → V → Prop) (x y : V) (l : List V) : Prop where
  head : l.head? = some x
  last : l.getLast? = some y
  chain : l.IsChain r

/-- Every path from the entry to `b` passes through `a`. -/
def Dominates (r : V → V → Prop) (e a b : V) : Prop := ∀ l, IsPath r e b l → a ∈ l

/-- The dominator of `b` that all others dominate. -/
structure IsImmediateDominator (r : V → V → Prop) (e a b : V) : Prop where
  dominates : Dominates r e a b
  ne : a ≠ b
  least : ∀ d, Dominates r e d b → d ≠ b → Dominates r e d a

/-- A path from the entry to a node that avoids `d` and has `k` edges at most that do not go down. -/
inductive Avoids (r : V → V → Prop) (rank : V → Int) (e d : V) : Nat → V → Prop
  | entry {k : Nat} : e ≠ d → Avoids r rank e d k e
  | forward {k : Nat} {p v : V} : Avoids r rank e d k p → r p v → rank v < rank p → v ≠ d →
      Avoids r rank e d k v
  | retreating {k : Nat} {p v : V} : Avoids r rank e d k p → r p v → rank p ≤ rank v → v ≠ d →
      Avoids r rank e d (k + 1) v

variable {r : V → V → Prop} {rank : V → Int} {e a b d p v w x y : V} {j k : Nat}

lemma IsPath.tail {l : List V} (h : IsPath r e p l) (hr : r p v) : IsPath r e v (l ++ [v]) where
  head := by
    cases l with
    | nil => exact absurd h.head (by simp)
    | cons _ _ => exact h.head
  last := by simp
  chain := by
    apply h.chain.append (List.isChain_singleton v)
    intro x hx y hy
    rw [h.last] at hx
    cases hx
    cases hy
    exact hr

lemma dominates_self (r : V → V → Prop) (e b : V) : Dominates r e b b :=
  fun _ h => List.mem_of_getLast? h.last

lemma Dominates.of_edge (h : Dominates r e d v) (hne : d ≠ v) (hr : r p v) :
    Dominates r e d p := by
  intro l hl
  have hmem := h _ (hl.tail hr)
  rw [List.mem_append, List.mem_singleton] at hmem
  exact hmem.resolve_right hne

lemma Avoids.ne (h : Avoids r rank e d k v) : v ≠ d := by
  cases h <;> assumption

lemma Avoids.reachable (h : Avoids r rank e d k v) : Relation.ReflTransGen r e v := by
  induction h with
  | entry _ => exact .refl
  | forward _ hr _ _ ih => exact ih.tail hr
  | retreating _ hr _ _ ih => exact ih.tail hr

lemma Avoids.through (h : Avoids r rank e d k v) (x : V) :
    Avoids r rank e x k v ∨ ∃ j ≤ k, Avoids r rank e d j x := by
  induction h with
  | @entry k hne =>
    by_cases hx : e = x
    · exact .inr ⟨k, le_rfl, hx ▸ .entry hne⟩
    · exact .inl (.entry hx)
  | @forward k p v hp hr hlt hne ih =>
    rcases ih with ih | ih
    · by_cases hx : v = x
      · exact .inr ⟨k, le_rfl, hx ▸ hp.forward hr hlt hne⟩
      · exact .inl (ih.forward hr hlt hx)
    · exact .inr ih
  | @retreating k p v hp hr hle hne ih =>
    rcases ih with ih | ⟨j, hj, ih⟩
    · by_cases hx : v = x
      · exact .inr ⟨k + 1, le_rfl, hx ▸ hp.retreating hr hle hne⟩
      · exact .inl (ih.retreating hr hle hx)
    · exact .inr ⟨j, by omega, ih⟩

lemma Avoids.append (h : Avoids r rank e d k x)
    (hpath : Relation.ReflTransGen (fun a b => r a b ∧ b ≠ d) x v) :
    ∃ j, Avoids r rank e d j v := by
  induction hpath with
  | refl => exact ⟨k, h⟩
  | @tail p v _ hstep ih =>
    obtain ⟨j, hj⟩ := ih
    rcases lt_or_ge (rank v) (rank p) with hlt | hge
    · exact ⟨j, hj.forward hstep.1 hlt hstep.2⟩
    · exact ⟨j + 1, hj.retreating hstep.1 hge hstep.2⟩

lemma Avoids.exists_path (h : Avoids r rank e d k v) : ∃ l, IsPath r e v l ∧ d ∉ l := by
  induction h with
  | entry hne => exact ⟨[e], ⟨rfl, rfl, List.isChain_singleton e⟩, by simpa using hne.symm⟩
  | @forward _ _ v _ hr _ hne ih =>
    obtain ⟨l, hl, hd⟩ := ih
    exact ⟨l ++ [v], hl.tail hr, by simpa using ⟨hd, hne.symm⟩⟩
  | @retreating _ _ v _ hr _ hne ih =>
    obtain ⟨l, hl, hd⟩ := ih
    exact ⟨l ++ [v], hl.tail hr, by simpa using ⟨hd, hne.symm⟩⟩

lemma IsPath.exists_avoids {l : List V} (h : IsPath r e v l) (hd : d ∉ l) (rank : V → Int) :
    ∃ k, Avoids r rank e d k v := by
  obtain ⟨hhead, hlast, hchain⟩ := h
  cases l with
  | nil => cases hhead
  | cons x l =>
    cases hhead
    have hchain' : (e :: l).IsChain fun a b => r a b ∧ b ≠ d := by
      apply hchain.imp_of_mem_imp
      intro a b _ hb hr
      exact ⟨hr, fun h => hd (h ▸ hb)⟩
    rw [List.mem_cons, not_or] at hd
    have hgen := List.relationReflTransGen_of_exists_isChain_cons l hchain'
      (Option.some.inj ((List.getLast?_eq_some_getLast _).symm.trans hlast))
    exact Avoids.append (.entry (k := 0) (Ne.symm hd.1)) hgen

lemma dominates_iff (rank : V → Int) :
    Dominates r e a b ↔ ∀ k, ¬Avoids r rank e a k b := by
  constructor
  · intro h k hav
    obtain ⟨l, hl, ha⟩ := hav.exists_path
    exact ha (h l hl)
  · intro h l hl
    by_contra ha
    obtain ⟨k, hk⟩ := hl.exists_avoids ha rank
    exact h k hk

lemma Dominates.of_path (h : Dominates r e d v)
    (hpath : Relation.ReflTransGen (fun a b => r a b ∧ rank b ≤ rank x) x v)
    (hlt : rank x < rank d) : Dominates r e d x := by
  rw [dominates_iff rank] at h ⊢
  intro k hk
  have hpath' : Relation.ReflTransGen (fun a b => r a b ∧ b ≠ d) x v := by
    refine Relation.ReflTransGen.mono ?_ _ _ hpath
    rintro a b ⟨hr, hle⟩
    exact ⟨hr, by rintro rfl; omega⟩
  obtain ⟨j, hj⟩ := hk.append hpath'
  exact h j hj

lemma exists_bound (r : V → V → Prop) (rank : V → Int) (e : V) (nodes : Finset V) :
    ∃ K, ∀ d ∈ nodes, ∀ v ∈ nodes, (∃ k, Avoids r rank e d k v) →
      ∃ k < K, Avoids r rank e d k v := by
  classical
  let least (q : V × V) : Nat :=
    if h : ∃ k, Avoids r rank e q.1 k q.2 then Nat.find h else 0
  refine ⟨(nodes ×ˢ nodes).sup least + 1, ?_⟩
  intro d hd v hv h
  have hle : least (d, v) ≤ (nodes ×ˢ nodes).sup least :=
    Finset.le_sup (Finset.mem_product.mpr ⟨hd, hv⟩)
  have hleast : least (d, v) = Nat.find h := dif_pos h
  exact ⟨Nat.find h, by omega, Nat.find_spec h⟩

/-! ### Partial dominator trees -/

/-- `x` is `v`, or above it in the tree. -/
def Above (dom : V → Option V) : V → V → Prop :=
  Relation.ReflTransGen fun v p => dom v = some p

/-- The nodes above `c` are those above all nodes of `S`. -/
def IsMeet (dom : V → Option V) (S : V → Prop) (c : V) : Prop :=
  ∀ d, Above dom c d ↔ ∀ p, S p → Above dom p d

/-- A function that gives some nodes a node between them and their dominators. -/
structure IsPartialTree (r : V → V → Prop) (rank : V → Int) (e : V) (dom : V → Option V) :
    Prop where
  entry : dom e = some e
  isSome : ∀ v x, dom v = some x → (dom x).isSome
  reachable : ∀ v, (dom v).isSome → Relation.ReflTransGen r e v
  rank_lt : ∀ v x, dom v = some x → v ≠ e → rank v < rank x
  path : ∀ v x, dom v = some x → v ≠ e →
    Relation.ReflTransGen (fun a b => r a b ∧ rank b ≤ rank x) x v
  dominates : ∀ v x, dom v = some x → v ≠ e → ∀ d, Dominates r e d v → d ≠ v →
    Dominates r e d x

variable {dom : V → Option V} {c : V}

lemma Above.isSome (ht : IsPartialTree r rank e dom) (h : Above dom v x)
    (hv : (dom v).isSome) : (dom x).isSome := by
  induction h with
  | refl => exact hv
  | tail _ hstep _ => exact ht.isSome _ _ hstep

lemma Above.eq_entry (ht : IsPartialTree r rank e dom) (h : Above dom e x) : x = e := by
  induction h with
  | refl => rfl
  | tail _ hstep ih =>
    subst ih
    rw [ht.entry] at hstep
    exact (Option.some.inj hstep).symm

lemma Above.rank_le (ht : IsPartialTree r rank e dom) (h : Above dom v x) :
    rank v ≤ rank x := by
  induction h with
  | refl => exact le_rfl
  | @tail y x _ hstep ih =>
    by_cases hy : y = e
    · subst hy
      rw [ht.entry] at hstep
      cases hstep
      exact ih
    · have hlt := ht.rank_lt y x hstep hy
      omega

lemma above_iff (h : dom v = some x) : Above dom v d ↔ d = v ∨ Above dom x d := by
  constructor
  · intro hd
    rcases Relation.ReflTransGen.cases_head hd with heq | ⟨y, hy, hd⟩
    · exact .inl heq.symm
    · rw [h] at hy
      cases hy
      exact .inr hd
  · rintro (rfl | hd)
    · exact .refl
    · exact .head h hd

lemma Above.path (ht : IsPartialTree r rank e dom) (h : Above dom v x) :
    Relation.ReflTransGen (fun a b => r a b ∧ rank b ≤ rank x) x v := by
  induction h with
  | refl => exact .refl
  | @tail y x hy hstep ih =>
    by_cases hye : y = e
    · subst hye
      rw [ht.entry] at hstep
      cases hstep
      exact ih
    · have hlt := ht.rank_lt y x hstep hye
      have hmono : Relation.ReflTransGen (fun a b => r a b ∧ rank b ≤ rank x) y v := by
        refine Relation.ReflTransGen.mono ?_ _ _ ih
        rintro a b ⟨hr, hle⟩
        exact ⟨hr, by omega⟩
      exact (ht.path y x hstep hye).trans hmono

lemma IsPartialTree.above_of_dominates (ht : IsPartialTree r rank e dom)
    (hroot : ∀ v, Relation.ReflTransGen r e v → rank v ≤ rank e) (hv : (dom v).isSome)
    (hd : Dominates r e d v) : Above dom v d := by
  induction hn : (rank e - rank v).toNat using Nat.strongRecOn generalizing v with
  | _ n ih =>
    by_cases hdv : d = v
    · exact hdv ▸ .refl
    · obtain ⟨x, hx⟩ := Option.isSome_iff_exists.mp hv
      have hve : v ≠ e := by
        rintro rfl
        have hmem := hd [v] ⟨rfl, rfl, List.isChain_singleton v⟩
        exact hdv (List.mem_singleton.mp hmem)
      have hlt := ht.rank_lt v x hx hve
      have hxs := ht.isSome v x hx
      have hle := hroot x (ht.reachable x hxs)
      exact .head hx (ih _ (by omega) hxs (ht.dominates v x hx hve d hd hdv) rfl)

lemma IsPartialTree.above_entry (ht : IsPartialTree r rank e dom)
    (hroot : ∀ v, Relation.ReflTransGen r e v → rank v ≤ rank e) (hv : (dom v).isSome) :
    Above dom v e :=
  ht.above_of_dominates hroot hv fun _ hl => List.mem_of_head? hl.head

/-! ### One update -/

section Update

variable [DecidableEq V] {S : V → Prop}

lemma IsPartialTree.update (ht : IsPartialTree r rank e dom)
    (hroot : ∀ v, Relation.ReflTransGen r e v → rank v ≤ rank e) (hve : v ≠ e)
    (hS : ∀ p, S p → r p v ∧ (dom p).isSome) (hup : ∃ p, S p ∧ rank v < rank p)
    (hc : IsMeet dom S c) : IsPartialTree r rank e (Function.update dom v (some c)) := by
  obtain ⟨q, hq, hlt⟩ := hup
  have habove : Above dom q c := (hc c).mp .refl q hq
  have hle := habove.rank_le ht
  have hcs : (dom c).isSome := habove.isSome ht (hS q hq).2
  have hpath : Relation.ReflTransGen (fun a b => r a b ∧ rank b ≤ rank c) c v :=
    (habove.path ht).tail ⟨(hS q hq).1, by omega⟩
  have hsome : ∀ x, (dom x).isSome → (Function.update dom v (some c) x).isSome := by
    intro x hx
    by_cases hxv : x = v
    · simp [hxv]
    · rwa [Function.update_of_ne hxv]
  refine ⟨?_, ?_, ?_, ?_, ?_, ?_⟩
  · rw [Function.update_of_ne (Ne.symm hve)]
    exact ht.entry
  · intro w x hw
    by_cases hwv : w = v
    · subst hwv
      rw [Function.update_self] at hw
      cases hw
      exact hsome c hcs
    · rw [Function.update_of_ne hwv] at hw
      exact hsome x (ht.isSome w x hw)
  · intro w hw
    by_cases hwv : w = v
    · subst hwv
      exact (ht.reachable q (hS q hq).2).tail (hS q hq).1
    · rw [Function.update_of_ne hwv] at hw
      exact ht.reachable w hw
  · intro w x hw hwe
    by_cases hwv : w = v
    · subst hwv
      rw [Function.update_self] at hw
      cases hw
      omega
    · rw [Function.update_of_ne hwv] at hw
      exact ht.rank_lt w x hw hwe
  · intro w x hw hwe
    by_cases hwv : w = v
    · subst hwv
      rw [Function.update_self] at hw
      cases hw
      exact hpath
    · rw [Function.update_of_ne hwv] at hw
      exact ht.path w x hw hwe
  · intro w x hw hwe d hd hdw
    by_cases hwv : w = v
    · subst hwv
      rw [Function.update_self] at hw
      cases hw
      -- `d` is above all predecessors, so that it is above their meet
      have hcd : Above dom c d := by
        rw [hc d]
        intro p hp
        exact ht.above_of_dominates hroot (hS p hp).2 (hd.of_edge hdw (hS p hp).1)
      by_cases hdc : d = c
      · rw [hdc]
        exact dominates_self r e c
      · obtain ⟨y, hy⟩ := Option.isSome_iff_exists.mp hcs
        have hcd' := ((above_iff hy).mp hcd).resolve_left hdc
        have hce : c ≠ e := by
          rintro rfl
          exact hdc (hcd.eq_entry ht)
        have hlt' := ht.rank_lt c y hy hce
        have hle' := hcd'.rank_le ht
        exact hd.of_path hpath (by omega)
    · rw [Function.update_of_ne hwv] at hw
      exact ht.dominates w x hw hwe d hd hdw

end Update

/-! ### Rounds -/

/-- No path with less than `k` edges against the rank avoids the node above `v`. -/
def Excludes (r : V → V → Prop) (rank : V → Int) (e : V) (dom : V → Option V) (k : Nat) (v : V) :
    Prop :=
  v ≠ e → ∀ x, dom v = some x → ∀ j < k, ¬Avoids r rank e x j v

lemma Excludes.above (ht : IsPartialTree r rank e dom)
    (h : ∀ w, rank v ≤ rank w → Excludes r rank e dom k w) (hd : Above dom v d) (hj : j < k) :
    ¬Avoids r rank e d j v := by
  induction hd using Relation.ReflTransGen.head_induction_on generalizing j with
  | refl => exact fun hav => hav.ne rfl
  | @head v x hstep hx ih =>
    intro hav
    have hle := Above.rank_le ht (show Above dom v x from .single hstep)
    by_cases hve : v = e
    · subst hve
      rw [ht.entry] at hstep
      cases hstep
      exact ih h hj hav
    · rcases hav.through x with hx | ⟨i, hi, hx⟩
      · exact h v le_rfl hve x hstep j hj hx
      · exact ih (fun w hw => h w (by omega)) (by omega) hx

lemma Excludes.of_above (ht : IsPartialTree r rank e dom) (hve : v ≠ e)
    (hup : ∀ w, rank v < rank w → Excludes r rank e dom (k + 1) w)
    (hk : ∀ w, Excludes r rank e dom k w)
    (hsome : ∀ p, Relation.ReflTransGen r e p → 0 < k ∨ rank v < rank p → (dom p).isSome)
    (hc : ∀ p, r p v → p ≠ v → (dom p).isSome → Above dom p c) (hj : j < k + 1) :
    ¬Avoids r rank e c j v := by
  intro hav
  generalize hu : v = u at hav
  induction hav with
  | entry _ => exact hve hu
  | @forward j p u hp hr hlt _ _ =>
    subst hu
    have hps := hsome p hp.reachable (.inr hlt)
    exact Excludes.above ht (fun w hw => hup w (by omega)) (hc p hr (by rintro rfl; omega) hps)
      hj hp
  | @retreating j p u hp hr _ _ ih =>
    subst hu
    by_cases hpv : p = v
    · exact ih (by omega) hpv.symm
    · have hps := hsome p hp.reachable (.inl (by omega))
      exact Excludes.above ht (fun w _ => hk w) (hc p hr hpv hps) (show j < k by omega) hp

lemma IsPartialTree.isImmediateDominator (ht : IsPartialTree r rank e dom)
    (h : ∀ k, Excludes r rank e dom k v) (hve : v ≠ e) (hx : dom v = some x) :
    IsImmediateDominator r e x v where
  dominates := by
    rw [dominates_iff rank]
    intro k
    exact h (k + 1) hve x hx k (by omega)
  ne := by
    rintro rfl
    exact absurd (ht.rank_lt x x hx hve) (by omega)
  least := ht.dominates v x hx hve

lemma IsPartialTree.eq_of_isImmediateDominator {dom' : V → Option V}
    (ht : IsPartialTree r rank e dom) (ht' : IsPartialTree r rank e dom')
    (hroot : ∀ v, Relation.ReflTransGen r e v → rank v ≤ rank e) (hx : dom v = some x)
    (hy : dom' v = some y) (hix : IsImmediateDominator r e x v)
    (hiy : IsImmediateDominator r e y v) : x = y := by
  have hyx := ht.above_of_dominates hroot (ht.isSome v x hx) (hix.least y hiy.dominates hiy.ne)
  have hxy := ht'.above_of_dominates hroot (ht'.isSome v y hy) (hiy.least x hix.dominates hix.ne)
  have hle := hyx.rank_le ht
  have hle' := hxy.rank_le ht'
  obtain ⟨z, hz⟩ := Option.isSome_iff_exists.mp (ht.isSome v x hx)
  by_cases hxe : x = e
  · subst hxe
    exact (hyx.eq_entry ht).symm
  · rcases (above_iff hz).mp hyx with heq | hzy
    · exact heq.symm
    · have hlt := ht.rank_lt x z hz hxe
      have hle'' := hzy.rank_le ht
      omega

/-! ### Preorders -/

/-- `v` is `a`, or below it in the tree. -/
def Below (dom : V → Option V) (a v : V) : Prop := (dom v).isSome ∧ Above dom v a

/-- The nodes of `S` in an order in which those below a node follow it in one run. -/
structure IsPreorder (dom : V → Option V) (S : V → Prop) (l : List V) : Prop where
  nodup : l.Nodup
  mem_iff : ∀ v, v ∈ l ↔ S v
  run : ∀ a ∈ l, ∃ l₁ l₂ l₃, l = l₁ ++ (a :: l₂ ++ l₃) ∧ ∀ v, v ∈ a :: l₂ ↔ Below dom a v

lemma Above.eq_or_child (ht : IsPartialTree r rank e dom) (h : Above dom v a) :
    v = a ∨ ∃ k, k ≠ e ∧ dom k = some a ∧ Above dom v k := by
  induction h with
  | refl => exact .inl rfl
  | @tail y x hy hstep ih =>
    by_cases hye : y = e
    · subst hye
      rw [ht.entry] at hstep
      cases hstep
      exact ih
    · exact .inr ⟨y, hye, hstep, hy⟩

lemma below_iff (ht : IsPartialTree r rank e dom) (ha : (dom a).isSome) :
    Below dom a v ↔ v = a ∨ ∃ k, k ≠ e ∧ dom k = some a ∧ Below dom k v := by
  constructor
  · rintro ⟨hv, hva⟩
    obtain rfl | ⟨k, hk, hka, hvk⟩ := hva.eq_or_child ht
    · exact .inl rfl
    · exact .inr ⟨k, hk, hka, hv, hvk⟩
  · rintro (rfl | ⟨k, -, hka, hv, hvk⟩)
    · exact ⟨ha, .refl⟩
    · exact ⟨hv, hvk.tail hka⟩

lemma not_below_child (ht : IsPartialTree r rank e dom) (hb : b ≠ e) (hbp : dom b = some p) :
    ¬Below dom b p := by
  intro h
  have hle := h.2.rank_le ht
  have hlt := ht.rank_lt b p hbp hb
  omega

lemma eq_of_below (ht : IsPartialTree r rank e dom) (ha : a ≠ e) (hap : dom a = some p)
    (hb : b ≠ e) (hbp : dom b = some p) (hva : Below dom a v) (hvb : Below dom b v) : a = b := by
  have hunique : Relator.RightUnique fun v p => dom v = some p := by
    intro x y z hy hz
    exact Option.some.inj (hy.symm.trans hz)
  have hchild : ∀ {a b : V}, a ≠ e → dom a = some p → b ≠ e → dom b = some p → Above dom a b →
      a = b := by
    intro a b ha hap hb hbp h
    refine (((above_iff hap).mp h).resolve_right ?_).symm
    intro hpb
    exact not_below_child ht hb hbp ⟨ht.isSome a p hap, hpb⟩
  obtain h | h := Relation.ReflTransGen.total_of_right_unique hunique hva.2 hvb.2
  · exact hchild ha hap hb hbp h
  · exact (hchild hb hbp ha hap h).symm

namespace IsPreorder

variable {S T : V → Prop} {l l' : List V}

lemma append (h : IsPreorder dom S l) (h' : IsPreorder dom T l') (hdisj : ∀ v, S v → ¬T v) :
    IsPreorder dom (fun v => S v ∨ T v) (l ++ l') where
  nodup := by
    refine h.nodup.append h'.nodup ?_
    intro v hv hv'
    exact hdisj v ((h.mem_iff v).mp hv) ((h'.mem_iff v).mp hv')
  mem_iff := by simp [h.mem_iff, h'.mem_iff]
  run := by
    intro a ha
    obtain ha | ha := List.mem_append.mp ha
    · obtain ⟨l₁, l₂, l₃, rfl, hrun⟩ := h.run a ha
      exact ⟨l₁, l₂, l₃ ++ l', by simp, hrun⟩
    · obtain ⟨l₁, l₂, l₃, rfl, hrun⟩ := h'.run a ha
      exact ⟨l ++ l₁, l₂, l₃, by simp, hrun⟩

lemma cons (h : IsPreorder dom S l) (ha : ¬S a) (hS : ∀ v, Below dom a v ↔ v = a ∨ S v) :
    IsPreorder dom (Below dom a) (a :: l) where
  nodup := List.nodup_cons.mpr ⟨fun hmem => ha ((h.mem_iff a).mp hmem), h.nodup⟩
  mem_iff := by simp [h.mem_iff, hS]
  run := by
    intro b hb
    obtain rfl | hb := List.mem_cons.mp hb
    · exact ⟨[], l, [], by simp, by simp [h.mem_iff, hS]⟩
    · obtain ⟨l₁, l₂, l₃, rfl, hrun⟩ := h.run b hb
      exact ⟨a :: l₁, l₂, l₃, by simp, hrun⟩

lemma idxOf_iff [DecidableEq V] (h : IsPreorder dom S l) (ha : a ∈ l) :
    ∃ n, ∀ v ∈ l, Below dom a v ↔ l.idxOf a ≤ l.idxOf v ∧ l.idxOf v < l.idxOf a + n := by
  obtain ⟨l₁, l₂, l₃, rfl, hrun⟩ := h.run a ha
  have hnodup := List.nodup_append.mp h.nodup
  have hnot : ∀ v ∈ a :: l₂ ++ l₃, v ∉ l₁ := fun v hv hv₁ => hnodup.2.2 v hv₁ v hv rfl
  refine ⟨(a :: l₂).length, ?_⟩
  intro v hv
  have hidx : (l₁ ++ (a :: l₂ ++ l₃)).idxOf a = l₁.length := by
    rw [List.idxOf_append_of_notMem (hnot a (by simp)), List.cons_append, List.idxOf_cons_self]
    rfl
  rw [← hrun, hidx]
  obtain hv | hv := List.mem_append.mp hv
  · have hlt := List.idxOf_lt_length_of_mem hv
    rw [List.idxOf_append_of_mem hv]
    refine iff_of_false (fun hmem => hnot v (List.mem_append_left _ hmem) hv) ?_
    omega
  · rw [List.idxOf_append_of_notMem (hnot v hv)]
    obtain hv₂ | hv₃ := List.mem_append.mp hv
    · have hlt := List.idxOf_lt_length_of_mem hv₂
      rw [List.idxOf_append_of_mem hv₂]
      exact iff_of_true hv₂ ⟨by omega, by omega⟩
    · have hv₂ : v ∉ a :: l₂ := fun hmem =>
        (List.nodup_append.mp hnodup.2.1).2.2 v hmem v hv₃ rfl
      rw [List.idxOf_append_of_notMem hv₂]
      exact iff_of_false hv₂ (by omega)

end IsPreorder
end Dominators
