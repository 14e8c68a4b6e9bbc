import Maple.Lib.While
import Mathlib.Algebra.BigOperators.Group.Finset.Basic
import Mathlib.Algebra.Order.BigOperators.Group.Finset
import Mathlib.Logic.Relation

/-!
# Union-find

`UnionFind` of `union_find.h`: weighted quick union with path compression. In every run the classes
are those of the equivalence that the calls of `Union` generate.
-/

namespace Maple

open Relation (EqvGen)

/-- The vectors `rootIDs` and `sizeOfClass` have `num` elements. There are less than `2 ^ 32` members,
so that the ids and the sizes are exact. -/
structure UnionFind where
  num : Nat
  rootIDs : Nat → Nat
  sizeOfClass : Nat → Nat

namespace UnionFind

/-- The constructor with a size, which calls `Reinit`. -/
def ofSize (siz : Nat) : UnionFind := ⟨siz, fun i => i, fun _ => 1⟩

/-- The new members are their own roots. -/
def grow (s : UnionFind) (incNum : Nat) : UnionFind where
  num := s.num + incNum
  rootIDs i := if i < s.num then s.rootIDs i else i
  sizeOfClass i := if i < s.num then s.sizeOfClass i else 1

def newMember (s : UnionFind) : UnionFind := s.grow 1

/-- `NewMember` with an id. -/
def newMemberAt (s : UnionFind) (id : Nat) : UnionFind :=
  if s.num ≤ id + 1 then s.grow (id + 2 - s.num) else s

/-- A round of the loop of `Root`, which compresses the path. -/
def compress (s : UnionFind) (i : Nat) : UnionFind :=
  { s with rootIDs := Function.update s.rootIDs i (s.rootIDs (s.rootIDs i)) }

def root (s : UnionFind) (i fuel : Nat) : Outcome (UnionFind × Nat) :=
  whileLoop (fun t => t.1.rootIDs t.2 != t.2)
    (fun t => some (t.1.compress t.2, (t.1.compress t.2).rootIDs t.2)) fuel (s, i)

/-- `Find` with two members. -/
def find (s : UnionFind) (p q fuel : Nat) : Outcome (UnionFind × Nat) :=
  (s.root p fuel).bind fun t => (t.1.root q fuel).bind fun u => .done (u.1, (t.2 == u.2).toNat)

/-- The root `i` becomes a child of the root `j`. -/
def link (s : UnionFind) (i j : Nat) : UnionFind :=
  { s with
    rootIDs := Function.update s.rootIDs i j
    sizeOfClass := Function.update s.sizeOfClass j (s.sizeOfClass j + s.sizeOfClass i) }

def union (s : UnionFind) (p q fuel : Nat) : Outcome (UnionFind × Nat) :=
  (s.root p fuel).bind fun t => (t.1.root q fuel).bind fun u =>
    let i := t.2
    let j := u.2
    if i = j then .done (u.1, 0)
    -- construct a balanced tree
    else if u.1.sizeOfClass i < u.1.sizeOfClass j then .done (u.1.link i j, 0)
    else .done (u.1.link j i, 0)

def singleMemberClass (s : UnionFind) (p fuel : Nat) : Outcome (UnionFind × Nat) :=
  (s.root p fuel).bind fun t => .done (t.1, (t.1.sizeOfClass t.2 == 1).toNat)

/-! ### Runs -/

inductive Call where
  | newMember
  | newMemberAt (id : Nat)
  | root (i : Nat)
  | find (p q : Nat)
  | union (p q : Nat)
  | singleMemberClass (p : Nat)

/-- The object after the call and the value that is returned, `0` if there is none. -/
def call (s : UnionFind) : Call → Nat → Outcome (UnionFind × Nat)
  | .newMember, _ => .done (s.newMember, s.newMember.num)
  | .newMemberAt id, _ => .done (s.newMemberAt id, (s.newMemberAt id).num)
  | .root i, fuel => s.root i fuel
  | .find p q, fuel => s.find p q fuel
  | .union p q, fuel => s.union p q fuel
  | .singleMemberClass p, fuel => s.singleMemberClass p fuel

/-- The ids are those of members, and the population stays below `2 ^ 32`. -/
def Call.Valid (s : UnionFind) : Call → Prop
  | .newMember => s.num + 1 < 4294967296
  | .newMemberAt id => id + 2 < 4294967296
  | .root i | .singleMemberClass i => i < s.num
  | .find p q | .union p q => p < s.num ∧ q < s.num

/-- The pair of members that the call unites. -/
def Call.pair : Call → List (Nat × Nat)
  | .union p q => [(p, q)]
  | _ => []

/-- An object and the pairs that have been united. -/
inductive Run : UnionFind → List (Nat × Nat) → Prop
  | ofSize {siz : Nat} : siz < 4294967296 → Run (ofSize siz) []
  | call {s s' : UnionFind} {united : List (Nat × Nat)} {c : Call} {res : Nat} : Run s united →
      c.Valid s → Outcome.Settles (s.call c) (.done (s', res)) → Run s' (c.pair ++ united)

/-- The equivalence that the pairs generate. -/
def Joined (united : List (Nat × Nat)) : Nat → Nat → Prop := EqvGen fun p q => (p, q) ∈ united

/-- The members that are joined with `p`. -/
noncomputable def classOf (s : UnionFind) (united : List (Nat × Nat)) (p : Nat) : Finset Nat :=
  open Classical in (Finset.range s.num).filter (Joined united p)

/-- What a call returns. -/
def Call.Returns (s s' : UnionFind) (united : List (Nat × Nat)) : Call → Nat → Prop
  | .newMember, res => res = s.num + 1
  | .newMemberAt id, res => res = max s.num (id + 2)
  | .root i, res => res ∈ s.classOf united i ∧ s'.sizeOfClass res = (s.classOf united i).card
  | .find p q, res => res = 1 ∧ Joined united p q ∨ res = 0 ∧ ¬Joined united p q
  | .union _ _, res => res = 0
  | .singleMemberClass p, res =>
    res = 1 ∧ s.classOf united p = {p} ∨ res = 0 ∧ s.classOf united p ≠ {p}

/-! ### The forest -/

/-- `rep` gives the root of the tree of each member. -/
structure IsForest (s : UnionFind) (rep : Nat → Nat) : Prop where
  lt : ∀ i < s.num, s.rootIDs i < s.num
  rep_parent : ∀ i < s.num, rep (s.rootIDs i) = rep i
  root_iff : ∀ i < s.num, s.rootIDs i = i ↔ rep i = i
  rep_rep : ∀ i, rep (rep i) = rep i
  rep_lt : ∀ i < s.num, rep i < s.num
  outside : ∀ i, s.num ≤ i → rep i = i
  size : ∀ i < s.num, rep i = i →
    s.sizeOfClass i = ((Finset.range s.num).filter fun j => rep j = i).card

/-- A rank that grows towards the roots. -/
structure IsRank (s : UnionFind) (rank : Nat → Nat) (bound : Nat) : Prop where
  lt : ∀ i < s.num, s.rootIDs i ≠ i → rank i < rank (s.rootIDs i)
  le : ∀ i < s.num, rank i ≤ bound

variable {s s' : UnionFind} {rep rank : Nat → Nat} {bound i j p q : Nat}

lemma isForest_ofSize (siz : Nat) : (ofSize siz).IsForest fun i => i where
  lt _ hi := hi
  rep_parent _ _ := rfl
  root_iff _ _ := Iff.rfl
  rep_rep _ := rfl
  rep_lt _ hi := hi
  outside _ _ := rfl
  size := by
    intro i hi _
    simp [ofSize, Finset.filter_eq', show i < siz from hi]

lemma IsForest.grow (h : s.IsForest rep) (n : Nat) : (s.grow n).IsForest rep where
  lt := by
    intro i hi
    by_cases his : i < s.num
    · have hlt := h.lt i his
      simp only [UnionFind.grow, if_pos his]
      omega
    · simpa [UnionFind.grow, his] using hi
  rep_parent := by
    intro i _
    by_cases his : i < s.num
    · simpa [UnionFind.grow, his] using h.rep_parent i his
    · simp [UnionFind.grow, his]
  root_iff := by
    intro i _
    by_cases his : i < s.num
    · simpa [UnionFind.grow, his] using h.root_iff i his
    · simp [UnionFind.grow, his, h.outside i (by omega)]
  rep_rep := h.rep_rep
  rep_lt := by
    intro i hi
    by_cases his : i < s.num
    · exact lt_of_lt_of_le (h.rep_lt i his) (Nat.le_add_right _ _)
    · rwa [h.outside i (by omega)]
  outside i hi := h.outside i (le_trans (Nat.le_add_right _ _) hi)
  size := by
    intro i hi hrep
    by_cases his : i < s.num
    · simp only [UnionFind.grow, if_pos his, h.size i his hrep]
      congr 1
      ext j
      by_cases hj : j < s.num
      · simp [hj, Nat.lt_add_right n hj]
      · have hne : j ≠ i := by omega
        simp [hj, h.outside j (by omega), hne]
    · simp only [UnionFind.grow, if_neg his]
      refine (Finset.card_eq_one.mpr ⟨i, ?_⟩).symm
      ext j
      simp only [Finset.mem_filter, Finset.mem_range, Finset.mem_singleton]
      constructor
      · rintro ⟨-, hj⟩
        by_contra hne
        by_cases hjs : j < s.num
        · exact his (hj ▸ h.rep_lt j hjs)
        · exact hne (h.outside j (by omega) ▸ hj)
      · rintro rfl
        exact ⟨hi, hrep⟩

lemma compress_rootIDs (s : UnionFind) (i j : Nat) : (s.compress i).rootIDs j =
    if j = i then s.rootIDs (s.rootIDs i) else s.rootIDs j :=
  Function.update_apply ..

lemma IsForest.compress (h : s.IsForest rep) (hr : s.IsRank rank bound) (hi : i < s.num)
    (hne : s.rootIDs i ≠ i) :
    (s.compress i).IsForest rep ∧ (s.compress i).IsRank rank bound ∧
      rank i < rank ((s.compress i).rootIDs i) := by
  have hparent := h.lt i hi
  have hlt := hr.lt i hi hne
  have hle : rank (s.rootIDs i) ≤ rank (s.rootIDs (s.rootIDs i)) := by
    by_cases heq : s.rootIDs (s.rootIDs i) = s.rootIDs i
    · rw [heq]
    · exact (hr.lt _ hparent heq).le
  refine ⟨⟨?_, ?_, ?_, h.rep_rep, h.rep_lt, h.outside, h.size⟩, ⟨?_, hr.le⟩, ?_⟩
  · intro j hj
    change _ < s.num
    grind [compress_rootIDs, h.lt j hj, h.lt (s.rootIDs i) hparent]
  · intro j hj
    grind [compress_rootIDs, h.rep_parent j hj, h.rep_parent (s.rootIDs i) hparent]
  · intro j hj
    grind [compress_rootIDs, h.root_iff j hj]
  · intro j hj
    have hlt' := hr.lt j hj
    grind [compress_rootIDs]
  · grind [compress_rootIDs]

lemma root_settles (h : s.IsForest rep) (hr : ∃ rank bound, s.IsRank rank bound) (hi : i < s.num) :
    ∃ s', Outcome.Settles (s.root i) (.done (s', rep i)) ∧ s'.IsForest rep ∧
      (∃ rank bound, s'.IsRank rank bound) ∧ s'.num = s.num ∧ s'.sizeOfClass = s.sizeOfClass := by
  obtain ⟨rank, bound, hr⟩ := hr
  obtain ⟨⟨s', k⟩, hsettles, ⟨h', hr', hk, hrep, hnum, hsize⟩, hend⟩ := @whileLoop_settles _
    (fun t : UnionFind × Nat => t.1.rootIDs t.2 != t.2)
    (fun t => (t.1.compress t.2, (t.1.compress t.2).rootIDs t.2))
    (fun t => t.1.IsForest rep ∧ t.1.IsRank rank bound ∧ t.2 < t.1.num ∧ rep t.2 = rep i ∧
      t.1.num = s.num ∧ t.1.sizeOfClass = s.sizeOfClass)
    (fun t => bound - rank t.2) (by
      rintro ⟨t, k⟩ ⟨ht, hrt, hk, hrep, hnum, hsize⟩ hne
      obtain ⟨ht', hrt', hlt⟩ := ht.compress hrt hk (by simpa using hne)
      have hlt' := ht'.lt k hk
      have hle := hrt'.le _ hlt'
      exact ⟨⟨ht', hrt', hlt', (ht'.rep_parent k hk).trans hrep, hnum, hsize⟩, by
        dsimp only at hlt hle ⊢
        omega⟩)
    (s, i) ⟨h, hr, hi, rfl, rfl, rfl⟩
  have hroot : rep k = k := (h'.root_iff k hk).mp (by simpa using hend)
  obtain rfl : k = rep i := hroot.symm.trans hrep
  exact ⟨s', hsettles, h', ⟨rank, bound, hr'⟩, hnum, hsize⟩

/-- The roots after `link`. -/
def linked (rep : Nat → Nat) (i j k : Nat) : Nat := if rep k = i then j else rep k

lemma link_rootIDs (s : UnionFind) (i j k : Nat) :
    (s.link i j).rootIDs k = if k = i then j else s.rootIDs k :=
  Function.update_apply ..

lemma IsForest.link (h : s.IsForest rep) (hi : i < s.num) (hj : j < s.num) (hri : rep i = i)
    (hrj : rep j = j) (hij : i ≠ j) : (s.link i j).IsForest (linked rep i j) where
  lt := by
    intro k hk
    change _ < s.num
    grind [link_rootIDs, h.lt k hk]
  rep_parent := by
    intro k hk
    grind [link_rootIDs, linked, h.rep_parent k hk]
  root_iff := by
    intro k hk
    grind [link_rootIDs, linked, h.root_iff k hk]
  rep_rep := by
    intro k
    grind [linked, h.rep_rep k]
  rep_lt := by
    intro k hk
    change _ < s.num
    grind [linked, h.rep_lt k hk]
  outside := by
    intro k hk
    have hne : k ≠ i := fun heq => absurd hi (by subst heq; exact Nat.not_lt.mpr hk)
    simp [linked, h.outside k hk, hne]
  size := by
    intro k hk hrep
    simp only [linked] at hrep
    by_cases hkj : k = j
    · subst hkj
      have heq : (Finset.range s.num).filter (fun a => linked rep i k a = k) =
          (Finset.range s.num).filter (fun a => rep a = k) ∪
            (Finset.range s.num).filter fun a => rep a = i := by
        rw [← Finset.filter_or]
        apply Finset.filter_congr
        intro a _
        by_cases ha : rep a = i <;> simp [linked, ha]
      have hdisj : Disjoint ((Finset.range s.num).filter fun a => rep a = k)
          ((Finset.range s.num).filter fun a => rep a = i) := by
        rw [Finset.disjoint_filter]
        intro a _ ha ha'
        exact hij (ha'.symm.trans ha)
      simp only [UnionFind.link, Function.update_self, heq, Finset.card_union_of_disjoint hdisj,
        h.size k hj hrj, h.size i hi hri]
    · have hk' : rep k = k := by
        split_ifs at hrep
        · exact absurd hrep.symm hkj
        · exact hrep
      simp only [UnionFind.link, Function.update_of_ne hkj, h.size k hk hk']
      congr 1
      apply Finset.filter_congr
      intro a _
      by_cases ha : rep a = i
      · have hki : k ≠ i := by
          rintro rfl
          simp [hri, hij.symm] at hrep
        simp [linked, ha, Ne.symm hkj, Ne.symm hki]
      · simp [linked, ha]

lemma IsRank.link (hr : s.IsRank rank bound) (h : s.IsForest rep) (hi : i < s.num) (hj : j < s.num)
    (hrj : rep j = j) (hij : i ≠ j) : ∃ rank bound, (s.link i j).IsRank rank bound := by
  refine ⟨Function.update rank j (rank i + rank j + 1), bound + bound + 1, ?_, ?_⟩
  · intro k hk hne
    have hroot := h.root_iff k hk
    have hlt := hr.lt k hk
    grind [link_rootIDs]
  · intro k hk
    have hik := hr.le i hi
    have hjk := hr.le j hj
    have hk := hr.le k hk
    grind

/-! ### The classes -/

variable {united : List (Nat × Nat)}

/-- The trees are the classes of the united pairs. -/
def Represents (rep : Nat → Nat) (r : Nat → Nat → Prop) : Prop :=
  ∀ a b, rep a = rep b ↔ EqvGen r a b

lemma Represents.linked {r r' : Nat → Nat → Prop} (h : Represents rep r)
    (hmono : ∀ a b, r a b → r' a b) (hpq : EqvGen r' p q)
    (hcases : ∀ a b, r' a b → r a b ∨ a = p ∧ b = q ∨ a = q ∧ b = p) :
    Represents (linked rep (rep p) (rep q)) r' := by
  have hold : ∀ {a b}, rep a = rep b → EqvGen r' a b :=
    fun hab => EqvGen.mono hmono _ _ ((h _ _).mp hab)
  have hp : UnionFind.linked rep (rep p) (rep q) p = rep q := if_pos rfl
  have hq : UnionFind.linked rep (rep p) (rep q) q = rep q := by simp [UnionFind.linked]
  intro a b
  constructor
  · intro hab
    simp only [UnionFind.linked] at hab
    split_ifs at hab with ha hb hb
    · exact hold (ha.trans hb.symm)
    · exact ((hold ha).trans _ _ _ hpq).trans _ _ _ (hold hab)
    · exact ((hold hab).trans _ _ _ (hpq.symm _ _)).trans _ _ _ (hold hb.symm)
    · exact hold hab
  · intro hab
    induction hab with
    | rel a b hab =>
      obtain hab | ⟨rfl, rfl⟩ | ⟨rfl, rfl⟩ := hcases a b hab
      · simp only [UnionFind.linked, (h a b).mpr (.rel _ _ hab)]
      · rw [hp, hq]
      · rw [hp, hq]
    | refl => rfl
    | symm _ _ _ ih => exact ih.symm
    | trans _ _ _ _ _ ih ih' => exact ih.trans ih'

/-- What every call keeps. -/
def Inv (s : UnionFind) (united : List (Nat × Nat)) : Prop :=
  ∃ rep, s.IsForest rep ∧ (∃ rank bound, s.IsRank rank bound) ∧
    Represents rep fun p q => (p, q) ∈ united

lemma IsRank.grow (hr : s.IsRank rank bound) (h : s.IsForest rep) (n : Nat) :
    (s.grow n).IsRank (fun i => if i < s.num then rank i else 0) bound where
  lt := by
    intro i _ hne
    by_cases his : i < s.num
    · simp only [UnionFind.grow, if_pos his, if_pos (h.lt i his)] at hne ⊢
      exact hr.lt i his hne
    · simp [UnionFind.grow, his] at hne
  le := by
    intro i _
    split_ifs with his
    · exact hr.le i his
    · exact Nat.zero_le _

lemma Inv.grow (h : s.Inv united) (n : Nat) : (s.grow n).Inv united := by
  obtain ⟨rep, hf, ⟨rank, bound, hr⟩, hrep⟩ := h
  exact ⟨rep, hf.grow n, ⟨_, bound, hr.grow hf n⟩, hrep⟩

lemma classOf_eq (hrep : Represents rep fun p q => (p, q) ∈ united) (p : Nat) :
    s.classOf united p = (Finset.range s.num).filter fun a => rep a = rep p := by
  ext a
  simp only [classOf, Finset.mem_filter, Finset.mem_range]
  rw [Joined, ← hrep p a, eq_comm (b := rep a)]

lemma size_rep (h : s.IsForest rep) (hrep : Represents rep fun p q => (p, q) ∈ united)
    (hp : p < s.num) : s.sizeOfClass (rep p) = (s.classOf united p).card := by
  rw [classOf_eq hrep, h.size _ (h.rep_lt p hp) (h.rep_rep p)]

lemma Inv.union (h : s.Inv united) (hp : p < s.num) (hq : q < s.num) :
    ∃ s', Outcome.Settles (s.union p q) (.done (s', 0)) ∧ s'.Inv ((p, q) :: united) := by
  obtain ⟨rep, hf, hr, hrep⟩ := h
  obtain ⟨s₁, hs₁, hf₁, hr₁, hnum₁, -⟩ := root_settles hf hr hp
  obtain ⟨s₂, hs₂, hf₂, ⟨rank, bound, hr₂⟩, hnum₂, -⟩ := root_settles hf₁ hr₁ (hnum₁ ▸ hq)
  have hjoin : EqvGen (fun a b => (a, b) ∈ (p, q) :: united) p q := .rel _ _ (by simp)
  have hmono : ∀ a b, (a, b) ∈ united → (a, b) ∈ (p, q) :: united :=
    fun _ _ => List.mem_cons_of_mem _
  have hcases : ∀ a b, (a, b) ∈ (p, q) :: united → (a, b) ∈ united ∨ a = p ∧ b = q ∨ a = q ∧ b = p := by
    intro a b hab
    obtain heq | hab := List.mem_cons.mp hab
    · cases heq
      exact .inr (.inl ⟨rfl, rfl⟩)
    · exact .inl hab
  have hi : rep p < s₂.num := by rw [hnum₂, hnum₁]; exact hf.rep_lt p hp
  have hj : rep q < s₂.num := by rw [hnum₂, hnum₁]; exact hf.rep_lt q hq
  have hsettles {s' : UnionFind} (h : (if rep p = rep q then Outcome.done (s₂, 0)
      else if s₂.sizeOfClass (rep p) < s₂.sizeOfClass (rep q) then .done (s₂.link (rep p) (rep q), 0)
      else .done (s₂.link (rep q) (rep p), 0)) = .done (s', 0)) :
      Outcome.Settles (s.union p q) (.done (s', 0)) := by
    refine hs₁.bind (hs₂.bind (f := fun u _ => _) ?_)
    rw [← h]
    exact Outcome.settles_const (by rw [h]; simp)
  by_cases heq : rep p = rep q
  · refine ⟨s₂, hsettles (if_pos heq), rep, hf₂, ⟨rank, bound, hr₂⟩, ?_⟩
    have hlink : linked rep (rep p) (rep q) = rep := by
      funext k
      simp only [linked, heq]
      split_ifs with hk
      · exact hk.symm
      · rfl
    rw [← hlink]
    exact hrep.linked hmono hjoin hcases
  · by_cases hsize : s₂.sizeOfClass (rep p) < s₂.sizeOfClass (rep q)
    · exact ⟨_, hsettles (by rw [if_neg heq, if_pos hsize]), _,
        hf₂.link hi hj (hf.rep_rep p) (hf.rep_rep q) heq,
        hr₂.link hf₂ hi hj (hf.rep_rep q) heq,
        hrep.linked hmono hjoin hcases⟩
    · exact ⟨_, hsettles (by rw [if_neg heq, if_neg hsize]), _,
        hf₂.link hj hi (hf.rep_rep q) (hf.rep_rep p) (Ne.symm heq),
        hr₂.link hf₂ hj hi (hf.rep_rep p) (Ne.symm heq),
        hrep.linked hmono (hjoin.symm _ _) fun a b hab => (hcases a b hab).imp_right Or.symm⟩

lemma Inv.call (h : s.Inv united) {c : Call} (hvalid : c.Valid s) :
    ∃ s' res, Outcome.Settles (s.call c) (.done (s', res)) ∧ c.Returns s s' united res ∧
      s'.Inv (c.pair ++ united) := by
  obtain ⟨rep, hf, hr, hrep⟩ := id h
  cases c with
  | newMember => exact ⟨_, _, Outcome.settles_const (by simp), rfl, h.grow 1⟩
  | newMemberAt id =>
    refine ⟨_, _, Outcome.settles_const (by simp), ?_, ?_⟩
    · simp only [Call.Returns, newMemberAt]
      split_ifs with hid
      · simp only [UnionFind.grow]
        omega
      · omega
    · simp only [newMemberAt]
      split_ifs
      · exact h.grow _
      · exact h
  | root i =>
    obtain ⟨s', hsettles, hf', hr', hnum, hsize⟩ := root_settles hf hr hvalid
    refine ⟨s', rep i, hsettles, ⟨?_, ?_⟩, rep, hf', hr', hrep⟩
    · simpa [classOf_eq hrep, hf.rep_rep] using hf.rep_lt i hvalid
    · rw [hsize, size_rep hf hrep hvalid]
  | find p q =>
    obtain ⟨s₁, hs₁, hf₁, hr₁, hnum₁, -⟩ := root_settles hf hr hvalid.1
    obtain ⟨s₂, hs₂, hf₂, hr₂, -, -⟩ := root_settles hf₁ hr₁ (hnum₁ ▸ hvalid.2)
    refine ⟨s₂, (rep p == rep q).toNat, ?_, ?_, rep, hf₂, hr₂, hrep⟩
    · exact hs₁.bind (hs₂.bind (f := fun u _ => _) (Outcome.settles_const (by simp)))
    · by_cases hpq : rep p = rep q
      · exact .inl ⟨by simp [hpq], (hrep p q).mp hpq⟩
      · exact .inr ⟨by simp [hpq], fun hjoin => hpq ((hrep p q).mpr hjoin)⟩
  | union p q =>
    obtain ⟨s', hsettles, hinv⟩ := h.union hvalid.1 hvalid.2
    exact ⟨s', 0, hsettles, rfl, hinv⟩
  | singleMemberClass p =>
    obtain ⟨s', hsettles, hf', hr', -, hsize⟩ := root_settles hf hr hvalid
    refine ⟨s', (s'.sizeOfClass (rep p) == 1).toNat, ?_, ?_, rep, hf', hr', hrep⟩
    · exact hsettles.bind (f := fun u _ => _) (Outcome.settles_const (by simp))
    · have hmem : p ∈ s.classOf united p := by
        simpa [classOf_eq hrep] using show p < s.num from hvalid
      rw [hsize, size_rep hf hrep hvalid]
      by_cases hcard : (s.classOf united p).card = 1
      · obtain ⟨a, ha⟩ := Finset.card_eq_one.mp hcard
        rw [ha, Finset.mem_singleton] at hmem
        exact .inl ⟨by simp [hcard], hmem ▸ ha⟩
      · exact .inr ⟨by simp [hcard], fun heq => hcard (by rw [heq, Finset.card_singleton])⟩

lemma Run.inv (h : Run s united) : s.Inv united := by
  induction h with
  | ofSize =>
    refine ⟨_, isForest_ofSize _, ⟨fun _ => 0, 0, fun _ _ hne => absurd rfl hne, by simp⟩, ?_⟩
    intro a b
    constructor
    · rintro rfl
      exact .refl _
    · intro hab
      induction hab with
      | rel _ _ hmem => cases hmem
      | refl => rfl
      | symm _ _ _ ih => exact ih.symm
      | trans _ _ _ _ _ ih ih' => exact ih.trans ih'
  | call _ hvalid hsettles ih =>
    obtain ⟨s', res, hsettles', -, hinv⟩ := ih.call hvalid
    cases hsettles.unique hsettles'
    exact hinv

end UnionFind
end Maple
