import Maple.Util.PtrListRef

/-!
# Runs of list operations

The other operations of `PtrListRef`, and what every order of operations does to the sequence of
nodes.
-/

namespace Maple

namespace PtrListRef

section Functions

variable {α : Type} [DecidableEq α]

def popFront (l : PtrListRef α) : PtrListRef α :=
  match l.first with
  | none => l
  | some first =>
    match l.links.next first with
    -- the last node stays as it is
    | none => { first := none, last := l.last, links := l.links }
    | some next => { first := some next, last := l.last, links := l.links.setPrev next none }

def clear (l : PtrListRef α) : PtrListRef α := { first := none, last := none, links := l.links }

/-- `insert` at a position, which may be the end. -/
def insertAt (l : PtrListRef α) (pos : Option α) (value : α) : Option (PtrListRef α) :=
  match pos with
  | some ptr => l.insert ptr value
  | none =>
    if l.first = none then l.pushFront value
    else if l.cend = none then some (l.pushBack value)
    else none

def insertAfter (l : PtrListRef α) (pos : Option α) (val : α) : Option (PtrListRef α) :=
  match pos with
  | none => l.pushFront val
  | some ptr =>
    if some ptr = l.last then some (l.pushBack val)
    else do
      let links := (l.links.setPrev val (some ptr)).setNext val (l.links.next ptr)
      let next ← links.next val
      some { l with links := (links.setPrev next (some val)).setNext ptr (some val) }

/-- `splice` at a position, which may be the end. -/
def spliceAt (l : PtrListRef α) (pos : Option α) (other : ListEnds α) : Option (PtrListRef α) :=
  match pos with
  | some ptr => l.splice ptr other
  | none =>
    if l.first = none then some { other with links := l.links }
    else if l.cend = none ∨ l.last = none then do
      let last ← l.last
      let front ← other.first
      some { first := l.first, last := other.last
             links := (l.links.setNext last (some front)).setPrev front (some last) }
    else none

end Functions

/-! ### The sequence of a list -/

section Sequence

variable {α : Type} {l l' : PtrListRef α} {s : List α}

/-- The nodes of the list are `s`: the links lead from each node to its neighbours, and the ends are
those of `s`. -/
structure IsSequence (l : PtrListRef α) (s : List α) : Prop where
  links : l.links.Seg none s none
  first : l.first = s.head?
  last : l.last = s.getLast?
  nodup : s.Nodup

lemma IsSequence.endsWith (h : IsSequence l s) : EndsWith l none s where
  seg := h.links
  next _ hp := by simp at hp
  first := h.first
  last := by rw [h.last, Option.or_none]
  nodup := h.nodup

lemma IsSequence.drop {pre : List α} (h : IsSequence l (pre ++ s)) : EndsWith l pre.getLast? s := by
  have hdrop := h.endsWith.drop
  rwa [Option.or_none] at hdrop

lemma IsSequence.replace {pre mid nexts prevs : List α} (h : IsSequence l (pre ++ mid))
    (hends : EndsWith l' pre.getLast? s) (hsame : SameBut pre.getLast? nexts prevs l l')
    (hnext : ∀ x ∈ pre, pre.getLast? ≠ some x → x ∉ nexts) (hprev : ∀ x ∈ pre, x ∉ prevs)
    (hnodup : (pre ++ s).Nodup) : IsSequence l' (pre ++ s) where
  links := by
    rw [Links.seg_append, Option.or_none, Option.or_none]
    refine ⟨?_, hends.seg⟩
    apply (Links.seg_append.mp h.links).1.congr_last (List.nodup_append.mp hnodup).1
    · exact fun x hx hlast => hsame.next x (hnext x hx hlast)
    · exact fun x hx => hsame.prev x (hprev x hx)
    · exact fun x hx => hends.next x hx
  first := by
    by_cases hnil : pre = []
    · subst hnil
      exact hends.first
    · rw [hsame.first (mt List.getLast?_eq_none_iff.mp hnil), h.first,
        List.head?_append_of_ne_nil _ hnil, List.head?_append_of_ne_nil _ hnil]
  last := by rw [hends.last, List.getLast?_append]
  nodup := hnodup

variable {pre rest : List α} {b : α}

lemma not_mem_getLast?_append {x : α} (h : x ∉ pre ++ rest) : x ∉ pre.getLast?.toList ++ rest := by
  intro hmem
  apply h
  rcases List.mem_append.mp hmem with hx | hx
  · exact List.mem_append_left _ (List.mem_of_getLast? (Option.mem_toList.mp hx))
  · exact List.mem_append_right _ hx

lemma IsSequence.first_ne (h : IsSequence l s) (hb : b ∉ s) : l.first ≠ some b := by
  rw [h.first]
  exact fun heq => hb (List.mem_of_head? heq)

lemma IsSequence.disjoint (h : IsSequence l (pre ++ rest)) {x : α} (hx : x ∈ pre) : x ∉ rest :=
  fun hmem => (List.nodup_append.mp h.nodup).2.2 x hx x hmem rfl

lemma IsSequence.of_nil (h : IsSequence l []) : l.first = none ∧ l.last = none := ⟨h.first, h.last⟩

lemma isSequence_nil (links : Links α) : IsSequence ⟨⟨none, none⟩, links⟩ [] :=
  ⟨trivial, rfl, rfl, List.nodup_nil⟩

lemma IsSequence.cend (h : IsSequence l s) : l.cend = none := h.endsWith.cend

end Sequence

/-! ### Operations on sequences -/

section Insertion

variable {α : Type} [DecidableEq α]

/-- The nodes `blk` in front of `p`. -/
def insertBefore (p : α) (blk : List α) : List α → List α
  | [] => []
  | a :: s => if a = p then blk ++ a :: s else a :: insertBefore p blk s

/-- The nodes `blk` behind `p`. -/
def insertBehind (p : α) (blk : List α) : List α → List α
  | [] => []
  | a :: s => if a = p then a :: (blk ++ s) else a :: insertBehind p blk s

variable {p : α} {pre post : List α}

lemma insertBefore_append (hp : p ∉ pre) (blk : List α) :
    insertBefore p blk (pre ++ p :: post) = pre ++ (blk ++ p :: post) := by
  induction pre with
  | nil => simp [insertBefore]
  | cons a pre ih =>
    rw [List.mem_cons, not_or] at hp
    simp [insertBefore, Ne.symm hp.1, ih hp.2]

lemma insertBehind_append (hp : p ∉ pre) (blk : List α) :
    insertBehind p blk (pre ++ p :: post) = pre ++ p :: (blk ++ post) := by
  induction pre with
  | nil => simp [insertBehind]
  | cons a pre ih =>
    rw [List.mem_cons, not_or] at hp
    simp [insertBehind, Ne.symm hp.1, ih hp.2]

lemma erase_append (hp : p ∉ pre) : (pre ++ p :: post).erase p = pre ++ post := by
  rw [List.erase_append_right _ hp, List.erase_cons_head]

end Insertion

/-! ### The operations keep the sequence -/

section Operations

variable {α : Type} [DecidableEq α] {l : PtrListRef α} {s : List α} {q : Option α} {a b : α}
  {rest pre post blk : List α}

lemma EndsWith.insertAfter (h : EndsWith l q (a :: rest)) (hb : b ∉ q.toList ++ a :: rest)
    (hfresh : l.first ≠ some b) :
    ∃ l', l.insertAfter (some a) b = some l' ∧ EndsWith l' q (a :: b :: rest) ∧
      SameBut q [a, b] (b :: rest) l l' := by
  have hnodup : (q.toList ++ a :: ([b] ++ rest)).Nodup := by
    have hperm : (q.toList ++ a :: ([b] ++ rest)).Perm (b :: (q.toList ++ a :: rest)) := by
      rw [List.singleton_append, ← List.singleton_append (x := a), ← List.append_assoc]
      exact List.perm_middle.trans (by simp)
    exact hperm.nodup_iff.mpr (List.nodup_cons.mpr ⟨hb, h.nodup⟩)
  have hba : b ≠ a := by
    rintro rfl
    simp at hb
  have hbrest : ∀ x ∈ rest, x ≠ b := by
    rintro x hx rfl
    simp [hx] at hb
  have harest : ∀ x ∈ rest, x ≠ a := by
    rintro x hx rfl
    exact (List.nodup_cons.mp (List.nodup_append.mp h.nodup).2.1).1 hx
  have hfresh' : ∀ x ∈ [b], l.first ≠ some x := by simpa using hfresh
  obtain ⟨-, hnext, hseg⟩ := h.seg
  rw [Option.or_none] at hnext
  cases rest with
  | nil =>
    have hlast : l.last = some a := by simpa using h.last
    let l' : PtrListRef α :=
      { first := l.first, last := some b
        links := ((l.links.setNext a (some b)).setPrev b (some a)).setNext b none }
    have hl' : l.insertAfter (some a) b = some l' := by
      rw [PtrListRef.insertAfter, if_pos hlast.symm, pushBack, hlast]
    have hsame : SameBut q [a, b] [b] l l' := by
      refine ⟨fun _ => rfl, ?_, ?_⟩
      · intro x hx
        simp only [List.mem_cons, List.not_mem_nil, or_false, not_or] at hx
        exact (Links.setNext_next_of_ne hx.2).trans (Links.setNext_next_of_ne hx.1)
      · intro x hx
        exact Links.setPrev_prev_of_ne (by simpa using hx)
    refine ⟨l', hl', ?_, hsame⟩
    apply h.of_insert (List.cons_ne_nil b []) hnodup hfresh' hsame rfl rfl
    · exact (Links.setNext_next_of_ne hba.symm).trans (Links.setNext_next_self _ _ _)
    · exact ⟨Links.setPrev_prev_self _ _ _, Links.setNext_next_self _ _ _, trivial⟩
    · trivial
  | cons y rest =>
    have hlast := h.last_ne (List.cons_ne_nil y rest)
    have hyb : y ≠ b := hbrest y (List.mem_cons_self ..)
    let l' : PtrListRef α :=
      { first := l.first, last := l.last
        links := (((l.links.setPrev b (some a)).setNext b (some y)).setPrev y (some b)).setNext a
          (some b) }
    have hl' : l.insertAfter (some a) b = some l' := by
      rw [PtrListRef.insertAfter, if_neg fun heq => hlast heq.symm, hnext]
      simp [l']
    have hnextOf : ∀ x, x ≠ a → x ≠ b → l'.links.next x = l.links.next x := fun x hx hx' =>
      (Links.setNext_next_of_ne hx).trans (Links.setNext_next_of_ne hx')
    have hprevOf : ∀ x, x ≠ y → x ≠ b → l'.links.prev x = l.links.prev x := fun x hx hx' =>
      (Links.setPrev_prev_of_ne hx).trans (Links.setPrev_prev_of_ne hx')
    have hsame : SameBut q [a, b] (b :: y :: rest) l l' := by
      refine ⟨fun _ => rfl, ?_, ?_⟩
      · intro x hx
        simp only [List.mem_cons, List.not_mem_nil, or_false, not_or] at hx
        exact hnextOf x hx.1 hx.2
      · intro x hx
        simp only [List.mem_cons, not_or] at hx
        exact hprevOf x hx.2.1 hx.1
    refine ⟨l', hl', ?_, hsame⟩
    apply h.of_insert (List.cons_ne_nil b []) hnodup hfresh' hsame rfl
    · change l.last = _
      rw [h.last, Links.getLast?_cons_or, List.getLast?_eq_some_getLast (List.cons_ne_nil y rest)]
      rfl
    · exact Links.setNext_next_self _ _ _
    · refine ⟨?_, ?_, trivial⟩
      · exact (Links.setPrev_prev_of_ne hyb.symm).trans (Links.setPrev_prev_self _ _ _)
      · exact (Links.setNext_next_of_ne hba).trans (Links.setNext_next_self _ _ _)
    · refine hseg.congr_head ?_ ?_ ?_
      · exact fun x hx => hnextOf x (harest x hx) (hbrest x hx)
      · intro x hx
        refine hprevOf x ?_ (hbrest x (List.mem_cons_of_mem _ hx))
        rintro rfl
        exact (List.nodup_cons.mp (List.nodup_cons.mp (List.nodup_append.mp h.nodup).2.1).2).1 hx
      · intro x hx
        obtain rfl : y = x := Option.some.inj hx
        exact Links.setPrev_prev_self _ _ _

lemma IsSequence.insert (h : IsSequence l (pre ++ a :: post)) (hb : b ∉ pre ++ a :: post) :
    ∃ l', l.insert a b = some l' ∧ IsSequence l' (pre ++ b :: a :: post) := by
  obtain ⟨l', hl', hends, hsame⟩ := h.drop.insert (not_mem_getLast?_append hb) (h.first_ne hb)
  refine ⟨l', hl', h.replace hends hsame ?_ ?_ ?_⟩
  · intro x hx hlast
    rw [List.mem_cons, Option.mem_toList, not_or]
    exact ⟨fun heq => hb (heq ▸ List.mem_append_left _ hx), hlast⟩
  · intro x hx
    have hxa : x ∉ a :: post := h.disjoint hx
    rw [List.mem_cons, not_or] at hxa
    rw [List.mem_cons, List.mem_singleton, not_or]
    exact ⟨hxa.1, fun heq => hb (heq ▸ List.mem_append_left _ hx)⟩
  · exact List.nodup_middle.mpr (List.nodup_cons.mpr ⟨hb, h.nodup⟩)

lemma IsSequence.insertAfter (h : IsSequence l (pre ++ a :: post)) (hb : b ∉ pre ++ a :: post) :
    ∃ l', l.insertAfter (some a) b = some l' ∧ IsSequence l' (pre ++ a :: b :: post) := by
  obtain ⟨l', hl', hends, hsame⟩ :=
    h.drop.insertAfter (not_mem_getLast?_append hb) (h.first_ne hb)
  have hne : ∀ x ∈ pre, x ≠ a ∧ x ≠ b ∧ x ∉ post := by
    intro x hx
    have hxa : x ∉ a :: post := h.disjoint hx
    rw [List.mem_cons, not_or] at hxa
    exact ⟨hxa.1, fun heq => hb (heq ▸ List.mem_append_left _ hx), hxa.2⟩
  refine ⟨l', hl', h.replace hends hsame ?_ ?_ ?_⟩
  · intro x hx _
    simp [hne x hx]
  · intro x hx
    simp [hne x hx]
  · have hperm : (pre ++ a :: b :: post).Perm (b :: (pre ++ a :: post)) := by
      rw [List.append_cons, List.append_cons pre a post]
      exact List.perm_middle
    exact hperm.nodup_iff.mpr (List.nodup_cons.mpr ⟨hb, h.nodup⟩)

lemma IsSequence.erase (h : IsSequence l (pre ++ a :: post)) :
    ∃ l', l.erase a = some l' ∧ IsSequence l' (pre ++ post) := by
  obtain ⟨l', hl', hends, hsame⟩ := h.drop.erase
  refine ⟨l', hl', h.replace hends hsame ?_ ?_ ?_⟩
  · intro x hx hlast
    rwa [Option.mem_toList]
  · exact fun x hx hmem => h.disjoint hx (List.mem_cons_of_mem a hmem)
  · exact (List.nodup_cons.mp (List.nodup_middle.mp h.nodup)).2

lemma IsSequence.splice (h : IsSequence l (pre ++ a :: post)) (hblk : l.links.Seg none blk none)
    (hne : blk ≠ []) (hnodup : blk.Nodup) (hdisj : ∀ x ∈ blk, x ∉ pre ++ a :: post) :
    ∃ l', l.splice a ⟨blk.head?, blk.getLast?⟩ = some l' ∧
      IsSequence l' (pre ++ a :: (blk ++ post)) := by
  have hperm : (pre ++ a :: (blk ++ post)).Perm (blk ++ (pre ++ a :: post)) := by
    rw [List.append_cons, List.append_cons pre a post, ← List.append_assoc, ← List.append_assoc]
    exact List.perm_append_comm.append_right post
  have hall : (pre ++ a :: (blk ++ post)).Nodup := by
    rw [hperm.nodup_iff, List.nodup_append]
    exact ⟨hnodup, h.nodup, fun x hx y hy heq => hdisj x hx (heq ▸ hy)⟩
  have hlocal : (pre.getLast?.toList ++ a :: (blk ++ post)).Nodup := by
    refine List.Nodup.sublist (List.Sublist.append_right ?_ _) hall
    cases hlast : pre.getLast? with
    | none => exact List.nil_sublist pre
    | some x => exact List.singleton_sublist.mpr (List.mem_of_getLast? hlast)
  obtain ⟨l', hl', hends, hsame⟩ :=
    h.drop.splice hblk hne hlocal (fun x hx => h.first_ne (hdisj x hx))
  have hout : ∀ x ∈ pre, x ≠ a ∧ x ∉ blk ∧ x ∉ post := by
    intro x hx
    have hxa : x ∉ a :: post := h.disjoint hx
    rw [List.mem_cons, not_or] at hxa
    exact ⟨hxa.1, fun hmem => hdisj x hmem (List.mem_append_left _ hx), hxa.2⟩
  refine ⟨l', hl', h.replace hends hsame ?_ ?_ hall⟩
  · intro x hx _
    simp [hout x hx]
  · intro x hx
    simp [hout x hx]

/-! ### The ends -/

lemma isSequence_singleton (links : Links α) (b : α) :
    IsSequence ⟨⟨some b, some b⟩, (links.setPrev b none).setNext b none⟩ [b] where
  links := ⟨Links.setPrev_prev_self _ _ _, Links.setNext_next_self _ _ _, trivial⟩
  first := rfl
  last := rfl
  nodup := List.nodup_singleton b

lemma IsSequence.pushFront (h : IsSequence l s) (hb : b ∉ s) :
    ∃ l', l.pushFront b = some l' ∧ IsSequence l' (b :: s) := by
  cases s with
  | nil =>
    refine ⟨_, ?_, isSequence_singleton l.links b⟩
    rw [PtrListRef.pushFront, if_pos h.of_nil.2]
  | cons a s =>
    have hfirst : l.first = some a := h.first
    have hfront : IsSequence l ([] ++ a :: s) := h
    obtain ⟨l', hl', hseq⟩ := hfront.insert hb
    rw [PtrListRef.insert, if_pos hfirst.symm] at hl'
    exact ⟨l', hl', hseq⟩

lemma IsSequence.pushBack (h : IsSequence l s) (hb : b ∉ s) :
    IsSequence (l.pushBack b) (s ++ [b]) := by
  rcases List.eq_nil_or_concat s with rfl | ⟨pre, a, rfl⟩
  · rw [PtrListRef.pushBack, h.of_nil.2]
    exact isSequence_singleton l.links b
  · rw [List.concat_eq_append] at h hb ⊢
    have hlast : l.last = some a := by rw [h.last, List.getLast?_concat]
    obtain ⟨l', hl', hseq⟩ := h.insertAfter hb
    rw [PtrListRef.insertAfter, if_pos hlast.symm, Option.some.injEq] at hl'
    rw [hl', List.append_assoc]
    exact hseq

lemma IsSequence.popBack (h : IsSequence l s) : IsSequence l.popBack s.dropLast := by
  rcases List.eq_nil_or_concat s with rfl | ⟨pre, a, rfl⟩
  · rw [PtrListRef.popBack, h.of_nil.2]
    exact h
  · rw [List.concat_eq_append] at h ⊢
    rw [List.dropLast_concat]
    have hlast : l.last = some a := by rw [h.last, List.getLast?_concat]
    obtain ⟨l', hl', hseq⟩ := h.erase
    rw [List.append_nil] at hseq
    by_cases hpre : pre = []
    · subst hpre
      rw [PtrListRef.popBack, hlast]
      simp only [h.links.1]
      exact isSequence_nil l.links
    · have hfirst : ¬some a = l.first := by
        rw [h.first, List.head?_append_of_ne_nil _ hpre]
        exact fun heq => h.disjoint (List.mem_of_head? heq.symm) (List.mem_singleton_self a)
      rw [PtrListRef.erase, if_neg fun heq => hfirst heq.1, if_neg hfirst, if_pos hlast.symm,
        Option.some.injEq] at hl'
      rw [hl']
      exact hseq

lemma IsSequence.popFront_iff (h : IsSequence l s) :
    IsSequence l.popFront s.tail ↔ s.length ≠ 1 := by
  rcases s with _ | ⟨a, _ | ⟨y, s⟩⟩
  · rw [PtrListRef.popFront, h.of_nil.1]
    exact iff_of_true h (by simp)
  · have hfirst : l.first = some a := h.first
    have hlast : l.last = some a := h.last
    have hnext : l.links.next a = none := h.links.2.1
    rw [PtrListRef.popFront, hfirst]
    simp only [hnext]
    apply iff_of_false
    · intro hseq
      have hstale : l.last = none := hseq.of_nil.2
      rw [hlast] at hstale
      exact Option.some_ne_none a hstale
    · simp
  · have hfirst : l.first = some a := h.first
    have hnext : l.links.next a = some y := h.links.2.1
    have hfront : IsSequence l ([] ++ a :: y :: s) := h
    obtain ⟨l', hl', hseq⟩ := hfront.erase
    have hlast : ¬some a = l.last := by
      rw [h.last, List.getLast?_cons_cons]
      exact fun heq => (List.nodup_cons.mp h.nodup).1 (List.mem_of_getLast? heq.symm)
    rw [PtrListRef.erase, if_neg fun heq => hlast heq.2, if_pos hfirst.symm, hnext,
      Option.bind_eq_bind, Option.bind_some, Option.some.injEq] at hl'
    rw [PtrListRef.popFront, hfirst]
    simp only [hnext]
    rw [hl']
    exact iff_of_true hseq (by simp)


end Operations

/-! ### All operations -/

/-- An operation with its arguments. The list to splice is given by its nodes. -/
inductive Operation (α : Type)
  | pushFront (val : α)
  | pushBack (val : α)
  | popFront
  | popBack
  | insert (pos : Option α) (val : α)
  | insertAfter (pos : Option α) (val : α)
  | erase (pos : α)
  | splice (pos : Option α) (other : List α)
  | clear

namespace Operation

variable {α : Type} [DecidableEq α]

/-- The function of the class. It has no result where it would use a null pointer. -/
def run (l : PtrListRef α) : Operation α → Option (PtrListRef α)
  | pushFront val => l.pushFront val
  | pushBack val => some (l.pushBack val)
  | popFront => some l.popFront
  | popBack => some l.popBack
  | insert pos val => l.insertAt pos val
  | insertAfter pos val => l.insertAfter pos val
  | erase pos => l.erase pos
  | splice pos other => l.spliceAt pos ⟨other.head?, other.getLast?⟩
  | clear => some l.clear

/-- The operation on sequences. -/
def apply (s : List α) : Operation α → List α
  | pushFront val => val :: s
  | pushBack val => s ++ [val]
  | popFront => s.tail
  | popBack => s.dropLast
  | insert none val => s ++ [val]
  | insert (some p) val => insertBefore p [val] s
  | insertAfter none val => val :: s
  | insertAfter (some p) val => insertBehind p [val] s
  | erase p => s.erase p
  | splice none other => s ++ other
  | splice (some p) other => insertBehind p other s
  | clear => []

/-- Positions lie in the list, an inserted node does not, and a list to splice is one of other
nodes. -/
def Valid (l : PtrListRef α) (s : List α) : Operation α → Prop
  | pushFront val => val ∉ s
  | pushBack val => val ∉ s
  | insert pos val => (∀ p, pos = some p → p ∈ s) ∧ val ∉ s
  | insertAfter pos val => (∀ p, pos = some p → p ∈ s) ∧ val ∉ s
  | erase p => p ∈ s
  | splice pos other =>
    (∀ p, pos = some p → p ∈ s) ∧ other ≠ [] ∧
      IsSequence ⟨⟨other.head?, other.getLast?⟩, l.links⟩ other ∧ ∀ x ∈ other, x ∉ s
  | _ => True

/-- `pop_front` is not applied to a list of exactly one node. -/
def Condition (s : List α) : Operation α → Prop
  | popFront => s.length ≠ 1
  | _ => True

end Operation

section Runs

variable {α : Type} [DecidableEq α] {l : PtrListRef α} {s : List α}

lemma IsSequence.insertAt {pos : Option α} {val : α} (h : IsSequence l s)
    (hpos : ∀ p, pos = some p → p ∈ s) (hval : val ∉ s) :
    ∃ l', l.insertAt pos val = some l' ∧ IsSequence l' ((Operation.insert pos val).apply s) := by
  cases pos with
  | none =>
    rw [PtrListRef.insertAt, Operation.apply]
    split_ifs with hfirst hend
    · rw [h.first, List.head?_eq_none_iff] at hfirst
      subst hfirst
      exact h.pushFront hval
    · exact ⟨_, rfl, h.pushBack hval⟩
    · exact absurd h.cend hend
  | some p =>
    obtain ⟨pre, post, rfl, hp⟩ := List.eq_append_cons_of_mem (hpos p rfl)
    rw [Operation.apply, insertBefore_append hp]
    exact h.insert hval

lemma IsSequence.insertAfterAt {pos : Option α} {val : α} (h : IsSequence l s)
    (hpos : ∀ p, pos = some p → p ∈ s) (hval : val ∉ s) :
    ∃ l', l.insertAfter pos val = some l' ∧
      IsSequence l' ((Operation.insertAfter pos val).apply s) := by
  cases pos with
  | none => exact h.pushFront hval
  | some p =>
    obtain ⟨pre, post, rfl, hp⟩ := List.eq_append_cons_of_mem (hpos p rfl)
    rw [Operation.apply, insertBehind_append hp]
    exact h.insertAfter hval

lemma IsSequence.spliceAt {pos : Option α} {other : List α} (h : IsSequence l s)
    (hpos : ∀ p, pos = some p → p ∈ s) (hne : other ≠ [])
    (hother : IsSequence ⟨⟨other.head?, other.getLast?⟩, l.links⟩ other)
    (hdisj : ∀ x ∈ other, x ∉ s) :
    ∃ l', l.spliceAt pos ⟨other.head?, other.getLast?⟩ = some l' ∧
      IsSequence l' ((Operation.splice pos other).apply s) := by
  cases pos with
  | none =>
    rw [PtrListRef.spliceAt, Operation.apply]
    rcases List.eq_nil_or_concat s with rfl | ⟨pre, a, rfl⟩
    · rw [if_pos h.of_nil.1]
      exact ⟨_, rfl, hother⟩
    · rw [List.concat_eq_append] at h hdisj ⊢
      -- the end stands for the last node
      obtain ⟨l', hl', hseq⟩ := h.splice hother.links hne hother.nodup hdisj
      have hfirst : l.first ≠ none := by
        rw [h.first]
        simp
      have hlast : l.last = some a := by rw [h.last, List.getLast?_concat]
      rw [PtrListRef.splice, if_neg hfirst, if_pos (Or.inr hlast.symm)] at hl'
      rw [if_neg hfirst, if_pos (Or.inl h.cend), hl']
      refine ⟨l', rfl, ?_⟩
      rw [List.append_assoc]
      rwa [List.append_nil] at hseq
  | some p =>
    obtain ⟨pre, post, rfl, hp⟩ := List.eq_append_cons_of_mem (hpos p rfl)
    rw [Operation.apply, insertBehind_append hp]
    exact h.splice hother.links hne hother.nodup hdisj

lemma IsSequence.run {op : Operation α} (h : IsSequence l s) (hop : op.Valid l s) :
    ∃ l', op.run l = some l' ∧ (IsSequence l' (op.apply s) ↔ op.Condition s) := by
  have hright : (∃ l', op.run l = some l' ∧ IsSequence l' (op.apply s)) → op.Condition s →
      ∃ l', op.run l = some l' ∧ (IsSequence l' (op.apply s) ↔ op.Condition s) := by
    rintro ⟨l', hl', hseq⟩ hcond
    exact ⟨l', hl', iff_of_true hseq hcond⟩
  cases op with
  | pushFront val => exact hright (h.pushFront hop) trivial
  | pushBack val => exact hright ⟨_, rfl, h.pushBack hop⟩ trivial
  | popFront => exact ⟨l.popFront, rfl, h.popFront_iff⟩
  | popBack => exact hright ⟨_, rfl, h.popBack⟩ trivial
  | insert pos val => exact hright (h.insertAt hop.1 hop.2) trivial
  | insertAfter pos val => exact hright (h.insertAfterAt hop.1 hop.2) trivial
  | erase p =>
    obtain ⟨pre, post, rfl, hp⟩ := List.eq_append_cons_of_mem hop
    apply hright _ trivial
    rw [Operation.apply, erase_append hp]
    exact h.erase
  | splice pos other => exact hright (h.spliceAt hop.1 hop.2.1 hop.2.2.1 hop.2.2.2) trivial
  | clear => exact hright ⟨_, rfl, isSequence_nil l.links⟩ trivial

/-- The states of a list in a run from the empty list, with the sequence that the operations on
sequences give. Between two operations the links of other nodes may change. -/
inductive Reaches (cond : List α → Operation α → Prop) : PtrListRef α → List α → Prop
  | empty (links : Links α) : Reaches cond ⟨⟨none, none⟩, links⟩ []
  | step {l l' : PtrListRef α} {s : List α} (op : Operation α) (h : Reaches cond l s)
      (hop : op.Valid l s) (hcond : cond s op) (hrun : op.run l = some l') :
      Reaches cond l' (op.apply s)
  | links {l : PtrListRef α} {s : List α} (links : Links α) (h : Reaches cond l s)
      (hnext : ∀ x ∈ s, links.next x = l.links.next x)
      (hprev : ∀ x ∈ s, links.prev x = l.links.prev x) : Reaches cond { l with links := links } s

lemma Reaches.isSequence (h : Reaches (fun s op => op.Condition s) l s) : IsSequence l s := by
  induction h with
  | empty links => exact isSequence_nil links
  | step op _ hop hcond hrun ih =>
    obtain ⟨l', hl', hiff⟩ := ih.run hop
    obtain rfl := Option.some.inj (hl'.symm.trans hrun)
    exact hiff.mpr hcond
  | links links _ hnext hprev ih => exact ⟨ih.links.congr hnext hprev, ih.first, ih.last, ih.nodup⟩

/-- In a run without a `pop_front` of the only node every state is the sequence of the operations,
and the next operation keeps this unless it is such a `pop_front`. -/
theorem reaches_isSequence (h : Reaches (fun s op => op.Condition s) l s) :
    IsSequence l s ∧ ∀ op : Operation α, op.Valid l s →
      ∃ l', op.run l = some l' ∧ (IsSequence l' (op.apply s) ↔ op.Condition s) :=
  ⟨h.isSequence, fun _ hop => h.isSequence.run hop⟩

/-- No nodes, and no links. -/
def noNodes : PtrListRef Nat := ⟨⟨none, none⟩, ⟨fun _ => none, fun _ => none⟩⟩

/-- Two nodes at the back. -/
theorem reaches_isSequence_pushBack : IsSequence ((noNodes.pushBack 0).pushBack 1) [0, 1] := by
  have hrun : Reaches (fun s op => op.Condition s) (noNodes.pushBack 0) [0] :=
    .step (.pushBack 0) (.empty _) (List.not_mem_nil) trivial rfl
  exact (reaches_isSequence (.step (.pushBack 1) hrun (by simp [Operation.Valid]) trivial rfl)).1

/-- After `push_front` and `pop_front` the last node is still there. -/
theorem not_reaches_isSequence : ¬∀ (l : PtrListRef Nat) (s : List Nat),
    Reaches (fun _ _ => True) l s → IsSequence l s := by
  intro h
  have hone : Reaches (fun _ _ => True) (noNodes.pushBack 0) [0] :=
    .step (.pushFront 0) (.empty _) (List.not_mem_nil) trivial rfl
  have hpop := h _ _ (.step .popFront hone trivial trivial rfl)
  exact Option.some_ne_none 0 hpop.of_nil.2

end Runs

end PtrListRef
end Maple
