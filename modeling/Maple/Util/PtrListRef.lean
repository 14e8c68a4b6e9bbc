import Mathlib.Data.List.Nodup
import Maple.Lib.LinkedList

/-!
# Lists of nodes

`PtrListRef` (`ptr_list_ref.h`): a list by its first and its last node. The nodes keep the links. A
function has no result where it would read or write a null pointer.
-/

namespace Maple

variable {α : Type} [DecidableEq α]

/-- The nodes of a list, by its ends. -/
structure ListEnds (α : Type) where
  first : Option α
  last : Option α

/-- `PtrListRef`, with the links of all nodes. -/
structure PtrListRef (α : Type) extends ListEnds α where
  links : Links α

namespace PtrListRef

def cend (l : PtrListRef α) : Option α := l.last.bind l.links.next

def updateFront (l : PtrListRef α) (value : Option α) : PtrListRef α :=
  { first := value, last := l.last
    links := match value with
      | some v => l.links.setPrev v none
      | none => l.links }

def updateBack (l : PtrListRef α) (val : Option α) : PtrListRef α :=
  { first := l.first, last := val
    links := match val with
      | some v => l.links.setNext v none
      | none => l.links }

def pushFront (l : PtrListRef α) (val : α) : Option (PtrListRef α) :=
  if l.last = none then
    some { first := some val, last := some val, links := (l.links.setPrev val none).setNext val none }
  else do
    let first ← l.first
    some { first := some val, last := l.last
           links := ((l.links.setPrev first (some val)).setPrev val none).setNext val l.first }

def pushBack (l : PtrListRef α) (val : α) : PtrListRef α :=
  match l.last with
  | none =>
    { first := some val, last := some val, links := (l.links.setPrev val none).setNext val none }
  | some last =>
    { first := l.first, last := some val
      links := ((l.links.setNext last (some val)).setPrev val (some last)).setNext val none }

def popBack (l : PtrListRef α) : PtrListRef α :=
  match l.last with
  | none => l
  | some last =>
    match l.links.prev last with
    | none => { first := none, last := none, links := l.links }
    | some prev => { first := l.first, last := some prev, links := l.links.setNext prev none }

/-- `insert` in front of the node `ptr`. -/
def insert (l : PtrListRef α) (ptr value : α) : Option (PtrListRef α) :=
  if some ptr = l.first then l.pushFront value
  else if some ptr = l.cend then some (l.pushBack value)
  else do
    let links := (l.links.setPrev value (l.links.prev ptr)).setNext value (some ptr)
    let prev ← links.prev value
    some { l with links := (links.setNext prev (some value)).setPrev ptr (some value) }

/-- `splice` of another list behind the node `ptr`. -/
def splice (l : PtrListRef α) (ptr : α) (other : ListEnds α) : Option (PtrListRef α) :=
  if l.first = none then some { other with links := l.links }
  else if some ptr = l.cend ∨ some ptr = l.last then do
    let last ← l.last
    let front ← other.first
    some { first := l.first, last := other.last
           links := (l.links.setNext last (some front)).setPrev front (some last) }
  else do
    let front ← other.first
    let back ← other.last
    let links := (l.links.setPrev front (some ptr)).setNext back (l.links.next ptr)
    let next ← links.next ptr
    some { l with links := (links.setPrev next (some back)).setNext ptr (some front) }

def erase (l : PtrListRef α) (ptr : α) : Option (PtrListRef α) :=
  if some ptr = l.first ∧ some ptr = l.last then
    some { first := none, last := none, links := l.links }
  else if some ptr = l.first then do
    let next ← l.links.next ptr
    some { first := some next, last := l.last, links := l.links.setPrev next none }
  else if some ptr = l.last then some l.popBack
  else do
    let prev ← l.links.prev ptr
    let links := l.links.setNext prev (l.links.next ptr)
    match links.next ptr with
    | none => some { l with links := links }
    | some next => some { l with links := links.setPrev next (links.prev ptr) }

end PtrListRef

/-! ### A list from one of its nodes on -/

namespace PtrListRef

variable {α : Type} {l l' : PtrListRef α} {q : Option α} {a b : α} {rest : List α}

/-- The nodes `rest` stand at the end of the list, behind `q`, or are the whole list. -/
structure EndsWith (l : PtrListRef α) (q : Option α) (rest : List α) : Prop where
  seg : l.links.Seg q rest none
  next : ∀ p, q = some p → l.links.next p = rest.head?
  first : if q = none then l.first = rest.head? else l.first ≠ none ∧ ∀ x ∈ rest, l.first ≠ some x
  last : l.last = rest.getLast?.or q
  nodup : (q.toList ++ rest).Nodup

/-- Only these nodes may have other links, forwards and backwards, and the list begins as before
unless all of it changes. -/
structure SameBut (q : Option α) (nexts prevs : List α) (l l' : PtrListRef α) : Prop where
  first : q ≠ none → l'.first = l.first
  next : ∀ x, x ∉ nexts → l'.links.next x = l.links.next x
  prev : ∀ x, x ∉ prevs → l'.links.prev x = l.links.prev x

lemma EndsWith.ne_of_mem {p : α} (h : EndsWith l (some p) rest) (ha : a ∈ rest) : a ≠ p := by
  rintro rfl
  exact (List.nodup_cons.mp h.nodup).1 ha

lemma EndsWith.tail (h : EndsWith l q (a :: rest)) : EndsWith l (some a) rest where
  seg := h.seg.2.2
  next p hp := by
    obtain rfl := Option.some.inj hp
    rw [h.seg.2.1, Option.or_none]
  first := by
    have hfirst := h.first
    have hnodup := (List.nodup_append.mp h.nodup).2.1
    rw [if_neg (by simp)]
    split_ifs at hfirst with hq
    · rw [hfirst]
      refine ⟨by simp, ?_⟩
      intro x hx heq
      obtain rfl := Option.some.inj heq
      exact (List.nodup_cons.mp hnodup).1 hx
    · exact ⟨hfirst.1, fun x hx => hfirst.2 x (List.mem_cons_of_mem _ hx)⟩
  last := by rw [h.last, Links.getLast?_cons_or]
  nodup := (List.nodup_append.mp h.nodup).2.1

lemma EndsWith.drop {nodes : List α} (h : EndsWith l q (nodes ++ rest)) :
    EndsWith l (nodes.getLast?.or q) rest := by
  induction nodes generalizing q with
  | nil => exact h
  | cons a nodes ih =>
    rw [Links.getLast?_cons_or]
    exact ih h.tail

lemma EndsWith.cons (h : EndsWith l (some a) rest) (hprev : l.links.prev a = q)
    (hnext : ∀ p, q = some p → l.links.next p = some a)
    (hfirst : if q = none then l.first = some a else l.first ≠ some a)
    (hnodup : (q.toList ++ a :: rest).Nodup) : EndsWith l q (a :: rest) where
  seg := ⟨hprev, by rw [h.next a rfl, Option.or_none], h.seg⟩
  next := hnext
  first := by
    have hold := h.first
    rw [if_neg (by simp)] at hold
    split_ifs at hfirst ⊢ with hq
    · exact hfirst
    · refine ⟨hold.1, ?_⟩
      intro x hx
      rcases List.mem_cons.mp hx with rfl | hx
      · exact hfirst
      · exact hold.2 x hx
  last := by rw [h.last, Links.getLast?_cons_or]
  nodup := hnodup

lemma EndsWith.cend (h : EndsWith l q rest) : l.cend = none := by
  rw [PtrListRef.cend, h.last]
  rcases List.eq_nil_or_concat rest with rfl | ⟨rest, a, rfl⟩
  · cases q with
    | none => rfl
    | some p => exact h.next p rfl
  · have hseg := h.seg
    rw [List.concat_eq_append, Links.seg_append] at hseg
    rw [List.concat_eq_append, List.getLast?_concat]
    exact hseg.2.2.1

lemma EndsWith.last_ne (h : EndsWith l q (a :: rest)) (hrest : rest ≠ []) : l.last ≠ some a := by
  have hnodup := (List.nodup_append.mp h.nodup).2.1
  rw [h.last, Links.getLast?_cons_or, List.getLast?_eq_some_getLast hrest]
  intro heq
  obtain rfl : rest.getLast hrest = a := Option.some.inj heq
  exact (List.nodup_cons.mp hnodup).1 (List.getLast_mem hrest)

lemma EndsWith.of_insert {blk : List α} (h : EndsWith l q (a :: rest)) (hne : blk ≠ [])
    (hnodup : (q.toList ++ a :: (blk ++ rest)).Nodup) (hfresh : ∀ x ∈ blk, l.first ≠ some x)
    (hsame : SameBut q (a :: blk) (blk ++ rest) l l') (hfirst : l'.first = l.first)
    (hlast : l'.last = rest.getLast?.or blk.getLast?) (hnext : l'.links.next a = blk.head?)
    (hseg : l'.links.Seg (some a) blk rest.head?) (hrest : l'.links.Seg blk.getLast? rest none) :
    EndsWith l' q (a :: (blk ++ rest)) where
  seg := by
    have hablk : a ∉ blk ++ rest := (List.nodup_cons.mp (List.nodup_append.mp hnodup).2.1).1
    obtain ⟨back, hback⟩ := Option.ne_none_iff_exists'.mp (mt List.getLast?_eq_none_iff.mp hne)
    obtain ⟨front, hfront⟩ := Option.ne_none_iff_exists'.mp (mt List.head?_eq_none_iff.mp hne)
    refine ⟨(hsame.prev a hablk).trans h.seg.1, ?_, ?_⟩
    · rw [hnext, List.head?_append, hfront]
      rfl
    · rw [Links.seg_append, Option.or_none, hback, Option.some_or, ← hback]
      exact ⟨hseg, hrest⟩
  next p hp := by
    subst hp
    have hp : p ∉ a :: (blk ++ rest) := (List.nodup_cons.mp hnodup).1
    rw [List.mem_cons, List.mem_append, not_or, not_or] at hp
    rw [hsame.next p (by simp [hp]), h.next p rfl]
    rfl
  first := by
    have hold := h.first
    rw [hfirst]
    split_ifs at hold ⊢ with hq
    · exact hold
    · refine ⟨hold.1, ?_⟩
      intro x hx
      rcases List.mem_cons.mp hx with rfl | hx
      · exact hold.2 x (List.mem_cons_self ..)
      rcases List.mem_append.mp hx with hx | hx
      · exact hfresh x hx
      · exact hold.2 x (List.mem_cons_of_mem _ hx)
  last := by
    obtain ⟨back, hback⟩ := Option.ne_none_iff_exists'.mp (mt List.getLast?_eq_none_iff.mp hne)
    rw [hlast, Links.getLast?_cons_or, List.getLast?_append, Option.or_assoc, hback]
    rfl
  nodup := hnodup

section Operations

variable [DecidableEq α]

lemma EndsWith.insert (h : EndsWith l q (a :: rest)) (hb : b ∉ q.toList ++ a :: rest)
    (hfresh : l.first ≠ some b) :
    ∃ l', l.insert a b = some l' ∧ EndsWith l' q (b :: a :: rest) ∧
      SameBut q (b :: q.toList) [a, b] l l' := by
  have hba : b ≠ a := by
    rintro rfl
    simp at hb
  have hbrest : ∀ x ∈ rest, x ≠ b := by
    rintro x hx rfl
    simp [hx] at hb
  have hnodup := (List.nodup_append.mp h.nodup).2.1
  have harest : ∀ x ∈ rest, x ≠ a := by
    rintro x hx rfl
    exact (List.nodup_cons.mp hnodup).1 hx
  have hnew : (q.toList ++ b :: a :: rest).Nodup :=
    List.nodup_middle.mpr (List.nodup_cons.mpr ⟨hb, h.nodup⟩)
  obtain ⟨hprev, hnext, hseg⟩ := h.seg
  have hfirst := h.first
  rw [Option.or_none] at hnext
  cases q with
  | none =>
    have hfront : l.first = some a := hfirst
    have hlast : l.last ≠ none := by
      rw [h.last]
      simp
    let l' : PtrListRef α :=
      { first := some b, last := l.last
        links := ((l.links.setPrev a (some b)).setPrev b none).setNext b (some a) }
    have hl' : l.insert a b = some l' := by
      rw [PtrListRef.insert, if_pos hfront.symm, pushFront, if_neg hlast, hfront]
      rfl
    have hsame : SameBut none [b] [a, b] l l' := by
      refine ⟨fun hq => absurd rfl hq, ?_, ?_⟩
      · intro x hx
        exact Links.setNext_next_of_ne (by simpa using hx)
      · intro x hx
        simp only [List.mem_cons, List.not_mem_nil, or_false, not_or] at hx
        exact (Links.setPrev_prev_of_ne hx.2).trans (Links.setPrev_prev_of_ne hx.1)
    refine ⟨l', hl', ⟨⟨?_, ?_, ?_, ?_, ?_⟩, by simp, rfl, ?_, hnew⟩, hsame⟩
    · exact Links.setPrev_prev_self _ _ _
    · exact Links.setNext_next_self _ _ _
    · exact (Links.setPrev_prev_of_ne hba.symm).trans (Links.setPrev_prev_self _ _ _)
    · rw [hsame.next a (by simpa using hba.symm), hnext, Option.or_none]
    · refine hseg.congr (fun x hx => hsame.next x (by simpa using hbrest x hx)) ?_
      exact fun x hx => hsame.prev x (by simp [hbrest x hx, harest x hx])
    · change l.last = _
      rw [h.last, Option.or_none, Option.or_none, List.getLast?_cons_cons]
  | some p =>
    have hpa : a ≠ p := h.ne_of_mem (List.mem_cons_self ..)
    have hpb : b ≠ p := by
      rintro rfl
      simp at hb
    obtain ⟨hne, hfirst⟩ := hfirst
    have hfront : ¬ some a = l.first := fun heq => hfirst a (List.mem_cons_self ..) heq.symm
    let l' : PtrListRef α :=
      { first := l.first, last := l.last
        links := (((l.links.setPrev b (some p)).setNext b (some a)).setNext p (some b)).setPrev a
          (some b) }
    have hl' : l.insert a b = some l' := by
      rw [PtrListRef.insert, if_neg hfront, if_neg (by rw [h.cend]; simp), hprev]
      simp [l']
    have hsame : SameBut (some p) [b, p] [a, b] l l' := by
      refine ⟨fun _ => rfl, ?_, ?_⟩
      · intro x hx
        simp only [List.mem_cons, List.not_mem_nil, or_false, not_or] at hx
        exact (Links.setNext_next_of_ne hx.2).trans (Links.setNext_next_of_ne hx.1)
      · intro x hx
        simp only [List.mem_cons, List.not_mem_nil, or_false, not_or] at hx
        exact (Links.setPrev_prev_of_ne hx.1).trans (Links.setPrev_prev_of_ne hx.2)
    refine ⟨l', hl', ⟨⟨?_, ?_, ?_, ?_, ?_⟩, ?_, ?_, ?_, hnew⟩, hsame⟩
    · exact (Links.setPrev_prev_of_ne hba).trans (Links.setPrev_prev_self _ _ _)
    · exact (Links.setNext_next_of_ne hpb).trans (Links.setNext_next_self _ _ _)
    · exact Links.setPrev_prev_self _ _ _
    · rw [hsame.next a (by simp [hba.symm, hpa]), hnext, Option.or_none]
    · refine hseg.congr (fun x hx => hsame.next x ?_) ?_
      · simp [hbrest x hx, h.ne_of_mem (List.mem_cons_of_mem a hx)]
      · exact fun x hx => hsame.prev x (by simp [hbrest x hx, harest x hx])
    · intro p' hp'
      obtain rfl := Option.some.inj hp'
      exact Links.setNext_next_self _ _ _
    · rw [if_neg (by simp)]
      refine ⟨hne, ?_⟩
      intro x hx
      rcases List.mem_cons.mp hx with rfl | hx
      · exact hfresh
      · exact hfirst x hx
    · change l.last = _
      rw [h.last, Links.getLast?_cons_or, Links.getLast?_cons_or, Links.getLast?_cons_or]

lemma EndsWith.splice {blk : List α} (h : EndsWith l q (a :: rest)) (hblk : l.links.Seg none blk none)
    (hne : blk ≠ []) (hnodup : (q.toList ++ a :: (blk ++ rest)).Nodup)
    (hfresh : ∀ x ∈ blk, l.first ≠ some x) :
    ∃ l', l.splice a ⟨blk.head?, blk.getLast?⟩ = some l' ∧ EndsWith l' q (a :: (blk ++ rest)) ∧
      SameBut q (a :: blk) (blk ++ rest) l l' := by
  obtain ⟨-, hnext, hseg⟩ := h.seg
  rw [Option.or_none] at hnext
  have hnodup' := (List.nodup_append.mp hnodup).2.1
  rw [List.nodup_cons, List.mem_append, not_or] at hnodup'
  obtain ⟨⟨hablk, harest⟩, hnodup'⟩ := hnodup'
  obtain ⟨hblkNodup, hrestNodup, hdisj⟩ := List.nodup_append.mp hnodup'
  have hfirst : l.first ≠ none := by
    have hfirst := h.first
    split_ifs at hfirst with hq
    · rw [hfirst]
      simp
    · exact hfirst.1
  obtain ⟨front, hfront⟩ := Option.ne_none_iff_exists'.mp (mt List.head?_eq_none_iff.mp hne)
  obtain ⟨back, hback⟩ := Option.ne_none_iff_exists'.mp (mt List.getLast?_eq_none_iff.mp hne)
  have hfrontMem : front ∈ blk := List.mem_of_head? hfront
  have hbackMem : back ∈ blk := List.mem_of_getLast? hback
  cases rest with
  | nil =>
    have hlast : l.last = some a := by simpa using h.last
    let l' : PtrListRef α :=
      { first := l.first, last := some back
        links := (l.links.setNext a (some front)).setPrev front (some a) }
    have hl' : l.splice a ⟨blk.head?, blk.getLast?⟩ = some l' := by
      rw [PtrListRef.splice, if_neg hfirst, if_pos (Or.inr hlast.symm), hlast, hfront, hback]
      rfl
    have hnextOf : ∀ x, x ≠ a → l'.links.next x = l.links.next x := fun x hx =>
      Links.setNext_next_of_ne hx
    have hprevOf : ∀ x, x ≠ front → l'.links.prev x = l.links.prev x := fun x hx =>
      Links.setPrev_prev_of_ne hx
    have hsame : SameBut q (a :: blk) (blk ++ []) l l' := by
      refine ⟨fun _ => rfl, ?_, ?_⟩
      · intro x hx
        exact hnextOf x fun heq => hx (heq ▸ List.mem_cons_self ..)
      · intro x hx
        exact hprevOf x fun heq => hx (heq ▸ List.mem_append_left _ hfrontMem)
    refine ⟨l', hl', h.of_insert hne hnodup hfresh hsame rfl ?_ ?_ ?_ trivial, hsame⟩
    · simp [l', hback]
    · rw [hfront]
      exact Links.setNext_next_self _ _ _
    · refine hblk.congr_ends hblkNodup ?_ ?_ ?_ ?_
      · intro x hx hlast
        exact hnextOf x fun heq => hablk (heq ▸ hx)
      · intro x hx hhead
        exact hprevOf x fun heq => hhead (heq ▸ hfront)
      · intro x hx
        obtain rfl : front = x := Option.some.inj (hfront.symm.trans hx)
        exact Links.setPrev_prev_self _ _ _
      · intro x hx
        have hne : x ≠ a := fun heq => hablk (heq ▸ List.mem_of_getLast? hx)
        rw [hnextOf x hne]
        exact hblk.next_of_getLast? hx
  | cons y rest =>
    have hlast := h.last_ne (List.cons_ne_nil y rest)
    have hya : y ≠ a := by
      rintro rfl
      simp at harest
    have hba : back ≠ a := fun heq => hablk (heq ▸ hbackMem)
    have hyfront : front ≠ y := fun heq =>
      hdisj front hfrontMem y (List.mem_cons_self ..) heq
    let l' : PtrListRef α :=
      { first := l.first, last := l.last
        links := (((l.links.setPrev front (some a)).setNext back (some y)).setPrev y
          (some back)).setNext a (some front) }
    have hl' : l.splice a ⟨blk.head?, blk.getLast?⟩ = some l' := by
      have hcond : ¬ (some a = l.cend ∨ some a = l.last) := by
        rw [h.cend]
        rintro (heq | heq)
        · simp at heq
        · exact hlast heq.symm
      have hnexta : ((l.links.setPrev front (some a)).setNext back (some y)).next a = some y :=
        (Links.setNext_next_of_ne hba.symm).trans hnext
      rw [PtrListRef.splice, if_neg hfirst, if_neg hcond, hfront, hback, hnext]
      simp only [Option.bind_eq_bind, Option.bind_some, List.head?_cons, hnexta]
      rfl
    have hnextOf : ∀ x, x ≠ a → x ≠ back → l'.links.next x = l.links.next x := fun x hx hx' =>
      (Links.setNext_next_of_ne hx).trans (Links.setNext_next_of_ne hx')
    have hprevOf : ∀ x, x ≠ y → x ≠ front → l'.links.prev x = l.links.prev x := fun x hx hx' =>
      (Links.setPrev_prev_of_ne hx).trans (Links.setPrev_prev_of_ne hx')
    have hsame : SameBut q (a :: blk) (blk ++ y :: rest) l l' := by
      refine ⟨fun _ => rfl, ?_, ?_⟩
      · intro x hx
        rw [List.mem_cons, not_or] at hx
        exact hnextOf x hx.1 fun heq => hx.2 (heq ▸ hbackMem)
      · intro x hx
        rw [List.mem_append, not_or] at hx
        exact hprevOf x (fun heq => hx.2 (heq ▸ List.mem_cons_self ..))
          fun heq => hx.1 (heq ▸ hfrontMem)
    refine ⟨l', hl', h.of_insert hne hnodup hfresh hsame rfl ?_ ?_ ?_ ?_, hsame⟩
    · change l.last = _
      rw [h.last, Links.getLast?_cons_or, List.getLast?_eq_some_getLast (List.cons_ne_nil y rest)]
      rfl
    · rw [hfront]
      exact Links.setNext_next_self _ _ _
    · refine hblk.congr_ends hblkNodup ?_ ?_ ?_ ?_
      · intro x hx hlast
        exact hnextOf x (fun heq => hablk (heq ▸ hx)) fun heq => hlast (heq ▸ hback)
      · intro x hx hhead
        exact hprevOf x (fun heq => hdisj x hx y (List.mem_cons_self ..) heq)
          fun heq => hhead (heq ▸ hfront)
      · intro x hx
        obtain rfl : front = x := Option.some.inj (hfront.symm.trans hx)
        exact (Links.setPrev_prev_of_ne hyfront).trans (Links.setPrev_prev_self _ _ _)
      · intro x hx
        obtain rfl : back = x := Option.some.inj (hback.symm.trans hx)
        exact (Links.setNext_next_of_ne hba).trans (Links.setNext_next_self _ _ _)
    · refine hseg.congr_head ?_ ?_ ?_
      · intro x hx
        exact hnextOf x (fun heq => harest (heq ▸ hx)) fun heq => hdisj back hbackMem x hx heq.symm
      · intro x hx
        have hmem : x ∈ y :: rest := List.mem_cons_of_mem _ hx
        refine hprevOf x ?_ fun heq => hdisj front hfrontMem x hmem heq.symm
        rintro rfl
        exact (List.nodup_cons.mp hrestNodup).1 hx
      · intro x hx
        obtain rfl : y = x := Option.some.inj hx
        rw [hback]
        exact Links.setPrev_prev_self _ _ _

lemma EndsWith.erase (h : EndsWith l q (a :: rest)) :
    ∃ l', l.erase a = some l' ∧ EndsWith l' q rest ∧ SameBut q q.toList rest l l' := by
  obtain ⟨hprev, hnext, hseg⟩ := h.seg
  rw [Option.or_none] at hnext
  have hnodup : (q.toList ++ rest).Nodup := (List.nodup_cons.mp (List.nodup_middle.mp h.nodup)).2
  have hrestNodup := (List.nodup_append.mp h.nodup).2.1
  have hold := h.first
  cases q with
  | none =>
    have hfirst : l.first = some a := hold
    cases rest with
    | nil =>
      have hlast : l.last = some a := by simpa using h.last
      refine ⟨{ first := none, last := none, links := l.links }, ?_, ⟨trivial, ?_, rfl, rfl, hnodup⟩,
        fun hq => absurd rfl hq, fun _ _ => rfl, fun _ _ => rfl⟩
      · rw [PtrListRef.erase, if_pos ⟨hfirst.symm, hlast.symm⟩]
      · simp
    | cons y rest =>
      have hlast := h.last_ne (List.cons_ne_nil y rest)
      let l' : PtrListRef α := { first := some y, last := l.last, links := l.links.setPrev y none }
      have hl' : l.erase a = some l' := by
        rw [PtrListRef.erase, if_neg fun heq => hlast heq.2.symm, if_pos hfirst.symm, hnext]
        rfl
      have hprevOf : ∀ x, x ≠ y → l'.links.prev x = l.links.prev x := fun x hx =>
        Links.setPrev_prev_of_ne hx
      refine ⟨l', hl', ⟨?_, by simp, rfl, ?_, hnodup⟩, fun hq => absurd rfl hq, fun _ _ => rfl, ?_⟩
      · refine hseg.congr_head (fun _ _ => rfl) ?_ ?_
        · intro x hx
          apply hprevOf
          rintro rfl
          exact (List.nodup_cons.mp (List.nodup_cons.mp hrestNodup).2).1 hx
        · intro x hx
          obtain rfl : y = x := Option.some.inj hx
          exact Links.setPrev_prev_self _ _ _
      · change l.last = _
        rw [h.last, List.getLast?_cons_cons]
      · intro x hx
        exact hprevOf x fun heq => hx (heq ▸ List.mem_cons_self ..)
  | some p =>
    have hpa : a ≠ p := h.ne_of_mem (List.mem_cons_self ..)
    obtain ⟨hne, hfirst⟩ := hold
    have hfront : ¬ some a = l.first := fun heq => hfirst a (List.mem_cons_self ..) heq.symm
    cases rest with
    | nil =>
      have hlast : l.last = some a := by simpa using h.last
      let l' : PtrListRef α := { first := l.first, last := some p, links := l.links.setNext p none }
      have hl' : l.erase a = some l' := by
        rw [PtrListRef.erase, if_neg fun heq => hfront heq.1, if_neg hfront, if_pos hlast.symm,
          popBack, hlast]
        simp only [hprev]
        rfl
      refine ⟨l', hl', ⟨trivial, ?_, ?_, rfl, hnodup⟩, fun _ => rfl, ?_, fun _ _ => rfl⟩
      · intro p' hp'
        obtain rfl := Option.some.inj hp'
        exact Links.setNext_next_self _ _ _
      · rw [if_neg (by simp)]
        exact ⟨hne, by simp⟩
      · intro x hx
        exact Links.setNext_next_of_ne (by simpa using hx)
    | cons y rest =>
      have hlast := h.last_ne (List.cons_ne_nil y rest)
      let l' : PtrListRef α :=
        { first := l.first, last := l.last
          links := (l.links.setNext p (some y)).setPrev y (some p) }
      have hl' : l.erase a = some l' := by
        have hnexta : (l.links.setNext p (some y)).next a = some y :=
          (Links.setNext_next_of_ne hpa).trans hnext
        rw [PtrListRef.erase, if_neg fun heq => hfront heq.1, if_neg hfront,
          if_neg fun heq => hlast heq.symm, hprev, hnext]
        simp only [Option.bind_eq_bind, Option.bind_some, List.head?_cons, hnexta,
          Links.setNext_prev, hprev]
        rfl
      have hprevOf : ∀ x, x ≠ y → l'.links.prev x = l.links.prev x := fun x hx =>
        Links.setPrev_prev_of_ne hx
      have hnextOf : ∀ x, x ≠ p → l'.links.next x = l.links.next x := fun x hx =>
        Links.setNext_next_of_ne hx
      refine ⟨l', hl', ⟨?_, ?_, ?_, ?_, hnodup⟩, fun _ => rfl, ?_, ?_⟩
      · refine hseg.congr_head ?_ ?_ ?_
        · exact fun x hx => hnextOf x (h.ne_of_mem (List.mem_cons_of_mem a hx))
        · intro x hx
          apply hprevOf
          rintro rfl
          exact (List.nodup_cons.mp (List.nodup_cons.mp hrestNodup).2).1 hx
        · intro x hx
          obtain rfl : y = x := Option.some.inj hx
          exact Links.setPrev_prev_self _ _ _
      · intro p' hp'
        obtain rfl := Option.some.inj hp'
        exact Links.setNext_next_self _ _ _
      · rw [if_neg (by simp)]
        exact ⟨hne, fun x hx => hfirst x (List.mem_cons_of_mem a hx)⟩
      · change l.last = _
        rw [h.last, List.getLast?_cons_cons]
      · intro x hx
        exact hnextOf x (by simpa using hx)
      · intro x hx
        exact hprevOf x fun heq => hx (heq ▸ List.mem_cons_self ..)

end Operations

end PtrListRef
end Maple
