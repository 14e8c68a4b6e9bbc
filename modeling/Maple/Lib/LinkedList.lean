import Mathlib.Data.List.Chain
import Mathlib.Logic.Function.Basic

/-!
# Doubly linked lists

The links of some nodes, and segments of nodes that are linked both ways.
-/

/-- The node behind a node and the one before it. -/
structure Links (α : Type*) where
  next : α → Option α
  prev : α → Option α

namespace Links

variable {α : Type*}

section Set

variable [DecidableEq α] (h : Links α) (a : α) (v : Option α)

def setNext : Links α := { h with next := Function.update h.next a v }

def setPrev : Links α := { h with prev := Function.update h.prev a v }

@[simp] lemma setNext_prev : (h.setNext a v).prev = h.prev := rfl

@[simp] lemma setPrev_next : (h.setPrev a v).next = h.next := rfl

@[simp] lemma setNext_next_self : (h.setNext a v).next a = v := Function.update_self _ _ _

@[simp] lemma setPrev_prev_self : (h.setPrev a v).prev a = v := Function.update_self _ _ _

variable {h a v} {b : α}

lemma setNext_next_of_ne (hne : b ≠ a) : (h.setNext a v).next b = h.next b :=
  Function.update_of_ne hne _ _

lemma setPrev_prev_of_ne (hne : b ≠ a) : (h.setPrev a v).prev b = h.prev b :=
  Function.update_of_ne hne _ _

end Set

/-- The nodes of the list stand behind each other, between `p` and `e`. -/
def Seg (h : Links α) : Option α → List α → Option α → Prop
  | _, [], _ => True
  | p, a :: l, e => h.prev a = p ∧ h.next a = l.head?.or e ∧ Seg h (some a) l e

variable {h h' : Links α} {p e : Option α} {a : α} {l l₁ l₂ : List α}

@[simp] lemma seg_nil : Seg h p [] e := trivial

@[simp] lemma seg_cons :
    Seg h p (a :: l) e ↔ h.prev a = p ∧ h.next a = l.head?.or e ∧ Seg h (some a) l e := Iff.rfl

lemma getLast?_cons_or (a : α) (l : List α) (p : Option α) :
    (a :: l).getLast?.or p = l.getLast?.or (some a) := by
  rw [List.getLast?_cons]
  cases l.getLast? <;> rfl

lemma seg_append : Seg h p (l₁ ++ l₂) e ↔
    Seg h p l₁ (l₂.head?.or e) ∧ Seg h (l₁.getLast?.or p) l₂ e := by
  induction l₁ generalizing p with
  | nil => simp
  | cons a l₁ ih =>
    rw [List.cons_append, seg_cons, seg_cons, ih, getLast?_cons_or, List.head?_append,
      Option.or_assoc, and_assoc, and_assoc]

lemma Seg.next_of_getLast? {x : α} (hs : Seg h p l e) (hx : l.getLast? = some x) : h.next x = e := by
  rcases List.eq_nil_or_concat l with rfl | ⟨l, a, rfl⟩
  · simp at hx
  rw [List.concat_eq_append] at hs hx
  rw [List.getLast?_concat, Option.some.injEq] at hx
  subst hx
  exact (seg_append.mp hs).2.2.1

lemma Seg.congr (hs : Seg h p l e) (hnext : ∀ x ∈ l, h'.next x = h.next x)
    (hprev : ∀ x ∈ l, h'.prev x = h.prev x) : Seg h' p l e := by
  induction l generalizing p with
  | nil => trivial
  | cons a l ih =>
    obtain ⟨ha, hn, hs⟩ := hs
    refine ⟨(hprev a (List.mem_cons_self ..)).trans ha, (hnext a (List.mem_cons_self ..)).trans hn,
      ih hs ?_ ?_⟩
    · exact fun x hx => hnext x (List.mem_cons_of_mem _ hx)
    · exact fun x hx => hprev x (List.mem_cons_of_mem _ hx)

lemma Seg.congr_head {q : Option α} (hs : Seg h p l e) (hnext : ∀ x ∈ l, h'.next x = h.next x)
    (hprev : ∀ x ∈ l.tail, h'.prev x = h.prev x) (hhead : ∀ x, l.head? = some x → h'.prev x = q) :
    Seg h' q l e := by
  cases l with
  | nil => trivial
  | cons a l =>
    obtain ⟨-, hn, hs⟩ := hs
    refine ⟨hhead a rfl, (hnext a (List.mem_cons_self ..)).trans hn, hs.congr ?_ hprev⟩
    exact fun x hx => hnext x (List.mem_cons_of_mem _ hx)

lemma Seg.congr_last {e' : Option α} (hs : Seg h p l e) (hnodup : l.Nodup)
    (hnext : ∀ x ∈ l, l.getLast? ≠ some x → h'.next x = h.next x)
    (hprev : ∀ x ∈ l, h'.prev x = h.prev x) (hlast : ∀ x, l.getLast? = some x → h'.next x = e') :
    Seg h' p l e' := by
  rcases List.eq_nil_or_concat l with rfl | ⟨l, a, rfl⟩
  · trivial
  rw [List.concat_eq_append] at *
  rw [seg_append] at hs ⊢
  have hne : ∀ x ∈ l, (l ++ [a]).getLast? ≠ some x := by
    rintro x hx hlast
    rw [List.getLast?_concat, Option.some.injEq] at hlast
    subst hlast
    exact (List.nodup_append.mp hnodup).2.2 _ hx _ (List.mem_singleton_self _) rfl
  refine ⟨?_, ?_, hlast a (by simp), trivial⟩
  · exact hs.1.congr (fun x hx => hnext x (List.mem_append_left _ hx) (hne x hx))
      fun x hx => hprev x (List.mem_append_left _ hx)
  · rw [hprev a (by simp)]
    exact hs.2.1

lemma Seg.congr_ends {q e' : Option α} (hs : Seg h p l e) (hnodup : l.Nodup)
    (hnext : ∀ x ∈ l, l.getLast? ≠ some x → h'.next x = h.next x)
    (hprev : ∀ x ∈ l, l.head? ≠ some x → h'.prev x = h.prev x)
    (hhead : ∀ x, l.head? = some x → h'.prev x = q)
    (hlast : ∀ x, l.getLast? = some x → h'.next x = e') : Seg h' q l e' := by
  have hforward : Seg ⟨h'.next, h.prev⟩ p l e' :=
    hs.congr_last hnodup hnext (fun _ _ => rfl) hlast
  refine hforward.congr_head (fun _ _ => rfl) ?_ hhead
  intro x hx
  refine hprev x (List.mem_of_mem_tail hx) ?_
  cases l with
  | nil => simp at hx
  | cons a l =>
    rintro heq
    obtain rfl := Option.some.inj heq
    exact (List.nodup_cons.mp hnodup).1 hx

lemma Seg.isPrefix {path : List α} (hs : Seg h p l none)
    (hpath : path.IsChain fun a b => h.next a = some b) (hhead : path.head? = l.head?) :
    path <+: l := by
  induction path generalizing p l with
  | nil => exact List.nil_prefix
  | cons a path ih =>
    cases l with
    | nil => simp at hhead
    | cons b l =>
      obtain rfl : a = b := by simpa using hhead
      obtain ⟨-, hn, hs⟩ := hs
      rw [List.prefix_cons_inj]
      cases path with
      | nil => exact List.nil_prefix
      | cons c path =>
        rw [List.isChain_cons_cons] at hpath
        rw [hpath.1, Option.or_none] at hn
        exact ih hs hpath.2 hn

end Links
