import Mathlib.Data.List.Flatten
import Maple.Lib.While
import Maple.Util.PtrListRef

/-!
# Simplification of the statements of a block

`ConstantFold::SimplifyBlock` (`constantfold.cpp`). The loop goes from statement to statement and
keeps the last one that it has not deleted; after a replacement this is the statement that is no
longer in the list.
-/

namespace Maple

open Outcome (Settles)

variable {α : Type} [DecidableEq α]

def replaceStmtWithBlock (l : PtrListRef α) (stmtNode : α) (blk : ListEnds α) :
    Option (PtrListRef α) := do
  let l ← l.splice stmtNode blk
  let l ← l.erase stmtNode
  let last ← blk.last
  return { l with links := l.links.setNext stmtNode (l.links.next last) }

/-- `BlockNode::ReplaceStmt1WithStmt2` of two statements. -/
def replaceStmt1WithStmt2 (l : PtrListRef α) (stmtNode1 stmtNode2 : α) : Option (PtrListRef α) :=
  if stmtNode2 = stmtNode1 then some l
  else do
    let l ← l.insert stmtNode1 stmtNode2
    l.erase stmtNode1

namespace ConstantFold

/-- What `Simplify` returns: a null pointer, a block or another statement. -/
inductive ReturnValue (α : Type) where
  | null
  | block (blk : ListEnds α)
  | stmt (s : α)

/-- The variables of `SimplifyBlock`. -/
structure BlockState (α : Type) where
  node : PtrListRef α
  s : Option α
  prevStmt : Option α

/-- The deletion of `s` from the block. -/
def deleteStmt (node : PtrListRef α) (s : α) (prevStmt : Option α) : Option (PtrListRef α) := do
  let nextStmt := node.links.next s
  let node ←
    if some s = node.first then
      let node := node.updateFront nextStmt
      some (match nextStmt with
        | some n => { node with links := node.links.setPrev n none }
        | none => node)
    else do
      let prev ← prevStmt
      let node := { node with links := node.links.setNext prev nextStmt }
      some (match nextStmt with
        | some n => { node with links := node.links.setPrev n (some prev) }
        | none => node)
  return if some s = node.last then node.updateBack prevStmt else node

/-- One round of the loop. -/
def simplifyStep (simplify : α → ReturnValue α) (st : BlockState α) : Option (BlockState α) := do
  let s ← st.s
  match simplify s with
  | .block blk => do
    let node ← replaceStmtWithBlock st.node s blk
    return ⟨node, node.links.next s, some s⟩
  | .stmt returnValue => do
    let node ← replaceStmt1WithStmt2 st.node s returnValue
    return ⟨node, node.links.next s, some s⟩
  | .null => do
    let node ← deleteStmt st.node s st.prevStmt
    return ⟨node, st.node.links.next s, st.prevStmt⟩

def simplifyBlock (simplify : α → ReturnValue α) (node : PtrListRef α) (fuel : Nat) :
    Outcome (PtrListRef α) :=
  (whileLoop (fun st => st.s.isSome) (simplifyStep simplify) fuel ⟨node, node.first, none⟩).bind
    fun st => .done st.node

end ConstantFold

/-! ### What becomes of the statements -/

/-- What `Simplify` does with a statement. -/
inductive Change (α : Type) where
  | unchanged
  | stmt (s : α)
  | block (stmts : List α)
  | deleted

namespace Change

variable {α : Type}

/-- What `Simplify` returns for the statement. -/
def returnValue (s : α) : Change α → ConstantFold.ReturnValue α
  | unchanged => .stmt s
  | stmt r => .stmt r
  | block stmts => .block ⟨stmts.head?, stmts.getLast?⟩
  | deleted => .null

/-- The statements that come in. -/
def added : Change α → List α
  | stmt r => [r]
  | block stmts => stmts
  | _ => []

/-- The statements in the place of the statement. -/
def result (s : α) : Change α → List α
  | unchanged => [s]
  | stmt r => [r]
  | block stmts => stmts
  | deleted => []

def replaces : Change α → Bool
  | stmt _ => true
  | block _ => true
  | _ => false

end Change

namespace PtrListRef

variable {α : Type}

/-- The nodes are the list: by the next links from the first one on, and back by the previous
links. -/
structure Linked (l : PtrListRef α) (stmts : List α) : Prop where
  first : l.first = stmts.head?
  last : l.last = stmts.getLast?
  seg : l.links.Seg none stmts none

end PtrListRef

namespace ConstantFold

section Statements

variable {α : Type}

/-- A statement and what comes in for it. -/
def withAdded (change : α → Change α) (stmts : List α) : List α :=
  stmts.flatMap fun s => s :: (change s).added

/-- The statements of the block, and the blocks for some of them, are lists of their own. -/
structure WellFormed (change : α → Change α) (node : PtrListRef α) (stmts : List α) : Prop where
  linked : node.Linked stmts
  nodup : (withAdded change stmts).Nodup
  blocks : ∀ s ∈ stmts, ∀ blk, change s = .block blk → node.links.Seg none blk none

/-- No statement is replaced by a block without statements, and none is deleted right behind one
that is replaced. -/
def NeverStale (change : α → Change α) (stmts : List α) : Prop :=
  (∀ s ∈ stmts, change s ≠ .block []) ∧
    stmts.IsChain fun s s' => (change s).replaces → change s' ≠ .deleted

end Statements

/-- After `SimplifyBlock` the list has the statements with all replacements and deletions. -/
def KeepsList (change : α → Change α) (node : PtrListRef α) (stmts : List α) : Prop :=
  ∃ node', Settles (simplifyBlock (fun s => (change s).returnValue s) node) (.done node') ∧
    node'.Linked (stmts.flatMap fun s => (change s).result s)

/-! ### The steps -/

section Steps

open PtrListRef

variable {l : PtrListRef α} {q : Option α} {s r p : α} {rest : List α}

lemma replaceStmt1WithStmt2_eq (h : EndsWith l q (s :: rest))
    (hnodup : (q.toList ++ s :: r :: rest).Nodup) (hfresh : l.first ≠ some r) :
    ∃ l', replaceStmt1WithStmt2 l s r = some l' ∧ EndsWith l' q (r :: rest) ∧
      l'.links.next s = rest.head? ∧ SameBut q (s :: r :: q.toList) (s :: r :: rest) l l' := by
  have hdel : (q.toList ++ r :: rest).Nodup := (List.nodup_cons.mp (List.nodup_middle.mp hnodup)).2
  have hsnot : s ∉ q.toList ++ r :: rest := (List.nodup_cons.mp (List.nodup_middle.mp hnodup)).1
  have hrnot : r ∉ q.toList ++ s :: rest := by
    have hcomm : (q.toList ++ r :: s :: rest).Nodup :=
      (List.Perm.nodup_iff (List.Perm.append_left _ (List.Perm.swap r s rest))).mp hnodup
    exact (List.nodup_cons.mp (List.nodup_middle.mp hcomm)).1
  rw [List.mem_append, List.mem_cons, not_or, not_or] at hsnot hrnot
  obtain ⟨l₁, hinsert, hends, hsame⟩ := h.insert (b := r) (by simpa using hrnot) hfresh
  obtain ⟨l₂, herase, hends₂, hsame₂⟩ := hends.tail.erase
  have hrest : r ∉ rest := hrnot.2.2
  have hprev : l₂.links.prev r = q := (hsame₂.prev r hrest).trans hends.seg.1
  have hfirst : l₂.first = l₁.first := hsame₂.first (by simp)
  refine ⟨l₂, ?_, hends₂.cons hprev ?_ ?_ hdel, ?_, ?_, ?_, ?_⟩
  · rw [replaceStmt1WithStmt2, if_neg hrnot.2.1, hinsert]
    exact herase
  · rintro p rfl
    have hpr : p ∉ [r] := fun hmem => hrnot.1 (by simpa using (List.mem_singleton.mp hmem).symm)
    exact (hsame₂.next p hpr).trans (hends.next p rfl)
  · rw [hfirst]
    split_ifs with hq
    · have := hends.first
      rwa [if_pos hq] at this
    · rw [hsame.first hq]
      exact hfresh
  · have hsr : s ≠ r := hsnot.2.1
    have hskip : s ∉ r :: q.toList := by
      rw [List.mem_cons, not_or]
      exact ⟨hsr, hsnot.1⟩
    rw [hsame₂.next s (by simpa using hsr), hsame.next s hskip, h.seg.2.1, Option.or_none]
  · intro hq
    rw [hfirst, hsame.first hq]
  · intro x hx
    rw [List.mem_cons, not_or] at hx
    have hxr : x ≠ r := fun heq => hx.2 (heq ▸ List.mem_cons_self ..)
    rw [hsame₂.next x (by simpa using hxr), hsame.next x hx.2]
  · intro x hx
    simp only [List.mem_cons, not_or] at hx
    rw [hsame₂.prev x hx.2.2, hsame.prev x (by simpa using ⟨hx.1, hx.2.1⟩)]

lemma replaceStmtWithBlock_eq {blk : List α} (h : EndsWith l q (s :: rest)) (hne : blk ≠ [])
    (hblk : l.links.Seg none blk none) (hnodup : (q.toList ++ s :: (blk ++ rest)).Nodup)
    (hfresh : ∀ x ∈ blk, l.first ≠ some x) :
    ∃ l', replaceStmtWithBlock l s ⟨blk.head?, blk.getLast?⟩ = some l' ∧
      EndsWith l' q (blk ++ rest) ∧ l'.links.next s = rest.head? ∧
      SameBut q (s :: (blk ++ q.toList)) (s :: (blk ++ rest)) l l' := by
  have hsnot : s ∉ q.toList ++ (blk ++ rest) :=
    (List.nodup_cons.mp (List.nodup_middle.mp hnodup)).1
  rw [List.mem_append, List.mem_append, not_or, not_or] at hsnot
  obtain ⟨l₁, hsplice, hends, hsame⟩ := h.splice hblk hne hnodup hfresh
  obtain ⟨l₂, herase, hends₂, hsame₂⟩ := hends.erase
  obtain ⟨back, hback⟩ := Option.ne_none_iff_exists'.mp (mt List.getLast?_eq_none_iff.mp hne)
  have hnext : l₂.links.next back = rest.head? := by
    have hseg := (Links.seg_append.mp hends₂.seg).1
    rw [Option.or_none] at hseg
    exact hseg.next_of_getLast? hback
  have hnextOf : ∀ x, x ≠ s → (l₂.links.setNext s (l₂.links.next back)).next x = l₂.links.next x :=
    fun x hx => Links.setNext_next_of_ne hx
  refine ⟨{ l₂ with links := l₂.links.setNext s (l₂.links.next back) }, ?_, ⟨?_, ?_, hends₂.first,
    hends₂.last, hends₂.nodup⟩, ?_, ?_, ?_, ?_⟩
  · rw [replaceStmtWithBlock, hsplice]
    simp only [Option.bind_eq_bind, Option.bind_some, herase, hback]
    rfl
  · refine hends₂.seg.congr ?_ fun _ _ => rfl
    intro x hx
    apply hnextOf
    rintro rfl
    exact (List.mem_append.mp hx).elim hsnot.2.1 hsnot.2.2
  · rintro p rfl
    have hps : p ≠ s := fun heq => hsnot.1 (heq ▸ by simp)
    exact (hnextOf p hps).trans (hends₂.next p rfl)
  · exact (Links.setNext_next_self _ _ _).trans hnext
  · intro hq
    exact (hsame₂.first hq).trans (hsame.first hq)
  · intro x hx
    simp only [List.mem_cons, List.mem_append, not_or] at hx
    rw [hnextOf x hx.1, hsame₂.next x hx.2.2, hsame.next x (by simpa using ⟨hx.1, hx.2.1⟩)]
  · intro x hx
    simp only [List.mem_cons, List.mem_append, not_or] at hx
    change l₂.links.prev x = _
    rw [hsame₂.prev x (by simpa using hx.2), hsame.prev x (by simpa using hx.2)]

lemma deleteStmt_first (h : EndsWith l none (s :: rest)) :
    ∃ l', deleteStmt l s none = some l' ∧ EndsWith l' none rest ∧ SameBut none [] rest l l' := by
  obtain ⟨-, hnext, hseg⟩ := h.seg
  rw [Option.or_none] at hnext
  have hfirst : l.first = some s := h.first
  have hnodup := h.nodup
  rw [Option.toList_none, List.nil_append, List.nodup_cons] at hnodup
  cases rest with
  | nil =>
    have hlast : l.last = some s := by simpa using h.last
    refine ⟨{ first := none, last := none, links := l.links }, ?_,
      ⟨trivial, by simp, rfl, rfl, List.nodup_nil⟩, fun hq => absurd rfl hq, fun _ _ => rfl,
      fun _ _ => rfl⟩
    rw [deleteStmt, if_pos hfirst.symm, hnext]
    simp [updateFront, updateBack, hlast]
  | cons y rest =>
    have hlast : ¬ some s = l.last := fun heq => h.last_ne (List.cons_ne_nil y rest) heq.symm
    let l' : PtrListRef α :=
      { first := some y, last := l.last, links := (l.links.setPrev y none).setPrev y none }
    have hprevOf : ∀ x, x ≠ y → l'.links.prev x = l.links.prev x := fun x hx =>
      (Links.setPrev_prev_of_ne hx).trans (Links.setPrev_prev_of_ne hx)
    refine ⟨l', ?_, ⟨?_, by simp, rfl, ?_, hnodup.2⟩, fun hq => absurd rfl hq, fun _ _ => rfl, ?_⟩
    · rw [deleteStmt, if_pos hfirst.symm, hnext]
      simp only [List.head?_cons, updateFront, Option.bind_eq_bind, Option.bind_some, if_neg hlast]
      rfl
    · refine hseg.congr_head (fun _ _ => rfl) ?_ ?_
      · intro x hx
        apply hprevOf
        rintro rfl
        exact (List.nodup_cons.mp hnodup.2).1 hx
      · intro x hx
        obtain rfl : y = x := Option.some.inj hx
        exact Links.setPrev_prev_self _ _ _
    · change l.last = _
      rw [h.last, List.getLast?_cons_cons]
    · intro x hx
      exact hprevOf x fun heq => hx (heq ▸ List.mem_cons_self ..)

lemma deleteStmt_behind {p' : α} (h : EndsWith l (some p') (s :: rest)) (hrest : p ∉ rest) :
    ∃ l', deleteStmt l s (some p) = some l' ∧ EndsWith l' (some p) rest ∧
      SameBut (some p) [p] rest l l' := by
  obtain ⟨-, hnext, hseg⟩ := h.seg
  rw [Option.or_none] at hnext
  obtain ⟨hne, hfirst⟩ := h.first
  have hfront : ¬ some s = l.first := fun heq => hfirst s (List.mem_cons_self ..) heq.symm
  have hnodup : (s :: rest).Nodup := (List.nodup_cons.mp h.nodup).2
  have hnew : (p :: rest).Nodup := List.nodup_cons.mpr ⟨hrest, (List.nodup_cons.mp hnodup).2⟩
  have hkept : l.first ≠ none ∧ ∀ x ∈ rest, l.first ≠ some x :=
    ⟨hne, fun x hx => hfirst x (List.mem_cons_of_mem s hx)⟩
  cases rest with
  | nil =>
    have hlast : l.last = some s := by simpa using h.last
    let l' : PtrListRef α :=
      { first := l.first, last := some p, links := (l.links.setNext p none).setNext p none }
    refine ⟨l', ?_, ⟨trivial, ?_, hkept, rfl, hnew⟩, fun _ => rfl, ?_, fun _ _ => rfl⟩
    · rw [deleteStmt, if_neg hfront, hnext]
      simp [updateBack, hlast, l']
    · rintro _ ⟨rfl⟩
      exact Links.setNext_next_self _ _ _
    · intro x hx
      have hxp : x ≠ p := by simpa using hx
      exact (Links.setNext_next_of_ne hxp).trans (Links.setNext_next_of_ne hxp)
  | cons y rest =>
    have hlast : ¬ some s = l.last := fun heq => h.last_ne (List.cons_ne_nil y rest) heq.symm
    let l' : PtrListRef α :=
      { first := l.first, last := l.last, links := (l.links.setNext p (some y)).setPrev y (some p) }
    have hprevOf : ∀ x, x ≠ y → l'.links.prev x = l.links.prev x := fun x hx =>
      Links.setPrev_prev_of_ne hx
    have hnextOf : ∀ x, x ≠ p → l'.links.next x = l.links.next x := fun x hx =>
      Links.setNext_next_of_ne hx
    refine ⟨l', ?_, ⟨?_, ?_, hkept, ?_, hnew⟩, fun _ => rfl, ?_, ?_⟩
    · rw [deleteStmt, if_neg hfront, hnext]
      simp only [List.head?_cons, Option.bind_eq_bind, Option.bind_some, if_neg hlast]
      rfl
    · refine hseg.congr_head ?_ ?_ ?_
      · exact fun x hx => hnextOf x fun heq => hrest (heq ▸ hx)
      · intro x hx
        apply hprevOf
        rintro rfl
        exact (List.nodup_cons.mp (List.nodup_cons.mp hnodup).2).1 hx
      · intro x hx
        obtain rfl : y = x := Option.some.inj hx
        exact Links.setPrev_prev_self _ _ _
    · rintro _ ⟨rfl⟩
      exact Links.setNext_next_self _ _ _
    · change l.last = _
      rw [h.last, List.getLast?_cons_cons]
      rfl
    · intro x hx
      exact hnextOf x (by simpa using hx)
    · intro x hx
      exact hprevOf x fun heq => hx (heq ▸ List.mem_cons_self ..)

variable {change : α → Change α}

lemma simplifyStep_kept (prevStmt : Option α) (h : EndsWith l q (s :: rest))
    (hempty : change s ≠ .block []) (hdel : change s ≠ .deleted)
    (hblk : ∀ blk, change s = .block blk → l.links.Seg none blk none)
    (hnodup : (q.toList ++ s :: ((change s).added ++ rest)).Nodup)
    (hfresh : ∀ x ∈ (change s).added, l.first ≠ some x) :
    ∃ l', simplifyStep (fun s => (change s).returnValue s) ⟨l, some s, prevStmt⟩ =
        some ⟨l', rest.head?, some s⟩ ∧ EndsWith l' q ((change s).result s ++ rest) ∧
      SameBut q (s :: ((change s).added ++ q.toList)) (s :: ((change s).added ++ rest)) l l' := by
  cases hchange : change s with
  | unchanged =>
    refine ⟨l, ?_, h, fun _ => rfl, fun _ _ => rfl, fun _ _ => rfl⟩
    have hnext := h.seg.2.1
    rw [Option.or_none] at hnext
    simp [simplifyStep, hchange, Change.returnValue, replaceStmt1WithStmt2, hnext]
  | stmt r =>
    rw [hchange] at hnodup hfresh
    obtain ⟨l', hstep, hends, hnext, hsame⟩ :=
      replaceStmt1WithStmt2_eq h hnodup (hfresh r (List.mem_singleton_self r))
    refine ⟨l', ?_, hends, hsame⟩
    simp [simplifyStep, hchange, Change.returnValue, hstep, hnext]
  | block blk =>
    rw [hchange] at hnodup hfresh
    have hne : blk ≠ [] := by
      rintro rfl
      exact hempty hchange
    obtain ⟨l', hstep, hends, hnext, hsame⟩ :=
      replaceStmtWithBlock_eq h hne (hblk blk hchange) hnodup hfresh
    refine ⟨l', ?_, hends, hsame⟩
    simp [simplifyStep, hchange, Change.returnValue, hstep, hnext]
  | deleted => exact absurd hchange hdel

lemma simplifyStep_deleted {prevStmt : Option α} {l' : PtrListRef α}
    (h : EndsWith l q (s :: rest)) (hdel : change s = .deleted)
    (hstep : deleteStmt l s prevStmt = some l') :
    simplifyStep (fun s => (change s).returnValue s) ⟨l, some s, prevStmt⟩ =
      some ⟨l', rest.head?, prevStmt⟩ := by
  have hnext := h.seg.2.1
  rw [Option.or_none] at hnext
  simp [simplifyStep, hdel, Change.returnValue, hstep, hnext]

lemma simplifyStep_empty {prevStmt : Option α} (h : EndsWith l q (s :: rest))
    (hempty : change s = .block []) :
    simplifyStep (fun s => (change s).returnValue s) ⟨l, some s, prevStmt⟩ = none := by
  have hfirst : l.first ≠ none := by
    have hfirst := h.first
    split_ifs at hfirst with hq
    · rw [hfirst]
      simp
    · exact hfirst.1
  have hsplice : l.splice s ⟨none, none⟩ = none := by
    rw [PtrListRef.splice, if_neg hfirst]
    split_ifs with hlast
    · cases l.last <;> rfl
    · rfl
  simp [simplifyStep, hempty, Change.returnValue, replaceStmtWithBlock, hsplice]

end Steps

/-! ### The loop -/

section Loop

open PtrListRef

variable {change : α → Change α} {l : PtrListRef α} {done rest : List α} {s : α}
  {prevStmt : Option α} {stale : Bool}

omit [DecidableEq α] in
@[simp] lemma withAdded_cons (s : α) (rest : List α) :
    withAdded change (s :: rest) = s :: ((change s).added ++ withAdded change rest) := by
  simp [withAdded]

omit [DecidableEq α] in
lemma sublist_withAdded (stmts : List α) : stmts.Sublist (withAdded change stmts) := by
  induction stmts with
  | nil => exact List.Sublist.refl _
  | cons s rest ih =>
    rw [withAdded_cons]
    exact (ih.trans (List.sublist_append_right _ _)).cons_cons s

omit [DecidableEq α] in
lemma result_sublist (c : Change α) (s : α) : (c.result s).Sublist (s :: c.added) := by
  cases c with
  | unchanged => exact List.Sublist.refl _
  | stmt r => exact (List.Sublist.refl [r]).cons s
  | block blk => exact (List.Sublist.refl blk).cons s
  | deleted => exact List.nil_sublist _

omit [DecidableEq α] in
lemma flatMap_result_sublist (stmts : List α) :
    (stmts.flatMap fun s => (change s).result s).Sublist (withAdded change stmts) := by
  induction stmts with
  | nil => exact List.Sublist.refl _
  | cons s rest ih =>
    rw [withAdded_cons, List.flatMap_cons, ← List.cons_append]
    exact (result_sublist (change s) s).append ih

omit [DecidableEq α] in
lemma not_mem_of_mem_added {stmts : List α} (hnodup : (withAdded change stmts).Nodup) {x : α}
    (hs : s ∈ stmts) (hx : x ∈ (change s).added) : x ∉ stmts := by
  induction stmts with
  | nil => simp at hs
  | cons a stmts ih =>
    rw [withAdded_cons, List.nodup_cons, List.mem_append, not_or] at hnodup
    obtain ⟨⟨hadded, hrest⟩, hnodup⟩ := hnodup
    have hadd : ∀ s ∈ stmts, ∀ x ∈ (change s).added, x ∈ withAdded change stmts := fun s hs x hx =>
      List.mem_flatMap.mpr ⟨s, hs, List.mem_cons_of_mem _ hx⟩
    rw [List.mem_cons, not_or]
    rcases List.mem_cons.mp hs with rfl | hs
    · refine ⟨fun heq => hadded (heq ▸ hx), ?_⟩
      intro hmem
      exact (List.nodup_append.mp hnodup).2.2 x hx x ((sublist_withAdded stmts).mem hmem) rfl
    · refine ⟨fun heq => hrest (heq ▸ hadd s hs x hx), ih ?_ hs⟩
      exact (List.nodup_append.mp hnodup).2.1

omit [DecidableEq α] in
lemma blocks_of_sameBut {l' : PtrListRef α} {q : Option α} {nexts : List α} (prevs : List α)
    (hblocks : ∀ s ∈ rest, ∀ blk, change s = .block blk → l.links.Seg none blk none)
    (hnodup : (withAdded change rest).Nodup) (hsame : SameBut q nexts (prevs ++ rest) l l')
    (hnexts : ∀ x ∈ withAdded change rest, x ∉ nexts)
    (hprevs : ∀ x ∈ withAdded change rest, x ∉ prevs) :
    ∀ s ∈ rest, ∀ blk, change s = .block blk → l'.links.Seg none blk none := by
  intro s hs blk hblk
  have hadded : ∀ x ∈ blk, x ∈ (change s).added := by
    rw [hblk]
    exact fun x hx => hx
  have hmem : ∀ x ∈ blk, x ∈ withAdded change rest := fun x hx =>
    List.mem_flatMap.mpr ⟨s, hs, List.mem_cons_of_mem _ (hadded x hx)⟩
  refine (hblocks s hs blk hblk).congr ?_ ?_
  · exact fun x hx => hsame.next x (hnexts x (hmem x hx))
  · intro x hx
    apply hsame.prev
    rw [List.mem_append, not_or]
    exact ⟨hprevs x (hmem x hx), not_mem_of_mem_added hnodup hs (hadded x hx)⟩

omit [DecidableEq α] in
lemma getLast?_toList_sublist (l : List α) : l.getLast?.toList.Sublist l := by
  cases hlast : l.getLast? with
  | none => exact List.nil_sublist _
  | some a => exact List.singleton_sublist.mpr (List.mem_of_getLast? hlast)

/-- What holds before a statement as long as no statement has been deleted behind a replaced one:
the list has the statements so far and those to come, and `prevStmt` is the last one so far or, if
this has been replaced, the statement that it was. -/
structure Good (change : α → Change α) (l : PtrListRef α) (done rest : List α)
    (prevStmt : Option α) (stale : Bool) : Prop where
  ends : EndsWith l done.getLast? rest
  seg : l.links.Seg none done rest.head?
  first : done ≠ [] → l.first = done.head?
  nodup : (done ++ withAdded change rest).Nodup
  blocks : ∀ s ∈ rest, ∀ blk, change s = .block blk → l.links.Seg none blk none
  prev : if stale then done ≠ [] ∧ ∃ p, prevStmt = some p ∧ p ∉ done ++ withAdded change rest
    else prevStmt = done.getLast?

/-- What holds after a deletion behind a replaced statement: the first nodes of the list do not
change any more. -/
structure Stuck (change : α → Change α) (l : PtrListRef α) (path rest : List α)
    (prevStmt : Option α) : Prop where
  ends : ∃ q, EndsWith l (some q) rest ∧ (path ++ q :: withAdded change rest).Nodup
  chain : path.IsChain fun a b => l.links.next a = some b
  first : l.first = path.head?
  blocks : ∀ s ∈ rest, ∀ blk, change s = .block blk → l.links.Seg none blk none
  prev : ∃ p, prevStmt = some p ∧ p ∉ path ++ withAdded change rest

omit [DecidableEq α] in
lemma seg_append_of_endsWith {l' : PtrListRef α} {e : Option α} (result : List α)
    (hseg : l.links.Seg none done e) (hnodup : done.Nodup)
    (hends : EndsWith l' done.getLast? (result ++ rest))
    (hnext : ∀ x ∈ done, done.getLast? ≠ some x → l'.links.next x = l.links.next x)
    (hprev : ∀ x ∈ done, l'.links.prev x = l.links.prev x) :
    l'.links.Seg none (done ++ result) rest.head? := by
  have hresult := (Links.seg_append.mp hends.seg).1
  rw [Option.or_none] at hresult
  rw [Links.seg_append, Option.or_none]
  refine ⟨hseg.congr_last hnodup hnext hprev ?_, hresult⟩
  intro x hx
  rw [hends.next x hx, List.head?_append]

lemma Good.kept (h : Good change l done (s :: rest) prevStmt stale)
    (hempty : change s ≠ .block []) (hdel : change s ≠ .deleted) :
    ∃ l', simplifyStep (fun s => (change s).returnValue s) ⟨l, some s, prevStmt⟩ =
        some ⟨l', rest.head?, some s⟩ ∧
      Good change l' (done ++ (change s).result s) rest (some s) (change s).replaces := by
  have hnodup := h.nodup
  rw [withAdded_cons] at hnodup
  obtain ⟨hdone, hrest, hdisj⟩ := List.nodup_append.mp hnodup
  rw [List.nodup_cons, List.mem_append, not_or] at hrest
  obtain ⟨⟨hsAdded, hsRest⟩, hrest⟩ := hrest
  obtain ⟨hadded, hrestNodup, hdisj'⟩ := List.nodup_append.mp hrest
  have hfresh : ∀ x ∈ (change s).added, l.first ≠ some x := by
    intro x hx heq
    by_cases hnil : done = []
    · subst hnil
      have hfirst : l.first = some s := h.ends.first
      rw [hfirst, Option.some.injEq] at heq
      exact hsAdded (heq ▸ hx)
    · rw [h.first hnil] at heq
      exact hdisj x (List.mem_of_head? heq) x (by simp [hx]) rfl
  have hlocal : (done.getLast?.toList ++ s :: ((change s).added ++ rest)).Nodup :=
    hnodup.sublist ((getLast?_toList_sublist done).append
      (((List.Sublist.refl _).append (sublist_withAdded rest)).cons_cons s))
  obtain ⟨l', hstep, hends, hsame⟩ := simplifyStep_kept prevStmt h.ends hempty hdel
    (h.blocks s (List.mem_cons_self ..)) hlocal hfresh
  have hresult : (change s).result s ≠ [] := by
    cases hchange : change s with
    | unchanged => simp [Change.result]
    | stmt r => simp [Change.result]
    | block blk =>
      rintro rfl
      exact hempty hchange
    | deleted => exact absurd hchange hdel
  have hsub : ((change s).result s ++ withAdded change rest).Sublist
      (s :: ((change s).added ++ withAdded change rest)) :=
    (result_sublist (change s) s).append (List.Sublist.refl _)
  refine ⟨l', hstep, ?_, ?_, ?_, ?_, ?_, ?_⟩
  · have hdrop := hends.drop
    rwa [← List.getLast?_append] at hdrop
  · refine seg_append_of_endsWith _ h.seg hdone hends ?_ ?_
    · intro x hx hlast
      have hx' := fun y hy => hdisj x hx y hy
      apply hsame.next
      simp only [List.mem_cons, List.mem_append, Option.mem_toList, not_or]
      exact ⟨fun heq => hx' s (List.mem_cons_self ..) heq, fun hmem => hx' x (by simp [hmem]) rfl,
        hlast⟩
    · intro x hx
      have hx' := fun y hy => hdisj x hx y hy
      apply hsame.prev
      simp only [List.mem_cons, List.mem_append, not_or]
      exact ⟨fun heq => hx' s (List.mem_cons_self ..) heq, fun hmem => hx' x (by simp [hmem]) rfl,
        fun hmem => hx' x (by simp [(sublist_withAdded rest).mem hmem]) rfl⟩
  · intro hne
    by_cases hnil : done = []
    · subst hnil
      have hfirst : l'.first = ((change s).result s ++ rest).head? := hends.first
      rw [hfirst, List.nil_append, List.head?_append_of_ne_nil _ hresult]
    · rw [hsame.first (mt List.getLast?_eq_none_iff.mp hnil), h.first hnil,
        List.head?_append_of_ne_nil _ hnil]
  · rw [List.append_assoc]
    exact hnodup.sublist ((List.Sublist.refl done).append hsub)
  · refine blocks_of_sameBut (s :: (change s).added)
      (fun s' hs' => h.blocks s' (List.mem_cons_of_mem s hs')) hrestNodup
      (by rwa [List.cons_append]) ?_ ?_
    · intro x hx
      simp only [List.mem_cons, List.mem_append, Option.mem_toList, not_or]
      refine ⟨fun heq => hsRest (heq ▸ hx), fun hmem => hdisj' x hmem x hx rfl, ?_⟩
      intro hlast
      exact hdisj x (List.mem_of_getLast? hlast) x (by simp [hx]) rfl
    · intro x hx
      rw [List.mem_cons, not_or]
      exact ⟨fun heq => hsRest (heq ▸ hx), fun hmem => hdisj' x hmem x hx rfl⟩
  · have hsDone : s ∉ done := fun hmem => hdisj s hmem s (List.mem_cons_self ..) rfl
    have hstale : (change s).result s = (change s).added → done ++ (change s).result s ≠ [] ∧
        ∃ p, some s = some p ∧ p ∉ done ++ (change s).result s ++ withAdded change rest := by
      intro heq
      refine ⟨by simp [hresult], s, rfl, ?_⟩
      rw [heq, List.mem_append, List.mem_append, not_or, not_or]
      exact ⟨⟨hsDone, hsAdded⟩, hsRest⟩
    cases hchange : change s with
    | unchanged => simp [Change.replaces, Change.result]
    | stmt r =>
      rw [hchange] at hstale
      exact hstale rfl
    | block blk =>
      rw [hchange] at hstale
      exact hstale rfl
    | deleted => exact absurd hchange hdel

lemma Good.deleted (h : Good change l done (s :: rest) prevStmt false)
    (hdel : change s = .deleted) :
    ∃ l', simplifyStep (fun s => (change s).returnValue s) ⟨l, some s, prevStmt⟩ =
        some ⟨l', rest.head?, prevStmt⟩ ∧ Good change l' done rest prevStmt false := by
  have hnodup := h.nodup
  rw [withAdded_cons] at hnodup
  obtain ⟨hdone, hrest, hdisj⟩ := List.nodup_append.mp hnodup
  rw [List.nodup_cons, List.mem_append, not_or] at hrest
  have hrestNodup := (List.nodup_append.mp hrest.2).2.1
  have hdisj' : ∀ x ∈ done, x ∉ withAdded change rest := fun x hx hmem =>
    hdisj x hx x (by simp [hmem]) rfl
  have hprev : prevStmt = done.getLast? := h.prev
  subst hprev
  have hnew : (done ++ withAdded change rest).Nodup :=
    hnodup.sublist ((List.Sublist.refl done).append
      ((List.sublist_append_right _ _).trans (List.sublist_cons_self s _)))
  have hblocks : ∀ s ∈ rest, ∀ blk, change s = .block blk → l.links.Seg none blk none :=
    fun s' hs' => h.blocks s' (List.mem_cons_of_mem s hs')
  cases hlast : done.getLast? with
  | none =>
    obtain rfl : done = [] := List.getLast?_eq_none_iff.mp hlast
    have hends := h.ends
    rw [hlast] at hends
    obtain ⟨l', hstep, hends', hsame⟩ := deleteStmt_first hends
    refine ⟨l', simplifyStep_deleted hends hdel hstep, by rwa [hlast], trivial, by simp, hnew, ?_,
      rfl⟩
    exact blocks_of_sameBut [] hblocks hrestNodup hsame (by simp) (by simp)
  | some p =>
    have hpDone : p ∈ done := List.mem_of_getLast? hlast
    have hends := h.ends
    rw [hlast] at hends
    obtain ⟨l', hstep, hends', hsame⟩ := deleteStmt_behind hends fun hmem =>
      hdisj' p hpDone ((sublist_withAdded rest).mem hmem)
    refine ⟨l', simplifyStep_deleted hends hdel hstep, by rwa [hlast], ?_, ?_, hnew, ?_, hlast.symm⟩
    · have hseg := seg_append_of_endsWith [] h.seg hdone (by rwa [hlast]) ?_ ?_
      · rwa [List.append_nil] at hseg
      · intro x hx hne
        apply hsame.next
        rw [List.mem_singleton]
        rintro rfl
        exact hne hlast
      · intro x hx
        exact hsame.prev x fun hmem => hdisj' x hx ((sublist_withAdded rest).mem hmem)
    · intro hne
      rw [hsame.first (by simp), h.first hne]
    · refine blocks_of_sameBut [] hblocks hrestNodup hsame ?_ (by simp)
      intro x hx
      rw [List.mem_singleton]
      rintro rfl
      exact hdisj' x hpDone hx

omit [DecidableEq α] in
lemma isChain_of_seg {p e : Option α} (h : l.links.Seg p done e) :
    done.IsChain fun a b => l.links.next a = some b := by
  induction done generalizing p with
  | nil => exact List.isChain_nil
  | cons a done ih =>
    obtain ⟨-, hnext, hseg⟩ := h
    cases done with
    | nil => exact List.isChain_singleton a
    | cons b done => exact List.isChain_cons_cons.mpr ⟨hnext, ih hseg⟩

lemma Good.stuck (h : Good change l done (s :: rest) prevStmt true) (hdel : change s = .deleted) :
    ∃ l', simplifyStep (fun s => (change s).returnValue s) ⟨l, some s, prevStmt⟩ =
        some ⟨l', rest.head?, prevStmt⟩ ∧ Stuck change l' (done ++ [s]) rest prevStmt := by
  have hnodup := h.nodup
  rw [withAdded_cons] at hnodup
  obtain ⟨hdone, hrest, hdisj⟩ := List.nodup_append.mp hnodup
  rw [List.nodup_cons, List.mem_append, not_or] at hrest
  obtain ⟨⟨-, hsRest⟩, hrest⟩ := hrest
  have hrestNodup := (List.nodup_append.mp hrest).2.1
  obtain ⟨hne, p, rfl, hp⟩ := h.prev
  rw [withAdded_cons, List.mem_append, List.mem_cons, List.mem_append] at hp
  push Not at hp
  obtain ⟨hpDone, hps, -, hpRest⟩ := hp
  obtain ⟨q, hq⟩ := Option.ne_none_iff_exists'.mp (mt List.getLast?_eq_none_iff.mp hne)
  have hends := h.ends
  rw [hq] at hends
  obtain ⟨l', hstep, hends', hsame⟩ := deleteStmt_behind hends fun hmem =>
    hpRest ((sublist_withAdded rest).mem hmem)
  have hpPath : p ∉ done ++ [s] := by
    rw [List.mem_append, List.mem_singleton, not_or]
    exact ⟨hpDone, hps⟩
  have hpath : (done ++ [s] ++ withAdded change rest).Nodup := by
    rw [List.append_assoc, List.singleton_append]
    exact hnodup.sublist ((List.Sublist.refl done).append
      ((List.sublist_append_right _ _).cons_cons s))
  refine ⟨l', simplifyStep_deleted hends hdel hstep, ⟨p, hends', ?_⟩, ?_, ?_, ?_, p, rfl, ?_⟩
  · rw [List.nodup_middle, List.nodup_cons, List.mem_append, not_or]
    exact ⟨⟨hpPath, hpRest⟩, hpath⟩
  · have hseg : l.links.Seg none (done ++ [s]) rest.head? := by
      rw [Links.seg_append]
      refine ⟨h.seg, ?_, ?_, trivial⟩
      · rw [h.ends.seg.1, Option.or_none]
      · exact (h.ends.seg.2.1).trans (by rw [Option.or_none]; rfl)
    refine (isChain_of_seg hseg).imp_of_mem_imp ?_
    intro a b ha _ hab
    rw [hsame.next a, hab]
    rw [List.mem_singleton]
    rintro rfl
    exact hpPath ha
  · rw [hsame.first (by simp), h.first hne, List.head?_append_of_ne_nil _ hne]
  · refine blocks_of_sameBut [] (fun s' hs' => h.blocks s' (List.mem_cons_of_mem s hs'))
      hrestNodup hsame ?_ (by simp)
    intro x hx
    rw [List.mem_singleton]
    rintro rfl
    exact hpRest hx
  · rw [List.mem_append, not_or]
    exact ⟨hpPath, hpRest⟩

lemma Stuck.step {path : List α} (h : Stuck change l path (s :: rest) prevStmt)
    {st : BlockState α}
    (hstep : simplifyStep (fun s => (change s).returnValue s) ⟨l, some s, prevStmt⟩ = some st) :
    st.s = rest.head? ∧ Stuck change st.node path rest st.prevStmt := by
  obtain ⟨q, hends, hnodup⟩ := h.ends
  obtain ⟨p, rfl, hp⟩ := h.prev
  rw [withAdded_cons] at hnodup hp
  obtain ⟨hpath, hrest, hdisj⟩ := List.nodup_append.mp hnodup
  have hq := (List.nodup_cons.mp hrest).1
  obtain ⟨hs, hrest⟩ := List.nodup_cons.mp (List.nodup_cons.mp hrest).2
  rw [List.mem_append, not_or] at hs
  obtain ⟨hadded, hrestNodup, hdisj'⟩ := List.nodup_append.mp hrest
  have hblocks : ∀ s ∈ rest, ∀ blk, change s = .block blk → l.links.Seg none blk none :=
    fun s' hs' => h.blocks s' (List.mem_cons_of_mem s hs')
  rw [List.mem_append, List.mem_cons, List.mem_append] at hp
  push Not at hp
  obtain ⟨hpPath, hps, -, hpRest⟩ := hp
  by_cases hempty : change s = .block []
  · rw [simplifyStep_empty hends hempty] at hstep
    simp at hstep
  by_cases hdel : change s = .deleted
  · obtain ⟨l', hdelete, hends', hsame⟩ := deleteStmt_behind hends fun hmem =>
      hpRest ((sublist_withAdded rest).mem hmem)
    rw [simplifyStep_deleted hends hdel hdelete] at hstep
    obtain rfl := Option.some.inj hstep
    refine ⟨rfl, ⟨p, hends', ?_⟩, ?_, ?_, ?_, p, rfl, ?_⟩
    · rw [List.nodup_middle, List.nodup_cons, List.mem_append, not_or]
      refine ⟨⟨hpPath, hpRest⟩, hnodup.sublist ((List.Sublist.refl path).append ?_)⟩
      exact (((List.sublist_append_right _ _).cons s)).cons q
    · refine h.chain.imp_of_mem_imp ?_
      intro a b ha _ hab
      rw [hsame.next a, hab]
      rw [List.mem_singleton]
      rintro rfl
      exact hpPath ha
    · exact (hsame.first (by simp)).trans h.first
    · refine blocks_of_sameBut [] hblocks hrestNodup hsame ?_ (by simp)
      intro x hx
      rw [List.mem_singleton]
      rintro rfl
      exact hpRest hx
    · rw [List.mem_append, not_or]
      exact ⟨hpPath, hpRest⟩
  have hfresh : ∀ x ∈ (change s).added, l.first ≠ some x := by
    intro x hx heq
    rw [h.first] at heq
    exact hdisj x (List.mem_of_head? heq) x (by simp [hx]) rfl
  have hlocal : ((some q).toList ++ s :: ((change s).added ++ rest)).Nodup := by
    refine (List.nodup_append.mp hnodup).2.1.sublist (List.Sublist.cons_cons q ?_)
    exact ((List.Sublist.refl _).append (sublist_withAdded rest)).cons_cons s
  obtain ⟨l', hkept, hends', hsame⟩ := simplifyStep_kept (some p) hends hempty hdel
    (h.blocks s (List.mem_cons_self ..)) hlocal hfresh
  rw [hkept] at hstep
  obtain rfl := Option.some.inj hstep
  have hsPath : s ∉ path := fun hmem => hdisj s hmem s (by simp) rfl
  have hqRest : q ∉ withAdded change rest := fun hmem => hq (by simp [hmem])
  refine ⟨rfl, ?_, ?_, ?_, ?_, s, rfl, ?_⟩
  · have hdrop := hends'.drop
    cases hlast : ((change s).result s).getLast? with
    | none =>
      rw [hlast, Option.none_or] at hdrop
      refine ⟨q, hdrop, hnodup.sublist ((List.Sublist.refl path).append (List.Sublist.cons_cons q ?_))⟩
      exact ((List.sublist_append_right _ _).cons s)
    | some q' =>
      rw [hlast, Option.some_or] at hdrop
      have hmem := (result_sublist (change s) s).mem (List.mem_of_getLast? hlast)
      refine ⟨q', hdrop, hnodup.sublist ((List.Sublist.refl path).append (List.Sublist.cons q ?_))⟩
      have hsub := (List.singleton_sublist.mpr hmem).append
        (List.Sublist.refl (withAdded change rest))
      rwa [List.cons_append] at hsub
  · refine h.chain.imp_of_mem_imp ?_
    intro a b ha _ hab
    rw [hsame.next a, hab]
    simp only [List.mem_cons, List.mem_append, Option.toList_some, List.not_mem_nil, or_false,
      not_or]
    exact ⟨fun heq => hsPath (heq ▸ ha), fun hmem => hdisj a ha a (by simp [hmem]) rfl,
      fun heq => hdisj a ha q (by simp) heq⟩
  · exact (hsame.first (by simp)).trans h.first
  · refine blocks_of_sameBut (s :: (change s).added) hblocks hrestNodup
      (by rwa [List.cons_append]) ?_ ?_
    · intro x hx
      simp only [List.mem_cons, List.mem_append, Option.toList_some, List.not_mem_nil, or_false,
        not_or]
      exact ⟨fun heq => hs.2 (heq ▸ hx), fun hmem => hdisj' x hmem x hx rfl,
        fun heq => hqRest (heq ▸ hx)⟩
    · intro x hx
      rw [List.mem_cons, not_or]
      exact ⟨fun heq => hs.2 (heq ▸ hx), fun hmem => hdisj' x hmem x hx rfl⟩
  · rw [List.mem_append, not_or]
    exact ⟨hsPath, hs.2⟩

/-! ### Runs -/

lemma Stuck.run {path : List α} (h : Stuck change l path rest prevStmt) {fuel : Nat}
    {st : BlockState α}
    (hrun : whileLoop (fun st => st.s.isSome)
      (simplifyStep fun s => (change s).returnValue s) fuel ⟨l, rest.head?, prevStmt⟩ = .done st) :
    Stuck change st.node path [] st.prevStmt := by
  induction rest generalizing l prevStmt fuel with
  | nil =>
    cases fuel with
    | zero => cases hrun
    | succ fuel =>
      simp only [whileLoop, List.head?_nil, Option.isSome_none, Bool.false_eq_true, if_false,
        Outcome.done.injEq] at hrun
      subst hrun
      exact h
  | cons s rest ih =>
    cases fuel with
    | zero => cases hrun
    | succ fuel =>
      simp only [whileLoop, List.head?_cons, Option.isSome_some, if_true] at hrun
      cases hstep : simplifyStep (fun s => (change s).returnValue s) ⟨l, some s, prevStmt⟩ with
      | none =>
        rw [hstep] at hrun
        cases hrun
      | some st' =>
        rw [hstep] at hrun
        obtain ⟨hs, hstuck⟩ := h.step hstep
        obtain ⟨l', s', prevStmt'⟩ := st'
        obtain rfl : s' = rest.head? := hs
        exact ih hstuck hrun

omit [DecidableEq α] in
lemma not_linked_of_stuck {path stmts : List α} (h : Stuck change l path rest prevStmt) {d : α}
    (hd : d ∈ path) (hstmts : d ∉ stmts) : ¬ l.Linked stmts := by
  intro hlinked
  have hbehind := hlinked.seg.isPrefix h.chain (h.first.symm.trans hlinked.first)
  exact hstmts (hbehind.subset hd)

/-- The condition on the statements from some statement on. -/
def NeverStaleFrom (change : α → Change α) (stale : Bool) (stmts : List α) : Prop :=
  (stale → ∀ s, stmts.head? = some s → change s ≠ .deleted) ∧ NeverStale change stmts

omit [DecidableEq α] in
lemma neverStaleFrom_cons : NeverStaleFrom change stale (s :: rest) ↔
    (stale → change s ≠ .deleted) ∧ change s ≠ .block [] ∧
      NeverStaleFrom change (change s).replaces rest := by
  rw [NeverStaleFrom, NeverStale, NeverStaleFrom, NeverStale, List.forall_mem_cons,
    List.isChain_cons]
  simp only [List.head?_cons, Option.some.injEq, forall_eq', Option.mem_def]
  constructor
  · rintro ⟨hhead, ⟨hempty, hall⟩, hnext, hchain⟩
    exact ⟨hhead, hempty, fun hr s' hs' => hnext s' hs' hr, hall, hchain⟩
  · rintro ⟨hhead, hempty, hnext, hall, hchain⟩
    exact ⟨hhead, ⟨hempty, hall⟩, fun s' hs' hr => hnext hr s' hs', hchain⟩

lemma Good.settles (h : Good change l done rest prevStmt stale)
    (hstale : NeverStaleFrom change stale rest) :
    ∃ st, Settles (fun fuel => whileLoop (fun st => st.s.isSome)
        (simplifyStep fun s => (change s).returnValue s) fuel ⟨l, rest.head?, prevStmt⟩) (.done st) ∧
      st.node.Linked (done ++ rest.flatMap fun s => (change s).result s) := by
  induction rest generalizing l done prevStmt stale with
  | nil =>
    refine ⟨⟨l, none, prevStmt⟩, ?_, ?_, ?_, ?_⟩
    · apply Settles.of_succ
      exact Outcome.settles_const (by simp)
    · rw [List.flatMap_nil, List.append_nil]
      by_cases hnil : done = []
      · subst hnil
        exact h.ends.first
      · exact h.first hnil
    · rw [List.flatMap_nil, List.append_nil]
      exact h.ends.last
    · rw [List.flatMap_nil, List.append_nil]
      exact h.seg
  | cons s rest ih =>
    rw [neverStaleFrom_cons] at hstale
    obtain ⟨hhead, hempty, hrest⟩ := hstale
    by_cases hdel : change s = .deleted
    · cases stale with
      | true => exact absurd hdel (hhead rfl)
      | false =>
        obtain ⟨l', hstep, hgood⟩ := h.deleted hdel
        rw [hdel] at hrest
        obtain ⟨st, hsettles, hlinked⟩ := ih hgood hrest
        refine ⟨st, ?_, ?_⟩
        · apply Settles.of_succ
          simpa only [whileLoop, List.head?_cons, Option.isSome_some, if_true, hstep] using hsettles
        · rw [List.flatMap_cons, hdel]
          exact hlinked
    · obtain ⟨l', hstep, hgood⟩ := h.kept hempty hdel
      obtain ⟨st, hsettles, hlinked⟩ := ih hgood hrest
      refine ⟨st, ?_, ?_⟩
      · apply Settles.of_succ
        simpa only [whileLoop, List.head?_cons, Option.isSome_some, if_true, hstep] using hsettles
      · rwa [List.flatMap_cons, ← List.append_assoc]

lemma Good.not_linked (h : Good change l done rest prevStmt stale)
    (hstale : ¬ NeverStaleFrom change stale rest) {fuel : Nat} {st : BlockState α}
    (hrun : whileLoop (fun st => st.s.isSome)
      (simplifyStep fun s => (change s).returnValue s) fuel ⟨l, rest.head?, prevStmt⟩ = .done st) :
    ¬ st.node.Linked (done ++ rest.flatMap fun s => (change s).result s) := by
  induction rest generalizing l done prevStmt stale fuel with
  | nil => exact absurd ⟨by simp, by simp, List.isChain_nil⟩ hstale
  | cons s rest ih =>
    rw [neverStaleFrom_cons] at hstale
    cases fuel with
    | zero => cases hrun
    | succ fuel =>
      simp only [whileLoop, List.head?_cons, Option.isSome_some, if_true] at hrun
      by_cases hempty : change s = .block []
      · rw [simplifyStep_empty h.ends hempty] at hrun
        cases hrun
      by_cases hdel : change s = .deleted
      · have hresult : (change s).result s = [] := by rw [hdel, Change.result]
        rw [List.flatMap_cons, hresult, List.nil_append]
        cases stale with
        | true =>
          obtain ⟨l', hstep, hstuck⟩ := h.stuck hdel
          rw [hstep] at hrun
          refine not_linked_of_stuck (hstuck.run hrun)
            (List.mem_append_right _ (List.mem_singleton_self s)) ?_
          obtain ⟨q, hq, hnodup⟩ := hstuck.ends
          rw [List.append_assoc] at hnodup
          obtain ⟨-, hright, hdisj⟩ := List.nodup_append.mp hnodup
          rw [List.mem_append, not_or]
          refine ⟨fun hmem => hdisj s hmem s (by simp) rfl, fun hmem => ?_⟩
          rw [List.singleton_append, List.nodup_cons, List.mem_cons, not_or] at hright
          exact hright.1.2 ((flatMap_result_sublist rest).mem hmem)
        | false =>
          obtain ⟨l', hstep, hgood⟩ := h.deleted hdel
          rw [hstep] at hrun
          refine ih hgood ?_ hrun
          intro hrest
          refine hstale ⟨by simp, hempty, ?_⟩
          rwa [hdel]
      · obtain ⟨l', hstep, hgood⟩ := h.kept hempty hdel
        rw [hstep] at hrun
        rw [List.flatMap_cons, ← List.append_assoc]
        exact ih hgood (fun hrest => hstale ⟨fun _ => hdel, hempty, hrest⟩) hrun

omit [DecidableEq α] in
lemma WellFormed.good {stmts : List α} (h : WellFormed change l stmts) :
    Good change l [] stmts none false where
  ends :=
    { seg := h.linked.seg
      next := by simp
      first := h.linked.first
      last := by rw [h.linked.last, List.getLast?_nil, Option.or_none]
      nodup := h.nodup.sublist (sublist_withAdded stmts) }
  seg := trivial
  first hne := absurd rfl hne
  nodup := h.nodup
  blocks := h.blocks
  prev := rfl

omit [DecidableEq α] in
lemma neverStaleFrom_false {stmts : List α} :
    NeverStaleFrom change false stmts ↔ NeverStale change stmts := by
  simp [NeverStaleFrom]

lemma keepsList_of_neverStale {stmts : List α} (h : WellFormed change l stmts)
    (hstale : NeverStale change stmts) : KeepsList change l stmts := by
  obtain ⟨st, hsettles, hlinked⟩ := h.good.settles (neverStaleFrom_false.mpr hstale)
  refine ⟨st.node, ?_, hlinked⟩
  rw [← h.linked.first] at hsettles
  exact hsettles.bind (f := fun st _ => .done st.node) (Outcome.settles_const (by simp))

lemma not_keepsList_of_stale {stmts : List α} (h : WellFormed change l stmts)
    (hstale : ¬ NeverStale change stmts) : ¬ KeepsList change l stmts := by
  rintro ⟨node', ⟨-, n, hn⟩, hlinked⟩
  have hrun := hn n le_rfl
  rw [simplifyBlock, Outcome.bind_eq_done_iff, h.linked.first] at hrun
  obtain ⟨st, hrun, heq⟩ := hrun
  obtain rfl : st.node = node' := Outcome.done.inj heq
  exact h.good.not_linked (mt neverStaleFrom_false.mp hstale) hrun hlinked

end Loop

/-- `SimplifyBlock` keeps the list in order if and only if no statement is deleted right behind a
replaced one and no statement is replaced by a block without statements. -/
theorem keepsList_iff_neverStale {change : α → Change α} {node : PtrListRef α} {stmts : List α}
    (h : WellFormed change node stmts) : KeepsList change node stmts ↔ NeverStale change stmts := by
  constructor
  · intro hkeeps
    by_contra hstale
    exact not_keepsList_of_stale h hstale hkeeps
  · exact keepsList_of_neverStale h

/-- Two statements, `0` and `1`. -/
def twoStmts : PtrListRef Nat :=
  { first := some 0, last := some 1
    links := (⟨fun _ => none, fun _ => none⟩ : Links Nat).setNext 0 (some 1) |>.setPrev 1 (some 0) }

/-- The first statement is deleted and the second one replaced by `2`. -/
def deleteThenReplace : Nat → Change Nat
  | 0 => .deleted
  | _ => .stmt 2

/-- The first statement is replaced by `2` and the second one deleted. -/
def replaceThenDelete : Nat → Change Nat
  | 0 => .stmt 2
  | _ => .deleted

lemma linked_twoStmts : twoStmts.Linked [0, 1] :=
  ⟨rfl, rfl, by simp [twoStmts, Links.setNext, Links.setPrev, Function.update]⟩

theorem keepsList_iff_neverStale_twoStmts :
    KeepsList deleteThenReplace twoStmts [0, 1] ↔ NeverStale deleteThenReplace [0, 1] :=
  keepsList_iff_neverStale
    ⟨linked_twoStmts, by decide, by
      intro s hs blk hblk
      rcases s with _ | s <;> simp [deleteThenReplace] at hblk⟩

theorem not_keepsList_replaceThenDelete : ¬ KeepsList replaceThenDelete twoStmts [0, 1] := by
  apply not_keepsList_of_stale
  · refine ⟨linked_twoStmts, by decide, ?_⟩
    intro s hs blk hblk
    rcases s with _ | s <;> simp [replaceThenDelete] at hblk
  · intro h
    have hchain := h.2
    simp [replaceThenDelete, Change.replaces] at hchain

end ConstantFold
end Maple
