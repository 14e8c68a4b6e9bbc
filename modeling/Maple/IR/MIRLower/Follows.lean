import Maple.IR.MIRLower.Shapes

/-!
# Code that does what is left to do

`Follows k rest` says that the code `rest` of a lowered body does what `k` says. A then part that is
believed not to fall through may stand before any code.
-/

namespace Maple
namespace MIRLower

variable {α β ρ : Type*}

/-! ### Places of labels in code -/

lemma findFlat_append (l : Nat) (xs ys : List (Flat α β ρ)) :
    findFlat l (xs ++ ys) = ((findFlat l xs).map (· ++ ys)).or (findFlat l ys) := by
  induction xs with
  | nil => rfl
  | cons x xs ih =>
    cases x with
    | label l' =>
      simp only [List.cons_append, findFlat]
      split_ifs
      · rfl
      · exact ih
    | simple | eval | regassign | dassign | goto | ret | condGoto => exact ih

lemma findFlat_eq_none {l : Nat} {xs : List (Flat α β ρ)} (h : l ∉ labels xs) :
    findFlat l xs = none := by
  induction xs with
  | nil => rfl
  | cons x xs ih =>
    cases x with
    | label l' =>
      rw [labels, List.mem_cons, not_or] at h
      rw [findFlat, if_neg (Ne.symm h.1)]
      exact ih h.2
    | simple | eval | regassign | dassign | goto | ret | condGoto => exact ih h

lemma findFlat_suffix {l : Nat} {xs rest : List (Flat α β ρ)} (h : findFlat l xs = some rest) :
    rest <:+ xs := by
  induction xs with
  | nil => cases h
  | cons x xs ih =>
    have hcons : xs <:+ x :: xs := List.suffix_cons x xs
    cases x with
    | label l' =>
      rw [findFlat] at h
      split_ifs at h
      · cases h
        exact hcons
      · exact (ih h).trans hcons
    | simple | eval | regassign | dassign | goto | ret | condGoto => exact (ih h).trans hcons

/-! ### Lowered bodies -/

/-- A body whose labels are in the label table, and the code that `LowerBlock` returns for it. -/
structure Lowering (α β ρ : Type*) where
  doVarPType : DoVar → PrimType
  keepWhile : Bool
  body : Block α β ρ
  first : Nat
  code : List (Flat α β ρ)
  next : Nat
  labelsLt : body.LabelsLt first
  lowered : lowerBlock doVarPType keepWhile body first = some (code, next)

namespace Lowering

variable (L : Lowering α β ρ)

lemma findFlat_created {l : Nat} (hl : L.first ≤ l) (xs : List (Flat α β ρ))
    {ys : List (Flat α β ρ)} (h : xs ++ .label l :: ys <:+ L.code) : findFlat l L.code = some ys := by
  obtain ⟨pre, hpre⟩ := h
  rw [← List.append_assoc] at hpre
  have hcount := (lowerBlock_fresh _ _ L.body L.lowered L.labelsLt (le_refl _)).2 l hl
  rw [← hpre, labels_append, List.count_append, labels, List.count_cons_self] at hcount
  have hle : (if L.first ≤ l ∧ l < L.next then 1 else 0) ≤ 1 := by split_ifs <;> omega
  have hnone : l ∉ labels (pre ++ xs) := by
    rw [← List.count_eq_zero]
    omega
  rw [← hpre, findFlat_append, findFlat_eq_none hnone, findFlat, if_pos rfl]
  rfl

/-- The code of a block of the body. -/
def Lowered (b : Block α β ρ) (code : List (Flat α β ρ)) : Prop :=
  b.LabelsLt L.first ∧
    ∃ n n', L.first ≤ n ∧ lowerBlock L.doVarPType L.keepWhile b n = some (code, n')

/-- The increment at the end of the body of a loop. -/
def incrCode (incr : Option (DoVar × Expr β)) : List (Flat α β ρ) :=
  match incr with
  | none => []
  | some (doVar, incrExpr) => [endAssign L.doVarPType doVar incrExpr]

/-- The code does what is left to do. -/
inductive Follows : Kont α β ρ → List (Flat α β ρ) → Prop where
  | done : Follows .done []
  | seq {b : Block α β ρ} {fb rest : List (Flat α β ρ)} {k : Kont α β ρ} (hb : L.Lowered b fb)
    (hk : Follows k rest) : Follows (.seq b k) (fb ++ rest)
  | noFall {b : Block α β ρ} {fb : List (Flat α β ρ)} (hb : L.Lowered b fb) (hend : EndsNoFall fb)
    (k : Kont α β ρ) (rest : List (Flat α β ρ)) : Follows (.seq b k) (fb ++ rest)
  | incr {k : Kont α β ρ} {rest : List (Flat α β ρ)} (doVar : DoVar) (incrExpr : Expr β)
    (hk : Follows k rest) :
    Follows (.incr doVar incrExpr k) (endAssign L.doVarPType doVar incrExpr :: rest)
  /-- The test at the end of a loop. -/
  | again {incr : Option (DoVar × Expr β)} {opnd : Expr β} {b : Block α β ρ}
    {fb rest : List (Flat α β ρ)} {k : Kont α β ρ} {l : Nat} (hb : L.Lowered b fb)
    (hfind : findFlat l L.code =
      some (fb ++ (L.incrCode incr ++ .condGoto .brtrue opnd l :: rest)))
    (hk : Follows k rest) :
    Follows (.loop incr opnd b k) (.condGoto .brtrue opnd l :: rest)
  /-- The test before a loop with a test at its end. -/
  | enter {incr : Option (DoVar × Expr β)} {opnd : Expr β} {b : Block α β ρ}
    {fb rest exit : List (Flat α β ρ)} {k : Kont α β ρ} {l l' : Nat} (hb : L.Lowered b fb)
    (hexit : findFlat l L.code = some exit) (hk : Follows k exit)
    (hagain : Follows (.loop incr opnd b k) (.condGoto .brtrue opnd l' :: rest)) :
    Follows (.loop incr opnd b k) (.condGoto .brfalse opnd l :: .label l' ::
      (fb ++ (L.incrCode incr ++ .condGoto .brtrue opnd l' :: rest)))
  /-- The test of a loop that jumps back to it. -/
  | head {opnd : Expr β} {b : Block α β ρ} {fb rest exit : List (Flat α β ρ)} {k : Kont α β ρ}
    {l l' : Nat} (hb : L.Lowered b fb) (hexit : findFlat l L.code = some exit)
    (hk : Follows k exit)
    (hfind : findFlat l' L.code =
      some (.condGoto .brfalse opnd l :: (fb ++ .goto l' :: rest))) :
    Follows (.loop none opnd b k) (.condGoto .brfalse opnd l :: (fb ++ .goto l' :: rest))
  | goto {k : Kont α β ρ} {rest' : List (Flat α β ρ)} {l : Nat}
    (hfind : findFlat l L.code = some rest') (hk : Follows k rest')
    (rest : List (Flat α β ρ)) : Follows k (.goto l :: rest)
  | label {k : Kont α β ρ} {rest : List (Flat α β ρ)} (hk : Follows k rest) (l : Nat) :
    Follows k (.label l :: rest)

variable {L}

lemma Lowered.follows {b : Block α β ρ} {fb rest : List (Flat α β ρ)} {k : Kont α β ρ}
    (hb : L.Lowered b fb) (h : EndsNoFall fb ∨ L.Follows k rest) :
    L.Follows (.seq b k) (fb ++ rest) := by
  rcases h with hend | hk
  · exact .noFall hb hend k rest
  · exact .seq hb hk

lemma Follows.afterBody {incr : Option (DoVar × Expr β)} {opnd : Expr β} {b : Block α β ρ}
    {rest : List (Flat α β ρ)} {k : Kont α β ρ} (h : L.Follows (.loop incr opnd b k) rest) :
    L.Follows (.afterBody incr opnd b k) (L.incrCode incr ++ rest) := by
  cases incr with
  | none => exact h
  | some i => exact .incr i.1 i.2 h

/-! ### Blocks in lowered statements -/

/-- The code of a statement holds the code of a block, before code that does `k`; the statement
defines only created labels outside of the block. -/
structure Inner (b : Block α β ρ) (k : Kont α β ρ) (fs rest pre fb post : List (Flat α β ρ)) :
    Prop where
  eq : fs = pre ++ (fb ++ post)
  lowered : L.Lowered b fb
  follows : EndsNoFall fb ∨ L.Follows k (post ++ rest)
  created : ∀ l, l ∈ labels pre ∨ l ∈ labels post → L.first ≤ l

lemma lowerWhileStmt_follows {opnd : Expr β} {b : Block α β ρ} {fb rest : List (Flat α β ρ)}
    {k : Kont α β ρ} {l : Nat} (hb : L.Lowered b fb) (hl : L.first ≤ l) (hk : L.Follows k rest)
    (hcode : (lowerWhileStmt L.keepWhile opnd fb l).1 ++ rest <:+ L.code) :
    L.Follows (.loop none opnd b k) ((lowerWhileStmt L.keepWhile opnd fb l).1 ++ rest) ∧
    ∃ pre post, L.Inner b (.loop none opnd b k) (lowerWhileStmt L.keepWhile opnd fb l).1 rest
      pre fb post := by
  unfold lowerWhileStmt at hcode ⊢
  split_ifs at hcode ⊢
  · have hhead : findFlat (l + 1) L.code =
        some (.condGoto .brfalse opnd l :: (fb ++ .goto (l + 1) :: .label l :: rest)) := by
      apply L.findFlat_created (Nat.le_succ_of_le hl) []
      simpa using hcode
    have hexit : findFlat l L.code = some rest := by
      apply L.findFlat_created hl
        (.label (l + 1) :: .condGoto .brfalse opnd l :: (fb ++ [.goto (l + 1)]))
      simpa using hcode
    have hloop := Follows.head hb hexit hk hhead
    refine ⟨?_, [.label (l + 1), .condGoto .brfalse opnd l], [.goto (l + 1), .label l],
      by simp, hb, Or.inr (.goto hhead hloop _), ?_⟩
    · simpa using hloop.label (l + 1)
    · simp only [labels, List.mem_singleton]
      omega
  · have hfind : findFlat (l + 1) L.code =
        some (fb ++ .condGoto .brtrue opnd (l + 1) :: .label l :: rest) := by
      apply L.findFlat_created (Nat.le_succ_of_le hl) [.condGoto .brfalse opnd l]
      simpa using hcode
    have hexit : findFlat l L.code = some rest := by
      apply L.findFlat_created hl (.condGoto .brfalse opnd l :: .label (l + 1) ::
        (fb ++ [.condGoto .brtrue opnd (l + 1)]))
      simpa using hcode
    have hagain : L.Follows (.loop none opnd b k)
        (.condGoto .brtrue opnd (l + 1) :: .label l :: rest) :=
      .again hb hfind (hk.label l)
    refine ⟨?_, [.condGoto .brfalse opnd l, .label (l + 1)],
      [.condGoto .brtrue opnd (l + 1), .label l], by simp, hb, Or.inr hagain, ?_⟩
    · simpa [incrCode] using Follows.enter hb hexit hk hagain
    · simp only [labels, List.mem_singleton]
      omega

lemma lowerDowhileStmt_follows {opnd : Expr β} {b : Block α β ρ} {fb rest : List (Flat α β ρ)}
    {k : Kont α β ρ} {l : Nat} (hb : L.Lowered b fb) (hl : L.first ≤ l) (hk : L.Follows k rest)
    (hcode : (lowerDowhileStmt opnd fb l).1 ++ rest <:+ L.code) :
    L.Inner b (.loop none opnd b k) (lowerDowhileStmt opnd fb l).1 rest
      [.label l] fb [.condGoto .brtrue opnd l] := by
  have hfind : findFlat l L.code = some (fb ++ .condGoto .brtrue opnd l :: rest) := by
    apply L.findFlat_created hl []
    simpa [lowerDowhileStmt] using hcode
  refine ⟨by simp [lowerDowhileStmt], hb, Or.inr (.again hb hfind hk), ?_⟩
  intro l' hl'
  simp only [labels, List.mem_singleton, List.not_mem_nil, or_false] at hl'
  exact hl' ▸ hl

lemma lowerDoloopStmt_follows {doVar : DoVar} {startExpr condExpr incrExpr : Expr β}
    {b : Block α β ρ} {fb rest : List (Flat α β ρ)} {k : Kont α β ρ} {l : Nat}
    (hb : L.Lowered b fb) (hl : L.first ≤ l) (hk : L.Follows k rest)
    (hcode : (lowerDoloopStmt L.doVarPType doVar startExpr condExpr incrExpr fb l).1 ++ rest <:+
      L.code) :
    (∃ code, (lowerDoloopStmt L.doVarPType doVar startExpr condExpr incrExpr fb l).1 ++ rest =
        startAssign L.doVarPType doVar startExpr :: code ∧
      L.Follows (.loop (some (doVar, incrExpr)) condExpr b k) code) ∧
    ∃ pre post, L.Inner b (.afterBody (some (doVar, incrExpr)) condExpr b k)
      (lowerDoloopStmt L.doVarPType doVar startExpr condExpr incrExpr fb l).1 rest pre fb post := by
  have hfind : findFlat (l + 1) L.code =
      some (fb ++ (L.incrCode (some (doVar, incrExpr)) ++ .condGoto .brtrue condExpr (l + 1) ::
        .label l :: rest)) := by
    apply L.findFlat_created (Nat.le_succ_of_le hl)
      [startAssign L.doVarPType doVar startExpr, .condGoto .brfalse condExpr l]
    simpa [lowerDoloopStmt, incrCode] using hcode
  have hexit : findFlat l L.code = some rest := by
    apply L.findFlat_created hl (startAssign L.doVarPType doVar startExpr ::
      .condGoto .brfalse condExpr l :: .label (l + 1) :: (fb ++
        [endAssign L.doVarPType doVar incrExpr, .condGoto .brtrue condExpr (l + 1)]))
    simpa [lowerDoloopStmt] using hcode
  have hagain : L.Follows (.loop (some (doVar, incrExpr)) condExpr b k)
      (.condGoto .brtrue condExpr (l + 1) :: .label l :: rest) :=
    .again hb hfind (hk.label l)
  refine ⟨⟨_, rfl, ?_⟩, [startAssign L.doVarPType doVar startExpr, .condGoto .brfalse condExpr l,
    .label (l + 1)], [endAssign L.doVarPType doVar incrExpr, .condGoto .brtrue condExpr (l + 1),
    .label l], by simp [lowerDoloopStmt], hb, Or.inr hagain.afterBody, ?_⟩
  · simpa [incrCode] using Follows.enter hb hexit hk hagain
  · have hstart : labels (startAssign L.doVarPType doVar startExpr ::
        [.condGoto .brfalse condExpr l, .label (l + 1)] : List (Flat α β ρ)) = [l + 1] := by
      cases doVar <;> rfl
    have hend : labels (endAssign L.doVarPType doVar incrExpr ::
        [.condGoto .brtrue condExpr (l + 1), .label l] : List (Flat α β ρ)) = [l] := by
      cases doVar <;> rfl
    rw [hstart, hend]
    simp only [List.mem_singleton]
    omega

/-- Code that tests an operand and goes on with one of two codes. -/
inductive Tests (opnd : Expr β) :
    List (Flat α β ρ) → List (Flat α β ρ) → List (Flat α β ρ) → Prop where
  | eval (rest : List (Flat α β ρ)) : Tests opnd (.eval opnd :: rest) rest rest
  | brfalse {l : Nat} {no : List (Flat α β ρ)} (hfind : findFlat l L.code = some no)
    (yes : List (Flat α β ρ)) : Tests opnd (.condGoto .brfalse opnd l :: yes) yes no
  | brtrue {l : Nat} {yes : List (Flat α β ρ)} (hfind : findFlat l L.code = some yes)
    (no : List (Flat α β ρ)) : Tests opnd (.condGoto .brtrue opnd l :: no) yes no

/-- The two parts in the code of an `if`. -/
structure IfParts (opnd : Expr β) (k : Kont α β ρ)
    (fs rest ts postThen es postElse : List (Flat α β ρ)) : Prop where
  thenFollows : EndsNoFall ts ∨ L.Follows k (postThen ++ rest)
  elseFollows : EndsNoFall es ∨ L.Follows k (postElse ++ rest)
  find : ∀ l < L.first, findFlat l fs =
    ((findFlat l ts).map (· ++ postThen)).or ((findFlat l es).map (· ++ postElse))
  tests : L.Tests opnd (fs ++ rest) (ts ++ (postThen ++ rest)) (es ++ (postElse ++ rest))

lemma IfShape.parts {opnd : Expr β} {k : Kont α β ρ} {l n' : Nat}
    {ts es fs rest : List (Flat α β ρ)} (h : IfShape opnd l ts es fs n') (hl : L.first ≤ l)
    (hk : EndsNoFall fs ∨ L.Follows k rest) (hcode : fs ++ rest <:+ L.code) :
    ∃ postThen postElse, L.IfParts opnd k fs rest ts postThen es postElse := by
  have hne : ∀ l' < L.first, l ≠ l' ∧ l + 1 ≠ l' := fun l' hl' => ⟨by omega, by omega⟩
  cases h with
  | eval =>
    have hk' : L.Follows k rest := hk.resolve_left (by simp [Flat.opCodeNoFallThrough])
    refine ⟨[], [], Or.inr hk', Or.inr hk', ?_, .eval rest⟩
    simp [findFlat]
  | brFalse =>
    have hk' : L.Follows k rest :=
      hk.resolve_left (not_endsNoFall_label (.condGoto .brfalse opnd l :: ts) l)
    refine ⟨[.label l], [], Or.inr (hk'.label l), Or.inr hk', ?_, ?_⟩
    · intro l' hl'
      simp [findFlat, findFlat_append, hne l' hl']
    · have hfind : findFlat l L.code = some rest := by
        apply L.findFlat_created hl (.condGoto .brfalse opnd l :: ts)
        simpa using hcode
      simpa using Tests.brfalse hfind (ts ++ .label l :: rest)
  | brTrue =>
    have hk' : L.Follows k rest :=
      hk.resolve_left (not_endsNoFall_label (.condGoto .brtrue opnd l :: es) l)
    refine ⟨[], [.label l], Or.inr hk', Or.inr (hk'.label l), ?_, ?_⟩
    · intro l' hl'
      simp [findFlat, findFlat_append, hne l' hl']
    · have hfind : findFlat l L.code = some rest := by
        apply L.findFlat_created hl (.condGoto .brtrue opnd l :: es)
        simpa using hcode
      simpa using Tests.brtrue hfind (es ++ .label l :: rest)
  | noGoto _ _ hend =>
    refine ⟨.label l :: es, [], Or.inl hend, ?_, ?_, ?_⟩
    · apply hk.imp_left
      intro h
      rw [endsNoFall_cons_append_cons] at h
      cases es with
      | nil => simp [Flat.opCodeNoFallThrough] at h
      | cons x xs => exact endsNoFall_cons_cons.mp h
    · intro l' hl'
      simp [findFlat, findFlat_append, hne l' hl']
    · have hfind : findFlat l L.code = some (es ++ rest) := by
        apply L.findFlat_created hl (.condGoto .brfalse opnd l :: ts)
        simpa using hcode
      simpa using Tests.brfalse hfind (ts ++ .label l :: (es ++ rest))
  | goto =>
    have hlabel := not_endsNoFall_label
      (.condGoto .brfalse opnd l :: (ts ++ .goto (l + 1) :: .label l :: es)) (l + 1)
    have hk' : L.Follows k rest := hk.resolve_left (by simpa using hlabel)
    have hend : findFlat (l + 1) L.code = some rest := by
      apply L.findFlat_created (Nat.le_succ_of_le hl) (.condGoto .brfalse opnd l ::
        (ts ++ .goto (l + 1) :: .label l :: es))
      simpa using hcode
    refine ⟨.goto (l + 1) :: .label l :: (es ++ [.label (l + 1)]), [.label (l + 1)],
      Or.inr (.goto hend hk' _), Or.inr (hk'.label (l + 1)), ?_, ?_⟩
    · intro l' hl'
      simp [findFlat, findFlat_append, hne l' hl']
    · have hfind : findFlat l L.code = some (es ++ .label (l + 1) :: rest) := by
        apply L.findFlat_created hl (.condGoto .brfalse opnd l :: (ts ++ [.goto (l + 1)]))
        simpa using hcode
      simpa using Tests.brfalse hfind
        (ts ++ .goto (l + 1) :: .label l :: (es ++ .label (l + 1) :: rest))

end Lowering
end MIRLower
end Maple
