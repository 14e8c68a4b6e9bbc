import Maple.IR.MIRLower.Jumps

/-!
# Lowered code behaves as the structured body

Each step of the body is matched by steps of the code, and so the lowered code does what the body
does.
-/

namespace Maple
namespace MIRLower

variable {α β ρ σ ν : Type*}

mutual

/-- Every statement counts, and a nested block with its statements. -/
def Stmt.size : Stmt α β ρ → Nat
  | .block b => b.size + 2
  | _ => 2

def Block.size : Block α β ρ → Nat
  | .nil => 0
  | .cons stmt rest => stmt.size + rest.size

end

/-- A measure that goes down when the body takes a step and the code does not. -/
def Kont.size : Kont α β ρ → Nat
  | .done => 0
  | .seq b k => b.size + 1 + k.size
  | .incr _ _ k => k.size
  | .loop _ _ _ k => k.size + 1

namespace Lowering

variable {L : Lowering α β ρ} {sem : Semantics α β σ ν}

variable (L) in
/-- The code does what is left to do in the same state. After a branch to a label of the body is
taken the jump is left to do. -/
def Related : Kont α β ρ × σ → List (Flat α β ρ) × σ → Prop
  | (k, s), (rest, s') => s = s' ∧ ((L.Follows k rest ∧ rest <:+ L.code) ∨
      ∃ l < L.first, k = .seq (.cons (.goto l) .nil) .done ∧ rest = [.goto l])

variable (L sem) in
/-- The next step of the body is matched by steps of the code. -/
def Matched (k : Kont α β ρ) (rest : List (Flat α β ρ)) (s : σ) : Prop :=
  match move sem L.doVarPType L.body (k, s) with
  | .step e c₁ => ∃ n c₂, Runs (flatMove sem L.code) (rest, s) n e c₂ ∧ L.Related c₁ c₂ ∧
      (n ≠ 0 ∨ c₁.1.size < k.size)
  | .final o => ∃ n c₂, Runs (flatMove sem L.code) (rest, s) n [] c₂ ∧
      flatMove sem L.code c₂ = .final o

lemma Matched.of_step {k : Kont α β ρ} {rest rest' : List (Flat α β ρ)} {s : σ}
    (hstep : flatMove sem L.code (rest, s) = .step [] (rest', s))
    (h : L.Matched sem k rest' s) : L.Matched sem k rest s := by
  unfold Matched at h ⊢
  cases hmove : move sem L.doVarPType L.body (k, s) with
  | step e c₁ =>
    rw [hmove] at h
    obtain ⟨n, c₂, hruns, hrel, -⟩ := h
    exact ⟨n + 1, c₂, .cons hstep hruns, hrel, Or.inl (Nat.succ_ne_zero n)⟩
  | final o =>
    rw [hmove] at h
    obtain ⟨n, c₂, hruns, hfinal⟩ := h
    exact ⟨n + 1, c₂, .cons hstep hruns, hfinal⟩

lemma Matched.of_move {k k' : Kont α β ρ} {rest rest' : List (Flat α β ρ)} {s s' : σ}
    {e : List (Event α β ν)} (hmove : move sem L.doVarPType L.body (k, s) = .step e (k', s'))
    (hflat : flatMove sem L.code (rest, s) = .step e (rest', s')) (hk : L.Follows k' rest')
    (hcode : rest' <:+ L.code) : L.Matched sem k rest s := by
  unfold Matched
  rw [hmove]
  exact ⟨1, (rest', s'), .one hflat, ⟨rfl, Or.inl ⟨hk, hcode⟩⟩, Or.inl one_ne_zero⟩

lemma Matched.of_silent {k k' : Kont α β ρ} {rest : List (Flat α β ρ)} {s : σ}
    (hmove : move sem L.doVarPType L.body (k, s) = .step [] (k', s)) (hk : L.Follows k' rest)
    (hcode : rest <:+ L.code) (hsize : k'.size < k.size) : L.Matched sem k rest s := by
  unfold Matched
  rw [hmove]
  exact ⟨0, (rest, s), .refl _, ⟨rfl, Or.inl ⟨hk, hcode⟩⟩, Or.inr hsize⟩

lemma Matched.of_jump {l : Nat} (hl : l < L.first) {k : Kont α β ρ} {s : σ}
    (hmove : move sem L.doVarPType L.body (k, s) = jump L.body l s)
    (rest : List (Flat α β ρ)) : L.Matched sem k (.goto l :: rest) s := by
  have hfound : L.Found (L.body.findLabel l .done) (findFlat l L.code) [] :=
    block_found hl L.body L.lowered L.labelsLt (le_refl _) (fun _ => Or.inr .done) (by simp)
  unfold Matched
  rw [hmove, jump]
  cases hfind : L.body.findLabel l .done with
  | none =>
    rw [hfind] at hfound
    have hnone : findFlat l L.code = none := hfound
    exact ⟨0, _, .refl _, by simp only [flatMove, hnone]⟩
  | some k' =>
    rw [hfind] at hfound
    obtain ⟨r, hr, hfollows⟩ := hfound
    rw [List.append_nil] at hfollows
    refine ⟨1, (r, s), .one (by simp only [flatMove, hr]), ⟨rfl, Or.inl ⟨hfollows, ?_⟩⟩,
      Or.inl one_ne_zero⟩
    exact findFlat_suffix hr

lemma Tests.runs {opnd : Expr β} {code yes no : List (Flat α β ρ)} (h : L.Tests opnd code yes no)
    (sem : Semantics α β σ ν) (s : σ) :
    ∃ n ≠ 0, Runs (flatMove sem L.code) (code, s) n [.cond opnd (sem.eval s opnd)]
      (if sem.isTrue (sem.eval s opnd) then yes else no, s) := by
  have hgoto : ∀ {l : Nat} {rest : List (Flat α β ρ)}, findFlat l L.code = some rest →
      Runs (flatMove sem L.code) ([.goto l], s) 1 [] (rest, s) :=
    fun hfind => .one (by simp only [flatMove, hfind])
  cases h with
  | eval =>
    refine ⟨1, one_ne_zero, .one ?_⟩
    simp only [flatMove, ite_self]
  | brfalse hfind =>
    by_cases htrue : sem.isTrue (sem.eval s opnd) = true
    · refine ⟨1, one_ne_zero, .one ?_⟩
      simp [flatMove, CondGotoOp.taken, htrue]
    · have htaken : CondGotoOp.brfalse.taken (sem.isTrue (sem.eval s opnd)) = true := by
        simpa [CondGotoOp.taken] using htrue
      rw [if_neg htrue]
      refine ⟨2, two_ne_zero, .cons (e := [.cond opnd (sem.eval s opnd)]) ?_ (hgoto hfind)⟩
      simp only [flatMove, if_pos htaken]
  | brtrue hfind =>
    by_cases htrue : sem.isTrue (sem.eval s opnd) = true
    · have htaken : CondGotoOp.brtrue.taken (sem.isTrue (sem.eval s opnd)) = true := htrue
      rw [if_pos htrue]
      refine ⟨2, two_ne_zero, .cons (e := [.cond opnd (sem.eval s opnd)]) ?_ (hgoto hfind)⟩
      simp only [flatMove, if_pos htaken]
    · refine ⟨1, one_ne_zero, .one ?_⟩
      simp [flatMove, CondGotoOp.taken, htrue]

lemma Matched.of_test {k yes no : Kont α β ρ} {opnd : Expr β} {s : σ}
    {rest yesCode noCode : List (Flat α β ρ)}
    (hmove : move sem L.doVarPType L.body (k, s) = .step [.cond opnd (sem.eval s opnd)]
      (if sem.isTrue (sem.eval s opnd) then yes else no, s))
    (htests : L.Tests opnd rest yesCode noCode) (hyes : L.Follows yes yesCode)
    (hno : L.Follows no noCode) (hcode : rest <:+ L.code) : L.Matched sem k rest s := by
  obtain ⟨n, hn, hruns⟩ := htests.runs sem s
  obtain ⟨hyesCode, hnoCode⟩ := htests.suffix hcode
  unfold Matched
  rw [hmove]
  refine ⟨n, _, hruns, ⟨rfl, Or.inl ?_⟩, Or.inl hn⟩
  split_ifs
  · exact ⟨hyes, hyesCode⟩
  · exact ⟨hno, hnoCode⟩

lemma flatMove_startAssign (doVar : DoVar) (startExpr : Expr β) (rest : List (Flat α β ρ))
    (s : σ) :
    flatMove sem L.code (startAssign L.doVarPType doVar startExpr :: rest, s) =
      .step [.assign doVar (sem.eval s startExpr)]
        (rest, sem.assign doVar (sem.eval s startExpr) s) := by
  cases doVar <;> rfl

lemma flatMove_endAssign (doVar : DoVar) (incrExpr : Expr β) (rest : List (Flat α β ρ)) (s : σ) :
    let v := sem.add (L.doVarPType doVar) (sem.read doVar s) (sem.eval s incrExpr)
    flatMove sem L.code (endAssign L.doVarPType doVar incrExpr :: rest, s) =
      .step [.assign doVar v] (rest, sem.assign doVar v s) := by
  cases doVar with
  | preg regIdx =>
    simp only [endAssign, flatMove, Semantics.eval, sem.add_comm _ (sem.eval s incrExpr)]
  | symbol stIdx => rfl

lemma stmt_matched {st : Stmt α β ρ} {b : Block α β ρ} {k : Kont α β ρ} {n n' : Nat}
    {fs rest : List (Flat α β ρ)} (h : lowerStmt L.doVarPType L.keepWhile st n = some (fs, n'))
    (hlt : st.LabelsLt L.first) (hn : L.first ≤ n)
    (hk : EndsNoFall fs ∨ L.Follows (.seq b k) rest) (hcode : fs ++ rest <:+ L.code) (s : σ) :
    L.Matched sem (.seq (.cons st b) k) (fs ++ rest) s := by
  cases st with
  | simple a =>
    cases h
    have hk' := hk.resolve_left (by simp [Flat.opCodeNoFallThrough])
    exact .of_move rfl rfl hk' ((List.suffix_cons _ _).trans hcode)
  | goto l =>
    cases h
    exact .of_jump hlt rfl rest
  | ret r =>
    cases h
    exact ⟨0, _, .refl _, rfl⟩
  | label l =>
    cases h
    have hk' := hk.resolve_left (by simp [Flat.opCodeNoFallThrough])
    exact .of_move rfl rfl hk' ((List.suffix_cons _ _).trans hcode)
  | condGoto op opnd l =>
    cases h
    have hk' := hk.resolve_left (by simp [Flat.opCodeNoFallThrough])
    refine ⟨1, _, .one rfl, ⟨rfl, ?_⟩, Or.inl one_ne_zero⟩
    split_ifs
    · exact Or.inr ⟨l, hlt, rfl, rfl⟩
    · exact Or.inl ⟨hk', (List.suffix_cons _ _).trans hcode⟩
  | ifStmt opnd thenPart elsePart =>
    obtain ⟨ts, n₁, es, l, hts, hes, hshape⟩ := lowerStmt_ifStmt_inv h
    obtain ⟨hthen, hn₁⟩ := lowered_of hts (Part.labelsLt_toBlock hlt.1) hn
    obtain ⟨helse, hl⟩ := lowered_of hes (Part.labelsLt_toBlock hlt.2) hn₁
    obtain ⟨postThen, postElse, hparts⟩ := IfShape.parts hshape hl hk hcode
    exact .of_test rfl hparts.tests (hthen.follows hparts.thenFollows)
      (helse.follows hparts.elseFollows) hcode
  | whileStmt opnd body =>
    obtain ⟨fb, l, hbody, hfs⟩ := lowerStmt_whileStmt_inv h
    obtain ⟨hb, hl⟩ := lowered_of hbody hlt hn
    obtain rfl := congrArg Prod.fst hfs
    have hk' := hk.resolve_left (not_endsNoFall_lowerWhileStmt opnd fb l)
    obtain ⟨hloop, -⟩ := lowerWhileStmt_follows hb hl hk' hcode
    apply Matched.of_silent rfl hloop hcode
    simp only [Kont.size, Block.size, Stmt.size]
    omega
  | dowhile body opnd =>
    obtain ⟨fb, l, hbody, hfs⟩ := lowerStmt_dowhile_inv h
    obtain ⟨hb, hl⟩ := lowered_of hbody hlt hn
    obtain rfl := congrArg Prod.fst hfs
    have hk' := hk.resolve_left (not_endsNoFall_lowerDowhileStmt opnd fb l)
    have hinner := lowerDowhileStmt_follows hb hl hk' hcode
    have hsuffix := hinner.suffix hcode
    have heq : (lowerDowhileStmt opnd fb l).1 ++ rest =
        .label l :: (fb ++ ([.condGoto .brtrue opnd l] ++ rest)) := by
      simp [lowerDowhileStmt]
    rw [heq]
    exact .of_move rfl rfl (hb.follows hinner.follows) hsuffix
  | doloop doVar startExpr condExpr incrExpr body =>
    obtain ⟨fb, l, hbody, hfs⟩ := lowerStmt_doloop_inv h
    obtain ⟨hb, hl⟩ := lowered_of hbody hlt hn
    obtain rfl := congrArg Prod.fst hfs
    have hk' := hk.resolve_left
      (not_endsNoFall_lowerDoloopStmt doVar startExpr condExpr incrExpr fb l)
    obtain ⟨⟨code, heq, hloop⟩, -⟩ := lowerDoloopStmt_follows hb hl hk' hcode
    rw [heq] at hcode ⊢
    exact .of_move rfl (flatMove_startAssign doVar startExpr code s) hloop
      ((List.suffix_cons _ _).trans hcode)
  | block body =>
    apply Matched.of_silent rfl ((lowered_of h hlt hn).1.follows hk) hcode
    simp only [Kont.size, Block.size, Stmt.size]
    omega

lemma Follows.matched {k : Kont α β ρ} {rest : List (Flat α β ρ)} (h : L.Follows k rest)
    (hcode : rest <:+ L.code) (s : σ) : L.Matched sem k rest s := by
  have hblock : ∀ {b : Block α β ρ} {fb rest : List (Flat α β ρ)} {k : Kont α β ρ},
      L.Lowered b fb → EndsNoFall fb ∨ L.Follows k rest → fb ++ rest <:+ L.code →
      L.Matched sem (.seq b k) (fb ++ rest) s := by
    rintro b fb rest k ⟨hlt, n, n', hn, hlower⟩ hk hcode
    cases b with
    | nil =>
      cases hlower
      have hk' := hk.resolve_left not_endsNoFall_nil
      exact .of_silent rfl hk' hcode (by simp [Kont.size, Block.size])
    | cons st b =>
      obtain ⟨xs, n₁, ys, hxs, hys, rfl⟩ := lowerBlock_cons_inv hlower
      have hn₁ := hn.trans (lowerStmt_fresh _ _ st hxs hlt.1 hn).1
      rw [List.append_assoc] at hcode ⊢
      exact stmt_matched hxs hlt.1 hn ((lowered_of hys hlt.2 hn₁).1.follows_seq hk) hcode s
  induction h with
  | done => exact ⟨0, _, .refl _, rfl⟩
  | seq hb hk => exact hblock hb (Or.inr hk) hcode
  | noFall hb hend k rest => exact hblock hb (Or.inl hend) hcode
  | incr doVar incrExpr hk =>
    exact .of_move rfl (flatMove_endAssign doVar incrExpr _ s) hk
      ((List.suffix_cons _ _).trans hcode)
  | again hb hfind hk =>
    have hagain := Follows.again hb hfind hk
    exact .of_test rfl (.brtrue hfind _) (hb.follows (Or.inr hagain.afterBody)) hk hcode
  | enter hb hexit hk hagain =>
    exact .of_test rfl (.brfalse hexit _) ((hb.follows (Or.inr hagain.afterBody)).label _) hk hcode
  | head hb hexit hk hfind =>
    have hhead := Follows.head hb hexit hk hfind
    exact .of_test rfl (.brfalse hexit _) (hb.follows (Or.inr (.goto hfind hhead _))) hk hcode
  | goto hfind hk rest ih =>
    exact .of_step (by simp only [flatMove, hfind]) (ih (findFlat_suffix hfind))
  | label hk l ih => exact .of_step rfl (ih ((List.suffix_cons _ _).trans hcode))

variable (L sem) in
/-- The lowered code simulates the body. -/
theorem simulation : Simulation (move sem L.doVarPType L.body) (flatMove sem L.code) L.Related
    fun c => c.1.size := by
  have hmatched : ∀ (c₁ : Kont α β ρ × σ) (c₂ : List (Flat α β ρ) × σ), L.Related c₁ c₂ →
      L.Matched sem c₁.1 c₂.1 c₁.2 ∧ c₁.2 = c₂.2 := by
    rintro ⟨k, s⟩ ⟨rest, s'⟩ ⟨rfl, ⟨hk, hcode⟩ | ⟨l, hl, rfl, rfl⟩⟩
    · exact ⟨hk.matched hcode s, rfl⟩
    · exact ⟨.of_jump hl rfl [], rfl⟩
  constructor
  · rintro ⟨k, s⟩ ⟨rest, s'⟩ e c₁' hrel hmove
    obtain ⟨h, rfl⟩ := hmatched _ _ hrel
    unfold Matched at h
    rw [hmove] at h
    exact h
  · rintro ⟨k, s⟩ ⟨rest, s'⟩ o hrel hmove
    obtain ⟨h, rfl⟩ := hmatched _ _ hrel
    unfold Matched at h
    rw [hmove] at h
    exact h

/-- The lowered code does what the body does. -/
theorem sameBehaviour (sem : Semantics α β σ ν) (s : σ) :
    SameBehaviour (move sem L.doVarPType L.body) (.seq L.body .done, s)
      (flatMove sem L.code) (L.code, s) := by
  apply (L.simulation sem).sameBehaviour
  refine ⟨rfl, Or.inl ⟨?_, List.suffix_rfl⟩⟩
  have hb : L.Lowered L.body L.code := ⟨L.labelsLt, L.first, L.next, le_refl _, L.lowered⟩
  simpa using hb.follows (Or.inr .done)

end Lowering

/-- `LowerBlock` returns code that behaves as the body and defines each created label once, if and
only if no `if` has a then part that is lowered to nothing, unless its else part is empty. -/
theorem lowerBlock_correct_iff (doVarPType : DoVar → PrimType) (keepWhile : Bool)
    {body : Block α β ρ} {first : Nat} (hlabels : body.LabelsLt first) :
    (∃ code next, lowerBlock doVarPType keepWhile body first = some (code, next) ∧
      (∀ (sem : Semantics α β σ ν) (s : σ),
        SameBehaviour (move sem doVarPType body) (.seq body .done, s)
          (flatMove sem code) (code, s)) ∧
      first ≤ next ∧ ∀ l, first ≤ l → l < next → (labels code).count l = 1) ↔ body.Solid := by
  constructor
  · rintro ⟨code, next, hlower, -⟩
    rcases lowerBlock_cases doVarPType keepWhile body first with ⟨-, hnone⟩ | ⟨hsolid, -⟩
    · rw [hlower] at hnone
      cases hnone
    · exact hsolid
  · intro hsolid
    rcases lowerBlock_cases doVarPType keepWhile body first with
      ⟨hnot, -⟩ | ⟨-, code, next, hlower, -⟩
    · exact absurd hsolid hnot
    · have hfresh := lowerBlock_fresh doVarPType keepWhile body hlower hlabels (le_refl _)
      let L : Lowering α β ρ := ⟨doVarPType, keepWhile, body, first, code, next, hlabels, hlower⟩
      refine ⟨code, next, hlower, L.sameBehaviour, hfresh.1, ?_⟩
      intro l hl hlt
      rw [hfresh.2 l hl, if_pos ⟨hl, hlt⟩]

/-- A loop with a jump out of it: the then part of its `if` does not fall through. -/
def exitLoop : Block Nat Nat Unit :=
  .cons (.whileStmt (.leaf 0)
    (.cons (.ifStmt (.leaf 1) (.block (.cons (.simple 0) (.cons (.goto 1) .nil)))
        (.block (.cons (.block (.cons (.simple 1) .nil)) .nil)))
      (.cons (.simple 2) .nil)))
    (.cons (.label 1) (.cons (.ret ()) .nil))

theorem lowerBlock_correct_iff_exitLoop :
    exitLoop.LabelsLt 2 ∧
    ∃ code next, lowerBlock (fun _ => .i32) false exitLoop 2 = some (code, next) ∧
      (∀ (sem : Semantics Nat Nat Int Int) (s : Int),
        SameBehaviour (move sem (fun _ => .i32) exitLoop) (.seq exitLoop .done, s)
          (flatMove sem code) (code, s)) ∧
      2 ≤ next ∧ ∀ l, 2 ≤ l → l < next → (labels code).count l = 1 := by
  have hlabels : exitLoop.LabelsLt 2 := by
    simp [exitLoop, Block.LabelsLt, Stmt.LabelsLt, Part.LabelsLt]
  have hsolid : exitLoop.Solid := by
    simp [exitLoop, Block.Solid, Stmt.Solid, Part.Solid, Part.toBlock, Block.hollow, Stmt.hollow]
  exact ⟨hlabels, (lowerBlock_correct_iff (fun _ => .i32) false hlabels).mpr hsolid⟩

/-- A then part that holds an empty block is lowered to nothing, and the missing else part is
dereferenced. -/
theorem lowerBlock_nestedEmpty :
    lowerBlock (fun _ => .i32) false (.cons (.ifStmt (.leaf ())
      (.block (.cons (.block .nil) .nil)) .null) .nil : Block Unit Unit Unit) 1 = none := rfl

end MIRLower
end Maple
