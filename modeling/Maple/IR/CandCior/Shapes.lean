import Maple.IR.CandCior.Basic
import Mathlib.Data.List.Nodup

/-!
# The shape of the lowered code

A branch is lowered before the statements behind it, of which only the first matters: whether it is
there, and whether it is a label. The loop lowers one statement after the other.
-/

namespace Maple
namespace CandCior

open MIRLower (CondGotoOp)

variable {Ω ω : Type*}

/-! ### Branches and statements -/

/-- What stands behind a statement. -/
inductive Behind where
  | nothing
  | label (l : Nat)
  | other

def behind : List (Stmt Ω ω) → Behind
  | [] => .nothing
  | .label l :: _ => .label l
  | _ => .other

/-- How a branch on a short-circuit operator is split: the first branch, what stands behind the
second, and the label that is created. -/
structure Split where
  op : CondGotoOp
  l : Nat
  behind : Behind
  tabs : Tabs
  created : List Nat

def split (cond : LogicOp) (op : CondGotoOp) (l : Nat) (next : Behind) (t : Tabs) : Option Split :=
  if sameTarget op cond then some ⟨op, l, next, t, []⟩
  else
    match next with
    | .nothing => none
    | .label lIdx => some ⟨negate op, lIdx, .label lIdx, t, []⟩
    | .other => some ⟨negate op, t.labels, .label t.labels, { t with labels := t.labels + 1 },
        [t.labels]⟩

/-- The code of a branch. -/
def Expr.lowerBranch : Expr Ω → CondGotoOp → Nat → Behind → Tabs → Option (List (Flat Ω ω) × Tabs)
  | .node o opnds, op, l, _, t =>
    let (code, e, t) := (Expr.node o opnds).lowerEmbedded t
    some (code ++ [.condGoto op e l], t)
  | .logic cond _ opnd0 opnd1, op, l, next, t =>
    (split cond op l next t).bind fun p =>
      (opnd0.lowerBranch p.op p.l .other p.tabs).bind fun first =>
        (opnd1.lowerBranch op l p.behind first.2).map fun second =>
          (first.1 ++ second.1 ++ p.created.map .label, second.2)

/-- The code of a statement. -/
def Stmt.lower (next : Behind) (t : Tabs) : Stmt Ω ω → Option (List (Flat Ω ω) × Tabs)
  | .label l => some ([.label l], t)
  | .condGoto op opnd l => opnd.lowerBranch op l next t
  | .other a opnds =>
    let (code, opnds, t) := opnds.lowerEmbedded t
    some (code ++ [.other a opnds], t)

def lowerStmts : List (Stmt Ω ω) → Tabs → Option (List (Flat Ω ω) × Tabs)
  | [], t => some ([], t)
  | stmt :: rest, t =>
    (stmt.lower (behind rest) t).bind fun first =>
      (lowerStmts rest first.2).map fun others => (first.1 ++ others.1, others.2)

/-- The short-circuit target of the branch, or of its last part, is the next statement. -/
def Expr.needsNext : Expr Ω → CondGotoOp → Bool
  | .node _ _, _ => false
  | .logic cond _ _ opnd1, op => if sameTarget op cond then opnd1.needsNext op else true

/-- The last statement is a branch that needs a next statement. -/
def lacksNext (block : List (Stmt Ω ω)) : Bool :=
  match block.getLast? with
  | some (.condGoto op opnd _) => opnd.needsNext op
  | _ => false

lemma lowerBranch_logic {cond : LogicOp} {primType : PrimType} {opnd0 opnd1 : Expr Ω}
    {op : CondGotoOp} {l : Nat} {next : Behind} {t t' : Tabs} {code : List (Flat Ω ω)}
    (h : (Expr.logic cond primType opnd0 opnd1).lowerBranch op l next t = some (code, t')) :
    ∃ p code0 t1 code1, split cond op l next t = some p ∧
      opnd0.lowerBranch p.op p.l .other p.tabs = some (code0, t1) ∧
      opnd1.lowerBranch op l p.behind t1 = some (code1, t') ∧
      code = code0 ++ code1 ++ p.created.map .label := by
  simp only [Expr.lowerBranch, Option.bind_eq_some_iff, Option.map_eq_some_iff] at h
  obtain ⟨p, hp, ⟨code0, t1⟩, h0, ⟨code1, t2⟩, h1, heq⟩ := h
  obtain ⟨rfl, rfl⟩ := Prod.ext_iff.mp heq
  exact ⟨p, code0, t1, code1, hp, h0, h1, rfl⟩

lemma split_ne_none (cond : LogicOp) (op : CondGotoOp) (l : Nat) {next : Behind}
    (hnext : next ≠ .nothing) (t : Tabs) :
    ∃ p, split cond op l next t = some p ∧ p.behind ≠ .nothing := by
  unfold split
  split_ifs
  · exact ⟨_, rfl, hnext⟩
  · cases next with
    | nothing => exact absurd rfl hnext
    | label lIdx => exact ⟨_, rfl, nofun⟩
    | other => exact ⟨_, rfl, nofun⟩

lemma Expr.lowerBranch_isSome (e : Expr Ω) (op : CondGotoOp) (l : Nat) (next : Behind)
    (hnext : next ≠ .nothing) (t : Tabs) :
    ∃ code t', e.lowerBranch (ω := ω) op l next t = some (code, t') := by
  match e with
  | .node o opnds => exact ⟨_, _, rfl⟩
  | .logic cond _ opnd0 opnd1 =>
    obtain ⟨p, hp, hbehind⟩ := split_ne_none cond op l hnext t
    obtain ⟨code0, t1, h0⟩ := opnd0.lowerBranch_isSome p.op p.l .other nofun p.tabs
    obtain ⟨code1, t2, h1⟩ := opnd1.lowerBranch_isSome op l p.behind hbehind t1
    exact ⟨code0 ++ code1 ++ p.created.map .label, t2, by
      rw [Expr.lowerBranch, hp, Option.bind_some, h0, Option.bind_some, h1]
      rfl⟩

lemma Expr.lowerBranch_nothing (e : Expr Ω) (op : CondGotoOp) (l : Nat) (t : Tabs) :
    e.lowerBranch (ω := ω) op l .nothing t = none ↔ e.needsNext op = true := by
  match e with
  | .node o opnds => exact ⟨nofun, nofun⟩
  | .logic cond _ opnd0 opnd1 =>
    rw [Expr.lowerBranch, Expr.needsNext]
    by_cases hsame : sameTarget op cond = true
    · obtain ⟨code0, t1, h0⟩ := opnd0.lowerBranch_isSome (ω := ω) op l .other nofun t
      rw [split, if_pos hsame, if_pos hsame, Option.bind_some, h0, Option.bind_some,
        Option.map_eq_none_iff]
      exact opnd1.lowerBranch_nothing op l t1
    · rw [split, if_neg hsame, if_neg hsame]
      exact ⟨fun _ => rfl, fun _ => rfl⟩

lemma Stmt.lower_isSome (stmt : Stmt Ω ω) {next : Behind} (hnext : next ≠ .nothing) (t : Tabs) :
    ∃ code t', stmt.lower next t = some (code, t') := by
  cases stmt with
  | label l => exact ⟨_, _, rfl⟩
  | condGoto op opnd l => exact opnd.lowerBranch_isSome op l next hnext t
  | other a opnds => exact ⟨_, _, rfl⟩

lemma behind_cons (stmt : Stmt Ω ω) (rest : List (Stmt Ω ω)) :
    behind (stmt :: rest) ≠ .nothing := by
  cases stmt <;> nofun

lemma lowerStmts_eq_none_iff (block : List (Stmt Ω ω)) (t : Tabs) :
    lowerStmts block t = none ↔ lacksNext block = true := by
  induction block generalizing t with
  | nil => exact ⟨nofun, nofun⟩
  | cons stmt rest ih =>
    cases rest with
    | nil =>
      have hlower : lowerStmts [stmt] t = none ↔ stmt.lower .nothing t = none := by
        simp [lowerStmts, behind]
      rw [hlower]
      cases stmt with
      | label l => exact ⟨nofun, nofun⟩
      | condGoto op opnd l => exact opnd.lowerBranch_nothing op l t
      | other a opnds => exact ⟨nofun, nofun⟩
    | cons next rest =>
      obtain ⟨code, t', hstmt⟩ := stmt.lower_isSome (behind_cons next rest) t
      have hlast : lacksNext (stmt :: next :: rest) = lacksNext (next :: rest) := by
        simp only [lacksNext, List.getLast?_cons_cons]
      rw [lowerStmts, hstmt, Option.bind_some, Option.map_eq_none_iff, ih, hlast]

lemma lowerStmts_cons {stmt : Stmt Ω ω} {rest : List (Stmt Ω ω)} {t t' : Tabs}
    {code : List (Flat Ω ω)} (h : lowerStmts (stmt :: rest) t = some (code, t')) :
    ∃ code0 t0 code1, stmt.lower (behind rest) t = some (code0, t0) ∧
      lowerStmts rest t0 = some (code1, t') ∧ code = code0 ++ code1 := by
  simp only [lowerStmts, Option.bind_eq_some_iff, Option.map_eq_some_iff] at h
  obtain ⟨⟨code0, t0⟩, hstmt, ⟨code1, t1⟩, hrest, heq⟩ := h
  obtain ⟨rfl, rfl⟩ := Prod.ext_iff.mp heq
  exact ⟨code0, t0, code1, hstmt, hrest, rfl⟩

/-! ### The loop -/

lemma split_behind {cond : LogicOp} {op : CondGotoOp} {l : Nat} {rest : List (Stmt Ω ω)} {t : Tabs}
    {p : Split} (h : split cond op l (behind rest) t = some p) :
    behind (p.created.map .label ++ rest) = p.behind := by
  unfold split at h
  split_ifs at h with hsame
  · cases h
    rfl
  · cases hnext : behind rest with
    | nothing =>
      rw [hnext] at h
      cases h
    | label lIdx =>
      rw [hnext] at h
      cases h
      exact hnext
    | other =>
      rw [hnext] at h
      cases h
      rfl

lemma lowerStmt_logic (done : List (Flat Ω ω)) (op : CondGotoOp) (cond : LogicOp)
    (primType : PrimType) (opnd0 opnd1 : Expr Ω) (l : Nat) (rest : List (Stmt Ω ω)) (t : Tabs) :
    lowerStmt done (.condGoto op (.logic cond primType opnd0 opnd1) l) rest t =
      (split cond op l (behind rest) t).map fun p =>
        ⟨done, .condGoto p.op opnd0 p.l :: .condGoto op opnd1 l :: (p.created.map .label ++ rest),
          p.tabs⟩ := by
  unfold lowerStmt split
  by_cases hsame : sameTarget op cond = true
  · simp [hsame]
  · simp only [hsame]
    rcases rest with _ | ⟨_ | _ | _, rest⟩ <;> simp [behind]

lemma lowerLoop_labels (ls : List Nat) (fuel : Nat) (done : List (Flat Ω ω))
    (rest : List (Stmt Ω ω)) (t : Tabs) :
    lowerLoop (fuel + ls.length) ⟨done, ls.map .label ++ rest, t⟩ =
      lowerLoop fuel ⟨done ++ ls.map .label, rest, t⟩ := by
  induction ls generalizing done with
  | nil => simp
  | cons l ls ih =>
    rw [List.length_cons, ← Nat.add_assoc, List.map_cons, List.cons_append, lowerLoop]
    simp only [lowerStmt]
    rw [ih, List.append_assoc]
    rfl

lemma lowerLoop_branch (e : Expr Ω) (op : CondGotoOp) (l : Nat) (rest : List (Stmt Ω ω))
    (t : Tabs) :
    (∀ code t', e.lowerBranch op l (behind rest) t = some (code, t') →
      ∃ k, ∀ fuel done, lowerLoop (fuel + k) ⟨done, .condGoto op e l :: rest, t⟩ =
        lowerLoop fuel ⟨done ++ code, rest, t'⟩) ∧
    (e.lowerBranch (ω := ω) op l (behind rest) t = none →
      ∃ k, ∀ fuel done, lowerLoop (fuel + k) ⟨done, .condGoto op e l :: rest, t⟩ =
        .assertionFailed) := by
  match e with
  | .node o opnds =>
    refine ⟨fun code t' h => ⟨1, fun fuel done => ?_⟩, nofun⟩
    cases h
    rw [lowerLoop]
    simp only [lowerStmt, List.append_assoc]
    rfl
  | .logic cond primType opnd0 opnd1 =>
    have hround := fun done => lowerStmt_logic done op cond primType opnd0 opnd1 l rest t
    cases hsplit : split cond op l (behind rest) t with
    | none =>
      rw [hsplit] at hround
      refine ⟨fun code t' h => ?_, fun _ => ⟨1, fun fuel done => ?_⟩⟩
      · rw [Expr.lowerBranch, hsplit] at h
        cases h
      · rw [lowerLoop]
        simp only [hround, Option.map_none]
    | some p =>
      rw [hsplit] at hround
      have hround' : ∀ fuel done, lowerLoop (fuel + 1)
          ⟨done, .condGoto op (.logic cond primType opnd0 opnd1) l :: rest, t⟩ =
          lowerLoop fuel ⟨done, .condGoto p.op opnd0 p.l :: .condGoto op opnd1 l ::
            (p.created.map .label ++ rest), p.tabs⟩ := by
        intro fuel done
        rw [lowerLoop]
        simp only [hround, Option.map_some]
      obtain ⟨code0, t1, h0⟩ :=
        opnd0.lowerBranch_isSome (ω := ω) p.op p.l .other nofun p.tabs
      obtain ⟨k0, hk0⟩ := (lowerLoop_branch opnd0 p.op p.l
        (.condGoto op opnd1 l :: (p.created.map .label ++ rest)) p.tabs).1 code0 t1 h0
      obtain ⟨hsome, hnone⟩ := lowerLoop_branch opnd1 op l (p.created.map .label ++ rest) t1
      rw [split_behind hsplit] at hsome hnone
      constructor
      · intro code t' h
        obtain ⟨p', code0', t1', code1, hp', h0', h1, rfl⟩ := lowerBranch_logic h
        obtain rfl := Option.some.inj (hsplit.symm.trans hp')
        obtain ⟨rfl, rfl⟩ := Prod.ext_iff.mp (Option.some.inj (h0.symm.trans h0'))
        obtain ⟨k1, hk1⟩ := hsome code1 t' h1
        refine ⟨p.created.length + k1 + k0 + 1, fun fuel done => ?_⟩
        rw [← Nat.add_assoc, ← Nat.add_assoc, ← Nat.add_assoc, hround', hk0, hk1,
          lowerLoop_labels, List.append_assoc, List.append_assoc, List.append_assoc]
      · intro h
        rw [Expr.lowerBranch, hsplit, Option.bind_some, h0, Option.bind_some,
          Option.map_eq_none_iff] at h
        obtain ⟨k1, hk1⟩ := hnone h
        refine ⟨k1 + k0 + 1, fun fuel done => ?_⟩
        rw [← Nat.add_assoc, ← Nat.add_assoc, hround', hk0, hk1]

lemma lowerLoop_stmt (stmt : Stmt Ω ω) (rest : List (Stmt Ω ω)) (t : Tabs) :
    (∀ code t', stmt.lower (behind rest) t = some (code, t') →
      ∃ k, ∀ fuel done, lowerLoop (fuel + k) ⟨done, stmt :: rest, t⟩ =
        lowerLoop fuel ⟨done ++ code, rest, t'⟩) ∧
    (stmt.lower (behind rest) t = none →
      ∃ k, ∀ fuel done, lowerLoop (fuel + k) ⟨done, stmt :: rest, t⟩ = .assertionFailed) := by
  cases stmt with
  | label l =>
    refine ⟨fun code t' h => ⟨1, fun fuel done => ?_⟩, nofun⟩
    cases h
    rw [lowerLoop]
    rfl
  | condGoto op opnd l => exact lowerLoop_branch opnd op l rest t
  | other a opnds =>
    refine ⟨fun code t' h => ⟨1, fun fuel done => ?_⟩, nofun⟩
    cases h
    rw [lowerLoop]
    simp only [lowerStmt, List.append_assoc]

lemma lowerLoop_settles (todo : List (Stmt Ω ω)) (done : List (Flat Ω ω)) (t : Tabs) :
    (∀ code t', lowerStmts todo t = some (code, t') →
      Outcome.Settles (fun fuel => lowerLoop fuel ⟨done, todo, t⟩) (.done (done ++ code, t'))) ∧
    (lowerStmts todo t = none →
      Outcome.Settles (fun fuel => lowerLoop fuel ⟨done, todo, t⟩) .assertionFailed) := by
  induction todo generalizing done t with
  | nil =>
    refine ⟨fun code t' h => Outcome.Settles.of_succ ?_, nofun⟩
    cases h
    simp only [lowerLoop, List.append_nil]
    exact Outcome.settles_const (by simp)
  | cons stmt rest ih =>
    obtain ⟨hsome, hnone⟩ := lowerLoop_stmt stmt rest t
    constructor
    · intro code t' h
      obtain ⟨code0, t0, code1, hstmt, hrest, rfl⟩ := lowerStmts_cons h
      obtain ⟨k, hk⟩ := hsome code0 t0 hstmt
      have hsettles := (ih (done ++ code0) t0).1 code1 t' hrest
      refine Outcome.Settles.of_add k ?_
      simp only [hk]
      rwa [List.append_assoc] at hsettles
    · intro h
      cases hstmt : stmt.lower (behind rest) t with
      | none =>
        obtain ⟨k, hk⟩ := hnone hstmt
        refine Outcome.Settles.of_add k ?_
        simp only [hk]
        exact Outcome.settles_const (by simp)
      | some lowered =>
        obtain ⟨k, hk⟩ := hsome _ _ hstmt
        rw [lowerStmts, hstmt, Option.bind_some, Option.map_eq_none_iff] at h
        refine Outcome.Settles.of_add k ?_
        simp only [hk]
        exact (ih (done ++ lowered.1) lowered.2).2 h

/-! ### Created labels and registers -/

def Flat.label? : Flat Ω ω → Option Nat
  | .label l => some l
  | _ => none

/-- The labels in code. -/
def labels (code : List (Flat Ω ω)) : List Nat := code.filterMap Flat.label?

def Stmt.label? : Stmt Ω ω → Option Nat
  | .label l => some l
  | _ => none

def stmtLabels (block : List (Stmt Ω ω)) : List Nat := block.filterMap Stmt.label?

/-- Code has the labels `old` and the created ones, each once. -/
structure Fresh (t t' : Tabs) (old : List Nat) (code : List (Flat Ω ω)) : Prop where
  labels_le : t.labels ≤ t'.labels
  pregs_le : t.pregs ≤ t'.pregs
  count : ∀ l, (labels code).count l =
    old.count l + if t.labels ≤ l ∧ l < t'.labels then 1 else 0

@[simp] lemma labels_append (code code' : List (Flat Ω ω)) :
    labels (code ++ code') = labels code ++ labels code' :=
  List.filterMap_append

lemma Fresh.append {t t' t'' : Tabs} {old old' : List Nat} {code code' : List (Flat Ω ω)}
    (h : Fresh t t' old code) (h' : Fresh t' t'' old' code') :
    Fresh t t'' (old ++ old') (code ++ code') where
  labels_le := h.labels_le.trans h'.labels_le
  pregs_le := h.pregs_le.trans h'.pregs_le
  count l := by
    have := h.labels_le
    have := h'.labels_le
    rw [labels_append, List.count_append, List.count_append, h.count, h'.count]
    split_ifs <;> omega

lemma Fresh.refl (t : Tabs) {old : List Nat} {code : List (Flat Ω ω)} (h : labels code = old) :
    Fresh t t old code where
  labels_le := le_rfl
  pregs_le := le_rfl
  count l := by
    rw [if_neg (by omega), Nat.add_zero, h]

lemma Fresh.created {t t' : Tabs} {old : List Nat} {code : List (Flat Ω ω)} {n pregs : Nat}
    (h : Fresh t t' old code) (hn : t.labels = n + 1) (hpregs : pregs ≤ t.pregs) :
    Fresh ⟨n, pregs⟩ t' old (code ++ [.label n]) where
  labels_le := by
    have := h.labels_le
    simp only
    omega
  pregs_le := hpregs.trans h.pregs_le
  count l := by
    have := h.labels_le
    have hlabel : labels ([.label n] : List (Flat Ω ω)) = [n] := rfl
    rw [labels_append, List.count_append, h.count, hlabel, List.count_singleton]
    simp only [beq_iff_eq]
    split_ifs <;> omega

lemma lowerEmbedded_node {op : Ω} {opnds : Exprs Ω} {t t' : Tabs} {code : List (Flat Ω ω)}
    {e' : FlatExpr Ω} (h : (Expr.node op opnds).lowerEmbedded t = (code, e', t')) :
    ∃ opnds', opnds.lowerEmbedded t = (code, opnds', t') ∧ e' = .node op opnds' := by
  cases h
  exact ⟨_, rfl, rfl⟩

lemma lowerEmbedded_logic {op : LogicOp} {primType : PrimType} {opnd0 opnd1 : Expr Ω} {t t' : Tabs}
    {code : List (Flat Ω ω)} {e' : FlatExpr Ω}
    (h : (Expr.logic op primType opnd0 opnd1).lowerEmbedded t = (code, e', t')) :
    ∃ code0 opnd0' t0 code1 opnd1', opnd0.lowerEmbedded t = (code0, opnd0', t0) ∧
      opnd1.lowerEmbedded ⟨t0.labels + 1, t0.pregs + 1⟩ = (code1, opnd1', t') ∧
      code = code0 ++ .regassign primType t0.pregs opnd0' ::
        .condGoto op.exitOp (.regread primType t0.pregs) t0.labels ::
          (code1 ++ [.regassign primType t0.pregs opnd1', .label t0.labels]) ∧
      e' = .regread primType t0.pregs := by
  cases h
  exact ⟨_, _, _, _, _, rfl, rfl, rfl, rfl⟩

lemma lowerEmbedded_cons {e : Expr Ω} {rest : Exprs Ω} {t t' : Tabs} {code : List (Flat Ω ω)}
    {es' : FlatExprs Ω} (h : (Exprs.cons e rest).lowerEmbedded t = (code, es', t')) :
    ∃ code0 e' t0 code1 rest', e.lowerEmbedded t = (code0, e', t0) ∧
      rest.lowerEmbedded t0 = (code1, rest', t') ∧ code = code0 ++ code1 ∧
      es' = .cons e' rest' := by
  cases h
  exact ⟨_, _, _, _, _, rfl, rfl, rfl, rfl⟩

mutual

lemma Expr.lowerEmbedded_fresh (e : Expr Ω) {t t' : Tabs} {code : List (Flat Ω ω)}
    {e' : FlatExpr Ω} (h : e.lowerEmbedded t = (code, e', t')) : Fresh t t' [] code := by
  match e with
  | .node op opnds =>
    obtain ⟨opnds', h, -⟩ := lowerEmbedded_node h
    exact opnds.lowerEmbedded_fresh h
  | .logic op primType opnd0 opnd1 =>
    obtain ⟨code0, opnd0', t0, code1, opnd1', h0, h1, rfl, -⟩ := lowerEmbedded_logic h
    have hfresh0 := opnd0.lowerEmbedded_fresh h0
    have hfresh1 := opnd1.lowerEmbedded_fresh h1
    have htest : labels ([.regassign primType t0.pregs opnd0',
        .condGoto op.exitOp (.regread primType t0.pregs) t0.labels] : List (Flat Ω ω)) = [] := rfl
    have hend : labels ([.regassign primType t0.pregs opnd1'] : List (Flat Ω ω)) = [] := rfl
    have hbody := ((Fresh.refl _ htest).append (hfresh1.append (Fresh.refl _ hend))).created rfl
      (Nat.le_succ t0.pregs)
    simpa using hfresh0.append hbody

lemma Exprs.lowerEmbedded_fresh (es : Exprs Ω) {t t' : Tabs} {code : List (Flat Ω ω)}
    {es' : FlatExprs Ω} (h : es.lowerEmbedded t = (code, es', t')) : Fresh t t' [] code := by
  match es with
  | .nil =>
    cases h
    exact Fresh.refl t rfl
  | .cons e rest =>
    obtain ⟨code0, e', t0, code1, rest', h0, h1, rfl, -⟩ := lowerEmbedded_cons h
    exact (e.lowerEmbedded_fresh h0).append (rest.lowerEmbedded_fresh h1)

end

lemma Expr.lowerBranch_fresh (e : Expr Ω) {op : CondGotoOp} {l : Nat} {next : Behind}
    {t t' : Tabs} {code : List (Flat Ω ω)} (h : e.lowerBranch op l next t = some (code, t')) :
    Fresh t t' [] code := by
  match e with
  | .node o opnds =>
    cases h
    exact ((Expr.node o opnds).lowerEmbedded_fresh rfl).append (Fresh.refl _ rfl)
  | .logic cond _ opnd0 opnd1 =>
    obtain ⟨p, code0, t1, code1, hp, h0, h1, rfl⟩ := lowerBranch_logic h
    have hfresh := (opnd0.lowerBranch_fresh h0).append (opnd1.lowerBranch_fresh h1)
    unfold split at hp
    split_ifs at hp
    · cases hp
      simpa using hfresh
    · cases next with
      | nothing => cases hp
      | label lIdx =>
        cases hp
        simpa using hfresh
      | other =>
        cases hp
        exact hfresh.created rfl le_rfl

lemma Stmt.lower_fresh (stmt : Stmt Ω ω) {next : Behind} {t t' : Tabs} {code : List (Flat Ω ω)}
    (h : stmt.lower next t = some (code, t')) : Fresh t t' (stmtLabels [stmt]) code := by
  cases stmt with
  | label l =>
    cases h
    exact Fresh.refl _ rfl
  | condGoto op opnd l => exact opnd.lowerBranch_fresh h
  | other a opnds =>
    cases h
    exact (opnds.lowerEmbedded_fresh rfl).append (Fresh.refl _ rfl)

lemma lowerStmts_fresh (block : List (Stmt Ω ω)) {t t' : Tabs} {code : List (Flat Ω ω)}
    (h : lowerStmts block t = some (code, t')) : Fresh t t' (stmtLabels block) code := by
  induction block generalizing t code with
  | nil =>
    cases h
    exact Fresh.refl _ rfl
  | cons stmt rest ih =>
    obtain ⟨code0, t0, code1, hstmt, hrest, rfl⟩ := lowerStmts_cons h
    have hfresh := (stmt.lower_fresh hstmt).append (ih hrest)
    rwa [stmtLabels, stmtLabels, ← List.filterMap_append] at hfresh

lemma lowerStmts_nodup {block : List (Stmt Ω ω)} {t t' : Tabs} {code : List (Flat Ω ω)}
    (h : lowerStmts block t = some (code, t')) (hnodup : (stmtLabels block).Nodup)
    (hlt : ∀ l ∈ stmtLabels block, l < t.labels) : (labels code).Nodup := by
  refine List.nodup_iff_count_le_one.mpr fun l => ?_
  rw [(lowerStmts_fresh block h).count l]
  have hcount := List.nodup_iff_count_le_one.mp hnodup l
  split_ifs with hl
  · rw [List.count_eq_zero.mpr fun hmem => absurd (hlt l hmem) (by omega)]
  · exact hcount

end CandCior
end Maple
