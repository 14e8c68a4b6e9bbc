import Maple.IR.CandCior.Shapes

/-!
# Lowered short-circuit operators

Where the operands of embedded operators fit, the code of a statement does what the statement does:
it evaluates the same operands, since others may fail.
-/

namespace Maple
namespace CandCior

open MIRLower (CondGotoOp)

variable [Target] {Ω ω σ : Type*} {sem : Semantics Ω ω σ} {code : List (Flat Ω ω)} {first : Nat}
  {s : σ}

/-! ### Silent runs -/

/-- The code goes from one place to another without an event. -/
def Reaches (sem : Semantics Ω ω σ) (code : List (Flat Ω ω)) (first : Nat)
    (c c' : Place (Flat Ω ω) × σ × (Nat → Int)) : Prop :=
  ∃ n, Runs (flatMove sem code first) c n [] c'

lemma Reaches.refl (c : Place (Flat Ω ω) × σ × (Nat → Int)) : Reaches sem code first c c :=
  ⟨0, .refl c⟩

lemma Reaches.trans {c c' c'' : Place (Flat Ω ω) × σ × (Nat → Int)}
    (h : Reaches sem code first c c') (h' : Reaches sem code first c' c'') :
    Reaches sem code first c c'' := by
  obtain ⟨n, hn⟩ := h
  obtain ⟨m, hm⟩ := h'
  exact ⟨n + m, hn.trans hm⟩

lemma Reaches.one {c c' : Place (Flat Ω ω) × σ × (Nat → Int)}
    (h : flatMove sem code first c = .step [] c') : Reaches sem code first c c' :=
  ⟨1, Runs.one h⟩

section

variable {rest : List (Flat Ω ω)} {regs : Nat → Int}

lemma reaches_regassign {primType : PrimType} {pregIdx : Nat} {opnd : FlatExpr Ω} {v : Int}
    (h : opnd.eval sem s regs = some v) :
    Reaches sem code first (.code (.regassign primType pregIdx opnd :: rest), s, regs)
      (.code rest, s, Function.update regs pregIdx (primType.format.wrap v)) :=
  .one (by simp only [flatMove, h])

lemma reaches_condGoto {op : CondGotoOp} {opnd : FlatExpr Ω} {l : Nat} {v : Int}
    (h : opnd.eval sem s regs = some v) :
    Reaches sem code first (.code (.condGoto op opnd l :: rest), s, regs)
      (if op.taken (v ≠ 0) then .jump l else .code rest, s, regs) :=
  .one (by simp only [flatMove, h])

lemma reaches_label {l : Nat} (h : first ≤ l) :
    Reaches sem code first (.code (.label l :: rest), s, regs) (.code rest, s, regs) :=
  .one (by simp only [flatMove, if_neg (Nat.not_lt.mpr h)])

omit [Target] in
lemma findFlat_append {l : Nat} {pre : List (Flat Ω ω)} (h : l ∉ labels pre) :
    findFlat l (pre ++ rest) = findFlat l rest := by
  induction pre with
  | nil => rfl
  | cons stmt pre ih =>
    cases stmt with
    | label l' =>
      have hl : l ≠ l' ∧ l ∉ labels pre := by
        simpa only [labels, List.filterMap_cons, Flat.label?, List.mem_cons, not_or] using h
      rw [List.cons_append, findFlat, if_neg (Ne.symm hl.1)]
      exact ih hl.2
    | condGoto | other | regassign => exact ih h

lemma reaches_jump {l : Nat} (hnodup : (labels code).Nodup) (h : .label l :: rest <:+ code) :
    Reaches sem code first (.jump l, s, regs) (.code (.label l :: rest), s, regs) := by
  obtain ⟨pre, rfl⟩ := h
  have hl : l ∉ labels pre := by
    have hlabels : labels (.label l :: rest) = l :: labels rest := rfl
    rw [labels_append, hlabels] at hnodup
    exact fun hmem => (List.nodup_append.mp hnodup).2.2 l hmem l List.mem_cons_self rfl
  apply Reaches.one
  simp only [flatMove, findFlat_append hl, findFlat, if_true]

end

/-! ### Embedded operators -/

lemma Expr.Fits.logic {op : LogicOp} {primType : PrimType} {opnd0 opnd1 : Expr Ω} {v : Int}
    (hfits : (Expr.logic op primType opnd0 opnd1).Fits sem s)
    (hv : (Expr.logic op primType opnd0 opnd1).eval sem s = some v) :
    opnd0.Fits sem s ∧ ∃ v0, opnd0.eval sem s = some v0 ∧
      (op.exitOp.taken (primType.format.wrap v0 ≠ 0) = true ∧ primType.format.wrap v0 = v ∨
        op.exitOp.taken (primType.format.wrap v0 ≠ 0) = false ∧ opnd1.Fits sem s ∧
          ∃ v1, opnd1.eval sem s = some v1 ∧ primType.format.wrap v1 = v) := by
  have hwrap : primType.format.wrap 0 = 0 := by simp [IntFormat.wrap]
  cases op with
  | cand =>
    obtain ⟨hfits0, hfits⟩ := hfits
    simp only [Expr.eval, Option.bind_eq_some_iff] at hv
    obtain ⟨v0, hv0, hv⟩ := hv
    refine ⟨hfits0, v0, hv0, ?_⟩
    by_cases hzero : v0 = 0
    · rw [if_pos hzero] at hv
      cases hv
      left
      simp [hzero, hwrap, LogicOp.exitOp, CondGotoOp.taken]
    · rw [if_neg hzero, Option.map_eq_some_iff] at hv
      obtain ⟨v1, hv1, rfl⟩ := hv
      obtain ⟨hne, hfits1, htruth⟩ := hfits v0 hv0 hzero
      exact .inr ⟨by simp [hne, LogicOp.exitOp, CondGotoOp.taken], hfits1, v1, hv1, htruth v1 hv1⟩
  | cior =>
    obtain ⟨hfits0, hfits⟩ := hfits
    simp only [Expr.eval, Option.bind_eq_some_iff] at hv
    obtain ⟨v0, hv0, hv⟩ := hv
    refine ⟨hfits0, v0, hv0, ?_⟩
    have hfits := hfits v0 hv0
    by_cases hzero : v0 = 0
    · rw [if_neg (by simpa using hzero), Option.map_eq_some_iff] at hv
      rw [if_neg (by simpa using hzero)] at hfits
      obtain ⟨v1, hv1, rfl⟩ := hv
      refine .inr ⟨?_, hfits.1, v1, hv1, hfits.2 v1 hv1⟩
      simp [hzero, hwrap, LogicOp.exitOp, CondGotoOp.taken]
    · rw [if_pos hzero] at hv hfits
      cases hv
      left
      simp [hfits, LogicOp.exitOp, CondGotoOp.taken]

/-- What inserted code does: the new registers of `t'` that `t` does not have are written, so that
`value` is seen from now on. -/
def Evaluates (sem : Semantics Ω ω σ) (code : List (Flat Ω ω)) (first : Nat) (s : σ) (t t' : Tabs)
    (inserted after : List (Flat Ω ω)) (value : (Nat → Int) → Prop) (regs : Nat → Int) : Prop :=
  ∃ regs', Reaches sem code first (.code (inserted ++ after), s, regs) (.code after, s, regs') ∧
    (∀ i < t.pregs, regs' i = regs i) ∧
      ∀ regs'', (∀ i < t'.pregs, regs'' i = regs' i) → value regs''

mutual

lemma Expr.lowerEmbedded_evaluates (hnodup : (labels code).Nodup) (e : Expr Ω) {t t' : Tabs}
    {inserted after : List (Flat Ω ω)} {e' : FlatExpr Ω}
    (h : e.lowerEmbedded t = (inserted, e', t')) (hfirst : first ≤ t.labels)
    (hsuffix : inserted ++ after <:+ code) {v : Int} (hv : e.eval sem s = some v)
    (hfits : e.Fits sem s) (regs : Nat → Int) :
    Evaluates sem code first s t t' inserted after (fun regs => e'.eval sem s regs = some v)
      regs := by
  match e with
  | .node op opnds =>
    obtain ⟨opnds', hopnds, rfl⟩ := lowerEmbedded_node h
    simp only [Expr.eval, Option.bind_eq_some_iff] at hv
    obtain ⟨vs, hvs, hv⟩ := hv
    obtain ⟨regs', hreach, hkeep, hvalue⟩ :=
      opnds.lowerEmbedded_evaluates hnodup hopnds hfirst hsuffix hvs hfits regs
    refine ⟨regs', hreach, hkeep, fun regs'' hregs => ?_⟩
    simp only [FlatExpr.eval, hvalue regs'' hregs, Option.bind_some, hv]
  | .logic op primType opnd0 opnd1 =>
    obtain ⟨code0, opnd0', t0, code1, opnd1', h0, h1, rfl, rfl⟩ := lowerEmbedded_logic h
    obtain ⟨hfits0, v0, hv0, hcases⟩ := hfits.logic hv
    have hfresh0 := opnd0.lowerEmbedded_fresh h0
    have hfresh1 := opnd1.lowerEmbedded_fresh h1
    have hlabel : first ≤ t0.labels := hfirst.trans hfresh0.labels_le
    have hpreg : t0.pregs < t'.pregs := hfresh1.pregs_le
    unfold Evaluates
    simp only [List.append_assoc, List.cons_append, List.nil_append] at hsuffix ⊢
    obtain ⟨regs0, hreach0, hkeep0, hvalue0⟩ :=
      opnd0.lowerEmbedded_evaluates hnodup h0 hfirst hsuffix hv0 hfits0 regs
    have hcode1 : code1 ++ .regassign primType t0.pregs opnd1' :: .label t0.labels :: after <:+
        code :=
      ((List.suffix_cons _ _).trans (List.suffix_cons _ _)).trans
        ((List.suffix_append code0 _).trans hsuffix)
    have hend : .label t0.labels :: after <:+ code :=
      ((List.suffix_cons _ _).trans (List.suffix_append code1 _)).trans hcode1
    set regs1 := Function.update regs0 t0.pregs (primType.format.wrap v0)
    have hread : (FlatExpr.regread primType t0.pregs : FlatExpr Ω).eval sem s regs1 =
        some (primType.format.wrap v0) := by
      simp only [FlatExpr.eval, regs1, Function.update_self]
    have hkeep1 : ∀ i < t.pregs, regs1 i = regs i := fun i hi => by
      simp only [regs1, Function.update_of_ne (hi.trans_le hfresh0.pregs_le).ne, hkeep0 i hi]
    have htested := (hreach0.trans (reaches_regassign (hvalue0 regs0 fun _ _ => rfl))).trans
      (reaches_condGoto hread)
    obtain ⟨htaken, rfl⟩ | ⟨htaken, hfits1, v1, hv1, rfl⟩ := hcases
    · -- the left operand decides
      rw [if_pos htaken] at htested
      refine ⟨regs1, (htested.trans (reaches_jump hnodup hend)).trans (reaches_label hlabel),
        hkeep1, fun regs'' hregs => ?_⟩
      simp only [FlatExpr.eval, hregs _ hpreg, regs1, Function.update_self]
    · rw [if_neg (by rw [htaken]; decide)] at htested
      obtain ⟨regs2, hreach2, hkeep2, hvalue2⟩ :=
        opnd1.lowerEmbedded_evaluates hnodup h1 (hlabel.trans (Nat.le_succ _)) hcode1 hv1 hfits1
          regs1
      refine ⟨_, ((htested.trans hreach2).trans
        (reaches_regassign (hvalue2 regs2 fun _ _ => rfl))).trans (reaches_label hlabel),
        fun i hi => ?_, fun regs'' hregs => ?_⟩
      · have hlt := hi.trans_le hfresh0.pregs_le
        rw [Function.update_of_ne hlt.ne, hkeep2 i (hlt.trans (Nat.lt_succ_self _)), hkeep1 i hi]
      · simp only [FlatExpr.eval, hregs _ hpreg, Function.update_self]

lemma Exprs.lowerEmbedded_evaluates (hnodup : (labels code).Nodup) (es : Exprs Ω) {t t' : Tabs}
    {inserted after : List (Flat Ω ω)} {es' : FlatExprs Ω}
    (h : es.lowerEmbedded t = (inserted, es', t')) (hfirst : first ≤ t.labels)
    (hsuffix : inserted ++ after <:+ code) {vs : List Int} (hvs : es.eval sem s = some vs)
    (hfits : es.Fits sem s) (regs : Nat → Int) :
    Evaluates sem code first s t t' inserted after (fun regs => es'.eval sem s regs = some vs)
      regs := by
  match es with
  | .nil =>
    cases h
    cases hvs
    exact ⟨regs, .refl _, fun _ _ => rfl, fun _ _ => rfl⟩
  | .cons e rest =>
    obtain ⟨code0, e', t0, code1, rest', h0, h1, rfl, rfl⟩ := lowerEmbedded_cons h
    simp only [Exprs.eval, Option.bind_eq_some_iff, Option.map_eq_some_iff] at hvs
    obtain ⟨v, hv, vs', hvs', rfl⟩ := hvs
    rw [List.append_assoc] at hsuffix
    have hfresh0 := e.lowerEmbedded_fresh h0
    have hfresh1 := rest.lowerEmbedded_fresh h1
    obtain ⟨regs0, hreach0, hkeep0, hvalue0⟩ :=
      e.lowerEmbedded_evaluates hnodup h0 hfirst hsuffix hv hfits.1 regs
    obtain ⟨regs1, hreach1, hkeep1, hvalue1⟩ :=
      rest.lowerEmbedded_evaluates hnodup h1 (hfirst.trans hfresh0.labels_le)
        ((List.suffix_append code0 _).trans hsuffix) hvs' hfits.2 regs0
    refine ⟨regs1, ?_, fun i hi => ?_, fun regs'' hregs => ?_⟩
    · rw [List.append_assoc]
      exact hreach0.trans hreach1
    · rw [hkeep1 i (hi.trans_le hfresh0.pregs_le), hkeep0 i hi]
    · have hregs0 : ∀ i < t0.pregs, regs'' i = regs0 i := fun i hi => by
        rw [hregs i (hi.trans_le hfresh1.pregs_le), hkeep1 i hi]
      simp only [FlatExprs.eval, hvalue0 regs'' hregs0, hvalue1 regs'' hregs, Option.bind_some,
        Option.map_some]

end

/-! ### Branches -/

lemma Expr.RootFits.logic {cond : LogicOp} {primType : PrimType} {opnd0 opnd1 : Expr Ω} {v : Int}
    (hfits : (Expr.logic cond primType opnd0 opnd1).RootFits sem s)
    (hv : (Expr.logic cond primType opnd0 opnd1).eval sem s = some v) :
    opnd0.RootFits sem s ∧ ∃ v0, opnd0.eval sem s = some v0 ∧
      (cond.exitOp.taken (v0 ≠ 0) = true ∧ (v ≠ 0 ↔ cond = .cior) ∨
        cond.exitOp.taken (v0 ≠ 0) = false ∧ opnd1.RootFits sem s ∧
          ∃ v1, opnd1.eval sem s = some v1 ∧ (v ≠ 0 ↔ v1 ≠ 0)) := by
  have htruth : ∀ w, truth w ≠ 0 ↔ w ≠ 0 := fun w => by
    unfold truth
    split_ifs <;> simp_all
  obtain ⟨hfits0, hfits1⟩ := hfits
  refine ⟨hfits0, ?_⟩
  cases cond with
  | cand =>
    simp only [Expr.eval, Option.bind_eq_some_iff] at hv
    obtain ⟨v0, hv0, hv⟩ := hv
    refine ⟨v0, hv0, ?_⟩
    by_cases hzero : v0 = 0
    · rw [if_pos hzero] at hv
      cases hv
      left
      simp [hzero, LogicOp.exitOp, CondGotoOp.taken]
    · rw [if_neg hzero, Option.map_eq_some_iff] at hv
      obtain ⟨v1, hv1, rfl⟩ := hv
      exact .inr ⟨by simp [hzero, LogicOp.exitOp, CondGotoOp.taken], hfits1 v0 hv0 hzero, v1, hv1,
        htruth v1⟩
  | cior =>
    simp only [Expr.eval, Option.bind_eq_some_iff] at hv
    obtain ⟨v0, hv0, hv⟩ := hv
    refine ⟨v0, hv0, ?_⟩
    by_cases hzero : v0 = 0
    · rw [if_neg (by simpa using hzero), Option.map_eq_some_iff] at hv
      obtain ⟨v1, hv1, rfl⟩ := hv
      exact .inr ⟨by simp [hzero, LogicOp.exitOp, CondGotoOp.taken], hfits1 v0 hv0 hzero, v1, hv1,
        htruth v1⟩
    · rw [if_pos hzero] at hv
      cases hv
      left
      simp [hzero, LogicOp.exitOp, CondGotoOp.taken]

omit [Target] in
/-- The first branch goes to the short-circuit target if the left operand decides. It is the target
of the branch, or the code behind it. -/
lemma split_spec {cond : LogicOp} {op : CondGotoOp} {l : Nat} {next : Behind} {t : Tabs} {p : Split}
    (h : split cond op l next t = some p) :
    p.op = cond.exitOp ∧ t.labels ≤ p.tabs.labels ∧
      (p.l = l ∧ p.created = [] ∧ p.behind = next ∧ op.taken (cond = .cior) = true ∨
        op.taken (cond = .cior) = false ∧ p.behind = .label p.l ∧
          (p.created = [] ∧ next = .label p.l ∨ p.created = [p.l] ∧ t.labels ≤ p.l)) := by
  unfold split at h
  split_ifs at h with hsame
  · cases h
    cases op <;> cases cond <;> simp_all [sameTarget, LogicOp.exitOp, CondGotoOp.taken]
  · have hop : negate op = cond.exitOp ∧ op.taken (cond = .cior) = false := by
      cases op <;> cases cond <;>
        simp_all [sameTarget, LogicOp.exitOp, CondGotoOp.taken, negate]
    cases next with
    | nothing => cases h
    | label lIdx =>
      cases h
      exact ⟨hop.1, le_rfl, .inr ⟨hop.2, rfl, .inl ⟨rfl, rfl⟩⟩⟩
    | other =>
      cases h
      exact ⟨hop.1, Nat.le_succ _, .inr ⟨hop.2, rfl, .inr ⟨rfl, le_rfl⟩⟩⟩

/-- The code behind a branch begins as the statements behind it. -/
def Begins (next : Behind) (after : List (Flat Ω ω)) : Prop :=
  ∀ l, next = .label l → ∃ rest, after = .label l :: rest

lemma Expr.lowerBranch_reaches (hnodup : (labels code).Nodup) (e : Expr Ω) {op : CondGotoOp}
    {l : Nat} {next : Behind} {t t' : Tabs} {inserted after : List (Flat Ω ω)}
    (h : e.lowerBranch op l next t = some (inserted, t')) (hfirst : first ≤ t.labels)
    (hsuffix : inserted ++ after <:+ code) (hnext : Begins next after) {v : Int}
    (hv : e.eval sem s = some v) (hfits : e.RootFits sem s) (regs : Nat → Int) :
    ∃ regs', Reaches sem code first (.code (inserted ++ after), s, regs)
      (if op.taken (v ≠ 0) then .jump l else .code after, s, regs') := by
  match e with
  | .node o opnds =>
    cases h
    rw [List.append_assoc] at hsuffix ⊢
    obtain ⟨regs', hreach, -, hvalue⟩ :=
      (Expr.node o opnds).lowerEmbedded_evaluates hnodup rfl hfirst hsuffix hv hfits regs
    exact ⟨regs', hreach.trans (reaches_condGoto (hvalue regs' fun _ _ => rfl))⟩
  | .logic cond primType opnd0 opnd1 =>
    obtain ⟨p, code0, t1, code1, hp, h0, h1, rfl⟩ := lowerBranch_logic h
    obtain ⟨hop, htabs, hp'⟩ := split_spec hp
    obtain ⟨hfits0, v0, hv0, hcases⟩ := hfits.logic hv
    have hfirst0 : first ≤ p.tabs.labels := hfirst.trans htabs
    have hfirst1 : first ≤ t1.labels := hfirst0.trans (opnd0.lowerBranch_fresh h0).labels_le
    simp only [List.append_assoc] at hsuffix ⊢
    have hsuffix1 := (List.suffix_append code0 _).trans hsuffix
    have hend := (List.suffix_append code1 _).trans hsuffix1
    obtain ⟨regs0, hreach0⟩ :=
      opnd0.lowerBranch_reaches hnodup h0 hfirst0 hsuffix (fun _ hl => by cases hl) hv0 hfits0 regs
    -- a created label is passed
    have hpass : ∀ regs, Reaches sem code first (.code (p.created.map .label ++ after), s, regs)
        (.code after, s, regs) := by
      intro regs
      obtain ⟨-, hcreated, -⟩ | ⟨-, -, ⟨hcreated, -⟩ | ⟨hcreated, hle⟩⟩ := hp'
      · rw [hcreated]
        exact .refl _
      · rw [hcreated]
        exact .refl _
      · rw [hcreated]
        exact reaches_label (hfirst.trans hle)
    have hbegins : Begins p.behind (p.created.map .label ++ after) := by
      intro lIdx hl
      obtain ⟨-, hcreated, hbehind, -⟩ | ⟨-, hbehind, ⟨hcreated, hlabel⟩ | ⟨hcreated, -⟩⟩ := hp'
      · rw [hcreated]
        exact hnext lIdx (hbehind ▸ hl)
      · rw [hbehind] at hl
        cases hl
        rw [hcreated]
        exact hnext p.l hlabel
      · rw [hbehind] at hl
        cases hl
        rw [hcreated]
        exact ⟨after, rfl⟩
    rw [hop] at hreach0
    obtain ⟨htaken, hcior⟩ | ⟨htaken, hfits1, v1, hv1, htruth⟩ := hcases
    · -- the left operand decides
      rw [if_pos htaken] at hreach0
      have hv' : op.taken (v ≠ 0) = op.taken (cond = .cior) := by
        simp only [hcior]
      refine ⟨regs0, ?_⟩
      obtain ⟨hl, -, -, hsame⟩ | ⟨hnot, hbehind, -⟩ := hp'
      · rw [hv', hsame, if_pos rfl]
        exact hl ▸ hreach0
      · rw [hv', hnot, if_neg (by decide)]
        obtain ⟨rest, hrest⟩ := hbegins p.l hbehind
        rw [hrest] at hend
        exact (hreach0.trans (reaches_jump hnodup hend)).trans (hrest ▸ hpass regs0)
    · rw [if_neg (by rw [htaken]; decide)] at hreach0
      obtain ⟨regs1, hreach1⟩ :=
        opnd1.lowerBranch_reaches hnodup h1 hfirst1 hsuffix1 hbegins hv1 hfits1 regs0
      refine ⟨regs1, hreach0.trans (hreach1.trans ?_)⟩
      simp only [htruth]
      split_ifs
      · exact .refl _
      · exact hpass regs1

/-! ### Statements and jumps -/

/-- The labels of the block are in the label table, and none is there twice. -/
structure WellFormed (block : List (Stmt Ω ω)) (first : Nat) : Prop where
  nodup : (stmtLabels block).Nodup
  labels_lt : ∀ l ∈ stmtLabels block, l < first
  targets_lt : ∀ op opnd l, .condGoto op opnd l ∈ block → l < first

/-- The other statements jump to labels of the label table. -/
def Semantics.JumpsBelow (sem : Semantics Ω ω σ) (first : Nat) : Prop :=
  ∀ a vs s l, (sem.exec a vs s).2 = .jump l → l < first

/-- A place of the block and its place in the code. -/
inductive Follows (block : List (Stmt Ω ω)) (code : List (Flat Ω ω)) (first : Nat) :
    Place (Stmt Ω ω) → Place (Flat Ω ω) → Prop
  | code {rest : List (Stmt Ω ω)} {t t' : Tabs} {rest' : List (Flat Ω ω)}
    (h : lowerStmts rest t = some (rest', t')) (hfirst : first ≤ t.labels)
    (hblock : rest <:+ block) (hcode : rest' <:+ code) :
    Follows block code first (.code rest) (.code rest')
  | jump {l : Nat} (hl : l < first) : Follows block code first (.jump l) (.jump l)
  | stop : Follows block code first .stop .stop

variable {block : List (Stmt Ω ω)}

omit [Target] in
lemma begins_lowerStmts {rest : List (Stmt Ω ω)} {t t' : Tabs} {rest' : List (Flat Ω ω)}
    (h : lowerStmts rest t = some (rest', t')) : Begins (behind rest) rest' := by
  intro l hl
  cases rest with
  | nil => cases hl
  | cons stmt rest =>
    cases stmt with
    | label l' =>
      cases hl
      obtain ⟨code0, t0, code1, hstmt, -, rfl⟩ := lowerStmts_cons h
      cases hstmt
      exact ⟨code1, rfl⟩
    | condGoto | other => cases hl

omit [Target] in
lemma find_lowerStmts {l : Nat} (hl : l < first) {rest : List (Stmt Ω ω)} {t t' : Tabs}
    {rest' : List (Flat Ω ω)} (h : lowerStmts rest t = some (rest', t')) (hfirst : first ≤ t.labels)
    (hblock : rest <:+ block) (hcode : rest' <:+ code) :
    (findStmt l rest = none ∧ findFlat l rest' = none) ∨
      ∃ found found', findStmt l rest = some found ∧ findFlat l rest' = some found' ∧
        Follows block code first (.code found) (.code found') := by
  induction rest generalizing t rest' with
  | nil =>
    cases h
    exact .inl ⟨rfl, rfl⟩
  | cons stmt rest ih =>
    obtain ⟨code0, t0, code1, hstmt, hrest, rfl⟩ := lowerStmts_cons h
    have hfresh := stmt.lower_fresh hstmt
    have hrec := ih hrest (hfirst.trans hfresh.labels_le) ((List.suffix_cons _ _).trans hblock)
      ((List.suffix_append code0 _).trans hcode)
    -- no created label is looked for
    have hcreated : stmtLabels [stmt] = [] → l ∉ labels code0 := by
      intro hnone
      have hcount := hfresh.count l
      rw [hnone, if_neg (by omega)] at hcount
      exact List.count_eq_zero.mp hcount
    cases stmt with
    | label l' =>
      cases hstmt
      by_cases heq : l' = l
      · refine .inr ⟨.label l' :: rest, .label l' :: code1, ?_, ?_, .code h hfirst hblock hcode⟩
        · rw [findStmt, if_pos heq]
        · rw [List.singleton_append, findFlat, if_pos heq]
      · rw [findStmt, if_neg heq, List.singleton_append, findFlat, if_neg heq]
        exact hrec
    | condGoto | other =>
      rw [findFlat_append (hcreated rfl)]
      exact hrec

lemma jump_follows (sem : Semantics Ω ω σ) (s : σ) {t t' : Tabs}
    (hlower : lowerStmts block t = some (code, t')) (hfirst : t.labels = first) {l : Nat}
    (hl : l < first) (regs : Nat → Int) :
    (findStmt l block = none ∧ findFlat l code = none) ∨
      ∃ found found', findStmt l block = some found ∧
        Reaches sem code first (.jump l, s, regs) (.code found', s, regs) ∧
          Follows block code first (.code found) (.code found') := by
  obtain hnone | ⟨found, found', hfound, hflat, hfollows⟩ :=
    find_lowerStmts hl hlower hfirst.ge List.suffix_rfl List.suffix_rfl
  · exact .inl hnone
  · exact .inr ⟨found, found', hfound, .one (by simp only [flatMove, hflat]), hfollows⟩

lemma step_follows (hwf : WellFormed block first) (hjumps : sem.JumpsBelow first) {pregs : Nat}
    {tabs : Tabs} (hlower : lowerStmts block ⟨first, pregs⟩ = some (code, tabs))
    {c c' : Place (Stmt Ω ω) × σ} {p : Place (Flat Ω ω)} {e : List (Event ω)}
    (hfollows : Follows block code first c.1 p) (hfits : Fits sem c)
    (hmove : move sem block c = .step e c') (regs : Nat → Int) :
    ∃ n p' regs', Runs (flatMove sem code first) (p, c.2, regs) n e (p', c'.2, regs') ∧
      Follows block code first c'.1 p' := by
  have hnodup : (labels code).Nodup := lowerStmts_nodup hlower hwf.nodup hwf.labels_lt
  obtain ⟨place, s⟩ := c
  cases hfollows with
  | jump hl =>
    obtain ⟨hnone, -⟩ | ⟨found, found', hfound, ⟨n, hruns⟩, hfollows⟩ :=
      jump_follows sem s hlower rfl hl regs
    · simp only [move, hnone] at hmove
      cases hmove
    · simp only [move, hfound] at hmove
      cases hmove
      exact ⟨n, _, regs, hruns, hfollows⟩
  | stop => cases hmove
  | @code rest t t' rest' h hfirst hblock hcode =>
    cases rest with
    | nil => cases hmove
    | cons stmt rest =>
      obtain ⟨code0, t0, code1, hstmt, hrest, rfl⟩ := lowerStmts_cons h
      have hfollows : Follows block code first (.code rest) (.code code1) :=
        .code hrest (hfirst.trans (stmt.lower_fresh hstmt).labels_le)
          ((List.suffix_cons _ _).trans hblock) ((List.suffix_append code0 _).trans hcode)
      have hmem : stmt ∈ block := hblock.subset List.mem_cons_self
      cases stmt with
      | label l =>
        cases hstmt
        cases hmove
        have hl : l < first := hwf.labels_lt l (List.mem_filterMap.mpr ⟨_, hmem, rfl⟩)
        refine ⟨1, .code code1, regs, Runs.one ?_, hfollows⟩
        simp only [List.singleton_append, flatMove, if_pos hl]
      | condGoto op opnd l =>
        cases hv : opnd.eval sem s with
        | none =>
          simp only [move, hv] at hmove
          cases hmove
        | some v =>
          simp only [move, hv] at hmove
          cases hmove
          obtain ⟨regs', n, hruns⟩ := opnd.lowerBranch_reaches hnodup hstmt hfirst hcode
            (begins_lowerStmts hrest) hv hfits regs
          refine ⟨n, _, regs', hruns, ?_⟩
          split_ifs
          · exact .jump (hwf.targets_lt op opnd l hmem)
          · exact hfollows
      | other a opnds =>
        cases hvs : opnds.eval sem s with
        | none =>
          simp only [move, hvs] at hmove
          cases hmove
        | some vs =>
          simp only [move, hvs] at hmove
          cases hmove
          cases hstmt
          rw [List.append_assoc] at hcode
          obtain ⟨regs', ⟨n, hruns⟩, -, hvalue⟩ :=
            opnds.lowerEmbedded_evaluates hnodup rfl hfirst hcode hvs hfits regs
          have hexec : flatMove sem code first
              (.code (.other a (opnds.lowerEmbedded (ω := ω) t).2.1 :: code1), s, regs') =
              .step [.stmt a vs] ((sem.exec a vs s).2.place code1, (sem.exec a vs s).1, regs') := by
            simp only [flatMove, hvalue regs' fun _ _ => rfl]
          refine ⟨n + 1, (sem.exec a vs s).2.place code1, regs', ?_, ?_⟩
          · rw [List.append_assoc]
            exact hruns.trans (Runs.one hexec)
          · cases hnext : (sem.exec a vs s).2 with
            | fall => exact hfollows
            | jump l => exact .jump (hjumps a vs s l hnext)
            | stop => exact .stop

lemma final_follows {t t' : Tabs} (hlower : lowerStmts block t = some (code, t'))
    (hfirst : t.labels = first) {c : Place (Stmt Ω ω) × σ} {p : Place (Flat Ω ω)} {o : Exit σ}
    (hfollows : Follows block code first c.1 p) (hmove : move sem block c = .final o)
    (ho : o ≠ .fails) (regs : Nat → Int) :
    flatMove sem code first (p, c.2, regs) = .final o := by
  obtain ⟨place, s⟩ := c
  cases hfollows with
  | @jump l hl =>
    obtain ⟨hnone, hflat⟩ | ⟨found, -, hfound, -⟩ :=
      jump_follows sem s hlower hfirst hl regs
    · simp only [move, hnone] at hmove
      cases hmove
      simp only [flatMove, hflat]
    · simp only [move, hfound] at hmove
      cases hmove
  | stop =>
    cases hmove
    rfl
  | @code rest t t' rest' h hfirst hblock hcode =>
    cases rest with
    | nil =>
      cases h
      cases hmove
      rfl
    | cons stmt rest =>
      cases stmt with
      | label l => cases hmove
      | condGoto op opnd l =>
        cases hv : opnd.eval sem s <;> simp only [move, hv] at hmove <;> cases hmove
        exact absurd rfl ho
      | other a opnds =>
        cases hvs : opnds.eval sem s <;> simp only [move, hvs] at hmove <;> cases hmove
        exact absurd rfl ho

/-! ### The result -/

/-- The loop dereferences a missing next statement if the last statement is a branch that needs one,
and otherwise it ends. Every run of the block in which the operands fit is matched by a run of the
code with the same labels, statements, operand values and states, which ends as the block does. -/
theorem lowerCandCior_correct (hwf : WellFormed block first) (pregs : Nat) :
    (lacksNext block = true →
      Outcome.Settles (lowerCandCior block ⟨first, pregs⟩) .assertionFailed) ∧
    (lacksNext block = false → ∃ code tabs,
      Outcome.Settles (lowerCandCior block ⟨first, pregs⟩) (.done (code, tabs)) ∧
      ∀ (sem : Semantics Ω ω σ), sem.JumpsBelow first → ∀ s regs n t c,
        RunsIn (Fits sem) (move sem block) (.code block, s) n t c →
          ∃ m p regs', Runs (flatMove sem code first) (.code code, s, regs) m t (p, c.2, regs') ∧
            ∀ o, move sem block c = .final o → o ≠ .fails →
              flatMove sem code first (p, c.2, regs') = .final o) := by
  obtain ⟨hsome, hnone⟩ := lowerLoop_settles block [] ⟨first, pregs⟩
  refine ⟨fun hlacks => hnone ((lowerStmts_eq_none_iff block _).mpr hlacks), fun hlacks => ?_⟩
  cases hlower : lowerStmts block ⟨first, pregs⟩ with
  | none =>
    rw [lowerStmts_eq_none_iff, hlacks] at hlower
    cases hlower
  | some lowered =>
    obtain ⟨code, tabs⟩ := lowered
    refine ⟨code, tabs, hsome code tabs hlower, fun sem hjumps s regs n t c hruns => ?_⟩
    have hstep : ∀ (c : Place (Stmt Ω ω) × σ) (d : Place (Flat Ω ω) × σ × (Nat → Int)) e c',
        d.2.1 = c.2 ∧ Follows block code first c.1 d.1 → Fits sem c →
          move sem block c = .step e c' → ∃ n d', Runs (flatMove sem code first) d n e d' ∧
            d'.2.1 = c'.2 ∧ Follows block code first c'.1 d'.1 := by
      rintro c ⟨p, s, regs⟩ e c' ⟨rfl, hfollows⟩ hfits hmove
      obtain ⟨n, p', regs', hruns, hfollows'⟩ :=
        step_follows hwf hjumps hlower hfollows hfits hmove regs
      exact ⟨n, _, hruns, rfl, hfollows'⟩
    obtain ⟨m, ⟨p, s', regs'⟩, hflat, hs, hfollows⟩ := hruns.simulate hstep
      (.code code, s, regs) ⟨rfl, .code hlower le_rfl List.suffix_rfl List.suffix_rfl⟩
    obtain rfl : s' = c.2 := hs
    exact ⟨m, p, regs', hflat, fun o hmove ho => final_follows hlower rfl hfollows hmove ho regs'⟩

/-! ### Examples -/

/-- Constants, and one statement that reads its operands and stops. -/
def constants : Semantics Int Unit Unit where
  eval c _ _ := some c
  exec _ _ s := (s, .stop)

def const (c : Int) : Expr Int := .node c .nil

def answer (e : Expr Int) : Stmt Int Unit := .other () (.cons e .nil)

/-- `brfalse (0 || 2) @0`, `answer (3 && 1)`, `@0`. -/
def fittingBlock : List (Stmt Int Unit) :=
  [.condGoto .brfalse (.logic .cior .i32 (const 0) (const 2)) 0,
    answer (.logic .cand .i32 (const 3) (const 1)), .label 0]

omit [Target] in
lemma fittingBlock_wellFormed : WellFormed fittingBlock 1 where
  nodup := (by decide : [0].Nodup)
  labels_lt := (by decide : ∀ l ∈ [0], l < 1)
  targets_lt op opnd l h := by
    simp only [fittingBlock, answer, List.mem_cons, Stmt.condGoto.injEq, reduceCtorEq,
      List.not_mem_nil, or_false] at h
    omega

omit [Target] in
/-- The answer is 1 after the lowering too. -/
theorem lowerCandCior_correct_fittingBlock :
    letI := Target.lp64
    ∃ code tabs, Outcome.Settles (lowerCandCior fittingBlock ⟨1, 0⟩) (.done (code, tabs)) ∧
      ∃ m p regs, Runs (flatMove constants code 1) (.code code, (), fun _ => 0) m [.stmt () [1]]
        (p, (), regs) ∧ flatMove constants code 1 (p, (), regs) = .final (.stops ()) := by
  let _ := Target.lp64
  obtain ⟨code, tabs, hsettles, hruns⟩ := (lowerCandCior_correct fittingBlock_wellFormed 0).2 rfl
  have hjumps : constants.JumpsBelow 1 := fun _ _ _ _ h => by cases h
  have hbranch : Fits constants (.code fittingBlock, ()) := ⟨trivial, fun _ _ _ => trivial⟩
  have hanswer : Fits constants (.code fittingBlock.tail, ()) := by
    refine ⟨⟨trivial, fun v hv _ => ?_⟩, trivial⟩
    cases hv
    refine ⟨by decide, trivial, fun w hw => ?_⟩
    cases hw
    decide
  have hstep : move constants fittingBlock (.code fittingBlock, ()) =
      .step [] (.code fittingBlock.tail, ()) := rfl
  have hstep' : move constants fittingBlock (.code fittingBlock.tail, ()) =
      .step [.stmt () [1]] (.stop, ()) := rfl
  obtain ⟨m, p, regs, hflat, hfinal⟩ := hruns constants hjumps () (fun _ => 0) 2 [.stmt () [1]]
    (.stop, ()) (.cons hbranch hstep (.cons hanswer hstep' (.refl _)))
  exact ⟨code, tabs, hsettles, m, p, regs, hflat, hfinal _ rfl nofun⟩

/-- `answer (2 && 4)`. -/
def rawBlock : List (Stmt Int Unit) := [answer (.logic .cand .i32 (const 2) (const 4))]

/-- The lowered code of `rawBlock`. -/
def rawCode : List (Flat Int Unit) :=
  [.regassign .i32 0 (.node 2 .nil), .condGoto .brfalse (.regread .i32 0) 0,
    .regassign .i32 0 (.node 4 .nil), .label 0, .other () (.cons (.regread .i32 0) .nil)]

omit [Target] in
/-- The register of an embedded operator has the right operand itself: the answer is 4 instead of 1.
And a branch at the end whose short-circuit target is the next statement does not find one. -/
theorem lowerCandCior_rawOperand :
    letI := Target.lp64
    WellFormed rawBlock 0 ∧ Ends (move constants rawBlock) (.code rawBlock, ()) [.stmt () [1]]
        (.stops ()) ∧
      Outcome.Settles (lowerCandCior rawBlock ⟨0, 0⟩) (.done (rawCode, ⟨1, 1⟩)) ∧
      Ends (flatMove constants rawCode 0) (.code rawCode, (), fun _ => 0) [.stmt () [4]]
        (.stops ()) ∧
      Outcome.Settles (lowerCandCior ([.condGoto .brfalse
        (.logic .cior .i32 (const 0) (const 1)) 0] : List (Stmt Int Unit)) ⟨1, 0⟩)
          .assertionFailed := by
  let _ := Target.lp64
  refine ⟨⟨List.nodup_nil, nofun, fun _ _ _ h => by simp [rawBlock, answer] at h⟩, ?_, ?_, ?_, ?_⟩
  · have hstep : move constants rawBlock (.code rawBlock, ()) =
        .step [.stmt () [1]] (.stop, ()) := rfl
    exact ⟨1, _, .one hstep, rfl⟩
  · refine ⟨nofun, 2, fun fuel hfuel => ?_⟩
    obtain ⟨k, rfl⟩ : ∃ k, fuel = k + 2 := ⟨fuel - 2, by omega⟩
    rfl
  · let step := flatMove constants rawCode 0
    let regs1 : Nat → Int := Function.update (fun _ => 0) 0 (PrimType.i32.format.wrap 2)
    let regs2 : Nat → Int := Function.update regs1 0 (PrimType.i32.format.wrap 4)
    have hassign : step (.code rawCode, (), fun _ => 0) =
        .step [] (.code (rawCode.drop 1), (), regs1) := rfl
    have htest : step (.code (rawCode.drop 1), (), regs1) =
        .step [] (.code (rawCode.drop 2), (), regs1) := by
      have hne : PrimType.i32.format.wrap 2 ≠ 0 := by decide
      simp [step, rawCode, flatMove, FlatExpr.eval, regs1, hne, CondGotoOp.taken]
    have hassign' : step (.code (rawCode.drop 2), (), regs1) =
        .step [] (.code (rawCode.drop 3), (), regs2) := rfl
    have hlabel : step (.code (rawCode.drop 3), (), regs2) =
        .step [] (.code (rawCode.drop 4), (), regs2) := rfl
    have hanswer : step (.code (rawCode.drop 4), (), regs2) =
        .step [.stmt () [PrimType.i32.format.wrap 4]] (.stop, (), regs2) := rfl
    rw [show PrimType.i32.format.wrap 4 = 4 by decide] at hanswer
    exact ⟨_, _, (Runs.one hassign).trans ((Runs.one htest).trans ((Runs.one hassign').trans
      ((Runs.one hlabel).trans (Runs.one hanswer)))), rfl⟩
  · refine ⟨nofun, 1, fun fuel hfuel => ?_⟩
    obtain ⟨k, rfl⟩ : ∃ k, fuel = k + 1 := ⟨fuel - 1, by omega⟩
    rfl

end CandCior
end Maple
