import Maple.IR.MIRLower.Basic
import Mathlib.Data.List.Basic
import Mathlib.Tactic.SplitIfs

/-!
# The shapes of lowered statements and their labels
-/

namespace Maple
namespace MIRLower

variable {α β ρ : Type*} {doVarPType : DoVar → PrimType} {keepWhile : Bool}

/-! ### No fall-through -/

/-- The last statement exists and is believed not to fall through. -/
def EndsNoFall (stmts : List (Flat α β ρ)) : Prop := ifStmtNoFallThrough (some stmts) = some true

@[simp] lemma not_endsNoFall_nil : ¬EndsNoFall ([] : List (Flat α β ρ)) := by
  simp [EndsNoFall, ifStmtNoFallThrough]

@[simp] lemma endsNoFall_singleton {x : Flat α β ρ} :
    EndsNoFall [x] ↔ x.opCodeNoFallThrough = true := by
  simp [EndsNoFall, ifStmtNoFallThrough]

@[simp] lemma endsNoFall_append_cons {xs ys : List (Flat α β ρ)} {y : Flat α β ρ} :
    EndsNoFall (xs ++ y :: ys) ↔ EndsNoFall (y :: ys) := by
  simp [EndsNoFall, ifStmtNoFallThrough, List.getLast?_append]

@[simp] lemma endsNoFall_cons_append_cons {xs ys : List (Flat α β ρ)} {x y : Flat α β ρ} :
    EndsNoFall (x :: (xs ++ y :: ys)) ↔ EndsNoFall (y :: ys) := by
  rw [← List.cons_append, endsNoFall_append_cons]

@[simp] lemma endsNoFall_cons_cons {ys : List (Flat α β ρ)} {x y : Flat α β ρ} :
    EndsNoFall (x :: y :: ys) ↔ EndsNoFall (y :: ys) := by
  simp [EndsNoFall, ifStmtNoFallThrough]

lemma not_endsNoFall_label (xs : List (Flat α β ρ)) (l : Nat) :
    ¬EndsNoFall (xs ++ [.label l]) := by
  simp [Flat.opCodeNoFallThrough]

lemma EndsNoFall.append {xs ys : List (Flat α β ρ)} (h : EndsNoFall (xs ++ ys)) :
    EndsNoFall xs ∨ EndsNoFall ys := by
  cases ys with
  | nil =>
    rw [List.append_nil] at h
    exact Or.inl h
  | cons y ys => exact Or.inr (endsNoFall_append_cons.mp h)

lemma EndsNoFall.of_append {xs ys : List (Flat α β ρ)} (h : EndsNoFall (xs ++ ys))
    (hne : ys ≠ []) : EndsNoFall ys := by
  cases ys with
  | nil => exact absurd rfl hne
  | cons y ys => exact endsNoFall_append_cons.mp h

/-! ### If statements -/

/-- The code of an `if` with the first label `l` from the code of its parts. -/
inductive IfShape (opnd : Expr β) (l : Nat) :
    List (Flat α β ρ) → List (Flat α β ρ) → List (Flat α β ρ) → Nat → Prop where
  | eval : IfShape opnd l [] [] [.eval opnd] l
  | brFalse (ts : List (Flat α β ρ)) :
    IfShape opnd l ts [] (.condGoto .brfalse opnd l :: (ts ++ [.label l])) (l + 1)
  | brTrue (es : List (Flat α β ρ)) :
    IfShape opnd l [] es (.condGoto .brtrue opnd l :: (es ++ [.label l])) (l + 1)
  | noGoto (ts es : List (Flat α β ρ)) (h : EndsNoFall ts) :
    IfShape opnd l ts es (.condGoto .brfalse opnd l :: (ts ++ .label l :: es)) (l + 1)
  | goto (ts es : List (Flat α β ρ)) :
    IfShape opnd l ts es (.condGoto .brfalse opnd l ::
      (ts ++ .goto (l + 1) :: .label l :: (es ++ [.label (l + 1)]))) (l + 2)

lemma lowerPart_eq (p : Part α β ρ) (next : Nat) :
    lowerPart doVarPType keepWhile p next =
      (lowerBlock doVarPType keepWhile p.toBlock next).map fun r =>
        (match p with | .null => none | .block _ => some r.1, r.2) := by
  cases p with
  | null => simp [lowerPart, Part.toBlock, lowerBlock]
  | block b =>
    simp only [lowerPart, Part.toBlock]
    cases lowerBlock doVarPType keepWhile b next with
    | none => rfl
    | some r => rfl

lemma Part.toBlock_eq_nil {p : Part α β ρ} : p.toBlock = .nil ↔ p.isEmpty = true := by
  cases p with
  | null => simp [Part.toBlock, Part.isEmpty]
  | block b => cases b <;> simp [Part.toBlock, Part.isEmpty, Block.isEmpty]

lemma Part.exists_block {p : Part α β ρ} (h : p.isEmpty = false) : ∃ b, p = .block b := by
  cases p with
  | null => cases h
  | block b => exact ⟨b, rfl⟩

/-- The code of a then part whose else part is null or not empty must not be empty if the part is
not. -/
def PartsLower (thenPart elsePart : Part α β ρ) (ts : List (Flat α β ρ)) : Prop :=
  thenPart.isEmpty = false → ts = [] → elsePart = .block .nil

lemma lowerIfStmt_else_empty {opnd : Expr β} {ts : List (Flat α β ρ)} {l : Nat} :
    lowerIfStmt opnd false true (some ts) none l =
      (if ts = [] then none
        else some (.condGoto .brfalse opnd l :: (ts ++ [.label l]), l + 1)) ∧
    lowerIfStmt opnd false true (some ts) (some []) l =
      some (.condGoto .brfalse opnd l :: (ts ++ [.label l]), l + 1) := by
  cases ts with
  | nil => exact ⟨rfl, rfl⟩
  | cons x xs => exact ⟨rfl, rfl⟩

lemma lowerIfStmt_both (opnd : Expr β) (ts es : List (Flat α β ρ)) (l : Nat) :
    (ts = [] ∧ lowerIfStmt opnd false false (some ts) (some es) l = none) ∨
      ∃ fs n', lowerIfStmt opnd false false (some ts) (some es) l = some (fs, n') ∧
        ts ≠ [] ∧ IfShape opnd l ts es fs n' := by
  cases ts with
  | nil => exact Or.inl ⟨rfl, rfl⟩
  | cons x xs =>
    right
    obtain ⟨b, hb⟩ : ∃ b, ifStmtNoFallThrough (some (x :: xs)) = some b :=
      ⟨_, by simp only [ifStmtNoFallThrough, Option.bind_some, List.getLast?_cons, Option.map_some]; rfl⟩
    simp only [lowerIfStmt, Bool.and_self, Bool.false_eq_true, if_false, createBrFalseAndGotoStmt,
      createCondGotoStmt, branchPart, hb]
    cases b with
    | true => exact ⟨_, _, rfl, List.cons_ne_nil x xs, .noGoto (x :: xs) es hb⟩
    | false => exact ⟨_, _, rfl, List.cons_ne_nil x xs, .goto (x :: xs) es⟩

lemma lowerStmt_ifStmt {opnd : Expr β} {thenPart elsePart : Part α β ρ}
    {ts es : List (Flat α β ρ)} {n₀ n₁ l : Nat}
    (hts : lowerBlock doVarPType keepWhile thenPart.toBlock n₀ = some (ts, n₁))
    (hes : lowerBlock doVarPType keepWhile elsePart.toBlock n₁ = some (es, l)) :
    (¬PartsLower thenPart elsePart ts ∧
      lowerStmt doVarPType keepWhile (.ifStmt opnd thenPart elsePart) n₀ = none) ∨
    (PartsLower thenPart elsePart ts ∧ ∃ fs n',
      lowerStmt doVarPType keepWhile (.ifStmt opnd thenPart elsePart) n₀ = some (fs, n') ∧
      IfShape opnd l ts es fs n') := by
  have hempty : ∀ {p : Part α β ρ} {n n' : Nat} {fs : List (Flat α β ρ)},
      p.isEmpty = true → lowerBlock doVarPType keepWhile p.toBlock n = some (fs, n') → fs = [] := by
    intro p n n' fs hp h
    rw [Part.toBlock_eq_nil.mpr hp, lowerBlock] at h
    cases h
    rfl
  simp only [lowerStmt, lowerPart_eq, hts, hes, Option.map_some, Option.bind_eq_bind,
    Option.bind_some]
  by_cases hthen : thenPart.isEmpty = true
  · have := hempty hthen hts
    subst this
    refine Or.inr ⟨fun h => absurd h (by simp [hthen]), ?_⟩
    by_cases helse : elsePart.isEmpty = true
    · have := hempty helse hes
      subst this
      simp only [lowerIfStmt, hthen, helse]
      exact ⟨_, _, rfl, .eval⟩
    · obtain ⟨b, rfl⟩ := Part.exists_block (by simpa using helse)
      have hbranch : ∀ part, branchPart
          (match thenPart with | .null => none | .block _ => some ([] : List (Flat α β ρ)))
          part = part := by
        intro part
        cases thenPart with
        | null => rfl
        | block b => rfl
      simp only [lowerIfStmt, hthen, Bool.not_eq_true _ ▸ helse, createBrStmt, createCondGotoStmt,
        hbranch]
      exact ⟨_, _, rfl, .brTrue es⟩
  · obtain ⟨b, rfl⟩ := Part.exists_block (by simpa using hthen)
    have hfalse : (Part.block b).isEmpty = false := by simpa using hthen
    rw [hfalse]
    cases elsePart with
    | null =>
      have := hempty rfl hes
      subst this
      by_cases hnil : ts = []
      · refine Or.inl ⟨fun h => absurd (h hfalse hnil) (by simp), ?_⟩
        exact lowerIfStmt_else_empty.1.trans (if_pos hnil)
      · refine Or.inr ⟨fun _ hnil' => absurd hnil' hnil, ?_⟩
        exact ⟨_, _, lowerIfStmt_else_empty.1.trans (if_neg hnil), .brFalse ts⟩
    | block b' =>
      cases b' with
      | nil =>
        have := hempty rfl hes
        subst this
        exact Or.inr ⟨fun _ _ => rfl, _, _, lowerIfStmt_else_empty.2, .brFalse ts⟩
      | cons stmt rest =>
        rcases lowerIfStmt_both opnd ts es l with
          ⟨hnil, hnone⟩ | ⟨fs, n', hsome, hne, hshape⟩
        · exact Or.inl ⟨fun h => absurd (h hfalse hnil) (by simp), hnone⟩
        · exact Or.inr ⟨fun _ hnil => absurd hnil hne, fs, n', hsome, hshape⟩

/-! ### Which bodies are lowered -/

mutual

/-- Blocks in blocks, without any other statement. -/
def Stmt.hollow : Stmt α β ρ → Bool
  | .block b => b.hollow
  | _ => false

def Block.hollow : Block α β ρ → Bool
  | .nil => true
  | .cons stmt rest => stmt.hollow && rest.hollow

end

mutual

/-- No `if` has a then part that holds blocks without any other statement, unless its else part is a
block without statements. -/
def Stmt.Solid : Stmt α β ρ → Prop
  | .ifStmt _ thenPart elsePart =>
    thenPart.Solid ∧ elsePart.Solid ∧
      (thenPart.isEmpty = false → thenPart.toBlock.hollow = true → elsePart = .block .nil)
  | .whileStmt _ b | .dowhile b _ | .doloop _ _ _ _ b | .block b => b.Solid
  | .simple _ | .goto _ | .ret _ | .label _ | .condGoto _ _ _ => True

def Block.Solid : Block α β ρ → Prop
  | .nil => True
  | .cons stmt rest => stmt.Solid ∧ rest.Solid

def Part.Solid : Part α β ρ → Prop
  | .null => True
  | .block b => b.Solid

end

lemma IfShape.ne_nil {opnd : Expr β} {l n' : Nat} {ts es fs : List (Flat α β ρ)}
    (h : IfShape opnd l ts es fs n') : fs ≠ [] := by
  cases h <;> simp

lemma lowerWhileStmt_ne_nil (opnd : Expr β) (body : List (Flat α β ρ)) (l : Nat) :
    (lowerWhileStmt keepWhile opnd body l).1 ≠ [] := by
  unfold lowerWhileStmt
  split_ifs <;> simp

section Lowers

variable (doVarPType keepWhile)

mutual

/-- A solid statement is lowered, and to nothing only if it is hollow. -/
theorem lowerStmt_cases : ∀ (st : Stmt α β ρ) (n : Nat),
    (¬st.Solid ∧ lowerStmt doVarPType keepWhile st n = none) ∨
    (st.Solid ∧ ∃ fs n', lowerStmt doVarPType keepWhile st n = some (fs, n') ∧
      (fs = [] ↔ st.hollow = true))
  | .simple a, n => .inr ⟨trivial, _, _, rfl, by simp [Stmt.hollow]⟩
  | .goto l, n => .inr ⟨trivial, _, _, rfl, by simp [Stmt.hollow]⟩
  | .ret r, n => .inr ⟨trivial, _, _, rfl, by simp [Stmt.hollow]⟩
  | .label l, n => .inr ⟨trivial, _, _, rfl, by simp [Stmt.hollow]⟩
  | .condGoto op opnd l, n => .inr ⟨trivial, _, _, rfl, by simp [Stmt.hollow]⟩
  | .whileStmt opnd b, n => by
    rcases lowerBlock_cases b n with ⟨hsolid, hnone⟩ | ⟨hsolid, fs, n', hsome, -⟩
    · exact .inl ⟨hsolid, by simp [lowerStmt, hnone]⟩
    · refine .inr ⟨hsolid, (lowerWhileStmt keepWhile opnd fs n').1,
        (lowerWhileStmt keepWhile opnd fs n').2, by simp [lowerStmt, hsome], ?_⟩
      simp [lowerWhileStmt_ne_nil, Stmt.hollow]
  | .dowhile b opnd, n => by
    rcases lowerBlock_cases b n with ⟨hsolid, hnone⟩ | ⟨hsolid, fs, n', hsome, -⟩
    · exact .inl ⟨hsolid, by simp [lowerStmt, hnone]⟩
    · refine .inr ⟨hsolid, _, _, by simp only [lowerStmt, hsome]; rfl, ?_⟩
      simp [Stmt.hollow]
  | .doloop doVar startExpr condExpr incrExpr b, n => by
    rcases lowerBlock_cases b n with ⟨hsolid, hnone⟩ | ⟨hsolid, fs, n', hsome, -⟩
    · exact .inl ⟨hsolid, by simp [lowerStmt, hnone]⟩
    · refine .inr ⟨hsolid, _, _, by simp only [lowerStmt, hsome]; rfl, ?_⟩
      simp [Stmt.hollow]
  | .block b, n => lowerBlock_cases b n
  | .ifStmt opnd thenPart elsePart, n => by
    have hnone : ∀ n, lowerPart doVarPType keepWhile thenPart n = none ∨
        (∃ r, lowerPart doVarPType keepWhile thenPart n = some r ∧
          lowerPart doVarPType keepWhile elsePart r.2 = none) →
        lowerStmt doVarPType keepWhile (.ifStmt opnd thenPart elsePart) n = none := by
      rintro n (h | ⟨r, h, h'⟩)
      · simp [lowerStmt, h]
      · simp [lowerStmt, h, h']
    rcases lowerPart_cases thenPart n with ⟨hs, hn⟩ | ⟨hts, ts, n₁, hlt, hhollow⟩
    · refine .inl ⟨fun h => hs h.1, hnone n (.inl ?_)⟩
      rw [lowerPart_eq, hn, Option.map_none]
    rcases lowerPart_cases elsePart n₁ with ⟨hs, hn⟩ | ⟨hes, es, n₂, hle, -⟩
    · refine .inl ⟨fun h => hs h.2.1, hnone n (.inr ?_)⟩
      simp only [lowerPart_eq, hlt, Option.map_some]
      refine ⟨_, rfl, ?_⟩
      change Option.map _ (lowerBlock doVarPType keepWhile elsePart.toBlock n₁) = none
      rw [hn, Option.map_none]
    rcases lowerStmt_ifStmt hlt hle with ⟨hparts, hn⟩ | ⟨hparts, fs, n', hsome, hshape⟩
    · refine .inl ⟨fun h => hparts ?_, hn⟩
      intro hempty hnil
      exact h.2.2 hempty (hhollow.mp hnil)
    · refine .inr ⟨⟨hts, hes, ?_⟩, fs, n', hsome, ?_⟩
      · exact fun hempty hh => hparts hempty (hhollow.mpr hh)
      · simp [hshape.ne_nil, Stmt.hollow]

theorem lowerBlock_cases : ∀ (b : Block α β ρ) (n : Nat),
    (¬b.Solid ∧ lowerBlock doVarPType keepWhile b n = none) ∨
    (b.Solid ∧ ∃ fs n', lowerBlock doVarPType keepWhile b n = some (fs, n') ∧
      (fs = [] ↔ b.hollow = true))
  | .nil, n => .inr ⟨trivial, _, _, rfl, by simp [Block.hollow]⟩
  | .cons stmt rest, n => by
    rcases lowerStmt_cases stmt n with ⟨hs, hn⟩ | ⟨hs, fs, n₁, hstmt, hh⟩
    · exact .inl ⟨fun h => hs h.1, by simp [lowerBlock, hn]⟩
    rcases lowerBlock_cases rest n₁ with ⟨hs', hn⟩ | ⟨hs', fb, n₂, hrest, hh'⟩
    · exact .inl ⟨fun h => hs' h.2, by simp [lowerBlock, hstmt, hn]⟩
    · refine .inr ⟨⟨hs, hs'⟩, fs ++ fb, n₂, by simp [lowerBlock, hstmt, hrest], ?_⟩
      rw [List.append_eq_nil_iff, hh, hh', Block.hollow, Bool.and_eq_true]

theorem lowerPart_cases : ∀ (p : Part α β ρ) (n : Nat),
    (¬p.Solid ∧ lowerBlock doVarPType keepWhile p.toBlock n = none) ∨
    (p.Solid ∧ ∃ fs n', lowerBlock doVarPType keepWhile p.toBlock n = some (fs, n') ∧
      (fs = [] ↔ p.toBlock.hollow = true))
  | .null, n => .inr ⟨trivial, _, _, rfl, by simp [Part.toBlock, Block.hollow]⟩
  | .block b, n => lowerBlock_cases b n

end

end Lowers

/-! ### Where code comes from -/

lemma lowerStmt_ifStmt_inv {opnd : Expr β} {thenPart elsePart : Part α β ρ}
    {fs : List (Flat α β ρ)} {n n' : Nat}
    (h : lowerStmt doVarPType keepWhile (.ifStmt opnd thenPart elsePart) n = some (fs, n')) :
    ∃ ts n₁ es l, lowerBlock doVarPType keepWhile thenPart.toBlock n = some (ts, n₁) ∧
      lowerBlock doVarPType keepWhile elsePart.toBlock n₁ = some (es, l) ∧
      IfShape opnd l ts es fs n' := by
  obtain ⟨ts, n₁, es, l, hts, hes⟩ : ∃ ts n₁ es l,
      lowerBlock doVarPType keepWhile thenPart.toBlock n = some (ts, n₁) ∧
      lowerBlock doVarPType keepWhile elsePart.toBlock n₁ = some (es, l) := by
    simp only [lowerStmt, lowerPart_eq, Option.bind_eq_bind, Option.bind_eq_some_iff,
      Option.map_eq_some_iff] at h
    obtain ⟨-, ⟨⟨ts, n₁⟩, hts, rfl⟩, -, ⟨⟨es, l⟩, hes, rfl⟩, -⟩ := h
    exact ⟨ts, n₁, es, l, hts, hes⟩
  refine ⟨ts, n₁, es, l, hts, hes, ?_⟩
  rcases lowerStmt_ifStmt hts hes with ⟨-, hnone⟩ | ⟨-, fs', n'', hsome, hshape⟩
  · rw [hnone] at h
    cases h
  · rw [hsome] at h
    cases h
    exact hshape

lemma lowerStmt_whileStmt_inv {opnd : Expr β} {b : Block α β ρ} {fs : List (Flat α β ρ)}
    {n n' : Nat} (h : lowerStmt doVarPType keepWhile (.whileStmt opnd b) n = some (fs, n')) :
    ∃ body l, lowerBlock doVarPType keepWhile b n = some (body, l) ∧
      lowerWhileStmt keepWhile opnd body l = (fs, n') := by
  simpa [lowerStmt, Option.bind_eq_some_iff] using h

lemma lowerStmt_dowhile_inv {opnd : Expr β} {b : Block α β ρ} {fs : List (Flat α β ρ)}
    {n n' : Nat} (h : lowerStmt doVarPType keepWhile (.dowhile b opnd) n = some (fs, n')) :
    ∃ body l, lowerBlock doVarPType keepWhile b n = some (body, l) ∧
      lowerDowhileStmt opnd body l = (fs, n') := by
  simpa [lowerStmt, Option.bind_eq_some_iff] using h

lemma lowerStmt_doloop_inv {doVar : DoVar} {startExpr condExpr incrExpr : Expr β}
    {b : Block α β ρ} {fs : List (Flat α β ρ)} {n n' : Nat}
    (h : lowerStmt doVarPType keepWhile (.doloop doVar startExpr condExpr incrExpr b) n =
      some (fs, n')) :
    ∃ body l, lowerBlock doVarPType keepWhile b n = some (body, l) ∧
      lowerDoloopStmt doVarPType doVar startExpr condExpr incrExpr body l = (fs, n') := by
  simpa [lowerStmt, Option.bind_eq_some_iff] using h

lemma lowerBlock_cons_inv {stmt : Stmt α β ρ} {rest : Block α β ρ} {fs : List (Flat α β ρ)}
    {n n' : Nat} (h : lowerBlock doVarPType keepWhile (.cons stmt rest) n = some (fs, n')) :
    ∃ xs n₁ ys, lowerStmt doVarPType keepWhile stmt n = some (xs, n₁) ∧
      lowerBlock doVarPType keepWhile rest n₁ = some (ys, n') ∧ fs = xs ++ ys := by
  simp only [lowerBlock, Option.bind_eq_bind, Option.bind_eq_some_iff] at h
  obtain ⟨⟨xs, n₁⟩, hxs, ⟨ys, n₂⟩, hys, heq⟩ := h
  cases heq
  exact ⟨xs, n₁, ys, hxs, hys, rfl⟩

lemma not_endsNoFall_lowerWhileStmt (opnd : Expr β) (body : List (Flat α β ρ)) (l : Nat) :
    ¬EndsNoFall (lowerWhileStmt keepWhile opnd body l).1 := by
  unfold lowerWhileStmt
  split_ifs <;> simp [Flat.opCodeNoFallThrough]

lemma not_endsNoFall_lowerDowhileStmt (opnd : Expr β) (body : List (Flat α β ρ)) (l : Nat) :
    ¬EndsNoFall (lowerDowhileStmt opnd body l).1 := by
  simp [lowerDowhileStmt, Flat.opCodeNoFallThrough]

lemma not_endsNoFall_lowerDoloopStmt (doVar : DoVar) (startExpr condExpr incrExpr : Expr β)
    (body : List (Flat α β ρ)) (l : Nat) :
    ¬EndsNoFall (lowerDoloopStmt doVarPType doVar startExpr condExpr incrExpr body l).1 := by
  simp [lowerDoloopStmt, Flat.opCodeNoFallThrough]

/-! ### Labels -/

mutual

/-- The labels that a body defines or jumps to are in the label table. -/
def Stmt.LabelsLt (n : Nat) : Stmt α β ρ → Prop
  | .goto l | .label l | .condGoto _ _ l => l < n
  | .ifStmt _ thenPart elsePart => thenPart.LabelsLt n ∧ elsePart.LabelsLt n
  | .whileStmt _ b | .dowhile b _ | .doloop _ _ _ _ b | .block b => b.LabelsLt n
  | .simple _ | .ret _ => True

def Block.LabelsLt (n : Nat) : Block α β ρ → Prop
  | .nil => True
  | .cons stmt rest => stmt.LabelsLt n ∧ rest.LabelsLt n

def Part.LabelsLt (n : Nat) : Part α β ρ → Prop
  | .null => True
  | .block b => b.LabelsLt n

end

/-- The labels that code defines. -/
def labels : List (Flat α β ρ) → List Nat
  | [] => []
  | .label l :: rest => l :: labels rest
  | _ :: rest => labels rest

@[simp] lemma labels_append (xs ys : List (Flat α β ρ)) :
    labels (xs ++ ys) = labels xs ++ labels ys := by
  induction xs with
  | nil => rfl
  | cons x xs ih => cases x <;> simp [labels, ih]

/-- Code defines each label between `n` and `n'` once and no other label from `n₀` on. -/
def Fresh (n₀ n n' : Nat) (code : List (Flat α β ρ)) : Prop :=
  n ≤ n' ∧ ∀ l, n₀ ≤ l → (labels code).count l = if n ≤ l ∧ l < n' then 1 else 0

lemma Fresh.of_labels_nil {n₀ n : Nat} {code : List (Flat α β ρ)} (h : labels code = []) :
    Fresh n₀ n n code := by
  refine ⟨le_refl n, ?_⟩
  intro l _
  rw [h, List.count_nil, if_neg (by omega)]

lemma Fresh.append {n₀ n n₁ n' : Nat} {xs ys : List (Flat α β ρ)} (h : Fresh n₀ n n₁ xs)
    (h' : Fresh n₀ n₁ n' ys) : Fresh n₀ n n' (xs ++ ys) := by
  refine ⟨h.1.trans h'.1, ?_⟩
  intro l hl
  have hle := h.1
  have hle' := h'.1
  rw [labels_append, List.count_append, h.2 l hl, h'.2 l hl]
  split_ifs <;> omega

lemma IfShape.fresh {opnd : Expr β} {l n' n n₁ n₀ : Nat} {ts es fs : List (Flat α β ρ)}
    (h : IfShape opnd l ts es fs n') (ht : Fresh n₀ n n₁ ts) (he : Fresh n₀ n₁ l es) :
    Fresh n₀ n n' fs := by
  have hle := ht.1
  have hle' := he.1
  cases h with
  | eval =>
    refine ⟨hle.trans hle', ?_⟩
    intro k hk
    have := (ht.append he).2 k hk
    simpa [labels] using this
  | brFalse =>
    refine ⟨by omega, ?_⟩
    intro k hk
    have := (ht.append he).2 k hk
    rw [List.append_nil] at this
    simp only [labels, labels_append, List.count_append, this, List.count_singleton, beq_iff_eq]
    split_ifs <;> omega
  | brTrue =>
    refine ⟨by omega, ?_⟩
    intro k hk
    have := (ht.append he).2 k hk
    rw [List.nil_append] at this
    simp only [labels, labels_append, List.count_append, this, List.count_singleton, beq_iff_eq]
    split_ifs <;> omega
  | noGoto =>
    refine ⟨by omega, ?_⟩
    intro k hk
    simp only [labels, labels_append, List.count_append, ht.2 k hk, he.2 k hk, List.count_cons,
      beq_iff_eq]
    split_ifs <;> omega
  | goto =>
    refine ⟨by omega, ?_⟩
    intro k hk
    simp only [labels, labels_append, List.count_append, ht.2 k hk, he.2 k hk, List.count_cons,
      List.count_nil, beq_iff_eq]
    split_ifs <;> omega

section Lowers

variable (doVarPType keepWhile) {n₀ : Nat}

mutual

theorem lowerStmt_fresh : ∀ (st : Stmt α β ρ) {n n' : Nat} {fs : List (Flat α β ρ)},
    lowerStmt doVarPType keepWhile st n = some (fs, n') → st.LabelsLt n₀ → n₀ ≤ n →
    Fresh n₀ n n' fs
  | .simple a, _, _, _, h, _, _ => by
    cases h
    exact .of_labels_nil rfl
  | .goto l, _, _, _, h, _, _ => by
    cases h
    exact .of_labels_nil rfl
  | .ret r, _, _, _, h, _, _ => by
    cases h
    exact .of_labels_nil rfl
  | .condGoto op opnd l, _, _, _, h, _, _ => by
    cases h
    exact .of_labels_nil rfl
  | .label l, n, n', fs, h, hlt, hn => by
    cases h
    refine ⟨le_refl n, ?_⟩
    intro k hk
    have hlt' : l < n₀ := hlt
    simp only [labels, List.count_singleton, beq_iff_eq]
    split_ifs <;> omega
  | .ifStmt opnd thenPart elsePart, n, n', fs, h, hlt, hn => by
    obtain ⟨ts, n₁, es, l, hts, hes, hshape⟩ := lowerStmt_ifStmt_inv h
    have ht := lowerPart_fresh thenPart hts hlt.1 hn
    exact hshape.fresh ht (lowerPart_fresh elsePart hes hlt.2 (hn.trans ht.1))
  | .whileStmt opnd b, n, n', fs, h, hlt, hn => by
    obtain ⟨body, l, hbody, hfs⟩ := lowerStmt_whileStmt_inv h
    have hb := lowerBlock_fresh b hbody hlt hn
    have hle := hb.1
    unfold lowerWhileStmt at hfs
    split_ifs at hfs
    · cases hfs
      refine ⟨by omega, ?_⟩
      intro k hk
      simp only [labels, labels_append, List.count_append, hb.2 k hk, List.count_cons,
        List.count_nil, beq_iff_eq]
      split_ifs <;> omega
    · cases hfs
      refine ⟨by omega, ?_⟩
      intro k hk
      simp only [labels, labels_append, List.count_append, hb.2 k hk, List.count_cons,
        List.count_nil, beq_iff_eq]
      split_ifs <;> omega
  | .dowhile b opnd, n, n', fs, h, hlt, hn => by
    obtain ⟨body, l, hbody, hfs⟩ := lowerStmt_dowhile_inv h
    have hb := lowerBlock_fresh b hbody hlt hn
    have hle := hb.1
    cases hfs
    refine ⟨by omega, ?_⟩
    intro k hk
    simp only [labels, labels_append, List.count_append, hb.2 k hk, List.count_cons,
      List.count_nil, beq_iff_eq]
    split_ifs <;> omega
  | .doloop doVar startExpr condExpr incrExpr b, n, n', fs, h, hlt, hn => by
    obtain ⟨body, l, hbody, hfs⟩ := lowerStmt_doloop_inv h
    have hb := lowerBlock_fresh b hbody hlt hn
    have hle := hb.1
    cases hfs
    refine ⟨by omega, ?_⟩
    intro k hk
    have hstart : ∀ code : List (Flat α β ρ),
        labels (startAssign doVarPType doVar startExpr :: code) = labels code := by
      intro code
      cases doVar <;> rfl
    have hend : ∀ code : List (Flat α β ρ),
        labels (endAssign doVarPType doVar incrExpr :: code) = labels code := by
      intro code
      cases doVar <;> rfl
    simp only [hstart, hend, labels, labels_append, List.count_append, hb.2 k hk, List.count_cons,
      List.count_nil, beq_iff_eq]
    split_ifs <;> omega
  | .block b, _, _, _, h, hlt, hn => lowerBlock_fresh b h hlt hn

theorem lowerBlock_fresh : ∀ (b : Block α β ρ) {n n' : Nat} {fs : List (Flat α β ρ)},
    lowerBlock doVarPType keepWhile b n = some (fs, n') → b.LabelsLt n₀ → n₀ ≤ n →
    Fresh n₀ n n' fs
  | .nil, _, _, _, h, _, _ => by
    cases h
    exact .of_labels_nil rfl
  | .cons stmt rest, n, n', fs, h, hlt, hn => by
    obtain ⟨xs, n₁, ys, hxs, hys, rfl⟩ := lowerBlock_cons_inv h
    have hx := lowerStmt_fresh stmt hxs hlt.1 hn
    exact hx.append (lowerBlock_fresh rest hys hlt.2 (hn.trans hx.1))

theorem lowerPart_fresh : ∀ (p : Part α β ρ) {n n' : Nat} {fs : List (Flat α β ρ)},
    lowerBlock doVarPType keepWhile p.toBlock n = some (fs, n') → p.LabelsLt n₀ → n₀ ≤ n →
    Fresh n₀ n n' fs
  | .null, _, _, _, h, _, _ => by
    cases h
    exact .of_labels_nil rfl
  | .block b, _, _, _, h, hlt, hn => lowerBlock_fresh b h hlt hn

end

end Lowers

/-- Lowered code defines every new label of the label table once. -/
theorem lowerBlock_newLabels {b : Block α β ρ} {n n' : Nat} {fs : List (Flat α β ρ)}
    (h : lowerBlock doVarPType keepWhile b n = some (fs, n')) (hlt : b.LabelsLt n) :
    n ≤ n' ∧ ∀ l, n ≤ l → (labels fs).count l = if l < n' then 1 else 0 := by
  obtain ⟨hle, hcount⟩ := lowerBlock_fresh doVarPType keepWhile b h hlt le_rfl
  refine ⟨hle, ?_⟩
  intro l hl
  rw [hcount l hl]
  simp [hl]

theorem lowerBlock_newLabels_whileStmt :
    let body : Block Nat Nat Unit := .cons (.whileStmt (.leaf 0) .nil) .nil
    ∃ fs, lowerBlock (fun _ => .i32) true body 0 = some (fs, 2) ∧ (labels fs).count 1 = 1 := by
  intro body
  have h : lowerBlock (fun _ => .i32) true body 0 = some (_, 2) := rfl
  have hlt : body.LabelsLt 0 := by simp [body, Block.LabelsLt, Stmt.LabelsLt]
  exact ⟨_, h, (lowerBlock_newLabels h hlt).2 1 (by decide)⟩

end MIRLower
end Maple
