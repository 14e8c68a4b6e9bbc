import Maple.Lib.ForwardCode

/-!
# Branch statements and the lowering of `if`

The statements that the lowering of branches emits, over an arbitrary type `κ` of conditions, and
`MIRLower::LowerIfStmt` for parts that are lowered already (`recursive` is off). Labels are
indices into the label table of the function: `CreateLabel` hands out the next index.
-/

namespace Maple

abbrev LabelIdx := Nat

structure RangeGotoNode where
  tagOffset : Int
  rangegotoTable : List (Nat × LabelIdx)
  deriving DecidableEq, Repr

inductive Stmt (κ : Type*) where
  | goto (l : LabelIdx)
  | brtrue (c : κ) (l : LabelIdx)
  | brfalse (c : κ) (l : LabelIdx)
  | rangegoto (node : RangeGotoNode)
  | label (l : LabelIdx)
  | eval (c : κ)
  deriving DecidableEq, Repr

open ForwardCode

variable {κ σ : Type*}

/-- What a statement does, given the truth of conditions and the entry that a `rangegoto`
selects by position. A position outside of the table selects nothing. -/
def Stmt.toInstr (holds : κ → σ → Bool) (entry : RangeGotoNode → σ → Nat) :
    Stmt κ → Instr σ LabelIdx
  | .goto l => .goto l
  | .brtrue c l => .branch (holds c) l
  | .brfalse c l => .branch (fun s => !holds c s) l
  | .rangegoto node => .select fun s => (node.rangegotoTable[entry node s]?).map Prod.snd
  | .label l => .label l
  | .eval _ => .skip

/-- The labels that a piece of code places. -/
def Stmt.placed : List (Stmt κ) → List LabelIdx
  | [] => []
  | .label l :: c => l :: placed c
  | _ :: c => placed c

@[simp] lemma Stmt.placed_append (a b : List (Stmt κ)) :
    Stmt.placed (a ++ b) = Stmt.placed a ++ Stmt.placed b := by
  induction a with
  | nil => rfl
  | cons s a ih => cases s <;> simp [Stmt.placed, ih]

/-- `OpCodeNoFallThrough` of the last statement of a block. -/
def endsInGoto : List (Stmt κ) → Bool
  | [] => false
  | [.goto _] => true
  | _ :: c => endsInGoto c

/-- `MIRLower::LowerIfStmt`; `n` is the next free label. -/
def lowerIfStmt (cond : κ) (thenPart elsePart : List (Stmt κ)) (n : LabelIdx) :
    List (Stmt κ) × LabelIdx :=
  if thenPart = [] ∧ elsePart = [] then
    ([.eval cond], n)
  else if elsePart = [] then
    (.brfalse cond n :: thenPart ++ [.label n], n + 1)
  else if thenPart = [] then
    (.brtrue cond n :: elsePart ++ [.label n], n + 1)
  else if endsInGoto thenPart then
    (.brfalse cond n :: thenPart ++ .label n :: elsePart, n + 1)
  else
    (.brfalse cond n :: thenPart ++ .goto (n + 1) :: .label n :: elsePart ++ [.label (n + 1)],
      n + 2)

/-! ### Execution -/

section Exec

variable (holds : κ → σ → Bool) (entry : RangeGotoNode → σ → Nat)

def Stmt.exec (s : σ) (c : List (Stmt κ)) : Outcome LabelIdx :=
  ForwardCode.exec s (c.map (Stmt.toInstr holds entry))

lemma labels_map_toInstr (c : List (Stmt κ)) :
    labels (c.map (Stmt.toInstr holds entry)) = Stmt.placed c := by
  induction c with
  | nil => rfl
  | cons st c ih => cases st <;> simp [labels, Stmt.placed, Stmt.toInstr, ih]

/-- Code that places only labels of `[lo, hi)` and leaves only to labels below `n₀`. -/
structure Scoped (n₀ lo hi : Nat) (c : List (Stmt κ)) : Prop where
  placed_mem : ∀ l : Nat, l ∈ Stmt.placed c → lo ≤ l ∧ l < hi
  exits_lt : ∀ s (l : Nat), Stmt.exec holds entry s c = .leave l → l < n₀

variable {holds entry} {n₀ lo mid hi : Nat} {a b : List (Stmt κ)}

lemma exec_append_of_not_mem (s : σ)
    (h : ∀ l, Stmt.exec holds entry s a = .leave l → l ∉ Stmt.placed b) :
    Stmt.exec holds entry s (a ++ b) =
      match Stmt.exec holds entry s a with
      | .fall => Stmt.exec holds entry s b
      | o => o := by
  unfold Stmt.exec at h ⊢
  rw [List.map_append]
  cases ha : ForwardCode.exec s (a.map (Stmt.toInstr holds entry)) with
  | fall => exact exec_append_of_fall ha
  | stuck => exact exec_append_of_stuck ha
  | leave l =>
    refine exec_append_of_leave ha ?_
    rw [labels_map_toInstr]
    exact h l ha

lemma exec_append_scoped (s : σ) (hn : n₀ ≤ lo)
    (ha : ∀ l : Nat, Stmt.exec holds entry s a = .leave l → l < n₀)
    (hb : ∀ l : Nat, l ∈ Stmt.placed b → lo ≤ l) :
    Stmt.exec holds entry s (a ++ b) =
      match Stmt.exec holds entry s a with
      | .fall => Stmt.exec holds entry s b
      | o => o := by
  refine exec_append_of_not_mem s fun l hleave hl => ?_
  have := ha l hleave
  have := hb l hl
  omega

lemma Scoped.append (hn : n₀ ≤ lo) (hlm : lo ≤ mid) (hmh : mid ≤ hi)
    (ha : Scoped holds entry n₀ lo mid a) (hb : Scoped holds entry n₀ mid hi b) :
    Scoped holds entry n₀ lo hi (a ++ b) where
  placed_mem l hl := by
    rcases List.mem_append.mp (Stmt.placed_append a b ▸ hl) with h | h
    · have := ha.placed_mem l h
      omega
    · have := hb.placed_mem l h
      omega
  exits_lt s l h := by
    rw [exec_append_scoped s (by omega) (ha.exits_lt s)
      (fun l hl => (hb.placed_mem l hl).1)] at h
    cases hea : Stmt.exec holds entry s a with
    | fall => exact hb.exits_lt s l (by simpa [hea] using h)
    | stuck => simp [hea] at h
    | leave l' => exact ha.exits_lt s l (by simpa [hea] using h)

lemma Scoped.mono {lo' hi' : Nat} (h : Scoped holds entry n₀ lo hi a) (hlo : lo' ≤ lo)
    (hhi : hi ≤ hi') : Scoped holds entry n₀ lo' hi' a where
  placed_mem l hl := by
    have := h.placed_mem l hl
    omega
  exits_lt := h.exits_lt

lemma exec_ne_fall_of_endsInGoto (s : σ) (h : endsInGoto a = true) :
    Stmt.exec holds entry s a ≠ .fall := by
  suffices ∀ m, run s m (a.map (Stmt.toInstr holds entry)) ≠ .fall from this none
  induction a with
  | nil => simp [endsInGoto] at h
  | cons st a ih =>
    cases a with
    | nil =>
      cases st with
      | goto l =>
        intro m
        cases m <;> simp [Stmt.toInstr, run]
      | _ => simp [endsInGoto] at h
    | cons st' a =>
      have ih := ih (by cases st <;> simpa [endsInGoto] using h)
      intro m
      rw [List.map_cons]
      generalize (st' :: a).map (Stmt.toInstr holds entry) = c at ih
      cases m <;> cases st <;> simp only [Stmt.toInstr, run]
      all_goals (try split)
      all_goals first | exact ih _ | simp

lemma run_some_append_label (s : σ) {l : LabelIdx} (h : l ∉ Stmt.placed a) :
    run s (some l) ((a ++ .label l :: b).map (Stmt.toInstr holds entry)) =
      Stmt.exec holds entry s b := by
  rw [List.map_append, run_append, run_some_of_not_mem s (by rwa [labels_map_toInstr])]
  simp [Stmt.toInstr, run, Stmt.exec, ForwardCode.exec]

lemma exec_brfalse_cons (s : σ) (c : κ) (l : LabelIdx) :
    Stmt.exec holds entry s (.brfalse c l :: a) =
      if holds c s then Stmt.exec holds entry s a
      else run s (some l) (a.map (Stmt.toInstr holds entry)) := by
  by_cases h : holds c s <;> simp [Stmt.exec, ForwardCode.exec, Stmt.toInstr, run, h]

lemma exec_brtrue_cons (s : σ) (c : κ) (l : LabelIdx) :
    Stmt.exec holds entry s (.brtrue c l :: a) =
      if holds c s then run s (some l) (a.map (Stmt.toInstr holds entry))
      else Stmt.exec holds entry s a := by
  by_cases h : holds c s <;> simp [Stmt.exec, ForwardCode.exec, Stmt.toInstr, run, h]

lemma exec_nil (s : σ) : Stmt.exec holds entry s ([] : List (Stmt κ)) = .fall := rfl

/-- A lowered `if` executes the part that its condition selects. -/
theorem exec_lowerIfStmt (cond : κ) {thenPart elsePart : List (Stmt κ)} {n : Nat} (hn : n₀ ≤ lo)
    (hln : lo ≤ n) (ht : Scoped holds entry n₀ lo n thenPart)
    (he : Scoped holds entry n₀ lo n elsePart) (s : σ) :
    Stmt.exec holds entry s (lowerIfStmt cond thenPart elsePart n).1 =
      if holds cond s then Stmt.exec holds entry s thenPart
      else Stmt.exec holds entry s elsePart := by
  have not_placed : ∀ {c : List (Stmt κ)}, Scoped holds entry n₀ lo n c →
      ∀ l : Nat, n ≤ l → l ∉ Stmt.placed c := fun hc l hl hmem => by
    have := hc.placed_mem l hmem
    omega
  have close : ∀ {c : List (Stmt κ)}, Scoped holds entry n₀ lo n c → ∀ l : Nat, n ≤ l →
      Stmt.exec holds entry s (c ++ [.label l]) = Stmt.exec holds entry s c := fun hc l hl => by
    rw [exec_append_scoped s hn (hc.exits_lt s)
      (by simp only [Stmt.placed, List.mem_singleton]; omega)]
    cases Stmt.exec holds entry s _ <;> rfl
  unfold lowerIfStmt
  by_cases hboth : thenPart = [] ∧ elsePart = []
  · simp [hboth, Stmt.exec, ForwardCode.exec, Stmt.toInstr, run]
  rw [if_neg hboth]
  by_cases helse : elsePart = []
  · rw [if_pos helse, List.cons_append, exec_brfalse_cons, close ht n (Nat.le_refl n),
      run_some_append_label s (not_placed ht n (Nat.le_refl n)), helse]
  rw [if_neg helse]
  by_cases hthen : thenPart = []
  · rw [if_pos hthen, List.cons_append, exec_brtrue_cons, close he n (Nat.le_refl n),
      run_some_append_label s (not_placed he n (Nat.le_refl n)), hthen]
  rw [if_neg hthen]
  by_cases hgoto : endsInGoto thenPart = true
  · rw [if_pos hgoto, List.cons_append, exec_brfalse_cons,
      run_some_append_label s (not_placed ht n (Nat.le_refl n))]
    congr 1
    -- a then part that ends in a `goto` never reaches the label behind it
    rw [exec_append_scoped s hn (ht.exits_lt s)]
    · cases h : Stmt.exec holds entry s thenPart with
      | fall => exact absurd h (exec_ne_fall_of_endsInGoto s hgoto)
      | leave l => rfl
      | stuck => rfl
    · intro l hl
      rcases List.mem_cons.mp hl with rfl | hl
      · exact hln
      · exact (he.placed_mem l hl).1
  · rw [if_neg hgoto]
    have hskip : n ∉ Stmt.placed (thenPart ++ [.goto (n + 1)]) := by
      rw [Stmt.placed_append]
      simpa [Stmt.placed] using not_placed ht n (Nat.le_refl n)
    have hjump : run s (some n) ((thenPart ++ [Stmt.goto (n + 1)] ++
        Stmt.label n :: (elsePart ++ [Stmt.label (n + 1)])).map (Stmt.toInstr holds entry)) = _ :=
      run_some_append_label s hskip
    simp only [List.append_assoc, List.cons_append, List.nil_append,
      close he (n + 1) (Nat.le_succ n)] at hjump
    rw [List.cons_append, List.cons_append, exec_brfalse_cons]
    simp only [List.append_assoc, List.cons_append, hjump]
    congr 1
    rw [exec_append_scoped s hn (ht.exits_lt s)]
    · cases Stmt.exec holds entry s thenPart with
      | fall =>
        have hskip' : n + 1 ∉ Stmt.placed (.label n :: elsePart) := by
          simp only [Stmt.placed, List.mem_cons, not_or]
          exact ⟨Nat.succ_ne_self n, not_placed he (n + 1) (Nat.le_succ n)⟩
        have : run s (some (n + 1)) ((Stmt.label n :: elsePart ++ Stmt.label (n + 1) :: []).map
            (Stmt.toInstr holds entry)) = _ := run_some_append_label s hskip'
        simpa [Stmt.exec, ForwardCode.exec, Stmt.toInstr, run] using this
      | leave l => rfl
      | stuck => rfl
    · intro l hl
      simp only [Stmt.placed, Stmt.placed_append, List.mem_cons, List.mem_append,
        List.not_mem_nil, or_false] at hl
      rcases hl with rfl | hl | rfl
      · exact hln
      · exact (he.placed_mem l hl).1
      · omega

lemma placed_lowerIfStmt {cond : κ} {thenPart elsePart : List (Stmt κ)} {n : Nat} (l : Nat)
    (h : l ∈ Stmt.placed (lowerIfStmt cond thenPart elsePart n).1) :
    l ∈ Stmt.placed thenPart ∨ l ∈ Stmt.placed elsePart ∨
      n ≤ l ∧ l < (lowerIfStmt cond thenPart elsePart n).2 := by
  unfold lowerIfStmt at h ⊢
  split_ifs at h ⊢ <;>
    simp only [Stmt.placed, List.cons_append, Stmt.placed_append, List.mem_append, List.mem_cons,
      List.not_mem_nil, or_false] at h
  · rcases h with h | rfl
    · exact Or.inl h
    · exact Or.inr (Or.inr ⟨Nat.le_refl _, Nat.lt_succ_self _⟩)
  · rcases h with h | rfl
    · exact Or.inr (Or.inl h)
    · exact Or.inr (Or.inr ⟨Nat.le_refl _, Nat.lt_succ_self _⟩)
  · rcases h with h | rfl | h
    · exact Or.inl h
    · exact Or.inr (Or.inr ⟨Nat.le_refl _, Nat.lt_succ_self _⟩)
    · exact Or.inr (Or.inl h)
  · rcases h with (h | rfl | h) | rfl
    · exact Or.inl h
    · exact Or.inr (Or.inr ⟨Nat.le_refl _, Nat.lt_add_of_pos_right Nat.two_pos⟩)
    · exact Or.inr (Or.inl h)
    · exact Or.inr (Or.inr ⟨Nat.le_succ _, Nat.lt_succ_self _⟩)

lemma le_lowerIfStmt (cond : κ) (thenPart elsePart : List (Stmt κ)) (n : Nat) :
    n ≤ (lowerIfStmt cond thenPart elsePart n).2 := by
  unfold lowerIfStmt
  split_ifs <;> simp

lemma Scoped.lowerIfStmt {cond : κ} {thenPart elsePart : List (Stmt κ)} {n : Nat} (hn : n₀ ≤ lo)
    (hln : lo ≤ n) (ht : Scoped holds entry n₀ lo n thenPart)
    (he : Scoped holds entry n₀ lo n elsePart) :
    Scoped holds entry n₀ lo (Maple.lowerIfStmt cond thenPart elsePart n).2
      (Maple.lowerIfStmt cond thenPart elsePart n).1 where
  placed_mem l hl := by
    have hle := le_lowerIfStmt cond thenPart elsePart n
    rcases placed_lowerIfStmt l hl with h | h | h
    · have := ht.placed_mem l h
      omega
    · have := he.placed_mem l h
      omega
    · omega
  exits_lt s l h := by
    rw [exec_lowerIfStmt cond hn hln ht he] at h
    split at h
    · exact ht.exits_lt s l h
    · exact he.exits_lt s l h

end Exec

end Maple
