import Mathlib.Order.Basic
import Mathlib.Tactic.Cases

/-!
# Loops and recursion with assertions

A loop or a recursive function runs with a bound on its rounds, so that termination is the fact that
every large enough bound gives the same outcome. A run may stop with a failed assertion.
-/

namespace Maple

/-- What a bounded run ends with. -/
inductive Outcome (σ : Type*) where
  | done (s : σ)
  | assertionFailed
  | outOfFuel
  deriving DecidableEq, Repr

namespace Outcome

variable {σ : Type*}

/-- A computation without a loop. -/
def ofOption : Option σ → Outcome σ
  | none => assertionFailed
  | some s => done s

@[simp] lemma ofOption_ne_outOfFuel (o : Option σ) : ofOption o ≠ outOfFuel := by
  cases o <;> simp [ofOption]

@[simp] lemma ofOption_eq_done_iff {o : Option σ} {s : σ} : ofOption o = done s ↔ o = some s := by
  cases o <;> simp [ofOption]

/-- One computation after the other. -/
def bind {τ : Type*} (o : Outcome σ) (f : σ → Outcome τ) : Outcome τ :=
  match o with
  | done s => f s
  | assertionFailed => assertionFailed
  | outOfFuel => outOfFuel

variable {τ : Type*}

@[simp] lemma bind_done (s : σ) (f : σ → Outcome τ) : (done s).bind f = f s := rfl

@[simp] lemma bind_assertionFailed (f : σ → Outcome τ) :
    (assertionFailed : Outcome σ).bind f = assertionFailed := rfl

lemma bind_eq_done_iff {o : Outcome σ} {f : σ → Outcome τ} {t : τ} :
    o.bind f = done t ↔ ∃ s, o = done s ∧ f s = done t := by
  cases o <;> simp [bind]

/-! ### Termination -/

/-- The run has the outcome `o` for every large enough bound. -/
def Settles (run : Nat → Outcome σ) (o : Outcome σ) : Prop :=
  o ≠ outOfFuel ∧ ∃ n, ∀ fuel, n ≤ fuel → run fuel = o

/-- The run ends. -/
def Terminates (run : Nat → Outcome σ) : Prop := ∃ o, Settles run o

lemma settles_const {o : Outcome σ} (h : o ≠ outOfFuel) : Settles (fun _ => o) o :=
  ⟨h, 0, fun _ _ => rfl⟩

lemma Settles.of_add {run : Nat → Outcome σ} {o : Outcome σ} (k : Nat)
    (h : Settles (fun fuel => run (fuel + k)) o) : Settles run o := by
  obtain ⟨hne, n, hn⟩ := h
  refine ⟨hne, n + k, ?_⟩
  intro fuel hfuel
  obtain ⟨m, rfl⟩ : ∃ m, fuel = m + k := ⟨fuel - k, by omega⟩
  exact hn m (by omega)

lemma Settles.of_succ {run : Nat → Outcome σ} {o : Outcome σ}
    (h : Settles (fun fuel => run (fuel + 1)) o) : Settles run o :=
  h.of_add 1

lemma Settles.bind {run : Nat → Outcome σ} {s : σ} (h : Settles run (done s))
    {f : σ → Nat → Outcome τ} {o : Outcome τ} (hf : Settles (f s) o) :
    Settles (fun fuel => (run fuel).bind fun s => f s fuel) o := by
  obtain ⟨-, n, hn⟩ := h
  obtain ⟨hne, m, hm⟩ := hf
  refine ⟨hne, n + m, ?_⟩
  intro fuel hfuel
  simp only [hn fuel (by omega), bind_done]
  exact hm fuel (by omega)

lemma Settles.bind_assertionFailed {run : Nat → Outcome σ} (h : Settles run assertionFailed)
    (f : σ → Nat → Outcome τ) :
    Settles (fun fuel => (run fuel).bind fun s => f s fuel) assertionFailed := by
  obtain ⟨-, n, hn⟩ := h
  refine ⟨by simp, n, ?_⟩
  intro fuel hfuel
  simp only [hn fuel hfuel, Outcome.bind_assertionFailed]

lemma Settles.unique {run : Nat → Outcome σ} {o o' : Outcome σ} (h : Settles run o)
    (h' : Settles run o') : o = o' := by
  obtain ⟨-, n, hn⟩ := h
  obtain ⟨-, m, hm⟩ := h'
  rw [← hn (n + m) (by omega), hm (n + m) (by omega)]

lemma terminates_const {o : Outcome σ} (h : o ≠ outOfFuel) : Terminates fun _ => o :=
  ⟨o, settles_const h⟩

lemma Terminates.of_succ {run : Nat → Outcome σ} (h : Terminates fun fuel => run (fuel + 1)) :
    Terminates run := by
  obtain ⟨o, ho⟩ := h
  exact ⟨o, ho.of_succ⟩

lemma Terminates.bind {run : Nat → Outcome σ} (h : Terminates run) {f : σ → Nat → Outcome τ}
    (hf : ∀ s, Settles run (done s) → Terminates (f s)) :
    Terminates fun fuel => (run fuel).bind fun s => f s fuel := by
  obtain ⟨o, ho⟩ := h
  cases o with
  | outOfFuel => exact absurd rfl ho.1
  | assertionFailed => exact ⟨_, ho.bind_assertionFailed f⟩
  | done s =>
    obtain ⟨o, ho'⟩ := hf s ho
    exact ⟨o, ho.bind ho'⟩

end Outcome

section WhileLoop

variable {σ : Type*}

/-- `while (cond) body` with less than `fuel` rounds. -/
def whileLoop (cond : σ → Bool) (body : σ → Option σ) : Nat → σ → Outcome σ
  | 0, _ => .outOfFuel
  | fuel + 1, s =>
    if cond s then
      match body s with
      | none => .assertionFailed
      | some s' => whileLoop cond body fuel s'
    else .done s

variable {cond : σ → Bool} {body : σ → Option σ}

lemma whileLoop_invariant (Inv : σ → Prop)
    (step : ∀ s s', Inv s → cond s = true → body s = some s' → Inv s') {fuel : Nat} {s s' : σ}
    (hs : Inv s) (h : whileLoop cond body fuel s = .done s') : Inv s' ∧ cond s' = false := by
  induction fuel generalizing s with
  | zero => cases h
  | succ fuel ih =>
    unfold whileLoop at h
    split_ifs at h with hcond
    · cases hbody : body s with
      | none =>
        rw [hbody] at h
        cases h
      | some next =>
        rw [hbody] at h
        exact ih (step s next hs hcond hbody) h
    · cases h
      exact ⟨hs, by simpa using hcond⟩

lemma whileLoop_terminates (Inv : σ → Prop) (bound : σ → Nat)
    (step : ∀ s s', Inv s → cond s = true → body s = some s' → Inv s' ∧ bound s' < bound s)
    {s : σ} (hs : Inv s) {fuel : Nat} (hfuel : bound s < fuel) :
    whileLoop cond body fuel s ≠ .outOfFuel := by
  induction fuel generalizing s with
  | zero => omega
  | succ fuel ih =>
    unfold whileLoop
    split_ifs with hcond
    · cases hbody : body s with
      | none => simp
      | some s' =>
        obtain ⟨hinv, hlt⟩ := step s s' hs hcond hbody
        exact ih hinv (by omega)
    · simp

/-- A loop whose rounds pass their assertions and lower a bound ends, keeps what its body keeps, and
its condition is false then. -/
lemma whileLoop_settles_of_step (Inv : σ → Prop) (bound : σ → Nat)
    (step : ∀ s, Inv s → cond s = true → ∃ s', body s = some s' ∧ Inv s' ∧ bound s' < bound s)
    {s : σ} (hs : Inv s) :
    ∃ s', Outcome.Settles (fun fuel => whileLoop cond body fuel s) (.done s') ∧ Inv s' ∧
      cond s' = false := by
  induction hn : bound s using Nat.strongRecOn generalizing s with
  | _ n ih =>
    cases hcond : cond s with
    | true =>
      obtain ⟨next, hbody, hinv, hlt⟩ := step s hs hcond
      obtain ⟨s', hsettles, hend⟩ := ih _ (hn ▸ hlt) hinv rfl
      refine ⟨s', ?_, hend⟩
      apply Outcome.Settles.of_succ
      simp only [whileLoop, hcond, if_true, hbody]
      exact hsettles
    | false =>
      refine ⟨s, ?_, hs, hcond⟩
      apply Outcome.Settles.of_succ
      simp only [whileLoop, hcond, Bool.false_eq_true, if_false]
      exact Outcome.settles_const (by simp)

lemma whileLoop_settles {next : σ → σ} (Inv : σ → Prop) (bound : σ → Nat)
    (step : ∀ s, Inv s → cond s = true → Inv (next s) ∧ bound (next s) < bound s) {s : σ}
    (hs : Inv s) :
    ∃ s', Outcome.Settles (fun fuel => whileLoop cond (fun s => some (next s)) fuel s) (.done s') ∧
      Inv s' ∧ cond s' = false :=
  whileLoop_settles_of_step Inv bound
    (fun s hinv hcond => ⟨next s, rfl, step s hinv hcond⟩) hs

end WhileLoop
end Maple
