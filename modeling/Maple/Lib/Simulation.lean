import Mathlib.Order.Basic
import Mathlib.Tactic.Cases
import Mathlib.Data.List.Infix

/-!
# Deterministic machines and simulation

A machine makes one move at a time, which shows events or ends the run. Two machines behave the same
if they end with the same events and outcomes and show the same prefixes of events.
-/

namespace Maple

/-- What a machine does in a configuration. -/
inductive Move (γ ε ο : Type*) where
  | step (events : List ε) (next : γ)
  | final (o : ο)

variable {γ γ₁ γ₂ ε ο : Type*}

/-- A number of steps with their events. -/
inductive Runs (move : γ → Move γ ε ο) : γ → Nat → List ε → γ → Prop where
  | refl (c : γ) : Runs move c 0 [] c
  | cons {c c₁ c₂ : γ} {e t : List ε} {n : Nat} (hmove : move c = .step e c₁)
      (hruns : Runs move c₁ n t c₂) : Runs move c (n + 1) (e ++ t) c₂

/-- A number of steps from configurations with `P`. -/
inductive RunsIn (P : γ → Prop) (move : γ → Move γ ε ο) : γ → Nat → List ε → γ → Prop where
  | refl (c : γ) : RunsIn P move c 0 [] c
  | cons {c c₁ c₂ : γ} {e t : List ε} {n : Nat} (hc : P c) (hmove : move c = .step e c₁)
      (hruns : RunsIn P move c₁ n t c₂) : RunsIn P move c (n + 1) (e ++ t) c₂

/-- The run from a configuration ends after the events `t`. -/
def Ends (move : γ → Move γ ε ο) (c : γ) (t : List ε) (o : ο) : Prop :=
  ∃ n c', Runs move c n t c' ∧ move c' = .final o

/-- The run from a configuration shows the events `t`, and possibly more. -/
def Emits (move : γ → Move γ ε ο) (c : γ) (t : List ε) : Prop :=
  ∃ n t' c', Runs move c n t' c' ∧ t <+: t'

/-- Two runs show the same events, and one ends if and only if the other does, in the same way. -/
def SameBehaviour (move₁ : γ₁ → Move γ₁ ε ο) (c₁ : γ₁) (move₂ : γ₂ → Move γ₂ ε ο) (c₂ : γ₂) :
    Prop :=
  (∀ t o, Ends move₁ c₁ t o ↔ Ends move₂ c₂ t o) ∧ ∀ t, Emits move₁ c₁ t ↔ Emits move₂ c₂ t

namespace Runs

variable {move : γ → Move γ ε ο} {c c' c'' : γ} {t t' : List ε} {n m : Nat}

lemma one {e : List ε} (h : move c = .step e c') : Runs move c 1 e c' := by
  have := cons h (refl c')
  rwa [List.append_nil] at this

lemma trans (h : Runs move c n t c') (h' : Runs move c' m t' c'') :
    Runs move c (n + m) (t ++ t') c'' := by
  induction h with
  | refl c =>
    rw [Nat.zero_add]
    exact h'
  | cons hmove _ ih =>
    rw [Nat.succ_add, List.append_assoc]
    exact cons hmove (ih h')

lemma prefix_of_le (h : Runs move c n t c') (h' : Runs move c m t' c'') (hle : n ≤ m) :
    t <+: t' := by
  induction h generalizing m t' with
  | refl c => exact List.nil_prefix
  | cons hmove _ ih =>
    cases h' with
    | refl => exact absurd hle (Nat.not_succ_le_zero _)
    | cons hmove' h'' =>
      rw [hmove] at hmove'
      cases hmove'
      exact (List.prefix_append_right_inj _).mpr (ih h'' (Nat.le_of_succ_le_succ hle))

lemma le_of_final {o : ο} (h : Runs move c n t c') (hfinal : move c' = .final o)
    (h' : Runs move c m t' c'') : m ≤ n := by
  induction h generalizing m t' with
  | refl c =>
    cases h' with
    | refl => exact le_refl _
    | cons hmove' =>
      rw [hfinal] at hmove'
      cases hmove'
  | cons hmove _ ih =>
    cases h' with
    | refl => exact Nat.zero_le _
    | cons hmove' h'' =>
      rw [hmove] at hmove'
      cases hmove'
      exact Nat.succ_le_succ (ih hfinal h'')

lemma unique (h : Runs move c n t c') (h' : Runs move c n t' c'') : t = t' ∧ c' = c'' := by
  induction h generalizing t' with
  | refl c =>
    cases h'
    exact ⟨rfl, rfl⟩
  | cons hmove _ ih =>
    cases h' with
    | cons hmove' h'' =>
      rw [hmove] at hmove'
      cases hmove'
      obtain ⟨rfl, rfl⟩ := ih h''
      exact ⟨rfl, rfl⟩

end Runs

lemma Ends.unique {move : γ → Move γ ε ο} {c : γ} {t t' : List ε} {o o' : ο}
    (h : Ends move c t o) (h' : Ends move c t' o') : t = t' ∧ o = o' := by
  obtain ⟨n, c₁, hruns, hfinal⟩ := h
  obtain ⟨m, c₂, hruns', hfinal'⟩ := h'
  have heq : n = m :=
    le_antisymm (hruns'.le_of_final hfinal' hruns) (hruns.le_of_final hfinal hruns')
  subst heq
  obtain ⟨rfl, rfl⟩ := hruns.unique hruns'
  rw [hfinal] at hfinal'
  cases hfinal'
  exact ⟨rfl, rfl⟩

/-! ### Simulation -/

lemma RunsIn.simulate {move₁ : γ₁ → Move γ₁ ε ο} {move₂ : γ₂ → Move γ₂ ε ο} {P : γ₁ → Prop}
    {R : γ₁ → γ₂ → Prop}
    (hstep : ∀ c₁ c₂ e c₁', R c₁ c₂ → P c₁ → move₁ c₁ = .step e c₁' →
      ∃ n c₂', Runs move₂ c₂ n e c₂' ∧ R c₁' c₂')
    {c₁ c₁' : γ₁} {n : Nat} {t : List ε} (h : RunsIn P move₁ c₁ n t c₁') (c₂ : γ₂)
    (hR : R c₁ c₂) : ∃ m c₂', Runs move₂ c₂ m t c₂' ∧ R c₁' c₂' := by
  induction h generalizing c₂ with
  | refl c => exact ⟨0, c₂, .refl c₂, hR⟩
  | cons hc hmove _ ih =>
    obtain ⟨m, c₂', hfirst, hR'⟩ := hstep _ _ _ _ hR hc hmove
    obtain ⟨m', c₂'', hrest, hR''⟩ := ih c₂' hR'
    exact ⟨m + m', c₂'', hfirst.trans hrest, hR''⟩

/-- Every step of the first machine is matched by steps of the second, and by none only if the
measure of the first goes down. -/
structure Simulation (move₁ : γ₁ → Move γ₁ ε ο) (move₂ : γ₂ → Move γ₂ ε ο)
    (R : γ₁ → γ₂ → Prop) (measure : γ₁ → Nat) : Prop where
  step : ∀ c₁ c₂ e c₁', R c₁ c₂ → move₁ c₁ = .step e c₁' →
    ∃ n c₂', Runs move₂ c₂ n e c₂' ∧ R c₁' c₂' ∧ (n ≠ 0 ∨ measure c₁' < measure c₁)
  final : ∀ c₁ c₂ o, R c₁ c₂ → move₁ c₁ = .final o →
    ∃ n c₂', Runs move₂ c₂ n [] c₂' ∧ move₂ c₂' = .final o

namespace Simulation

variable {move₁ : γ₁ → Move γ₁ ε ο} {move₂ : γ₂ → Move γ₂ ε ο} {R : γ₁ → γ₂ → Prop}
  {measure : γ₁ → Nat}

lemma runs (h : Simulation move₁ move₂ R measure) {c₁ c₁' : γ₁} {c₂ : γ₂} {n : Nat} {t : List ε}
    (hR : R c₁ c₂) (hruns : Runs move₁ c₁ n t c₁') :
    ∃ m c₂', Runs move₂ c₂ m t c₂' ∧ R c₁' c₂' := by
  induction hruns generalizing c₂ with
  | refl c => exact ⟨0, c₂, .refl c₂, hR⟩
  | cons hmove _ ih =>
    obtain ⟨m, c₂', hstep, hR', -⟩ := h.step _ _ _ _ hR hmove
    obtain ⟨m', c₂'', hrest, hR''⟩ := ih hR'
    exact ⟨m + m', c₂'', hstep.trans hrest, hR''⟩

lemma ends (h : Simulation move₁ move₂ R measure) {c₁ : γ₁} {c₂ : γ₂} (hR : R c₁ c₂)
    {t : List ε} {o : ο} (hends : Ends move₁ c₁ t o) : Ends move₂ c₂ t o := by
  obtain ⟨n, c₁', hruns, hfinal⟩ := hends
  obtain ⟨m, c₂', hruns₂, hR'⟩ := h.runs hR hruns
  obtain ⟨m', c₂'', hrest, hfinal₂⟩ := h.final _ _ _ hR' hfinal
  refine ⟨m + m', c₂'', ?_, hfinal₂⟩
  have := hruns₂.trans hrest
  rwa [List.append_nil] at this

lemma progress (h : Simulation move₁ move₂ R measure) (k : Nat) {c₁ : γ₁} {c₂ : γ₂}
    (hR : R c₁ c₂) :
    (∃ t o, Ends move₁ c₁ t o) ∨
      ∃ n t c₁' m c₂', Runs move₁ c₁ n t c₁' ∧ Runs move₂ c₂ m t c₂' ∧ k ≤ m := by
  induction k generalizing c₁ c₂ with
  | zero => exact Or.inr ⟨0, [], c₁, 0, c₂, .refl c₁, .refl c₂, le_refl _⟩
  | succ k ihk =>
    induction hn : measure c₁ using Nat.strongRecOn generalizing c₁ c₂ with
    | _ N ihN =>
      cases hmove : move₁ c₁ with
      | final o => exact Or.inl ⟨[], o, 0, c₁, .refl c₁, hmove⟩
      | step e c₁' =>
        obtain ⟨m, c₂', hstep, hR', hprog⟩ := h.step _ _ _ _ hR hmove
        have hrest : (∃ t o, Ends move₁ c₁' t o) ∨
            ∃ n t c₁'' m' c₂'', Runs move₁ c₁' n t c₁'' ∧ Runs move₂ c₂' m' t c₂'' ∧
              k + 1 ≤ m + m' := by
          rcases hprog with hm | hlt
          · rcases ihk hR' with hends | ⟨n, t, c₁'', m', c₂'', hr₁, hr₂, hle⟩
            · exact Or.inl hends
            · exact Or.inr ⟨n, t, c₁'', m', c₂'', hr₁, hr₂, by omega⟩
          · rcases ihN _ (hn ▸ hlt) hR' rfl with hends | ⟨n, t, c₁'', m', c₂'', hr₁, hr₂, hle⟩
            · exact Or.inl hends
            · exact Or.inr ⟨n, t, c₁'', m', c₂'', hr₁, hr₂, by omega⟩
        rcases hrest with ⟨t, o, n, c₁'', hr, hfinal⟩ | ⟨n, t, c₁'', m', c₂'', hr₁, hr₂, hle⟩
        · exact Or.inl ⟨e ++ t, o, n + 1, c₁'', .cons hmove hr, hfinal⟩
        · exact Or.inr ⟨n + 1, e ++ t, c₁'', m + m', c₂'', .cons hmove hr₁, hstep.trans hr₂, hle⟩

/-- Machines in a simulation behave the same. -/
theorem sameBehaviour (h : Simulation move₁ move₂ R measure) {c₁ : γ₁} {c₂ : γ₂}
    (hR : R c₁ c₂) : SameBehaviour move₁ c₁ move₂ c₂ := by
  constructor
  · intro t o
    refine ⟨h.ends hR, ?_⟩
    rintro ⟨n, c₂', hruns, hfinal⟩
    rcases h.progress (n + 1) hR with ⟨t', o', hends⟩ | ⟨-, t', -, m, c₂'', -, hr₂, hle⟩
    · obtain ⟨rfl, rfl⟩ := (h.ends hR hends).unique ⟨n, c₂', hruns, hfinal⟩
      exact hends
    · have := hruns.le_of_final hfinal hr₂
      omega
  · intro t
    constructor
    · rintro ⟨n, t', c₁', hruns, hprefix⟩
      obtain ⟨m, c₂', hruns₂, -⟩ := h.runs hR hruns
      exact ⟨m, t', c₂', hruns₂, hprefix⟩
    · rintro ⟨n, t', c₂', hruns, hprefix⟩
      rcases h.progress n hR with ⟨t₁, o, hends⟩ | ⟨n', t₁, c₁', m, c₂'', hr₁, hr₂, hle⟩
      · obtain ⟨m, c₂'', hr₂, hfinal⟩ := h.ends hR hends
        obtain ⟨n', c₁', hr₁, -⟩ := hends
        have hprefix' := hruns.prefix_of_le hr₂ (hr₂.le_of_final hfinal hruns)
        exact ⟨n', t₁, c₁', hr₁, hprefix.trans hprefix'⟩
      · exact ⟨n', t₁, c₁', hr₁, hprefix.trans (hruns.prefix_of_le hr₂ hle)⟩

end Simulation
end Maple
