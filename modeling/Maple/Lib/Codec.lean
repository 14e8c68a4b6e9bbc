import Mathlib.Logic.Function.Basic
import Mathlib.Order.Basic
import Mathlib.Data.List.Basic

/-!
# Writers and readers of bytes

A writer and a reader that keep tables of what has gone through. The states of writers are ordered:
a later state knows more. A reader reads back a writer if, from linked states, it takes exactly
the bytes written and returns what the writer's value stands for in a later state `F`.
-/

namespace Maple

/-- A writer: the bytes and the next state, `none` if it fails. -/
def Put (σ : Type) := σ → Option (List UInt8 × σ)

/-- A reader: the value, the next state and the bytes left, `none` if it fails. -/
def Get (τ α : Type) := τ → List UInt8 → Option (α × τ × List UInt8)

namespace Put

variable {σ : Type}

def skip : Put σ := fun s => some ([], s)

def bytes (bs : List UInt8) : Put σ := fun s => some (bs, s)

def fail : Put σ := fun _ => none

protected def append (p q : Put σ) : Put σ := fun s =>
  (p s).bind fun r => (q r.2).map fun r' => (r.1 ++ r'.1, r'.2)

instance : Append (Put σ) := ⟨Put.append⟩

/-- Writers one after the other. -/
def seq : List (Put σ) → Put σ
  | [] => skip
  | p :: ps => p ++ seq ps

lemma append_eq_some {p q : Put σ} {s s₂ : σ} {bs : List UInt8} :
    (p ++ q) s = some (bs, s₂) ↔
      ∃ bs₁ s₁ bs₂, p s = some (bs₁, s₁) ∧ q s₁ = some (bs₂, s₂) ∧ bs = bs₁ ++ bs₂ := by
  change Put.append p q s = _ ↔ _
  simp only [Put.append, Option.bind_eq_some_iff, Option.map_eq_some_iff, Prod.mk.injEq,
    Prod.exists]
  constructor
  · rintro ⟨bs₁, s₁, hp, bs₂, s₂', hq, rfl, rfl⟩
    exact ⟨bs₁, s₁, bs₂, hp, hq, rfl⟩
  · rintro ⟨bs₁, s₁, bs₂, hp, hq, rfl⟩
    exact ⟨bs₁, s₁, hp, bs₂, s₂, hq, rfl, rfl⟩

end Put

namespace Get

variable {τ α β : Type}

instance : Monad (Get τ) where
  pure a := fun t bs => some (a, t, bs)
  bind g f := fun t bs =>
    match g t bs with
    | none => none
    | some (a, t', bs') => f a t' bs'

def fail : Get τ α := fun _ _ => none

/-- The value of an option, failure for `none`. -/
def ofOption : Option α → Get τ α
  | some a => pure a
  | none => fail

/-- A value read `n` times. -/
def many (g : Get τ α) : Nat → Get τ (List α)
  | 0 => pure []
  | n + 1 => do
    let a ← g
    let as ← many g n
    pure (a :: as)

lemma pure_apply (a : α) (t : τ) (bs : List UInt8) :
    (pure a : Get τ α) t bs = some (a, t, bs) := rfl

lemma bind_of_eq {g : Get τ α} {f : α → Get τ β} {t t' : τ} {bs bs' : List UInt8} {a : α}
    (h : g t bs = some (a, t', bs')) : (g >>= f) t bs = f a t' bs' := by
  change (match g t bs with | none => none | some (a, t', bs') => f a t' bs') = _
  rw [h]

lemma bind_eq_some {g : Get τ α} {f : α → Get τ β} {t t₂ : τ} {bs bs₂ : List UInt8} {b : β} :
    (g >>= f) t bs = some (b, t₂, bs₂) ↔
      ∃ a t₁ bs₁, g t bs = some (a, t₁, bs₁) ∧ f a t₁ bs₁ = some (b, t₂, bs₂) := by
  change (match g t bs with | none => none | some (a, t', bs') => f a t' bs') = _ ↔ _
  cases hg : g t bs with
  | none => simp
  | some r =>
    obtain ⟨a, t₁, bs₁⟩ := r
    simp

end Get

/-! ### Reading back -/

section ReadsBack

variable {σ τ α β : Type} [Preorder σ] {Linked : σ → τ → Prop}

/-- A writer only adds to what its state knows. -/
def Put.Grows (p : Put σ) : Prop := ∀ s bs s', p s = some (bs, s') → s ≤ s'

/-- From linked states, `g` returns `a` for what `p` writes, if `F` is as late as the writer. -/
def ReadsBack (Linked : σ → τ → Prop) (F : σ) (p : Put σ) (g : Get τ α) (a : α) : Prop :=
  ∀ s t, Linked s t → ∀ bs s', p s = some (bs, s') → s' ≤ F → ∀ rest,
    ∃ t', g t (bs ++ rest) = some (a, t', rest) ∧ Linked s' t'

/-- Whatever `g` returns for what `p` writes, it is not `a`. -/
def Misreads (Linked : σ → τ → Prop) (F : σ) (p : Put σ) (g : Get τ α) (a : α) : Prop :=
  ∀ s t, Linked s t → ∀ bs s', p s = some (bs, s') → s' ≤ F → ∀ rest b t' rest',
    g t (bs ++ rest) = some (b, t', rest') → b ≠ a

lemma Put.grows_skip : Put.Grows (Put.skip : Put σ) := by
  intro s bs s' h
  cases h
  exact le_refl s

lemma Put.grows_bytes (bs : List UInt8) : Put.Grows (Put.bytes bs : Put σ) := by
  intro s bs' s' h
  cases h
  exact le_refl s

lemma Put.grows_fail : Put.Grows (Put.fail : Put σ) := by
  intro s bs s' h
  cases h

lemma Put.Grows.append {p q : Put σ} (hp : p.Grows) (hq : q.Grows) : (p ++ q).Grows := by
  intro s bs s' h
  obtain ⟨bs₁, s₁, bs₂, hp', hq', rfl⟩ := Put.append_eq_some.mp h
  exact (hp _ _ _ hp').trans (hq _ _ _ hq')

lemma Put.Grows.seq {ps : List (Put σ)} (h : ∀ p ∈ ps, p.Grows) : (Put.seq ps).Grows := by
  induction ps with
  | nil => exact Put.grows_skip
  | cons p ps ih =>
    exact Put.Grows.append (h p (by simp)) (ih fun q hq => h q (by simp [hq]))

variable {F : σ} {p q : Put σ} {g : Get τ α} {a : α} {b : β}

lemma ReadsBack.skip (a : α) : ReadsBack Linked F Put.skip (pure a) a := by
  intro s t hl bs s' h _ rest
  cases h
  exact ⟨t, rfl, hl⟩

lemma ReadsBack.bind {f : α → Get τ β} (hp : ReadsBack Linked F p g a) (hq : q.Grows)
    (hf : ReadsBack Linked F q (f a) b) : ReadsBack Linked F (p ++ q) (g >>= f) b := by
  intro s t hl bs s' h hF rest
  obtain ⟨bs₁, s₁, bs₂, hp', hq', rfl⟩ := Put.append_eq_some.mp h
  obtain ⟨t₁, hg, hl₁⟩ := hp s t hl bs₁ s₁ hp' ((hq _ _ _ hq').trans hF) (bs₂ ++ rest)
  obtain ⟨t₂, hf', hl₂⟩ := hf s₁ t₁ hl₁ bs₂ s' hq' hF rest
  refine ⟨t₂, ?_, hl₂⟩
  rw [List.append_assoc, Get.bind_of_eq hg, hf']

lemma ReadsBack.map (f : α → β) (hp : ReadsBack Linked F p g a) :
    ReadsBack Linked F p (g >>= fun x => pure (f x)) (f a) := by
  intro s t hl bs s' h hF rest
  obtain ⟨t₁, hg, hl₁⟩ := hp s t hl bs s' h hF rest
  exact ⟨t₁, by rw [Get.bind_of_eq hg, Get.pure_apply], hl₁⟩

lemma Put.grows_seq_cons {ps : List (Put σ)} (hp : p.Grows) (hps : (Put.seq ps).Grows) :
    (Put.seq (p :: ps)).Grows :=
  hp.append hps

lemma Put.grows_seq_singleton (hp : p.Grows) : (Put.seq [p]).Grows :=
  hp.append Put.grows_skip

lemma ReadsBack.seq_cons {ps : List (Put σ)} {f : α → Get τ β} (hp : ReadsBack Linked F p g a)
    (hps : (Put.seq ps).Grows) (hf : ReadsBack Linked F (Put.seq ps) (f a) b) :
    ReadsBack Linked F (Put.seq (p :: ps)) (g >>= f) b :=
  hp.bind hps hf

lemma ReadsBack.seq_singleton (hp : ReadsBack Linked F p g a) :
    ReadsBack Linked F (Put.seq [p]) g a := by
  intro s t hl bs s' h hF rest
  obtain ⟨bs₁, s₁, bs₂, hp', hskip, rfl⟩ := Put.append_eq_some.mp h
  cases hskip
  rw [List.append_nil]
  exact hp s t hl bs₁ s' hp' hF rest

lemma ReadsBack.fail (g : Get τ α) (a : α) : ReadsBack Linked F Put.fail g a := by
  intro s t hl bs s' h
  cases h

lemma ReadsBack.many {γ : Type} {w : γ → Put σ} {val : γ → α} {xs : List γ}
    (hg : ∀ x ∈ xs, (w x).Grows) (h : ∀ x ∈ xs, ReadsBack Linked F (w x) g (val x)) :
    ReadsBack Linked F (Put.seq (xs.map w)) (g.many xs.length) (xs.map val) := by
  induction xs with
  | nil => exact ReadsBack.skip _
  | cons x xs ih =>
    apply ReadsBack.bind (h x (by simp))
    · apply Put.Grows.seq
      simpa using fun y hy => hg y (by simp [hy])
    · apply ReadsBack.map (val x :: ·)
      exact ih (fun y hy => hg y (by simp [hy])) fun y hy => h y (by simp [hy])

lemma ReadsBack.eq_of_read {s s' : σ} {t t' : τ} {bs rest rest' : List UInt8} {x : α}
    (hp : ReadsBack Linked F p g a) (hl : Linked s t) (h : p s = some (bs, s')) (hF : s' ≤ F)
    (hx : g t (bs ++ rest) = some (x, t', rest')) : x = a ∧ rest' = rest ∧ Linked s' t' := by
  obtain ⟨t₁, hg, hl₁⟩ := hp s t hl bs s' h hF rest
  rw [hg] at hx
  cases hx
  exact ⟨rfl, rfl, hl₁⟩

/-! ### Misreading -/

lemma Misreads.fail (p : Put σ) (a : α) : Misreads Linked F p (Get.fail : Get τ α) a := by
  intro s t _ bs s' _ _ rest b t' rest' hb
  cases hb

lemma ReadsBack.misreads {c : α} (hp : ReadsBack Linked F p g c) (hne : c ≠ a) :
    Misreads Linked F p g a := by
  intro s t hl bs s' h hF rest x t' rest' hx
  rw [(hp.eq_of_read hl h hF hx).1]
  exact hne

lemma Misreads.bind {f : α → Get τ β} (hp : Misreads Linked F p g a) (hq : q.Grows)
    (hf : ∀ x t bs t' bs', f x t bs = some (b, t', bs') → x = a) :
    Misreads Linked F (p ++ q) (g >>= f) b := by
  intro s t hl bs s' h hF rest y t' rest' hy
  obtain ⟨bs₁, s₁, bs₂, hp', hq', rfl⟩ := Put.append_eq_some.mp h
  rw [List.append_assoc] at hy
  obtain ⟨x, t₁, rest₁, hx, hy⟩ := Get.bind_eq_some.mp hy
  rintro rfl
  exact hp s t hl bs₁ s₁ hp' ((hq _ _ _ hq').trans hF) _ x t₁ rest₁ hx (hf _ _ _ _ _ hy)

lemma Misreads.map {f : α → β} (hf : Function.Injective f) (hp : Misreads Linked F p g a) :
    Misreads Linked F p (g >>= fun x => pure (f x)) (f a) := by
  intro s t hl bs s' h hF rest y t' rest' hy
  obtain ⟨x, t₁, rest₁, hx, hy⟩ := Get.bind_eq_some.mp hy
  cases hy
  exact hf.ne (hp s t hl bs s' h hF rest x _ _ hx)

lemma ReadsBack.bind_misreads {f : α → Get τ β} (hp : ReadsBack Linked F p g a) (hq : q.Grows)
    (hf : Misreads Linked F q (f a) b) : Misreads Linked F (p ++ q) (g >>= f) b := by
  intro s t hl bs s' h hF rest y t' rest' hy
  obtain ⟨bs₁, s₁, bs₂, hp', hq', rfl⟩ := Put.append_eq_some.mp h
  rw [List.append_assoc] at hy
  obtain ⟨x, t₁, rest₁, hx, hy⟩ := Get.bind_eq_some.mp hy
  obtain ⟨rfl, rfl, hl₁⟩ := hp.eq_of_read hl hp' ((hq _ _ _ hq').trans hF) hx
  exact hf s₁ t₁ hl₁ bs₂ s' hq' hF rest y t' rest' hy

end ReadsBack

end Maple
