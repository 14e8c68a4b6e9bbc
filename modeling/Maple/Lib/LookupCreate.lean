import Mathlib.Logic.Function.Basic
import Mathlib.Data.List.Infix

/-!
# Lookup and creation as two atomic steps

A call looks its key up in a shared table and, if it is missing, creates an entry in a second step.
Other calls may move between the two. The calls of a key return one object, which stays in the
table, exactly in the runs in which no call creates an entry for a key that has one.
-/

namespace LookupCreate

/-- A shared table: the key of an argument, the object that is found for a key, the creation of an
entry for an argument (which may be refused), and the number of entries for a key. -/
structure Table (T A K O : Type*) where
  key : A → K
  find : T → K → Option O
  create : T → A → Option (O × T)
  entries : T → K → ℕ

variable {T A K O ι : Type*}

/-- What the tables have in common. -/
structure Table.Lawful (tb : Table T A K O) (Ok : T → Prop) : Prop where
  ok_create : ∀ {t a o t'}, Ok t → tb.create t a = some (o, t') → Ok t'
  find_create : ∀ {t a o t'}, Ok t → tb.create t a = some (o, t') → tb.find t (tb.key a) = none →
    tb.find t' (tb.key a) = some o
  find_create_of_ne : ∀ {t a k o t'}, Ok t → tb.create t a = some (o, t') → k ≠ tb.key a →
    tb.find t' k = tb.find t k
  ne_of_find : ∀ {t a o o' t'}, Ok t → tb.create t a = some (o, t') →
    tb.find t (tb.key a) = some o' → o ≠ o'
  entries_create : ∀ {t a o t'}, Ok t → tb.create t a = some (o, t') →
    tb.find t (tb.key a) = none → tb.entries t' (tb.key a) = 1
  entries_create_of_ne : ∀ {t a k o t'}, Ok t → tb.create t a = some (o, t') → k ≠ tb.key a →
    tb.entries t' k = tb.entries t k

/-- How far a call has come. -/
inductive Call (O : Type*) where
  | pending
  | missed
  | returned (o : O)

/-- The table and the calls. -/
structure State (T O ι : Type*) where
  table : T
  calls : ι → Call O

def State.set [DecidableEq ι] (s : State T O ι) (i : ι) (c : Call O) : State T O ι :=
  { s with calls := Function.update s.calls i c }

/-- The next step of a call, if there is one. -/
def step [DecidableEq ι] (tb : Table T A K O) (arg : ι → A) (s : State T O ι) (i : ι) : Option (State T O ι) :=
  match s.calls i with
  | .pending =>
    match tb.find s.table (tb.key (arg i)) with
    | some o => some (s.set i (.returned o))
    | none => some (s.set i .missed)
  | .missed => (tb.create s.table (arg i)).map fun r => { s.set i (.returned r.1) with table := r.2 }
  | .returned _ => none

/-- The steps of some calls in order. -/
def run [DecidableEq ι] (tb : Table T A K O) (arg : ι → A) (s : State T O ι) (is : List ι) : Option (State T O ι) :=
  is.foldlM (step tb arg) s

/-- No call has begun, and no key has more than one entry. -/
structure Initial (tb : Table T A K O) (Ok : T → Prop) (s : State T O ι) : Prop where
  ok : Ok s.table
  pending : ∀ i, s.calls i = .pending
  entries : ∀ k o, tb.find s.table k = some o → tb.entries s.table k = 1

/-- The calls of a key that have returned have the same object, which is the one entry for the
key. -/
structure Consistent (tb : Table T A K O) (arg : ι → A) (s : State T O ι) : Prop where
  same : ∀ i j o o', tb.key (arg i) = tb.key (arg j) → s.calls i = .returned o → s.calls j = .returned o' → o = o'
  found : ∀ i o, s.calls i = .returned o → tb.find s.table (tb.key (arg i)) = some o
  entries : ∀ i o, s.calls i = .returned o → tb.entries s.table (tb.key (arg i)) = 1

/-- A step of this call does not create an entry for a key that has one. -/
def Unclashed (tb : Table T A K O) (arg : ι → A) (s : State T O ι) (i : ι) : Prop :=
  s.calls i = .missed → tb.find s.table (tb.key (arg i)) = none

/-- Every state that the run reaches is consistent. -/
def StaysConsistent [DecidableEq ι] (tb : Table T A K O) (arg : ι → A) (s₀ : State T O ι) (is : List ι) : Prop :=
  ∀ pre, pre <+: is → ∀ s, run tb arg s₀ pre = some s → Consistent tb arg s

/-- No step of the run creates an entry for a key that has one. -/
def NeverClashes [DecidableEq ι] (tb : Table T A K O) (arg : ι → A) (s₀ : State T O ι) (is : List ι) : Prop :=
  ∀ pre i, pre ++ [i] <+: is → ∀ s, run tb arg s₀ pre = some s → Unclashed tb arg s i

variable {tb : Table T A K O} {arg : ι → A} {Ok : T → Prop} {s s' s₀ : State T O ι} {i j : ι}

/-- What holds in every state: a key that a call has missed got its entry from another call. -/
structure Inv (tb : Table T A K O) (Ok : T → Prop) (arg : ι → A) (s : State T O ι) : Prop where
  ok : Ok s.table
  missed : ∀ i o, s.calls i = .missed → tb.find s.table (tb.key (arg i)) = some o →
    ∃ j o', tb.key (arg j) = tb.key (arg i) ∧ s.calls j = .returned o'

/-- What holds besides as long as no step clashes. -/
structure Kept (tb : Table T A K O) (arg : ι → A) (s : State T O ι) : Prop where
  entries : ∀ k o, tb.find s.table k = some o → tb.entries s.table k = 1
  found : ∀ i o, s.calls i = .returned o → tb.find s.table (tb.key (arg i)) = some o

lemma Initial.inv (h : Initial tb Ok s) (arg : ι → A) : Inv tb Ok arg s where
  ok := h.ok
  missed i o hi := by simp [h.pending i] at hi

lemma Initial.kept (h : Initial tb Ok s) (arg : ι → A) : Kept tb arg s where
  entries := h.entries
  found i o hi := by simp [h.pending i] at hi

lemma Kept.consistent (h : Kept tb arg s) : Consistent tb arg s where
  same i j o o' hkey hi hj := by
    have hfound := h.found i o hi
    rw [hkey, h.found j o' hj] at hfound
    exact (Option.some.inj hfound).symm
  found := h.found
  entries i o hi := h.entries _ o (h.found i o hi)

variable [DecidableEq ι]

@[simp] lemma set_table (c : Call O) : (s.set i c).table = s.table := rfl

@[simp] lemma set_calls_self (c : Call O) : (s.set i c).calls i = c := Function.update_self _ _ _

lemma set_calls_of_ne (h : j ≠ i) (c : Call O) : (s.set i c).calls j = s.calls j :=
  Function.update_of_ne h _ _

lemma step_cases (h : step tb arg s i = some s') :
    (∃ o, s.calls i = .pending ∧ tb.find s.table (tb.key (arg i)) = some o ∧ s' = s.set i (.returned o)) ∨
    (s.calls i = .pending ∧ tb.find s.table (tb.key (arg i)) = none ∧ s' = s.set i .missed) ∨
    (∃ o t, s.calls i = .missed ∧ tb.create s.table (arg i) = some (o, t) ∧
      s' = { s.set i (.returned o) with table := t }) := by
  rw [step] at h
  cases hcall : s.calls i with
  | pending =>
    cases hfind : tb.find s.table (tb.key (arg i)) with
    | some o =>
      simp only [hcall, hfind, Option.some.injEq] at h
      exact Or.inl ⟨o, rfl, rfl, h.symm⟩
    | none =>
      simp only [hcall, hfind, Option.some.injEq] at h
      exact Or.inr (Or.inl ⟨rfl, rfl, h.symm⟩)
  | missed =>
    simp only [hcall, Option.map_eq_some_iff] at h
    obtain ⟨⟨o, t⟩, hcreate, rfl⟩ := h
    exact Or.inr (Or.inr ⟨o, t, rfl, hcreate, rfl⟩)
  | returned o => simp [hcall] at h

lemma Inv.step (hlaw : tb.Lawful Ok) (h : Inv tb Ok arg s) (hstep : step tb arg s i = some s') :
    Inv tb Ok arg s' := by
  obtain ⟨o, hcall, hfind, rfl⟩ | ⟨hcall, hfind, rfl⟩ | ⟨o, t, hcall, hcreate, rfl⟩ :=
    step_cases hstep
  · refine ⟨h.ok, ?_⟩
    intro j o' hj hfound
    have hji : j ≠ i := by
      rintro rfl
      simp at hj
    rw [set_calls_of_ne hji] at hj
    obtain ⟨l, o'', hkey, hl⟩ := h.missed j o' hj hfound
    have hli : l ≠ i := by
      rintro rfl
      simp [hcall] at hl
    exact ⟨l, o'', hkey, by rwa [set_calls_of_ne hli]⟩
  · refine ⟨h.ok, ?_⟩
    intro j o' hj hfound
    by_cases hji : j = i
    · subst hji
      simp [hfind] at hfound
    rw [set_calls_of_ne hji] at hj
    obtain ⟨l, o'', hkey, hl⟩ := h.missed j o' hj hfound
    have hli : l ≠ i := by
      rintro rfl
      simp [hcall] at hl
    exact ⟨l, o'', hkey, by rwa [set_calls_of_ne hli]⟩
  · refine ⟨hlaw.ok_create h.ok hcreate, ?_⟩
    intro j o' hj hfound
    have hji : j ≠ i := by
      rintro rfl
      simp at hj
    by_cases hkey : tb.key (arg j) = tb.key (arg i)
    · exact ⟨i, o, hkey.symm, set_calls_self _⟩
    change tb.find t (tb.key (arg j)) = some o' at hfound
    rw [hlaw.find_create_of_ne h.ok hcreate hkey] at hfound
    obtain ⟨l, o'', hkey', hl⟩ := h.missed j o' (by rwa [← set_calls_of_ne hji]) hfound
    have hli : l ≠ i := by
      rintro rfl
      simp [hcall] at hl
    exact ⟨l, o'', hkey', by rwa [← set_calls_of_ne hli (.returned o)] at hl⟩

lemma Kept.step (hlaw : tb.Lawful Ok) (hok : Ok s.table) (h : Kept tb arg s)
    (hfree : Unclashed tb arg s i) (hstep : step tb arg s i = some s') : Kept tb arg s' := by
  obtain ⟨o, hcall, hfind, rfl⟩ | ⟨hcall, hfind, rfl⟩ | ⟨o, t, hcall, hcreate, rfl⟩ :=
    step_cases hstep
  · refine ⟨h.entries, ?_⟩
    intro j o' hj
    by_cases hji : j = i
    · subst hji
      rw [set_calls_self] at hj
      cases hj
      exact hfind
    · exact h.found j o' (by rwa [← set_calls_of_ne hji])
  · refine ⟨h.entries, ?_⟩
    intro j o' hj
    have hji : j ≠ i := by
      rintro rfl
      simp at hj
    exact h.found j o' (by rwa [← set_calls_of_ne hji])
  · have hnone := hfree hcall
    refine ⟨?_, ?_⟩
    · intro k o' hfound
      change tb.find t k = some o' at hfound
      change tb.entries t k = 1
      by_cases hk : k = tb.key (arg i)
      · rw [hk, hlaw.entries_create hok hcreate hnone]
      · rw [hlaw.find_create_of_ne hok hcreate hk] at hfound
        rw [hlaw.entries_create_of_ne hok hcreate hk]
        exact h.entries k o' hfound
    · intro j o' hj
      change tb.find t (tb.key (arg j)) = some o'
      by_cases hji : j = i
      · subst hji
        change (s.set j (.returned o)).calls j = _ at hj
        rw [set_calls_self] at hj
        cases hj
        exact hlaw.find_create hok hcreate hnone
      · have hfound := h.found j o' (by rwa [← set_calls_of_ne hji (.returned o)])
        have hkey : tb.key (arg j) ≠ tb.key (arg i) := by
          intro hkey
          rw [hkey, hnone] at hfound
          simp at hfound
        rwa [hlaw.find_create_of_ne hok hcreate hkey]

lemma not_consistent_of_clash (hlaw : tb.Lawful Ok) (h : Inv tb Ok arg s)
    (hcons : Consistent tb arg s) (hclash : ¬ Unclashed tb arg s i)
    (hstep : LookupCreate.step tb arg s i = some s') : ¬ Consistent tb arg s' := by
  rw [Unclashed, Classical.not_imp] at hclash
  obtain ⟨hmissed, hsome⟩ := hclash
  obtain ⟨o', hfind⟩ := Option.ne_none_iff_exists'.mp hsome
  obtain ⟨j, oj, hkey, hj⟩ := h.missed i o' hmissed hfind
  have hij : j ≠ i := by
    rintro rfl
    simp [hmissed] at hj
  obtain ⟨o, hcall, -⟩ | ⟨hcall, -⟩ | ⟨o, t, -, hcreate, rfl⟩ := step_cases hstep
  · simp [hmissed] at hcall
  · simp [hmissed] at hcall
  intro hcons'
  have hfound := hcons.found j oj hj
  rw [hkey, hfind] at hfound
  obtain rfl := Option.some.inj hfound
  have hne := hlaw.ne_of_find h.ok hcreate hfind
  rw [← set_calls_of_ne hij (.returned o)] at hj
  exact hne (hcons'.same i j o o' hkey.symm (set_calls_self _) hj)

/-! ### Runs -/

lemma run_append_singleton (is : List ι) :
    run tb arg s₀ (is ++ [i]) = (run tb arg s₀ is).bind fun s => LookupCreate.step tb arg s i := by
  rw [run, List.foldlM_append]
  simp [run, Option.bind_eq_bind]

lemma inv_run (hlaw : tb.Lawful Ok) (hinit : Initial tb Ok s₀) (is : List ι)
    (hrun : run tb arg s₀ is = some s) : Inv tb Ok arg s := by
  induction is using List.reverseRecOn generalizing s with
  | nil =>
    obtain rfl : s₀ = s := by simpa [run] using hrun
    exact hinit.inv arg
  | append_singleton is i ih =>
    rw [run_append_singleton, Option.bind_eq_some_iff] at hrun
    obtain ⟨s₁, hrun, hstep⟩ := hrun
    exact (ih hrun).step hlaw hstep

lemma kept_run (hlaw : tb.Lawful Ok) (hinit : Initial tb Ok s₀) (is : List ι)
    (hfree : NeverClashes tb arg s₀ is) (hrun : run tb arg s₀ is = some s) : Kept tb arg s := by
  induction is using List.reverseRecOn generalizing s with
  | nil =>
    obtain rfl : s₀ = s := by simpa [run] using hrun
    exact hinit.kept arg
  | append_singleton is i ih =>
    rw [run_append_singleton, Option.bind_eq_some_iff] at hrun
    obtain ⟨s₁, hrun, hstep⟩ := hrun
    have hprev : NeverClashes tb arg s₀ is := fun pre j hpre =>
      hfree pre j (hpre.trans (List.prefix_append is [i]))
    exact (ih hprev hrun).step hlaw (inv_run hlaw hinit is hrun).ok
      (hfree is i (List.prefix_refl _) s₁ hrun) hstep

/-- The states of a run are consistent if and only if no step clashes. -/
theorem staysConsistent_iff_neverClashes (hlaw : tb.Lawful Ok) (hinit : Initial tb Ok s₀)
    {is : List ι} (hrun : (run tb arg s₀ is).isSome) :
    StaysConsistent tb arg s₀ is ↔ NeverClashes tb arg s₀ is := by
  constructor
  · intro h pre i hpre s hs
    by_contra hclash
    have hle : pre <+: is := (List.prefix_append pre [i]).trans hpre
    obtain ⟨s', hs'⟩ : ∃ s', run tb arg s₀ (pre ++ [i]) = some s' := by
      obtain ⟨post, rfl⟩ := hpre
      rw [run, List.foldlM_append] at hrun
      rw [← Option.isSome_iff_exists]
      cases hcut : run tb arg s₀ (pre ++ [i]) with
      | some s' => rfl
      | none =>
        rw [run] at hcut
        simp [hcut] at hrun
    have hstep := hs'
    rw [run_append_singleton, hs, Option.bind_some] at hstep
    exact not_consistent_of_clash hlaw (inv_run hlaw hinit pre hs) (h pre hle s hs) hclash hstep
      (h _ hpre s' hs')
  · intro h pre hpre s hs
    have hfree : NeverClashes tb arg s₀ pre := fun pre' i hpre' => h pre' i (hpre'.trans hpre)
    exact (kept_run hlaw hinit pre hfree hs).consistent

end LookupCreate
