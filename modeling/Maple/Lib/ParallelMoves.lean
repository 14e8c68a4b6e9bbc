import Mathlib.Data.List.Nodup
import Mathlib.Logic.Function.Basic

/-!
# Parallel moves

Moves that read all their sources before any target is written, and moves that run one after the
other. The two agree when the targets differ from each other and from every source.
-/

/-- `dst := op src`. -/
structure RegMove (ι V : Type*) where
  dst : ι
  src : ι
  op : V → V

namespace RegMove

variable {ι V : Type*} [DecidableEq ι]

def run (m : RegMove ι V) (regs : ι → V) : ι → V := Function.update regs m.dst (m.op (regs m.src))

/-- The moves one after the other. -/
def runAll (ms : List (RegMove ι V)) (regs : ι → V) : ι → V :=
  ms.foldl (fun regs m => m.run regs) regs

/-- The moves all at once. -/
def parallel (ms : List (RegMove ι V)) (regs : ι → V) (r : ι) : V :=
  match ms.find? (·.dst = r) with
  | some m => m.op (regs m.src)
  | none => regs r

/-- Moves with one target are one move. -/
def Functional (ms : List (RegMove ι V)) : Prop := ∀ m ∈ ms, ∀ m' ∈ ms, m'.dst = m.dst → m' = m

/-- No move reads what another one writes. -/
def Independent (ms : List (RegMove ι V)) : Prop := ∀ m ∈ ms, ∀ m' ∈ ms, m.dst ≠ m'.src

@[simp] lemma runAll_nil (regs : ι → V) : runAll [] regs = regs := rfl

@[simp] lemma runAll_cons (m : RegMove ι V) (ms : List (RegMove ι V)) (regs : ι → V) :
    runAll (m :: ms) regs = runAll ms (m.run regs) := rfl

lemma run_self (m : RegMove ι V) (regs : ι → V) : m.run regs m.dst = m.op (regs m.src) := by
  simp [run]

lemma run_of_ne {m : RegMove ι V} {r : ι} (h : r ≠ m.dst) (regs : ι → V) : m.run regs r = regs r := by
  simp [run, h]

lemma parallel_of_notMem {ms : List (RegMove ι V)} {r : ι} (h : ∀ m ∈ ms, m.dst ≠ r) (regs : ι → V) :
    parallel ms regs r = regs r := by
  have hnone : ms.find? (·.dst = r) = none := by
    simp only [List.find?_eq_none, decide_eq_true_eq]
    exact h
  simp [parallel, hnone]

lemma parallel_of_mem {ms : List (RegMove ι V)} (hfun : Functional ms) {m : RegMove ι V}
    (hm : m ∈ ms) (regs : ι → V) : parallel ms regs m.dst = m.op (regs m.src) := by
  cases hfind : ms.find? (·.dst = m.dst) with
  | none =>
    have := List.find?_eq_none.1 hfind m hm
    simp at this
  | some m' =>
    have hdst := List.find?_some hfind
    obtain rfl := hfun m hm m' (List.mem_of_find?_eq_some hfind) (by simpa using hdst)
    simp [parallel, hfind]

lemma runAll_of_notMem {ms : List (RegMove ι V)} {r : ι} (h : ∀ m ∈ ms, m.dst ≠ r) (regs : ι → V) :
    runAll ms regs r = regs r := by
  induction ms generalizing regs with
  | nil => rfl
  | cons m ms ih =>
    rw [runAll_cons, ih (fun m' hm' => h m' (List.mem_cons_of_mem _ hm'))]
    exact run_of_ne (h m List.mem_cons_self).symm regs

lemma runAll_of_mem {ms : List (RegMove ι V)} (hfun : Functional ms) (hind : Independent ms)
    {m : RegMove ι V} (hm : m ∈ ms) (regs : ι → V) :
    runAll ms regs m.dst = m.op (regs m.src) := by
  induction ms generalizing regs with
  | nil => simp at hm
  | cons m' ms ih =>
    have hfun' : Functional ms := by
      intro a ha b hb
      exact hfun a (List.mem_cons_of_mem _ ha) b (List.mem_cons_of_mem _ hb)
    have hind' : Independent ms := by
      intro a ha b hb
      exact hind a (List.mem_cons_of_mem _ ha) b (List.mem_cons_of_mem _ hb)
    rw [runAll_cons]
    by_cases hmem : m ∈ ms
    · rw [ih hfun' hind' hmem, run_of_ne]
      exact (hind m' List.mem_cons_self m hm).symm
    · obtain rfl : m = m' := by simpa [hmem] using hm
      have hother : ∀ a ∈ ms, a.dst ≠ m.dst := by
        intro a ha he
        exact hmem (hfun m hm a (List.mem_cons_of_mem _ ha) he ▸ ha)
      rw [runAll_of_notMem hother, run_self]

theorem runAll_eq_parallel {ms : List (RegMove ι V)} (hfun : Functional ms)
    (hind : Independent ms) (regs : ι → V) : runAll ms regs = parallel ms regs := by
  funext r
  by_cases h : ∃ m ∈ ms, m.dst = r
  · obtain ⟨m, hm, rfl⟩ := h
    rw [runAll_of_mem hfun hind hm, parallel_of_mem hfun hm]
  · push Not at h
    rw [runAll_of_notMem h, parallel_of_notMem h]

end RegMove
