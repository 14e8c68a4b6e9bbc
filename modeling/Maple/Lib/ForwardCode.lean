import Mathlib.Data.List.Basic

/-!
# Straight-line code with forward jumps

Code is a list of instructions over a state type `σ` and a label type `L`. A jump continues
behind the next occurrence of its label; a jump to a label that does not occur any more leaves
the code.
-/

namespace ForwardCode

variable {σ L : Type*} [DecidableEq L]

inductive Instr (σ L : Type*) where
  | skip
  | goto (l : L)
  | branch (p : σ → Bool) (l : L)
  | select (t : σ → Option L)
  | label (l : L)

/-- How the execution of a piece of code ends: at its end, by a jump out of it, or in a
multiway jump that selects no label. -/
inductive Outcome (L : Type*) where
  | fall
  | leave (l : L)
  | stuck
  deriving DecidableEq, Repr

/-- Run the code; a first argument `some l` means that a jump to `l` is under way. -/
def run (s : σ) : Option L → List (Instr σ L) → Outcome L
  | none, [] => .fall
  | some l, [] => .leave l
  | some l, .label l' :: c => if l' = l then run s none c else run s (some l) c
  | some l, _ :: c => run s (some l) c
  | none, .skip :: c => run s none c
  | none, .label _ :: c => run s none c
  | none, .goto l :: c => run s (some l) c
  | none, .branch p l :: c => if p s then run s (some l) c else run s none c
  | none, .select t :: c =>
    match t s with
    | some l => run s (some l) c
    | none => .stuck

def exec (s : σ) (c : List (Instr σ L)) : Outcome L := run s none c

/-- Where the execution of `a ++ b` goes on once `a` has ended. -/
def Outcome.andThen (o : Outcome L) (s : σ) (b : List (Instr σ L)) : Outcome L :=
  match o with
  | .fall => run s none b
  | .leave l => run s (some l) b
  | .stuck => .stuck

@[simp] lemma Outcome.andThen_fall (s : σ) (b : List (Instr σ L)) :
    Outcome.fall.andThen s b = run s none b := rfl

@[simp] lemma Outcome.andThen_leave (s : σ) (b : List (Instr σ L)) (l : L) :
    (Outcome.leave l).andThen s b = run s (some l) b := rfl

@[simp] lemma Outcome.andThen_stuck (s : σ) (b : List (Instr σ L)) :
    Outcome.stuck.andThen s b = .stuck := rfl

lemma run_append (s : σ) (m : Option L) (a b : List (Instr σ L)) :
    run s m (a ++ b) = (run s m a).andThen s b := by
  induction a generalizing m with
  | nil => cases m <;> rfl
  | cons i a ih =>
    cases m with
    | none =>
      cases i with
      | skip => exact ih none
      | label l => exact ih none
      | goto l => exact ih (some l)
      | branch p l =>
        simp only [List.cons_append, run]
        split_ifs
        · exact ih (some l)
        · exact ih none
      | select t =>
        simp only [List.cons_append, run]
        cases t s with
        | none => rfl
        | some l => exact ih (some l)
    | some l =>
      cases i with
      | label l' =>
        simp only [List.cons_append, run]
        split_ifs
        · exact ih none
        · exact ih (some l)
      | skip => exact ih (some l)
      | goto _ => exact ih (some l)
      | branch _ _ => exact ih (some l)
      | select _ => exact ih (some l)

lemma exec_append (s : σ) (a b : List (Instr σ L)) :
    exec s (a ++ b) = (exec s a).andThen s b :=
  run_append s none a b

/-- The labels placed in a piece of code. -/
def labels : List (Instr σ L) → List L
  | [] => []
  | .label l :: c => l :: labels c
  | _ :: c => labels c

omit [DecidableEq L] in
@[simp] lemma labels_append (a b : List (Instr σ L)) : labels (a ++ b) = labels a ++ labels b := by
  induction a with
  | nil => rfl
  | cons i a ih => cases i <;> simp [labels, ih]

lemma run_some_of_not_mem (s : σ) {l : L} {c : List (Instr σ L)} (h : l ∉ labels c) :
    run s (some l) c = .leave l := by
  induction c with
  | nil => rfl
  | cons i c ih =>
    cases i with
    | label l' =>
      simp only [labels, List.mem_cons, not_or] at h
      simp only [run, if_neg (Ne.symm h.1)]
      exact ih h.2
    | skip => exact ih h
    | goto _ => exact ih h
    | branch _ _ => exact ih h
    | select _ => exact ih h

lemma exec_append_of_leave {s : σ} {a b : List (Instr σ L)} {l : L}
    (ha : exec s a = .leave l) (hb : l ∉ labels b) : exec s (a ++ b) = .leave l := by
  rw [exec_append, ha]
  exact run_some_of_not_mem s hb

lemma exec_append_of_fall {s : σ} {a b : List (Instr σ L)} (ha : exec s a = .fall) :
    exec s (a ++ b) = exec s b := by
  rw [exec_append, ha]
  rfl

lemma exec_append_of_stuck {s : σ} {a b : List (Instr σ L)} (ha : exec s a = .stuck) :
    exec s (a ++ b) = .stuck := by
  rw [exec_append, ha]
  rfl

end ForwardCode
