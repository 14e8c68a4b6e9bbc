import Mathlib.Data.List.Basic
import Mathlib.Data.List.Count
import Mathlib.Logic.Relation
import Mathlib.Order.Bounds.Defs

/-!
# Unmarking along the uses of an element

A recursive search takes the mark of an element, and then of all marked elements that use it. What
it leaves from all marks is the greatest set that is closed under the elements that are used.
-/

namespace DepthFirst

variable {α : Type*}

/-! ### Greatest sets -/

/-- The greatest set without bad elements that has with an element all elements it uses: those that
depend on no bad element. -/
lemma isGreatest_closed (bad : α → Prop) (use : α → α → Prop) :
    IsGreatest {S : Set α | ∀ y ∈ S, ¬bad y ∧ ∀ x, use x y → x ∈ S}
      {y | ∀ b, bad b → ¬Relation.ReflTransGen use b y} := by
  constructor
  · intro y hy
    refine ⟨fun hbad => hy y hbad .refl, ?_⟩
    intro x hxy b hb hpath
    exact hy b hb (hpath.tail hxy)
  · intro S hS y hy b hb hpath
    induction hpath with
    | refl => exact (hS b hy).1 hb
    | tail _ hstep ih => exact ih ((hS _ hy).2 _ hstep)

/-! ### Marks that are taken -/

section Unmarks

/-- `after` has fewer marks than `before`, and no mark on what uses an element whose mark was
taken. -/
structure Unmarks (isUse : α → α → Bool) (before after : α → Bool) : Prop where
  le : ∀ x, after x = true → before x = true
  closed : ∀ x y, before x = true → after x = false → isUse x y = true → after y = false

/-- All marks that were taken are on elements that depend on one of `S`. -/
def TakenFrom (isUse : α → α → Bool) (S : α → Prop) (before after : α → Bool) : Prop :=
  ∀ y, before y = true → after y = false →
    ∃ x, S x ∧ Relation.ReflTransGen (fun x y => isUse x y = true) x y

variable {isUse : α → α → Bool} {m m₁ m₂ : α → Bool} {S : α → Prop}

lemma Unmarks.refl (isUse : α → α → Bool) (m : α → Bool) : Unmarks isUse m m where
  le _ h := h
  closed x _ hx hx' _ := absurd (hx.symm.trans hx') (by decide)

lemma Unmarks.eq_false (h : Unmarks isUse m m₁) {x : α} (hx : m x = false) : m₁ x = false := by
  by_contra hne
  rw [Bool.not_eq_false] at hne
  exact absurd ((h.le x hne).symm.trans hx) (by decide)

lemma Unmarks.trans (h : Unmarks isUse m m₁) (h' : Unmarks isUse m₁ m₂) : Unmarks isUse m m₂ where
  le x hx := h.le x (h'.le x hx)
  closed x y hx hx' huse := by
    cases hx₁ : m₁ x with
    | false => exact h'.eq_false (h.closed x y hx hx₁ huse)
    | true => exact h'.closed x y hx₁ hx' huse

lemma TakenFrom.refl (S : α → Prop) (m : α → Bool) : TakenFrom isUse S m m :=
  fun _ h h' => absurd (h.symm.trans h') (by decide)

lemma TakenFrom.trans (h : TakenFrom isUse S m m₁) (h' : TakenFrom isUse S m₁ m₂) :
    TakenFrom isUse S m m₂ := by
  intro y hy hy'
  cases hy₁ : m₁ y with
  | false => exact h y hy hy₁
  | true => exact h' y hy₁ hy'

lemma TakenFrom.mono {T : α → Prop} (hST : ∀ x, S x → T x) (h : TakenFrom isUse S m m₁) :
    TakenFrom isUse T m m₁ := by
  intro y hy hy'
  obtain ⟨x, hx, hpath⟩ := h y hy hy'
  exact ⟨x, hST x hx, hpath⟩

lemma foldlM_unmarks {step : (α → Bool) → α → Option (α → Bool)} {inv : (α → Bool) → Prop}
    {P : α → (α → Bool) → Prop} (l : List α)
    (hstep : ∀ m y, inv m → ∃ m', step m y = some m' ∧ Unmarks isUse m m' ∧
      TakenFrom isUse S m m' ∧ P y m')
    (hinv : ∀ m m', inv m → Unmarks isUse m m' → inv m')
    (hmono : ∀ y m m', P y m → Unmarks isUse m m' → P y m') (hm : inv m) :
    ∃ m', l.foldlM step m = some m' ∧ Unmarks isUse m m' ∧ TakenFrom isUse S m m' ∧
      ∀ y ∈ l, P y m' := by
  induction l generalizing m with
  | nil => exact ⟨m, rfl, .refl isUse m, .refl S m, by simp⟩
  | cons y l ih =>
    obtain ⟨m₁, hm₁, hun₁, hfrom₁, hP₁⟩ := hstep m y hm
    obtain ⟨m₂, hm₂, hun₂, hfrom₂, hP₂⟩ := ih (hinv m m₁ hm hun₁)
    refine ⟨m₂, ?_, hun₁.trans hun₂, hfrom₁.trans hfrom₂, ?_⟩
    · rw [List.foldlM_cons, hm₁]
      exact hm₂
    · intro y' hy'
      rcases List.mem_cons.mp hy' with rfl | hmem
      · exact hmono _ _ _ hP₁ hun₂
      · exact hP₂ y' hmem

end Unmarks

/-! ### The search -/

section Search

variable [DecidableEq α]

/-- Take the mark of `x` and of what uses it, in the order of the list of all elements. The result is
`none` if the fuel does not suffice. -/
def unmark (elems : List α) (isUse : α → α → Bool) : Nat → (α → Bool) → α → Option (α → Bool)
  | 0, marked, x => if marked x then none else some marked
  | fuel + 1, marked, x =>
    if !marked x then some marked
    else
      elems.foldlM (fun marked y =>
        if marked y && isUse x y then unmark elems isUse fuel marked y else some marked)
        (Function.update marked x false)

/-- Take the marks of all seeds. -/
def unmarkSeeds (elems : List α) (isUse : α → α → Bool) (isSeed : α → Bool) (marked : α → Bool) :
    Option (α → Bool) :=
  elems.foldlM (fun marked x =>
    if isSeed x then unmark elems isUse elems.length marked x else some marked) marked

variable {elems : List α} {isUse : α → α → Bool} {m : α → Bool}

omit [DecidableEq α] in
lemma Unmarks.countP_le {m' : α → Bool} (h : Unmarks isUse m m') :
    elems.countP m' ≤ elems.countP m :=
  List.countP_mono_left fun x _ => h.le x

omit [DecidableEq α] in
lemma countP_lt_countP {p q : α → Bool} (hle : ∀ y, p y = true → q y = true) {x : α}
    (hmem : x ∈ elems) (hx : q x = true) (hx' : p x = false) : elems.countP p < elems.countP q := by
  induction elems with
  | nil => cases hmem
  | cons y l ih =>
    have hmono : l.countP p ≤ l.countP q := List.countP_mono_left fun z _ => hle z
    rw [List.countP_cons, List.countP_cons]
    rcases List.mem_cons.mp hmem with rfl | hmem
    · rw [hx, hx', if_pos rfl, if_neg (by decide)]
      omega
    · have hlt := ih hmem
      have hy := hle y
      split_ifs with h₁ h₂
      · omega
      · exact absurd (hy h₁) h₂
      · omega
      · omega

lemma le_of_update {x : α} (hx : m x = true) (y : α) (hy : Function.update m x false y = true) :
    m y = true := by
  rcases eq_or_ne y x with rfl | hne
  · exact hx
  · rwa [Function.update_of_ne hne] at hy

lemma unmark_spec (isUse : α → α → Bool) (hall : ∀ x, x ∈ elems) {fuel : Nat}
    (hfuel : elems.countP m ≤ fuel) (x : α) :
    ∃ m', unmark elems isUse fuel m x = some m' ∧ Unmarks isUse m m' ∧
      TakenFrom isUse (· = x) m m' ∧ m' x = false := by
  induction fuel generalizing m x with
  | zero =>
    have hx : m x = false := by
      have hzero := List.countP_eq_zero.mp (Nat.le_zero.mp hfuel) x (hall x)
      rwa [Bool.not_eq_true] at hzero
    refine ⟨m, ?_, .refl isUse m, .refl _ m, hx⟩
    rw [unmark, hx]
    rfl
  | succ fuel ih =>
    cases hx : m x with
    | false =>
      refine ⟨m, ?_, .refl isUse m, .refl _ m, hx⟩
      rw [unmark, hx]
      rfl
    | true =>
      have hcount : elems.countP (Function.update m x false) ≤ fuel := by
        have hlt := countP_lt_countP (le_of_update hx) (hall x) hx (Function.update_self x false m)
        omega
      have hstep : ∀ m₁ y, elems.countP m₁ ≤ fuel → ∃ m₂,
          (if m₁ y && isUse x y then unmark elems isUse fuel m₁ y else some m₁) = some m₂ ∧
            Unmarks isUse m₁ m₂ ∧ TakenFrom isUse (fun z => isUse x z = true) m₁ m₂ ∧
            (isUse x y = true → m₂ y = false) := by
        intro m₁ y hm₁
        by_cases hvisit : (m₁ y && isUse x y) = true
        · obtain ⟨hy, huse⟩ := Bool.and_eq_true_iff.mp hvisit
          obtain ⟨m₂, hm₂, hun, hfrom, hy'⟩ := ih hm₁ y
          refine ⟨m₂, by rw [if_pos hvisit, hm₂], hun, hfrom.mono ?_, fun _ => hy'⟩
          rintro z rfl
          exact huse
        · refine ⟨m₁, by rw [if_neg hvisit], .refl isUse m₁, .refl _ m₁, ?_⟩
          intro huse
          simpa [huse] using hvisit
      obtain ⟨m₂, hm₂, hun, hfrom, huses⟩ := foldlM_unmarks elems hstep
        (fun m₁ m₂ hm₁ hun => Nat.le_trans hun.countP_le hm₁)
        (fun y m₁ m₂ hP hun huse => hun.eq_false (hP huse)) hcount
      have hx' : m₂ x = false := hun.eq_false (Function.update_self ..)
      refine ⟨m₂, ?_, ⟨?_, ?_⟩, ?_, hx'⟩
      · rw [unmark, hx]
        exact hm₂
      · intro y hy
        exact le_of_update hx y (hun.le y hy)
      · intro y z hy hy' huse
        rcases eq_or_ne y x with rfl | hne
        · exact huses z (hall z) huse
        · exact hun.closed y z (by rwa [Function.update_of_ne hne]) hy' huse
      · intro y hy hy'
        rcases eq_or_ne y x with rfl | hne
        · exact ⟨y, rfl, .refl⟩
        · obtain ⟨z, hz, hpath⟩ := hfrom y (by rwa [Function.update_of_ne hne]) hy'
          exact ⟨x, rfl, .head hz hpath⟩

lemma unmarkSeeds_spec (isUse : α → α → Bool) (hall : ∀ x, x ∈ elems) (isSeed : α → Bool) :
    ∃ m', unmarkSeeds elems isUse isSeed (fun _ => true) = some m' ∧
      ∀ y, m' y = true ↔ ∀ b, isSeed b = true →
        ¬Relation.ReflTransGen (fun x y => isUse x y = true) b y := by
  have hstep : ∀ m₁ y, True → ∃ m₂,
      (if isSeed y then unmark elems isUse elems.length m₁ y else some m₁) = some m₂ ∧
        Unmarks isUse m₁ m₂ ∧ TakenFrom isUse (fun z => isSeed z = true) m₁ m₂ ∧
        (isSeed y = true → m₂ y = false) := by
    intro m₁ y _
    by_cases hseed : isSeed y = true
    · obtain ⟨m₂, hm₂, hun, hfrom, hy⟩ :=
        unmark_spec isUse hall (m := m₁) List.countP_le_length y
      refine ⟨m₂, by rw [if_pos hseed, hm₂], hun, hfrom.mono ?_, fun _ => hy⟩
      rintro z rfl
      exact hseed
    · exact ⟨m₁, by rw [if_neg hseed], .refl isUse m₁, .refl _ m₁, fun h => absurd h hseed⟩
  obtain ⟨m', hm', hun, hfrom, hseeds⟩ := foldlM_unmarks (m := fun _ => true) elems hstep
    (fun _ _ _ _ => trivial) (fun y m₁ m₂ hP hun hseed => hun.eq_false (hP hseed)) trivial
  refine ⟨m', hm', ?_⟩
  intro y
  constructor
  · intro hy b hb hpath
    have hfalse : ∀ {z}, Relation.ReflTransGen (fun x y => isUse x y = true) b z →
        m' z = false := by
      intro z hpath
      induction hpath with
      | refl => exact hseeds b (hall b) hb
      | tail _ huse ih => exact hun.closed _ _ rfl ih huse
    exact absurd (hy.symm.trans (hfalse hpath)) (by decide)
  · intro hno
    by_contra hy
    rw [Bool.not_eq_true] at hy
    obtain ⟨b, hb, hpath⟩ := hfrom y rfl hy
    exact hno b hb hpath

end Search

end DepthFirst
