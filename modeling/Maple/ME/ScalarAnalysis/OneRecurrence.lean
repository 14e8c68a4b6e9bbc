import Maple.ME.ScalarAnalysis.AddNode

/-!
# Operands with at most one recurrence

No two recurrences are added for them, so that `GetCRAddNode` always returns their sum.
-/

namespace Maple
namespace CRNode

variable {Var : Type} (S : TypeSort Var)

mutual

/-- The number of recurrences in a node. -/
def crCount : CRNode Var → Nat
  | const _ => 0
  | var _ => 0
  | add opnds => crCounts opnds
  | mul opnds => crCounts opnds
  | div lhs rhs => crCount lhs + crCount rhs
  | cr opnds => 1 + crCounts opnds

def crCounts : List (CRNode Var) → Nat
  | [] => 0
  | n :: ns => crCount n + crCounts ns

end

mutual

/-- Sums, products and recurrences have operands, and quotients are taken by a constant other than
zero. -/
def wellFormed : CRNode Var → Bool
  | const _ => true
  | var _ => true
  | add opnds => !opnds.isEmpty && allWellFormed opnds
  | mul opnds => !opnds.isEmpty && allWellFormed opnds
  | div lhs (const d) => d != 0 && wellFormed lhs
  | div _ _ => false
  | cr opnds => !opnds.isEmpty && allWellFormed opnds

def allWellFormed : List (CRNode Var) → Bool
  | [] => true
  | n :: ns => wellFormed n && allWellFormed ns

end

lemma crCounts_eq_sum (ns : List (CRNode Var)) : crCounts ns = (ns.map crCount).sum := by
  induction ns with
  | nil => rw [crCounts, List.map_nil, List.sum_nil]
  | cons n ns ih => rw [crCounts, ih, List.map_cons, List.sum_cons]

lemma allWellFormed_iff (ns : List (CRNode Var)) :
    allWellFormed ns ↔ ∀ n ∈ ns, n.wellFormed := by
  induction ns with
  | nil => simp [allWellFormed]
  | cons n ns ih => simp [allWellFormed, ih]

@[simp] lemma crCounts_nil : crCounts ([] : List (CRNode Var)) = 0 := by simp [crCounts_eq_sum]

@[simp] lemma crCounts_cons (n : CRNode Var) (ns : List (CRNode Var)) :
    crCounts (n :: ns) = crCount n + crCounts ns := by simp [crCounts_eq_sum]

@[simp] lemma crCounts_append (ns ms : List (CRNode Var)) :
    crCounts (ns ++ ms) = crCounts ns + crCounts ms := by simp [crCounts_eq_sum]

/-- Well-formed operands with at most one recurrence. -/
structure Admissible (ns : List (CRNode Var)) : Prop where
  ne_nil : ns ≠ []
  wellFormed : ∀ n ∈ ns, n.wellFormed
  crCounts_le : crCounts ns ≤ 1

/-- The node is well formed and has no more recurrences than the operands. -/
structure AdmissibleResult (ns : List (CRNode Var)) (n : CRNode Var) : Prop where
  wellFormed : n.wellFormed
  crCount_le : crCount n ≤ crCounts ns

lemma wellFormed_add_iff {ns : List (CRNode Var)} :
    (add ns).wellFormed ↔ ns ≠ [] ∧ ∀ n ∈ ns, n.wellFormed := by
  rw [wellFormed, Bool.and_eq_true, allWellFormed_iff]
  simp

lemma wellFormed_mul_iff {ns : List (CRNode Var)} :
    (mul ns).wellFormed ↔ ns ≠ [] ∧ ∀ n ∈ ns, n.wellFormed := by
  rw [wellFormed, Bool.and_eq_true, allWellFormed_iff]
  simp

lemma wellFormed_cr_iff {ns : List (CRNode Var)} :
    (cr ns).wellFormed ↔ ns ≠ [] ∧ ∀ n ∈ ns, n.wellFormed := by
  rw [wellFormed, Bool.and_eq_true, allWellFormed_iff]
  simp

lemma Merges.crCounts_le {op : Int → Int → Int} {unit : Int} {ns ms : List (CRNode Var)}
    (h : Merges op unit ns ms) : crCounts ms ≤ crCounts ns := by
  rw [crCounts_eq_sum, crCounts_eq_sum]
  exact h.sum_map_le fun c => by rw [crCount]

lemma Merges.wellFormed {op : Int → Int → Int} {unit : Int} {ns ms : List (CRNode Var)}
    (h : Merges op unit ns ms) (hns : ∀ n ∈ ns, n.wellFormed) : ∀ n ∈ ms, n.wellFormed :=
  h.forall_mem (fun c => by rw [CRNode.wellFormed]) hns

lemma unfoldParts_admissible {part : CRNode Var → Option (List (CRNode Var))}
    (hpart : ∀ n opnds, part n = some opnds → n.wellFormed →
      opnds ≠ [] ∧ (∀ m ∈ opnds, m.wellFormed) ∧ crCounts opnds = crCount n)
    {fuel : Nat} {ns : List (CRNode Var)} (hne : ns ≠ []) (hns : ∀ n ∈ ns, n.wellFormed) :
    unfoldParts part fuel ns ≠ .assertionFailed ∧
    ∀ ms, unfoldParts part fuel ns = .done ms →
      ms ≠ [] ∧ (∀ m ∈ ms, m.wellFormed) ∧ crCounts ms = crCounts ns := by
  fun_induction unfoldParts part fuel ns with
  | case1 => simp
  | case2 => exact absurd rfl hne
  | case3 fuel n ns opnds hn ih =>
    obtain ⟨hopnds, hwf, hcount⟩ := hpart n opnds hn (hns n List.mem_cons_self)
    have hall : ∀ m ∈ ns ++ opnds, m.wellFormed := by
      intro m hm
      rcases List.mem_append.mp hm with hm | hm
      · exact hns m (List.mem_cons_of_mem n hm)
      · exact hwf m hm
    obtain ⟨hfail, hdone⟩ := ih (by simp [hopnds]) hall
    refine ⟨hfail, ?_⟩
    intro ms hms
    obtain ⟨h1, h2, h3⟩ := hdone ms hms
    refine ⟨h1, h2, ?_⟩
    rw [h3, crCounts_append, crCounts_cons]
    omega
  | case4 fuel n ns hn =>
    refine ⟨by simp, ?_⟩
    rintro ms ⟨⟩
    exact ⟨by simp, hns, rfl⟩

lemma addOpnds_admissible (n : CRNode Var) (opnds : List (CRNode Var)) (h : addOpnds n = some opnds)
    (hn : n.wellFormed) :
    opnds ≠ [] ∧ (∀ m ∈ opnds, m.wellFormed) ∧ crCounts opnds = crCount n := by
  rw [addOpnds_eq_some_iff.mp h, wellFormed_add_iff] at hn
  exact ⟨hn.1, hn.2, by rw [addOpnds_eq_some_iff.mp h, crCount]⟩

lemma isCR_eq_false_of_crCount {n : CRNode Var} (h : crCount n = 0) : n.isCR = false := by
  cases n <;> simp [isCR]
  rw [crCount] at h
  omega

lemma mergeRecurrences_of_crCounts {check : Bool}
    {getAdd : List (CRNode Var) → Outcome (CRNode Var)} {lhs after : List (CRNode Var)}
    (h : crCounts after = 0) :
    mergeRecurrences check getAdd lhs after =
      .done (if after = [] then cr lhs else add (cr lhs :: after)) := by
  cases after with
  | nil => rfl
  | cons m after =>
    rw [crCounts_cons] at h
    have hm := isCR_eq_false_of_crCount (show crCount m = 0 by omega)
    cases m <;> first | rfl | cases hm

lemma value_cr_start {front coeffs : List (CRNode Var)} {c start : CRNode Var} {env : Var → Int}
    {i : Nat} (h : value env i start = sumOf env i (front ++ [c])) :
    value env i (cr (start :: coeffs)) = sumOf env i front + value env i (cr (c :: coeffs)) := by
  rw [value_cr, value_cr, List.map_cons, List.map_cons, newtonSeries_cons, newtonSeries_cons, h,
    sumOf_append, sumOf_cons, sumOf_nil]
  ring

lemma mergeRecurrences_admissible {check : Bool}
    {getAdd : List (CRNode Var) → Outcome (CRNode Var)} {lhs after : List (CRNode Var)}
    (hlhs : (cr lhs).wellFormed) (hafter : ∀ m ∈ after, m.wellFormed) (hcount : crCounts after = 0) :
    ∃ n, mergeRecurrences check getAdd lhs after = .done n ∧ n.wellFormed ∧
      crCount n = crCount (cr lhs) ∧
      ∀ env i, value env i n = value env i (cr lhs) + sumOf env i after := by
  refine ⟨_, mergeRecurrences_of_crCounts hcount, ?_⟩
  split_ifs with hnil
  · subst hnil
    exact ⟨hlhs, rfl, by simp⟩
  · refine ⟨?_, ?_, by simp⟩
    · rw [wellFormed_add_iff]
      refine ⟨by simp, ?_⟩
      intro m hm
      rcases List.mem_cons.mp hm with rfl | hm
      · exact hlhs
      · exact hafter m hm
    · rw [crCount, crCounts_cons, hcount, add_zero]

section Returns

variable {env : Var → Int} {i : Nat}

/-- A call that stops with no failed assertion and returns a node with the value `op` of its
operands. -/
def Returns (env : Var → Int) (i : Nat) (op : (Var → Int) → Nat → List (CRNode Var) → Int)
    (ns : List (CRNode Var)) (o : Outcome (CRNode Var)) : Prop :=
  o ≠ .assertionFailed ∧ ∀ n, o = .done n → AdmissibleResult ns n ∧ value env i n = op env i ns

lemma returns_done {op : (Var → Int) → Nat → List (CRNode Var) → Int} {ns : List (CRNode Var)}
    {n : CRNode Var} (h : AdmissibleResult ns n) (hvalue : value env i n = op env i ns) :
    Returns env i op ns (.done n) := by
  refine ⟨by simp, ?_⟩
  rintro _ ⟨⟩
  exact ⟨h, hvalue⟩

lemma returns_outOfFuel (op : (Var → Int) → Nat → List (CRNode Var) → Int)
    (ns : List (CRNode Var)) : Returns env i op ns .outOfFuel :=
  ⟨by simp, by simp⟩

lemma Returns.bind {op op' : (Var → Int) → Nat → List (CRNode Var) → Int}
    {ns ms : List (CRNode Var)} {o : Outcome (CRNode Var)} {f : CRNode Var → Outcome (CRNode Var)}
    (h : Returns env i op ms o)
    (hf : ∀ n, o = .done n → AdmissibleResult ms n → value env i n = op env i ms →
      Returns env i op' ns (f n)) : Returns env i op' ns (o.bind f) := by
  cases o with
  | assertionFailed => exact absurd rfl h.1
  | outOfFuel => exact returns_outOfFuel op' ns
  | done n =>
    obtain ⟨hresult, hvalue⟩ := h.2 n rfl
    exact hf n rfl hresult hvalue

lemma Returns.of_eq {op op' : (Var → Int) → Nat → List (CRNode Var) → Int}
    {ns ms : List (CRNode Var)} {o : Outcome (CRNode Var)} (h : Returns env i op ms o)
    (hcount : crCounts ms ≤ crCounts ns) (hop : op env i ms = op' env i ns) :
    Returns env i op' ns o := by
  refine ⟨h.1, ?_⟩
  intro n hn
  obtain ⟨hresult, hvalue⟩ := h.2 n hn
  exact ⟨⟨hresult.wellFormed, hresult.crCount_le.trans hcount⟩, hvalue.trans hop⟩

end Returns

section AddAdmissible

variable {env : Var → Int} {i : Nat}
variable {check : Bool} {fuel : Nat} {m : CRNode Var} {ms : List (CRNode Var)}
variable (h : Admissible (m :: ms))

include h

lemma getCRAddNode_admissible_ret {r : CRNode Var} (hr : addStep S (m :: ms) = .ret r) :
    Returns env i sumOf (m :: ms) (getCRAddNode S check (fuel + 1) (m :: ms)) := by
  have hstep := addStep_correct S (List.cons_ne_nil m ms)
  rw [hr] at hstep
  have hvalue := value_of_ret hstep
  obtain ⟨ls, hmerge, hls⟩ := hstep
  have hwf := hmerge.wellFormed h.wellFormed
  have hcount := hmerge.crCounts_le
  simp only [getCRAddNode, hr]
  refine returns_done ?_ (hvalue env i)
  rcases hls with rfl | ⟨hne, rfl⟩
  · exact ⟨hwf r (by simp), by simpa using hcount⟩
  · exact ⟨wellFormed_add_iff.mpr ⟨hne, hwf⟩, by rw [crCount]; exact hcount⟩

lemma getCRAddNode_admissible_sums {front sums : List (CRNode Var)}
    (ih : ∀ ns, Admissible ns → Returns env i sumOf ns (getCRAddNode S check fuel ns))
    (hr : addStep S (m :: ms) = .sums front sums) :
    Returns env i sumOf (m :: ms) (getCRAddNode S check (fuel + 1) (m :: ms)) := by
  have hstep := addStep_correct S (List.cons_ne_nil m ms)
  rw [hr] at hstep
  obtain ⟨hmerge, opnds, sums', rfl⟩ := hstep
  have hwf := hmerge.wellFormed h.wellFormed
  have hcount := hmerge.crCounts_le
  have hone := h.crCounts_le
  rw [crCounts_append] at hcount
  obtain ⟨hfail, hdone⟩ := unfoldParts_admissible addOpnds_admissible
    (List.cons_ne_nil (add opnds) sums') (fun n hn => hwf n (by simp [hn]))
  simp only [getCRAddNode, hr]
  cases hl : unfoldParts addOpnds fuel (add opnds :: sums') with
  | outOfFuel => exact returns_outOfFuel _ _
  | assertionFailed => exact absurd hl hfail
  | done l =>
    obtain ⟨hne, hlwf, hlcount⟩ := hdone l hl
    have hadm : Admissible (front ++ l) := by
      refine ⟨by simp [hne], ?_, ?_⟩
      · intro n hn
        rcases List.mem_append.mp hn with hn | hn
        · exact hwf n (by simp [hn])
        · exact hlwf n hn
      · rw [crCounts_append]
        omega
    refine (ih _ hadm).of_eq ?_ ?_
    · rw [crCounts_append]
      omega
    · rw [sumOf_append, sumOf_unfoldParts hl, ← sumOf_append, hmerge.sumOf_eq]

lemma getCRAddNode_admissible_recurrence {front coeffs after : List (CRNode Var)}
    (ih : ∀ ns, Admissible ns → Returns env i sumOf ns (getCRAddNode S check fuel ns))
    (hr : addStep S (m :: ms) = .recurrence front coeffs after) :
    Returns env i sumOf (m :: ms) (getCRAddNode S check (fuel + 1) (m :: ms)) := by
  have hmerge := addStep_correct S (List.cons_ne_nil m ms)
  rw [hr] at hmerge
  have hwf := hmerge.wellFormed h.wellFormed
  have hcount := hmerge.crCounts_le
  have hone := h.crCounts_le
  rw [crCounts_append, crCounts_cons, crCount] at hcount
  have hcr := hwf (cr coeffs) (by simp)
  have hafter : ∀ m ∈ after, m.wellFormed := fun m hm => hwf m (by simp [hm])
  have hsum :
      sumOf env i front + value env i (cr coeffs) + sumOf env i after = sumOf env i (m :: ms) := by
    rw [← hmerge.sumOf_eq env i, sumOf_append, sumOf_cons, add_assoc]
  have hmergeRest {lhs : List (CRNode Var)} (hlhs : (cr lhs).wellFormed)
      (hlhsCount : crCount (cr lhs) ≤ crCounts (m :: ms))
      (hvalue : value env i (cr lhs) = sumOf env i front + value env i (cr coeffs)) :
      Returns env i sumOf (m :: ms)
        (mergeRecurrences check (getCRAddNode S check fuel) lhs after) := by
    obtain ⟨n, hn, hnwf, hncount, hnvalue⟩ :=
      mergeRecurrences_admissible hlhs hafter (show crCounts after = 0 by omega)
    rw [hn]
    refine returns_done ⟨hnwf, hncount ▸ hlhsCount⟩ ?_
    rw [hnvalue, hvalue, hsum]
  cases front with
  | nil =>
    simp only [getCRAddNode, hr]
    refine hmergeRest hcr ?_ (by simp)
    rw [crCount]
    omega
  | cons f front =>
    cases coeffs with
    | nil => exact absurd rfl (wellFormed_cr_iff.mp hcr).1
    | cons c coeffs =>
      have hcrs := (wellFormed_cr_iff.mp hcr).2
      simp only [crCounts_cons] at hcount hone
      have hadm : Admissible (f :: front ++ [c]) := by
        refine ⟨by simp, ?_, ?_⟩
        · intro n hn
          rcases List.mem_append.mp hn with hn | hn
          · exact hwf n (List.mem_append_left _ hn)
          · exact hcrs n (by simp_all)
        · simp only [crCounts_append, crCounts_cons, crCounts_nil]
          omega
      simp only [getCRAddNode, hr]
      refine (ih _ hadm).bind fun start _ hresult hvalue => ?_
      have hstart : (cr (start :: coeffs)).wellFormed := by
        rw [wellFormed_cr_iff]
        refine ⟨by simp, ?_⟩
        intro n hn
        rcases List.mem_cons.mp hn with rfl | hn
        · exact hresult.wellFormed
        · exact hcrs n (List.mem_cons_of_mem c hn)
      have hstartCount : crCount (cr (start :: coeffs)) ≤ crCounts (m :: ms) := by
        have := hresult.crCount_le
        simp only [crCounts_append, crCounts_cons, crCounts_nil] at this
        rw [crCount, crCounts_cons, crCounts_cons]
        omega
      have hreturns := hmergeRest hstart hstartCount (value_cr_start hvalue)
      cases after with
      | nil => exact hreturns
      | cons a after => exact hreturns

end AddAdmissible

lemma getCRAddNode_admissible (env : Var → Int) (i : Nat) (check : Bool) (fuel : Nat)
    {ns : List (CRNode Var)}
    (h : Admissible ns) : Returns env i sumOf ns (getCRAddNode S check fuel ns) := by
  induction fuel generalizing ns with
  | zero => exact returns_outOfFuel _ _
  | succ fuel ih =>
    cases ns with
    | nil => exact absurd rfl h.ne_nil
    | cons m ms =>
      cases hr : addStep S (m :: ms) with
      | ret r => exact getCRAddNode_admissible_ret S h hr
      | sums front sums => exact getCRAddNode_admissible_sums S h (fun _ => ih) hr
      | recurrence front coeffs after =>
        exact getCRAddNode_admissible_recurrence S h (fun _ => ih) hr

end CRNode
end Maple
